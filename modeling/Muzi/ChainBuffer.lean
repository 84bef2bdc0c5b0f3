import Muzi.Storage
import Muzi.NodeList

/-!
The chained byte buffer of net/chain_buffer.h and net/chain_buffer.cc. Blocks
of `kBufferSize` bytes are nodes of a linked list; the two cursors are an
iterator and an offset each, and a drained block is spliced to the back of
the list while both iterators stay where they are. `none` is a failed assert,
a dereferenced end iterator or a copy outside a block. Every `while` loop
carries a turn bound; ChainOperations shows that it is never reached.
-/

namespace Muzi

open NodeList Storage

def ChainBuffer.kBufferSize : Nat := 4096

def ChainBuffer.maxVecSize : Nat := 16

def ChainBuffer.extraSpace : Nat := 65536

/-- `std::array<char, kBufferSize>`. -/
structure ChainBuffer.Block where
  bytes : List Byte
  size : bytes.length = kBufferSize

structure ChainBuffer where
  buffers : List (Node ChainBuffer.Block)
  readableBytes : Nat
  writeBuffer : Iterator
  readBuffer : Iterator
  writePos : Nat
  readPos : Nat
  /-- Address of the next node to be allocated. -/
  fresh : Nat

inductive IoResult where
  | error (errno : Nat)
  | count (n : Nat)
  deriving DecidableEq

inductive ReadResult where
  | error (errno : Nat)
  | bytes (data : List Byte)
  deriving DecidableEq

namespace ChainBuffer

def Block.zero : Block := ⟨List.replicate kBufferSize 0, by simp⟩

def Block.load (block : Block) (pos len : Nat) : Option (List Byte) :=
  if pos + len ≤ kBufferSize then some ((block.bytes.drop pos).take len) else none

def Block.store (pos : Nat) (data : List Byte) (block : Block) : Option Block :=
  if fits : pos + data.length ≤ kBufferSize then
    some ⟨overwrite block.bytes pos data, by
      rw [length_overwrite _ _ _ (by rw [block.size]; exact fits), block.size]⟩
  else none

def init : ChainBuffer where
  buffers := [⟨0, Block.zero⟩]
  readableBytes := 0
  writeBuffer := some 0
  readBuffer := some 0
  writePos := 0
  readPos := 0
  fresh := 1

/-- An `Int`, so that a wrong order of the cursors would show. -/
def slowReadableBytes (b : ChainBuffer) : Option Int :=
  (distance b.buffers b.readBuffer b.writeBuffer).map fun (blocks : Nat) =>
    (blocks : Int) * kBufferSize + b.writePos - b.readPos

def writableBytes (b : ChainBuffer) : Option Nat :=
  (distanceToEnd b.buffers b.writeBuffer).map fun blocks => blocks * kBufferSize - b.writePos

def retriveLoop : Nat → ChainBuffer → Nat → Option ChainBuffer
  | 0, b, len => if len = 0 then some b else none
  | turns + 1, b, len =>
      if len = 0 then some b else do
        let _ ← deref b.buffers b.readBuffer
        let m := kBufferSize - b.readPos
        if m > len then
          some { b with readPos := b.readPos + len }
        else
          let following ← next b.buffers b.readBuffer
          let spliced ← moveToBack b.buffers b.readBuffer
          let _ ← deref spliced following
          retriveLoop turns
            { b with buffers := spliced, readBuffer := following, readPos := 0 } (len - m)

def retrive (b : ChainBuffer) (len : Nat) : Option ChainBuffer :=
  if len ≤ b.readableBytes then
    retriveLoop (len + 1) { b with readableBytes := b.readableBytes - len } len
  else none

def retriveAll (b : ChainBuffer) : Option ChainBuffer := do
  let head := first b.buffers
  let _ ← deref b.buffers head
  some { b with
    readBuffer := head, writeBuffer := head, readPos := 0, writePos := 0, readableBytes := 0 }

def peekLoop (buffers : List (Node Block)) : Nat → Iterator → Nat → Nat → Option (List Byte)
  | 0, _, _, len => if len = 0 then some [] else none
  | turns + 1, peekBuffer, peekPos, len =>
      if len = 0 then some [] else do
        let block ← deref buffers peekBuffer
        let m := kBufferSize - peekPos
        if m > len then
          block.load peekPos len
        else
          let following ← next buffers peekBuffer
          let _ ← deref buffers following
          let chunk ← block.load peekPos m
          let rest ← peekLoop buffers turns following 0 (len - m)
          some (chunk ++ rest)

def peekAsString (b : ChainBuffer) (len : Nat) : Option (List Byte) :=
  if len ≤ b.readableBytes then peekLoop b.buffers (len + 1) b.readBuffer b.readPos len
  else none

def peekAllAsString (b : ChainBuffer) : Option (List Byte) := b.peekAsString b.readableBytes

def retriveAsString (b : ChainBuffer) (len : Nat) : Option (ChainBuffer × List Byte) := do
  let text ← b.peekAsString len
  let rest ← b.retrive len
  some (rest, text)

def retriveAllAsString (b : ChainBuffer) : Option (ChainBuffer × List Byte) := do
  let text ← b.peekAllAsString
  let rest ← b.retriveAll
  some (rest, text)

/-- `if (std::next(write_buffer_) == buffers_.end()) buffers_.emplace_back();`
followed by the step of the write cursor to the next block. -/
def advanceWrite (b : ChainBuffer) : Option ChainBuffer := do
  let following ← next b.buffers b.writeBuffer
  match following with
  | some id => some { b with writeBuffer := some id, writePos := 0 }
  | none => some { b with
      buffers := b.buffers ++ [⟨b.fresh, Block.zero⟩]
      writeBuffer := some b.fresh
      writePos := 0
      fresh := b.fresh + 1 }

def appendLoop : Nat → ChainBuffer → List Byte → Option ChainBuffer
  | 0, b, data => if data = [] then some b else none
  | turns + 1, b, data =>
      if data = [] then some b else do
        let _ ← deref b.buffers b.writeBuffer
        let m := kBufferSize - b.writePos
        if m > data.length then
          let stored ← update b.buffers b.writeBuffer (Block.store b.writePos data)
          some { b with buffers := stored, writePos := b.writePos + data.length }
        else
          -- The cursor moves first; the copy still goes to the block it left.
          let advanced ← b.advanceWrite
          let stored ← update advanced.buffers b.writeBuffer (Block.store b.writePos (data.take m))
          appendLoop turns { advanced with buffers := stored } (data.drop m)

def append (b : ChainBuffer) (data : List Byte) : Option ChainBuffer :=
  appendLoop (data.length + 1) { b with readableBytes := b.readableBytes + data.length } data

def appendBufferLoop (source : ChainBuffer) :
    Nat → ChainBuffer → Iterator → Nat → Option ChainBuffer
  | 0, _, _, _ => none
  | turns + 1, b, peekBuffer, peekPos => do
      let block ← deref source.buffers peekBuffer
      if peekBuffer = source.writeBuffer then
        let data ← block.load peekPos (source.writePos - peekPos)
        b.append data
      else
        let data ← block.load peekPos (kBufferSize - peekPos)
        let grown ← b.append data
        let following ← next source.buffers peekBuffer
        let _ ← deref source.buffers following
        appendBufferLoop source turns grown following 0

def appendBuffer (b source : ChainBuffer) : Option ChainBuffer :=
  appendBufferLoop source source.buffers.length b source.readBuffer source.readPos

def forward (buffers : List (Node Block)) : Nat → Iterator → Nat → Nat → Option (Iterator × Nat)
  | 0, it, pos, len => if len = 0 then some (it, pos) else none
  | turns + 1, it, pos, len =>
      if len = 0 then some (it, pos) else do
        let _ ← deref buffers it
        let n := kBufferSize - pos
        if n > len then
          some (it, pos + len)
        else
          let following ← next buffers it
          let _ ← deref buffers following
          forward buffers turns following 0 (len - n)

def hasWrite (b : ChainBuffer) (len : Nat) : Option ChainBuffer := do
  let writable ← b.writableBytes
  if len ≤ writable then
    let peek ← forward b.buffers (len + 1) b.writeBuffer b.writePos len
    some { b with
      writeBuffer := peek.1, writePos := peek.2, readableBytes := b.readableBytes + len }
  else none

def shrink (b : ChainBuffer) (reserve : Nat) : Option ChainBuffer := do
  let writable ← b.writableBytes
  if writable ≤ reserve then some b
  else
    let peek ← forward b.buffers (reserve + 1) b.writeBuffer b.writePos reserve
    let following ← next b.buffers peek.1
    let kept ← eraseFrom b.buffers following
    some { b with buffers := kept }

/-- A block is left also when its first byte is the last to take back; the cursor
then stands at the end of the block before. -/
def backWard (buffers : List (Node Block)) : Nat → Iterator → Nat → Nat → Option (Iterator × Nat)
  | 0, it, pos, len => if len = 0 then some (it, pos) else none
  | turns + 1, it, pos, len =>
      if len = 0 then some (it, pos) else do
        let _ ← deref buffers it
        if pos > len then
          some (it, pos - len)
        else
          let preceding ← prev buffers it
          let _ ← deref buffers preceding
          backWard buffers turns preceding kBufferSize (len - pos)

/-- The first turn may take back nothing, every later one takes back a byte. -/
def unWrite (b : ChainBuffer) (len : Nat) : Option ChainBuffer := do
  if len ≤ b.readableBytes then
    let peek ← backWard b.buffers (len + 2) b.writeBuffer b.writePos len
    some { b with
      writeBuffer := peek.1, writePos := peek.2, readableBytes := b.readableBytes - len }
  else none

/-- The iovecs of `WriteFd`: one per block from the read cursor on, the write
block last and cut at the write cursor, at most `room` of them. -/
def gather (b : ChainBuffer) : Nat → Iterator → Nat → Option (List (List Byte))
  | 0, _, _ => some []
  | room + 1, peekBuffer, peekPos => do
      let block ← deref b.buffers peekBuffer
      if peekBuffer = b.writeBuffer then
        let data ← block.load peekPos (b.writePos - peekPos)
        some [data]
      else
        let data ← block.load peekPos (kBufferSize - peekPos)
        let following ← next b.buffers peekBuffer
        let _ ← deref b.buffers following
        let rest ← gather b room following 0
        some (data :: rest)

/-- `WriteFd` with the kernel's answer to `writev`; the second component is
what the kernel took from the iovecs. A count above the bytes offered is no
answer of `writev`. -/
def writeFd (b : ChainBuffer) (result : IoResult) : Option (ChainBuffer × List Byte) := do
  let vec ← b.gather maxVecSize b.readBuffer b.readPos
  match result with
  | .error _ => some (b, [])
  | .count n =>
      if n ≤ vec.flatten.length then
        let rest ← b.retrive n
        some (rest, vec.flatten.take n)
      else none

structure IoVec where
  buffer : Iterator
  pos : Nat
  len : Nat
  deriving DecidableEq

/-- The iovecs of `ReadFd` from the write cursor on, at most `room` of them, and
the block behind them. The position behind the last block is not used. -/
def readVec (buffers : List (Node Block)) : Nat → Iterator → Nat → Option (List IoVec × Iterator)
  | 0, peekBuffer, _ => some ([], peekBuffer)
  | _ + 1, none, _ => some ([], none)
  | room + 1, some id, peekPos => do
      let following ← next buffers (some id)
      let rest ← readVec buffers room following 0
      some (⟨some id, peekPos, kBufferSize - peekPos⟩ :: rest.1, rest.2)

def vecLength : List IoVec → Nat
  | [] => 0
  | part :: rest => part.len + vecLength rest

def scatter : List (Node Block) → List IoVec → List Byte → Option (List (Node Block))
  | buffers, [], _ => some buffers
  | buffers, vec :: rest, data => do
      let filled ← update buffers vec.buffer (Block.store vec.pos (data.take vec.len))
      scatter filled rest (data.drop vec.len)

/-- The write cursor behind the iovecs, on a new block when there is none. -/
def passVec (b : ChainBuffer) (peekBuffer : Iterator) : ChainBuffer :=
  match peekBuffer with
  | some id => { b with writeBuffer := some id, writePos := 0 }
  | none => { b with
      buffers := b.buffers ++ [⟨b.fresh, Block.zero⟩]
      writeBuffer := some b.fresh
      writePos := 0
      fresh := b.fresh + 1 }

/-- `ReadFd` with the kernel's answer to `readv`. More bytes than the iovecs and
`extra_buf` hold are no answer of `readv`. -/
def readFd (b : ChainBuffer) (result : ReadResult) : Option ChainBuffer := do
  let (vec, peekBuffer) ← readVec b.buffers (maxVecSize - 1) b.writeBuffer b.writePos
  match result with
  | .error _ => some b
  | .bytes data =>
      let writable := vecLength vec
      if data.length ≤ writable + extraSpace then
        let filled ← scatter b.buffers vec (data.take writable)
        let read : ChainBuffer := { b with buffers := filled }
        if data.length ≥ writable then
          let passed := read.passVec peekBuffer
          { passed with readableBytes := b.readableBytes + writable }.append (data.drop writable)
        else read.hasWrite data.length
      else none

/-! The layout behind the two cursors: the blocks from the read block up to
the write block, the write block, and the spare blocks. -/

def stored (nodes : List (Node Block)) : List Byte := nodes.flatMap fun node => node.value.bytes

structure Layout (b : ChainBuffer) (front : List (Node Block)) (tail : Node Block)
    (spare : List (Node Block)) : Prop where
  shape : b.buffers = front ++ tail :: spare
  distinct : ((front ++ tail :: spare).map Node.id).Nodup
  allocated : ∀ node ∈ front ++ tail :: spare, node.id < b.fresh
  writeAt : b.writeBuffer = some tail.id
  readAt : b.readBuffer = first (front ++ [tail])
  writeInside : b.writePos < kBufferSize
  readInside : b.readPos < kBufferSize
  ordered : b.readPos ≤ front.length * kBufferSize + b.writePos

/-- The bytes from offset `start` of the first block of `front ++ [tail]` up
to offset `stop` of `tail`. -/
def stretch (front : List (Node Block)) (tail : Node Block) (stop start : Nat) : List Byte :=
  (stored front ++ tail.value.bytes.take stop).drop start

def span (b : ChainBuffer) (front : List (Node Block)) (tail : Node Block) : List Byte :=
  stretch front tail b.writePos b.readPos

/-- The buffer holds exactly these bytes, oldest first. -/
def Represents (b : ChainBuffer) (bytes : List Byte) : Prop :=
  ∃ front tail spare, Layout b front tail spare ∧ span b front tail = bytes ∧
    b.readableBytes = bytes.length

@[simp] theorem stored_nil : stored [] = [] := rfl

@[simp] theorem stored_cons (node : Node Block) (rest : List (Node Block)) :
    stored (node :: rest) = node.value.bytes ++ stored rest := rfl

@[simp] theorem stored_append (left right : List (Node Block)) :
    stored (left ++ right) = stored left ++ stored right := by
  simp [stored]

theorem stored_length (nodes : List (Node Block)) :
    (stored nodes).length = nodes.length * kBufferSize := by
  induction nodes with
  | nil => simp
  | cons node rest ih =>
      simp only [stored_cons, List.length_append, node.value.size, ih, List.length_cons]
      rw [Nat.add_mul, Nat.one_mul, Nat.add_comm]

theorem stretch_length (front : List (Node Block)) (tail : Node Block) (stop start : Nat)
    (inside : stop ≤ kBufferSize) :
    (stretch front tail stop start).length = front.length * kBufferSize + stop - start := by
  simp only [stretch, List.length_drop, List.length_append, stored_length, List.length_take,
    tail.value.size]
  omega

theorem stretch_cons (head : Node Block) (front : List (Node Block)) (tail : Node Block)
    (stop start : Nat) (inside : start ≤ kBufferSize) :
    stretch (head :: front) tail stop start =
      head.value.bytes.drop start ++ stretch front tail stop 0 := by
  have within : start ≤ head.value.bytes.length := by rw [head.value.size]; exact inside
  rw [stretch, stored_cons, List.append_assoc, List.drop_append_of_le_length within]
  rfl

theorem stretch_nil_take (tail : Node Block) (stop start len : Nat) (inside : len ≤ stop - start) :
    (stretch [] tail stop start).take len = (tail.value.bytes.drop start).take len := by
  rw [stretch, stored_nil, List.nil_append, List.drop_take, List.take_take, Nat.min_eq_left inside]

theorem span_length {b : ChainBuffer} {front spare : List (Node Block)} {tail : Node Block}
    (layout : Layout b front tail spare) :
    (span b front tail).length = front.length * kBufferSize + b.writePos - b.readPos :=
  stretch_length front tail b.writePos b.readPos (Nat.le_of_lt layout.writeInside)

theorem init_layout : Layout init [] ⟨0, Block.zero⟩ [] where
  shape := rfl
  distinct := by simp
  allocated := by simp [init]
  writeAt := rfl
  readAt := rfl
  writeInside := by decide
  readInside := by decide
  ordered := Nat.zero_le _

theorem init_represents : Represents init [] :=
  ⟨[], ⟨0, Block.zero⟩, [], init_layout, by simp [span, stretch, init], rfl⟩

theorem load_inside (block : Block) (pos len : Nat) (fits : pos + len ≤ kBufferSize) :
    block.load pos len = some ((block.bytes.drop pos).take len) := by
  simp [Block.load, fits]

theorem load_rest (block : Block) (pos : Nat) (inside : pos ≤ kBufferSize) :
    block.load pos (kBufferSize - pos) = some (block.bytes.drop pos) := by
  rw [load_inside block pos _ (by omega)]
  congr 1
  apply List.take_of_length_le
  have length : (block.bytes.drop pos).length = kBufferSize - pos := by
    rw [List.length_drop, block.size]
  exact Nat.le_of_eq length

theorem store_inside (block : Block) (pos : Nat) (data : List Byte)
    (fits : pos + data.length ≤ kBufferSize) :
    ∃ after, block.store pos data = some after ∧
      after.bytes.take (pos + data.length) = block.bytes.take pos ++ data := by
  have inside : pos ≤ block.bytes.length := by rw [block.size]; omega
  unfold Block.store
  rw [dif_pos fits]
  exact ⟨_, rfl, take_overwrite _ _ _ inside⟩

end ChainBuffer

end Muzi
