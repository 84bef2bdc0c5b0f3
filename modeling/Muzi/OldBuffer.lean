import Muzi.ChainBuffer
import Muzi.Pages

/-!
The legacy buffer of net/old_buffer.h and net/old_buffer.cc. Blocks stand in a
vector; an iterator is the place of its block in the vector and an offset, and
`ExtendSpace` makes both iterators anew. `none` is a failed assert, a place
outside the vector, or a signed overflow. `int` has 32 bits here; the sizes that
the source keeps in `size_t` and `ptrdiff_t` do not overflow.
-/

namespace Muzi

open Storage Pages

namespace OldBuffer

def kCheapPrepend : Nat := 8
def kBufferSize : Nat := 2048
def kExtraBufferSize : Nat := 1024 * 64

abbrev BufferBlock := Page kBufferSize

/-- `__BufferIterator`: `buffer_it_`, and `cur_ - first_`. -/
structure Iterator where
  block : Nat
  cur : Nat
  deriving DecidableEq

end OldBuffer

structure OldBuffer where
  bufferList : List OldBuffer.BufferBlock
  readIndex : OldBuffer.Iterator
  writeIndex : OldBuffer.Iterator

namespace OldBuffer

namespace Iterator

/-- `operator-` of two iterators. -/
def minus (lhs rhs : Iterator) : Int :=
  kBufferSize * ((lhs.block : Int) - rhs.block - 1) + lhs.cur + (kBufferSize - rhs.cur)

def ofBlock (blocks block : Nat) : Option Iterator :=
  if block < blocks then some ⟨block, 0⟩ else none

/-- The blocks that `operator+=` moves on, or back. -/
def bufferOffset (offset : Int) : Int :=
  if offset > 0 then offset / kBufferSize else -((-offset - 1) / kBufferSize) - 1

def advance (blocks : Nat) (it : Iterator) (n : Int) : Option Iterator :=
  let offset := n + it.cur
  if 0 ≤ offset ∧ offset < kBufferSize then some { it with cur := (it.cur + n).toNat }
  else
    let block := it.block + bufferOffset offset
    if 0 ≤ block ∧ block < blocks then
      some ⟨block.toNat, (offset - bufferOffset offset * kBufferSize).toNat⟩
    else none

def increment (blocks : Nat) (it : Iterator) : Option Iterator :=
  if it.cur + 1 = kBufferSize then ofBlock blocks (it.block + 1)
  else some { it with cur := it.cur + 1 }

/-- `operator--`: the source has no branch for an iterator inside its block. -/
def decrement (blocks : Nat) (it : Iterator) : Option Iterator :=
  if it.cur = 0 then
    if 0 < it.block then
      (ofBlock blocks (it.block - 1)).map fun first => { first with cur := kBufferSize - 1 }
    else none
  else some it

def less (lhs rhs : Iterator) : Bool :=
  if lhs.block = rhs.block then lhs.cur < rhs.cur else lhs.block < rhs.block

def atMost (lhs rhs : Iterator) : Bool :=
  if lhs.block = rhs.block then lhs.cur ≤ rhs.cur else lhs.block < rhs.block

end Iterator

def copyTo : List BufferBlock → Iterator → List Byte → Option (List BufferBlock)
  | blocks, _, [] => some blocks
  | blocks, it, byte :: rest => do
      let stored ← storeAt blocks it.block it.cur [byte]
      let following ← it.increment blocks.length
      copyTo stored following rest

def copyFrom (blocks : List BufferBlock) : Nat → Iterator → Option (List Byte)
  | 0, _ => some []
  | count + 1, it => do
      let byte ← loadAt blocks it.block it.cur 1
      let following ← it.increment blocks.length
      let rest ← copyFrom blocks count following
      some (byte ++ rest)

def readableBytes (b : OldBuffer) : Nat := (b.writeIndex.minus b.readIndex).toNat

/-- One position at the end is kept. -/
def writableBytes (b : OldBuffer) : Nat :=
  (max ((Iterator.mk b.bufferList.length 0).minus b.writeIndex - 1) 0).toNat

def getPrependableBytes (b : OldBuffer) : Nat := (b.readIndex.minus ⟨0, 0⟩).toNat

def resetIndex (b : OldBuffer) : Option OldBuffer := do
  let start ← Iterator.ofBlock b.bufferList.length 0
  let index ← start.advance b.bufferList.length kCheapPrepend
  some { b with readIndex := index, writeIndex := index }

def allocateBuffer (count : Nat) : List BufferBlock := List.replicate count (Page.zero kBufferSize)

def init (initialBufferNum : Nat) : Option OldBuffer :=
  OldBuffer.resetIndex ⟨allocateBuffer initialBufferNum, ⟨0, 0⟩, ⟨0, 0⟩⟩

def retrive (b : OldBuffer) (len : Nat) : Option OldBuffer :=
  if len ≤ b.readableBytes then
    if len < b.readableBytes then
      (b.readIndex.advance b.bufferList.length len).map fun index => { b with readIndex := index }
    else b.resetIndex
  else none

def retriveAll (b : OldBuffer) : Option OldBuffer := b.resetIndex

def retriveUtil (b : OldBuffer) (util : Iterator) : Option OldBuffer :=
  if util.atMost b.writeIndex && b.readIndex.atMost util then
    b.retrive (util.minus b.readIndex).toNat
  else none

def retriveAsStringUtil (b : OldBuffer) (util : Iterator) : Option (OldBuffer × List Byte) :=
  if util.atMost b.writeIndex && b.readIndex.atMost util then do
    let output ← copyFrom b.bufferList (util.minus b.readIndex).toNat b.readIndex
    let rest ← b.retriveUtil util
    some (rest, output)
  else none

def retriveAsString (b : OldBuffer) (len : Nat) : Option (OldBuffer × List Byte) :=
  (b.readIndex.advance b.bufferList.length len).bind b.retriveAsStringUtil

def retriveAllAsString (b : OldBuffer) : Option (OldBuffer × List Byte) :=
  b.retriveAsStringUtil b.writeIndex

def peekAllAsString (b : OldBuffer) : Option (List Byte) :=
  copyFrom b.bufferList (b.writeIndex.minus b.readIndex).toNat b.readIndex

def toInt (value : Int) : Int := value.bmod 0x100000000

def toSize (value : Int) : Nat := (value % 0x10000000000000000).toNat

/-- `std::swap` of `count` blocks from `left` on with those from `idle` on. -/
def swapBlocks : Nat → Nat → Nat → List BufferBlock → Option (List BufferBlock)
  | 0, _, _, blocks => some blocks
  | count + 1, left, idle, blocks => do
      let live ← blocks[left]?
      let other ← blocks[idle]?
      swapBlocks count (left + 1) (idle + 1) ((blocks.set left other).set idle live)

/-- The end of `ExtendSpace`: both iterators from their indices and offsets. -/
def place (blocks : List BufferBlock) (readIndex readOffset offset writeOffset : Nat) :
    Option OldBuffer := do
  let readBlock ← Iterator.ofBlock blocks.length readIndex
  let read ← readBlock.advance blocks.length readOffset
  let writeBlock ← Iterator.ofBlock blocks.length (readIndex + offset)
  let write ← writeBlock.advance blocks.length writeOffset
  some ⟨blocks, read, write⟩

def extendSpace (len : Nat) (b : OldBuffer) : Option OldBuffer :=
  let left := b.readIndex.block
  let right := b.writeIndex.block
  let size := b.bufferList.length
  let buffersToAdd := toInt (((len - 1) / kBufferSize + 1 : Nat) : Int)
  let buffersToUse := toInt ((size : Int) - left + buffersToAdd)
  -- `2 * buffers_to_use` is an `int` as well.
  if -0x80000000 ≤ 2 * buffersToUse ∧ 2 * buffersToUse < 0x80000000 then
    if size > toSize (2 * buffersToUse) then
      let slot := if b.readIndex.cur ≥ kCheapPrepend then 0 else 1
      (swapBlocks (right + 1 - left) left slot b.bufferList).bind fun moved =>
        place moved slot b.readIndex.cur (right - left) b.writeIndex.cur
    else
      place (b.bufferList ++ allocateBuffer size) left b.readIndex.cur (right - left)
        b.writeIndex.cur
  else none

def ensureLoop : Nat → OldBuffer → Nat → Option OldBuffer
  | 0, b, len => if len ≤ b.writableBytes then some b else none
  | turns + 1, b, len =>
      if len > b.writableBytes then
        (b.extendSpace (len - b.writableBytes)).bind fun extended => ensureLoop turns extended len
      else some b

/-- Every turn that goes well makes room for another byte. -/
def ensureWritableBytes (b : OldBuffer) (len : Nat) : Option OldBuffer := ensureLoop len b len

/-- `Append` of bytes that are not the buffer's own. -/
def append (b : OldBuffer) (data : List Byte) : Option OldBuffer := do
  let ready ← b.ensureWritableBytes data.length
  let copied ← copyTo ready.bufferList ready.writeIndex data
  let index ← ready.writeIndex.advance copied.length data.length
  some { ready with bufferList := copied, writeIndex := index }

def unWrite (b : OldBuffer) (len : Nat) : Option OldBuffer :=
  if len ≤ b.readableBytes then
    (b.writeIndex.advance b.bufferList.length (-len)).map fun index =>
      { b with writeIndex := index }
  else none

def prepend (b : OldBuffer) (data : List Byte) : Option OldBuffer :=
  if data.length ≤ b.getPrependableBytes then do
    let index ← b.readIndex.advance b.bufferList.length (-data.length)
    let copied ← copyTo b.bufferList index data
    some { b with bufferList := copied, readIndex := index }
  else none

/-- `--vec[index - 1].iov_len`. -/
def shortenLast : List Part → List Part
  | [] => []
  | [part] => [{ part with len := part.len - 1 }]
  | part :: other :: rest => part :: shortenLast (other :: rest)

def readParts (b : OldBuffer) : List Part :=
  let block := b.writeIndex.block
  shortenLast (⟨block, b.writeIndex.cur, kBufferSize - b.writeIndex.cur⟩ ::
    whole kBufferSize (block + 1) (b.bufferList.length - (block + 1)))

/-- `ReadFd` with the kernel's answer to `readv`. More bytes than there is room
for are no answer of `readv`; a number of iovecs that is no `int` has no result. -/
def readFd (b : OldBuffer) (result : ReadResult) : Option OldBuffer :=
  let parts := b.readParts
  let writable := lengths parts
  if toInt parts.length = parts.length ∧ writable = b.writableBytes then
    match result with
    | .error _ => some b
    | .bytes data =>
        if data.length ≤ writable + kExtraBufferSize then do
          let filled ← scatter b.bufferList parts (data.take writable)
          if data.length ≤ writable then
            let index ← b.writeIndex.advance filled.length data.length
            some { b with bufferList := filled, writeIndex := index }
          else
            let index ← b.writeIndex.advance filled.length writable
            { b with bufferList := filled, writeIndex := index }.append (data.drop writable)
        else none
  else none

def writeParts (b : OldBuffer) : List Part :=
  let first := b.readIndex.block
  let last := b.writeIndex.block
  if first = last then [⟨first, b.readIndex.cur, (b.writeIndex.minus b.readIndex).toNat⟩]
  else
    ⟨first, b.readIndex.cur, kBufferSize - b.readIndex.cur⟩ ::
      (whole kBufferSize (first + 1) (last - (first + 1)) ++ [⟨last, 0, b.writeIndex.cur⟩])

/-- `WriteFd` with the kernel's answer to `writev`; the second component is what
the kernel took. -/
def writeFd (b : OldBuffer) (result : IoResult) : Option (OldBuffer × List Byte) :=
  let parts := b.writeParts
  if toInt parts.length = parts.length then
    match result with
    | .error _ => some (b, [])
    | .count n => do
        let offered ← gather b.bufferList parts
        if n ≤ offered.length then
          let index ← b.readIndex.advance b.bufferList.length n
          some ({ b with readIndex := index }, offered.take n)
        else none
  else none

/-! Places in the blocks. -/

namespace Iterator

def pos (it : Iterator) : Nat := it.block * kBufferSize + it.cur

structure Valid (it : Iterator) (blocks : Nat) : Prop where
  block : it.block < blocks
  cur : it.cur < kBufferSize

theorem Valid.pos_lt {it : Iterator} {blocks : Nat} (valid : it.Valid blocks) :
    it.pos < blocks * kBufferSize := by
  have block := valid.block
  have cur := valid.cur
  simp only [pos, kBufferSize] at *
  omega

theorem minus_eq (lhs rhs : Iterator) : lhs.minus rhs = (lhs.pos : Int) - rhs.pos := by
  simp only [minus, pos, kBufferSize]
  omega

theorem ofBlock_valid {blocks block : Nat} (inside : block < blocks) :
    ofBlock blocks block = some ⟨block, 0⟩ ∧ (Iterator.mk block 0).Valid blocks :=
  ⟨if_pos inside, inside, Nat.zero_lt_succ _⟩

theorem bufferOffset_floor (offset : Int) :
    bufferOffset offset * kBufferSize ≤ offset ∧
      offset < bufferOffset offset * kBufferSize + kBufferSize := by
  simp only [bufferOffset, kBufferSize]
  split <;> omega

theorem advance_spec {it : Iterator} {blocks : Nat} (valid : it.Valid blocks) (n : Int)
    (low : 0 ≤ it.pos + n) (high : it.pos + n < (blocks * kBufferSize : Nat)) :
    ∃ next, it.advance blocks n = some next ∧ next.Valid blocks ∧
      (next.pos : Int) = it.pos + n := by
  have block := valid.block
  have cur := valid.cur
  by_cases within : 0 ≤ n + it.cur ∧ n + it.cur < kBufferSize
  · refine ⟨_, if_pos within, ⟨block, ?_⟩, ?_⟩
    · dsimp only
      omega
    · simp only [pos]
      omega
  · have floor := bufferOffset_floor (n + it.cur)
    generalize moved : bufferOffset (n + it.cur) = offset at floor
    have inside : 0 ≤ it.block + offset ∧ it.block + offset < blocks := by
      simp only [pos, kBufferSize] at *
      omega
    refine ⟨⟨(it.block + offset).toNat, (n + it.cur - offset * kBufferSize).toNat⟩, ?_,
      ⟨?_, ?_⟩, ?_⟩
    · rw [advance, if_neg within, moved, if_pos inside]
    · dsimp only
      omega
    · dsimp only
      omega
    · simp only [pos, kBufferSize] at *
      omega

theorem increment_spec {it : Iterator} {blocks : Nat} (valid : it.Valid blocks)
    (high : it.pos + 1 < blocks * kBufferSize) :
    ∃ next, it.increment blocks = some next ∧ next.Valid blocks ∧ next.pos = it.pos + 1 := by
  have cur := valid.cur
  by_cases last : it.cur + 1 = kBufferSize
  · have inside : it.block + 1 < blocks := by
      simp only [pos, kBufferSize] at *
      omega
    obtain ⟨made, fine⟩ := ofBlock_valid inside
    refine ⟨⟨it.block + 1, 0⟩, ?_, fine, ?_⟩
    · rw [increment, if_pos last, made]
    · simp only [pos, kBufferSize] at *
      omega
  · refine ⟨{ it with cur := it.cur + 1 }, if_neg last, ⟨valid.block, ?_⟩, ?_⟩
    · dsimp only
      omega
    · simp only [pos]
      omega

theorem atMost_iff {lhs rhs : Iterator} (left : lhs.cur < kBufferSize)
    (right : rhs.cur < kBufferSize) : lhs.atMost rhs = true ↔ lhs.pos ≤ rhs.pos := by
  simp only [atMost, pos, kBufferSize] at *
  split <;> simp only [decide_eq_true_eq] <;> omega

end Iterator

/-! Copies. -/

theorem copyTo_spec {blocks : List BufferBlock} {it : Iterator} (valid : it.Valid blocks.length)
    (data : List Byte) (fits : it.pos + data.length < blocks.length * kBufferSize) :
    ∃ after, copyTo blocks it data = some after ∧ after.length = blocks.length ∧
      flat after = overwrite (flat blocks) it.pos data := by
  induction data generalizing blocks it with
  | nil => exact ⟨blocks, rfl, rfl, by simp [overwrite]⟩
  | cons byte rest ih =>
      rw [List.length_cons] at fits
      obtain ⟨stored, put, length, flatStored⟩ := storeAt_flat valid.block
        (show it.cur + [byte].length ≤ kBufferSize from valid.cur)
      obtain ⟨following, moved, still, reached⟩ := Iterator.increment_spec valid (by omega)
      rw [← length] at still
      obtain ⟨after, ran, sameLength, same⟩ := ih still (by rw [reached, length]; omega)
      refine ⟨after, ?_, sameLength.trans length, ?_⟩
      · simp only [copyTo, put, moved, Option.bind_eq_bind, Option.bind_some]
        exact ran
      · have both := overwrite_overwrite (flat blocks) it.pos [byte] rest (by
          rw [length_flat, List.length_singleton]
          omega)
        rw [List.length_singleton, List.singleton_append] at both
        rw [same, flatStored, reached, ← Iterator.pos, both]

theorem copyFrom_spec {blocks : List BufferBlock} {it : Iterator} (valid : it.Valid blocks.length)
    (count : Nat) (fits : it.pos + count < blocks.length * kBufferSize) :
    copyFrom blocks count it = some (((flat blocks).drop it.pos).take count) := by
  induction count generalizing it with
  | zero => simp [copyFrom]
  | succ count ih =>
      have byte := loadAt_flat valid.block (show it.cur + 1 ≤ kBufferSize from valid.cur)
      obtain ⟨following, moved, still, reached⟩ := Iterator.increment_spec valid (by omega)
      have rest := ih still (by rw [reached]; omega)
      rw [reached, ← List.drop_drop] at rest
      simp only [copyFrom, byte, moved, rest, Option.bind_eq_bind, Option.bind_some]
      rw [← Iterator.pos, Nat.add_comm count 1, List.take_add]

end OldBuffer

end Muzi
