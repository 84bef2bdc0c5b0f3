import Muzi.ChainOperations

/-!
`ReadFd` on the chained buffer. The kernel fills the free part of the write block
and up to fourteen blocks behind it, and then a buffer on the stack, whose bytes
are appended. What it filled is followed as one stretch of storage over the
blocks, whichever blocks they are.
-/

namespace Muzi.ChainBuffer

open NodeList Storage

/-! The iovecs. -/

def vecOf : List (Node Block) → Nat → List IoVec
  | [], _ => []
  | node :: rest, pos => ⟨some node.id, pos, kBufferSize - pos⟩ :: vecOf rest 0

theorem readVec_spec (room : Nat) (before nodes : List (Node Block)) (pos : Nat)
    (distinct : ((before ++ nodes).map Node.id).Nodup) :
    readVec (before ++ nodes) room (first nodes) pos =
      some (vecOf (nodes.take room) pos, first (nodes.drop room)) := by
  induction room generalizing before nodes pos with
  | zero => simp [readVec, vecOf]
  | succ room ih =>
      cases nodes with
      | nil => simp [readVec, first, vecOf]
      | cons node rest =>
          have following := next_located distinct
          have passed : before ++ node :: rest = (before ++ [node]) ++ rest := by simp
          rw [passed] at distinct
          have later := ih (before ++ [node]) rest 0 distinct
          rw [← passed] at later
          simp [first_cons, readVec, following, later, vecOf]

theorem vecLength_vecOf (nodes : List (Node Block)) (pos : Nat) (inside : pos ≤ kBufferSize)
    (fits : nodes = [] → pos = 0) :
    vecLength (vecOf nodes pos) + pos = nodes.length * kBufferSize := by
  induction nodes generalizing pos with
  | nil => simp [vecOf, vecLength, fits rfl]
  | cons node rest ih =>
      have later := ih 0 (Nat.zero_le _) fun _ => rfl
      simp only [vecLength, vecOf, List.length_cons] at later ⊢
      rw [Nat.add_mul, Nat.one_mul]
      omega

/-! What the kernel filled. -/

theorem take_stored (before : List (Node Block)) (node : Node Block) (after : List (Node Block))
    (stop : Nat) (inside : stop ≤ kBufferSize) :
    (stored (before ++ node :: after)).take (before.length * kBufferSize + stop) =
      stored before ++ node.value.bytes.take stop := by
  rw [stored_append, List.take_append, stored_length, List.take_of_length_le
    (by rw [stored_length]; omega), stored_cons, Nat.add_sub_cancel_left,
    List.take_append_of_le_length (by rw [node.value.size]; exact inside)]

structure Filled (nodes filled : List (Node Block)) (pos : Nat) (data : List Byte) : Prop where
  ids : filled.map Node.id = nodes.map Node.id
  bytes : (stored filled).take (pos + data.length) = (stored nodes).take pos ++ data

theorem Filled.length {nodes filled : List (Node Block)} {pos : Nat} {data : List Byte}
    (done : Filled nodes filled pos data) : filled.length = nodes.length := by
  simpa using congrArg List.length done.ids

theorem Filled.append {nodes filled : List (Node Block)} {pos : Nat} {data : List Byte}
    (done : Filled nodes filled pos data) (after : List (Node Block))
    (fits : pos + data.length ≤ nodes.length * kBufferSize) :
    Filled (nodes ++ after) (filled ++ after) pos data where
  ids := by simp [done.ids]
  bytes := by
    rw [stored_append, stored_append, List.take_append_of_le_length, List.take_append_of_le_length,
      done.bytes]
    · rw [stored_length]
      omega
    · rw [stored_length, done.length]
      exact fits

theorem Filled.front {nodes filled : List (Node Block)} {pos : Nat} {data : List Byte}
    (done : Filled nodes filled pos data) (fits : pos ≤ nodes.length * kBufferSize) :
    Filled nodes filled pos [] where
  ids := done.ids
  bytes := by
    have bytes := congrArg (List.take pos) done.bytes
    have room : ((stored nodes).take pos).length = pos := by
      rw [List.length_take, stored_length]
      omega
    rw [List.take_take, Nat.min_eq_left (Nat.le_add_right _ _),
      List.take_append_of_le_length (Nat.le_of_eq room.symm), List.take_take, Nat.min_self] at bytes
    simpa using bytes

theorem filled_cons {node : Node Block} {rest filled : List (Node Block)} {block : Block}
    {pos : Nat} {data : List Byte} (inside : pos ≤ kBufferSize)
    (head : block.bytes.take (pos + (data.take (kBufferSize - pos)).length) =
      node.value.bytes.take pos ++ data.take (kBufferSize - pos))
    (done : Filled rest filled 0 (data.drop (kBufferSize - pos))) :
    Filled (node :: rest) (⟨node.id, block⟩ :: filled) pos data where
  ids := by simp [done.ids]
  bytes := by
    have later := done.bytes
    rw [Nat.zero_add, List.take_zero, List.nil_append] at later
    rw [stored_cons, stored_cons, List.take_append, List.take_append, block.size, node.value.size,
      Nat.sub_eq_zero_of_le inside, List.take_zero, List.append_nil]
    have rest : pos + data.length - kBufferSize = (data.drop (kBufferSize - pos)).length := by
      rw [List.length_drop]
      omega
    rw [rest, later]
    by_cases short : data.length ≤ kBufferSize - pos
    · rw [List.take_of_length_le short] at head
      rw [head, List.drop_eq_nil_of_le short, List.append_nil]
    · have whole : pos + (data.take (kBufferSize - pos)).length = kBufferSize := by
        rw [List.length_take]
        omega
      have full : block.bytes.take (pos + data.length) = block.bytes.take kBufferSize := by
        have beyond : block.bytes.length ≤ pos + data.length := by
          rw [block.size]
          omega
        rw [List.take_of_length_le beyond, List.take_of_length_le (Nat.le_of_eq block.size)]
      rw [whole] at head
      rw [full, head, List.append_assoc, List.take_append_drop]

theorem scatter_spec (nodes before after : List (Node Block)) (pos : Nat) (data : List Byte)
    (distinct : ((before ++ (nodes ++ after)).map Node.id).Nodup) (inside : pos ≤ kBufferSize)
    (fits : data.length ≤ vecLength (vecOf nodes pos)) (start : nodes = [] → pos = 0) :
    ∃ filled, scatter (before ++ (nodes ++ after)) (vecOf nodes pos) data =
        some (before ++ (filled ++ after)) ∧ Filled nodes filled pos data := by
  induction nodes generalizing before pos data with
  | nil =>
      have none : data = [] := List.length_eq_zero_iff.mp (by simpa [vecOf, vecLength] using fits)
      exact ⟨[], rfl, ⟨rfl, by simp [none]⟩⟩
  | cons node rest ih =>
      obtain ⟨block, copied, contents⟩ := store_inside node.value pos
        (data.take (kBufferSize - pos)) (by rw [List.length_take]; omega)
      have updated : update (before ++ (node :: rest ++ after)) (some node.id)
          (Block.store pos (data.take (kBufferSize - pos))) =
            some (before ++ ⟨node.id, block⟩ :: (rest ++ after)) :=
        update_located distinct _ _ copied
      let head : Node Block := ⟨node.id, block⟩
      have passed : before ++ head :: (rest ++ after) = (before ++ [head]) ++ (rest ++ after) := by
        simp
      have still : (((before ++ [head]) ++ (rest ++ after)).map Node.id).Nodup := by
        simpa [head] using distinct
      obtain ⟨filled, ran, done⟩ := ih (before ++ [head]) 0
        (data.drop (kBufferSize - pos)) still (Nat.zero_le _) (by
          simp only [vecLength, vecOf] at fits ⊢
          rw [List.length_drop]
          omega) fun _ => rfl
      refine ⟨head :: filled, ?_, filled_cons inside contents done⟩
      rw [vecOf, scatter, updated, Option.bind_eq_bind, Option.bind_some]
      dsimp only
      rw [passed, ran]
      simp

/-! The cursor behind it. -/

theorem filled_layout {b : ChainBuffer} {front spare : List (Node Block)} {tail : Node Block}
    (layout : Layout b front tail spare) {passed left : List (Node Block)} {target : Node Block}
    {data : List Byte} {stop : Nat}
    (done : Filled (tail :: spare) (passed ++ target :: left) b.writePos data)
    (inside : stop < kBufferSize)
    (measured : passed.length * kBufferSize + stop = b.writePos + data.length) :
    Layout { b with
        buffers := front ++ (passed ++ target :: left)
        writeBuffer := some target.id
        writePos := stop } (front ++ passed) target left ∧
      stretch (front ++ passed) target stop b.readPos = span b front tail ++ data := by
  have ids : (front ++ passed ++ target :: left).map Node.id =
      (front ++ tail :: spare).map Node.id := by
    rw [List.append_assoc, List.map_append, done.ids, List.map_append]
  have ordered := layout.ordered
  have writeInside := layout.writeInside
  constructor
  · refine ⟨(List.append_assoc _ _ _).symm, ?_, ?_, rfl, ?_, inside, layout.readInside, ?_⟩
    · rw [ids]
      exact layout.distinct
    · intro node member
      have named : node.id ∈ (front ++ tail :: spare).map Node.id := by
        rw [← ids]
        exact List.mem_map_of_mem member
      obtain ⟨old, present, same⟩ := List.mem_map.mp named
      rw [← same]
      exact layout.allocated old present
    · have heads : first (front ++ passed ++ target :: left) = first (front ++ tail :: spare) := by
        rw [first, first, ← List.head?_map, ids, List.head?_map]
      rw [first_append_cons, first_append_cons front] at heads
      rw [heads]
      exact layout.readAt
    · dsimp only
      rw [List.length_append, Nat.add_mul]
      omega
  · have bytes := done.bytes
    rw [← measured, take_stored passed target left stop (Nat.le_of_lt inside), stored_cons,
      List.take_append_of_le_length (by rw [tail.value.size]; omega)] at bytes
    rw [stretch, stored_append, List.append_assoc, bytes, ← List.append_assoc,
      List.drop_append_of_le_length]
    · rfl
    · rw [List.length_append, stored_length, List.length_take, tail.value.size]
      omega

theorem passVec_spec {b : ChainBuffer} {front spare : List (Node Block)} {tail : Node Block}
    (layout : Layout b front tail spare) {filled after : List (Node Block)} {data : List Byte}
    (done : Filled (tail :: spare) (filled ++ after) b.writePos data)
    (measured : filled.length * kBufferSize = b.writePos + data.length) :
    ∃ target left, Layout ({ b with buffers := front ++ (filled ++ after) }.passVec (first after))
        (front ++ filled) target left ∧
      stretch (front ++ filled) target 0 b.readPos = span b front tail ++ data := by
  have positive : 0 < kBufferSize := Nat.zero_lt_of_lt layout.writeInside
  have reached : filled.length * kBufferSize + 0 = b.writePos + data.length := by
    rw [Nat.add_zero, measured]
  cases after with
  | cons target left =>
      have moved := filled_layout layout done positive reached
      exact ⟨target, left, moved⟩
  | nil =>
      let new : Node Block := ⟨b.fresh, Block.zero⟩
      rw [List.append_nil] at done
      have grown : Filled (tail :: spare ++ [new]) (filled ++ [new]) b.writePos data :=
        done.append [new] (by rw [← done.length]; exact Nat.le_of_eq measured.symm)
      have moved := filled_layout (grown_layout layout) grown positive reached
      refine ⟨new, [], ?_, moved.2⟩
      have placed := moved.1
      simpa [passVec, first, new] using placed

theorem hasWrite_spec {b : ChainBuffer} {front spare filled : List (Node Block)}
    {tail : Node Block} (layout : Layout b front tail spare) {data : List Byte}
    (done : Filled (tail :: spare) filled b.writePos data)
    (fits : b.writePos + data.length < (spare.length + 1) * kBufferSize) :
    ∃ after front' tail' spare', { b with buffers := front ++ filled }.hasWrite data.length =
        some after ∧ Layout after front' tail' spare' ∧
      span after front' tail' = span b front tail ++ data ∧
      after.readableBytes = b.readableBytes + data.length := by
  have length := done.length
  obtain ⟨head, rest, rfl⟩ : ∃ head rest, filled = head :: rest :=
    List.exists_cons_of_length_eq_add_one length
  have same : rest.length = spare.length := by simpa using length
  have headId : head.id = tail.id := (List.cons.inj done.ids).1
  have begun : Layout { b with buffers := front ++ head :: rest } front head rest := by
    have placed : Filled (tail :: spare) ([] ++ head :: rest) b.writePos [] :=
      done.front (by rw [List.length_cons]; omega)
    have moved := (filled_layout layout placed layout.writeInside (by simp)).1
    have writeAt := layout.writeAt
    rw [List.append_nil, ← headId.symm, ← writeAt] at moved
    exact moved
  obtain ⟨passed, target, left, stop, cut, ran, measured, inside⟩ :=
    forward_spec (data.length + 1) front head rest b.writePos data.length begun.distinct
      layout.writeInside (Nat.le_succ _) (by rw [same]; exact fits)
  rw [cut] at done
  obtain ⟨moved, bytes⟩ := filled_layout layout done inside measured
  rw [← cut] at moved
  refine ⟨{ b with
      buffers := front ++ head :: rest
      writeBuffer := some target.id
      writePos := stop
      readableBytes := b.readableBytes + data.length }, front ++ passed, target, left, ?_,
    { moved with }, bytes, rfl⟩
  have enough : data.length ≤ (rest.length + 1) * kBufferSize - b.writePos := by
    rw [same]
    omega
  have writable := writableBytes_layout begun
  have writeAt : b.writeBuffer = some head.id := begun.writeAt
  rw [← writeAt] at ran
  simp only [hasWrite, writable, enough, ran, ↓reduceIte, Option.bind_eq_bind, Option.bind_some]

@[simp] theorem passVec_writePos (b : ChainBuffer) (peek : Iterator) :
    (b.passVec peek).writePos = 0 := by
  cases peek <;> rfl

@[simp] theorem passVec_readPos (b : ChainBuffer) (peek : Iterator) :
    (b.passVec peek).readPos = b.readPos := by
  cases peek <;> rfl

def readRoom (b : ChainBuffer) : Option Nat :=
  (readVec b.buffers (maxVecSize - 1) b.writeBuffer b.writePos).map fun offered =>
    vecLength offered.1 + extraSpace

/-- The iovecs of `ReadFd`: the block of the write cursor and `taken`, with `room` bytes. -/
structure Offered (b : ChainBuffer) (front : List (Node Block)) (tail : Node Block)
    (spare taken later : List (Node Block)) (room : Nat) : Prop where
  layout : Layout b front tail spare
  split : tail :: spare = tail :: taken ++ later
  vec : readVec b.buffers (maxVecSize - 1) b.writeBuffer b.writePos =
    some (vecOf (tail :: taken) b.writePos, first later)
  writable : vecLength (vecOf (tail :: taken) b.writePos) = room
  length : room + b.writePos = (tail :: taken).length * kBufferSize

section Offered
variable {b : ChainBuffer} {front spare taken later : List (Node Block)} {tail : Node Block}
  {room : Nat} {data : List Byte}

theorem offered_of_layout (layout : Layout b front tail spare) :
    ∃ taken later room, Offered b front tail spare taken later room := by
  have vec := readVec_spec (maxVecSize - 1) front (tail :: spare) b.writePos layout.distinct
  rw [← layout.shape, first_cons, ← layout.writeAt] at vec
  exact ⟨spare.take 14, spare.drop 14, _, layout, by simp, vec, rfl,
    vecLength_vecOf _ b.writePos (Nat.le_of_lt layout.writeInside) nofun⟩

theorem Offered.scattered (offered : Offered b front tail spare taken later room)
    (few : data.length ≤ room) :
    ∃ filled, scatter b.buffers (vecOf (tail :: taken) b.writePos) data =
        some (front ++ (filled ++ later)) ∧ filled.length = (tail :: taken).length ∧
      Filled (tail :: spare) (filled ++ later) b.writePos data := by
  have layout := offered.layout
  have distinct : ((front ++ (tail :: taken ++ later)).map Node.id).Nodup := by
    rw [← offered.split]
    exact layout.distinct
  obtain ⟨filled, ran, done⟩ := scatter_spec (tail :: taken) front later b.writePos data distinct
    (Nat.le_of_lt layout.writeInside) (by rw [offered.writable]; exact few) nofun
  rw [← offered.split, ← layout.shape] at ran
  refine ⟨filled, ran, done.length, ?_⟩
  rw [offered.split]
  refine done.append later ?_
  rw [← offered.length, Nat.add_comm]
  exact Nat.add_le_add_right few _

theorem Offered.readFd_full (offered : Offered b front tail spare taken later room)
    (count : b.readableBytes = (span b front tail).length) (full : data.length ≥ room)
    (fits : data.length ≤ room + extraSpace) :
    ∃ after, b.readFd (.bytes data) = some after ∧
      Represents after (span b front tail ++ data) := by
  obtain ⟨filled, scattered, length, done⟩ :=
    offered.scattered (List.length_take_le room data)
  have measured : filled.length * kBufferSize = b.writePos + (data.take room).length := by
    rw [length, ← offered.length, List.length_take, Nat.min_eq_left full, Nat.add_comm]
  obtain ⟨target, left, passed, spanned⟩ := passVec_spec offered.layout done measured
  have rep : Represents { ({ b with buffers := front ++ (filled ++ later) }.passVec
      (first later)) with readableBytes := b.readableBytes + room }
      (span b front tail ++ data.take room) := by
    refine ⟨front ++ filled, target, left, { passed with }, ?_, ?_⟩
    · rw [span]
      simpa using spanned
    · dsimp only
      rw [List.length_append, List.length_take, Nat.min_eq_left full, count]
  obtain ⟨after, appended, grown⟩ := append_represents rep (data.drop room)
  refine ⟨after, ?_, ?_⟩
  · simp only [readFd, offered.vec, offered.writable, fits, scattered, full, appended, ↓reduceIte,
      Option.bind_eq_bind, Option.bind_some]
  · rwa [List.append_assoc, List.take_append_drop] at grown

theorem Offered.readFd_short (offered : Offered b front tail spare taken later room)
    (count : b.readableBytes = (span b front tail).length) (short : ¬data.length ≥ room) :
    ∃ after, b.readFd (.bytes data) = some after ∧
      Represents after (span b front tail ++ data) := by
  have whole : data.take room = data := List.take_of_length_le (by omega)
  have fits : data.length ≤ room + extraSpace := by omega
  obtain ⟨filled, scattered, -, done⟩ := offered.scattered (Nat.le_of_not_ge short)
  have spareLength : taken.length ≤ spare.length := by
    have lengths := congrArg List.length offered.split
    simp only [List.length_append, List.length_cons] at lengths
    omega
  have inside : b.writePos + data.length < (spare.length + 1) * kBufferSize := by
    have blocks : (taken.length + 1) * kBufferSize ≤ (spare.length + 1) * kBufferSize :=
      Nat.mul_le_mul_right kBufferSize (Nat.succ_le_succ spareLength)
    have length := offered.length
    rw [List.length_cons] at length
    omega
  obtain ⟨after, front', tail', spare', ran, layout, spanned, counted⟩ :=
    hasWrite_spec offered.layout done inside
  refine ⟨after, ?_, front', tail', spare', layout, spanned, ?_⟩
  · simp only [readFd, offered.vec, offered.writable, fits, whole, scattered, short, ran,
      ↓reduceIte, Option.bind_eq_bind, Option.bind_some]
  · rw [counted, List.length_append, count]

end Offered

/-- `ReadFd` appends what the kernel delivers, and an error changes nothing. -/
theorem readFd_represents {b : ChainBuffer} {bytes : List Byte} (rep : Represents b bytes) :
    ∃ room, b.readRoom = some room ∧
      (∀ errno, b.readFd (.error errno) = some b) ∧
      (∀ data, data.length ≤ room → ∃ after, b.readFd (.bytes data) = some after ∧
        Represents after (bytes ++ data)) ∧
      ∀ data, room < data.length → b.readFd (.bytes data) = none := by
  obtain ⟨front, tail, spare, layout, rfl, count⟩ := rep
  obtain ⟨taken, later, room, offered⟩ := offered_of_layout layout
  refine ⟨room + extraSpace, ?_, fun errno => ?_, fun data fits => ?_, fun data beyond => ?_⟩
  · simp [readRoom, offered.vec, offered.writable]
  · simp [readFd, offered.vec]
  · by_cases full : data.length ≥ room
    · exact offered.readFd_full count full fits
    · exact offered.readFd_short count full
  · simp only [readFd, offered.vec, offered.writable, Nat.not_le.mpr beyond, ↓reduceIte,
      Option.bind_eq_bind, Option.bind_some]

end Muzi.ChainBuffer
