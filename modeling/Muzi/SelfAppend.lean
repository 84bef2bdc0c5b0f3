import Muzi.ChainInvariant
import Muzi.Loop

/-!
`Append(const ChainBuffer &)` from a buffer to itself. The loop runs until it meets the
write cursor, which every turn moves on by as many bytes as the turn passes: the gap
between the two stays what it was. Within one block the copied bytes and their copies
never overlap, and neither do a block before the write block and the room behind the
write cursor, so each `memcpy` copies what the block held when the turn began.
-/

namespace Muzi.SelfAppend

open NodeList Storage ChainBuffer Loop

/-- The loop's state: the buffer, and how far it has been copied. -/
structure Copying where
  buffer : ChainBuffer
  peekBuffer : Iterator
  peekPos : Nat

def start (b : ChainBuffer) : Copying := ⟨b, b.readBuffer, b.readPos⟩

def appendSelf (c : Copying) : Option (Turn Copying ChainBuffer) := do
  let block ← deref c.buffer.buffers c.peekBuffer
  if c.peekBuffer = c.buffer.writeBuffer then
    let data ← block.load c.peekPos (c.buffer.writePos - c.peekPos)
    let grown ← c.buffer.append data
    some (.returned grown)
  else
    let data ← block.load c.peekPos (kBufferSize - c.peekPos)
    let grown ← c.buffer.append data
    let following ← next grown.buffers c.peekBuffer
    let _ ← deref grown.buffers following
    some (.again ⟨grown, following, 0⟩)

/-! The write block reached. -/

theorem appendSelf_last {b : ChainBuffer} {bytes : List Byte} {front spare : List (Node Block)}
    {tail : Node Block} (layout : Layout b front tail spare) (rep : Represents b bytes)
    {pos : Nat} (before : pos ≤ b.writePos) :
    ∃ after, appendSelf ⟨b, some tail.id, pos⟩ = some (.returned after) ∧
      Represents after (bytes ++ (tail.value.bytes.take b.writePos).drop pos) := by
  have writeInside := layout.writeInside
  have here : deref b.buffers (some tail.id) = some tail.value := by
    rw [layout.shape]
    exact deref_located layout.distinct
  have chunk : tail.value.load pos (b.writePos - pos) =
      some ((tail.value.bytes.take b.writePos).drop pos) := by
    rw [load_inside _ _ _ (by omega), List.drop_take]
  obtain ⟨after, appended, grown⟩ :=
    append_represents rep ((tail.value.bytes.take b.writePos).drop pos)
  refine ⟨after, ?_, grown⟩
  simp only [appendSelf, here, layout.writeAt, chunk, appended, ↓reduceIte, Option.bind_eq_bind,
    Option.bind_some]

/-! A turn. -/

theorem located_left {left right before after : List (Node Block)} {node : Node Block}
    (same : left ++ right = before ++ node :: after) (short : before.length < left.length) :
    ∃ rest, left = before ++ node :: rest := by
  rcases List.append_eq_append_iff.mp same with ⟨more, split, -⟩ | ⟨more, split, rest⟩
  · have lengths := congrArg List.length split
    rw [List.length_append] at lengths
    omega
  · cases more with
    | nil =>
        rw [split, List.append_nil] at short
        exact absurd short (Nat.lt_irrefl _)
    | cons head others =>
        cases rest
        exact ⟨others, split⟩

/-- The loop stands on a block before the write block. -/
structure Behind (c : Copying) (passed : List (Node Block)) (node : Node Block)
    (rest : List (Node Block)) (tail : Node Block) (spare : List (Node Block)) : Prop where
  layout : Layout c.buffer (passed ++ node :: rest) tail spare
  count : c.buffer.readableBytes = (span c.buffer (passed ++ node :: rest) tail).length
  atNode : c.peekBuffer = some node.id
  inside : c.peekPos < kBufferSize

def gap (c : Copying) (rest : List (Node Block)) : Nat :=
  (rest.length + 1) * kBufferSize + c.buffer.writePos - c.peekPos

/-- Where a turn ends: `here` are the blocks passed, and the gap to the write cursor is
made of the blocks of `later` and the used part of the write block. -/
structure Turned (c : Copying) (passed rest : List (Node Block)) (grown : ChainBuffer)
    (here later : List (Node Block)) (last : Node Block) (spare : List (Node Block)) : Prop where
  layout : Layout grown (here ++ later) last spare
  count : grown.readableBytes = (span grown (here ++ later) last).length
  longer : grown.readableBytes = c.buffer.readableBytes + (kBufferSize - c.peekPos)
  moved : here.length = passed.length + 1
  kept : later.length * kBufferSize + grown.writePos = gap c rest

theorem extends_located {b grown : ChainBuffer} {passed after : List (Node Block)}
    {node : Node Block} (kept : Extends b grown) (shape : b.buffers = passed ++ node :: after) :
    ∃ before same others, grown.buffers = before ++ same :: others ∧
      before.length = passed.length ∧ same.id = node.id := by
  obtain ⟨more, ids⟩ := kept.blocks
  rw [shape, List.map_append, List.map_cons, List.append_assoc, List.cons_append] at ids
  obtain ⟨before, others, split, front, back⟩ := List.map_eq_append_iff.mp ids.symm
  obtain ⟨same, tail, rfl, named, -⟩ := List.map_eq_cons_iff.mp back
  refine ⟨before, same, tail, split, ?_, named⟩
  simpa using congrArg List.length front

theorem Behind.reach {c : Copying} {passed rest spare front left : List (Node Block)}
    {node tail last : Node Block} (behind : Behind c passed node rest tail spare)
    {grown : ChainBuffer} (layout : Layout grown front last left)
    (kept : Extends c.buffer grown)
    (spanned : span grown front last =
      span c.buffer (passed ++ node :: rest) tail ++ node.value.bytes.drop c.peekPos) :
    front.length * kBufferSize + grown.writePos = passed.length * kBufferSize +
      (rest.length + 1) * kBufferSize + c.buffer.writePos + (kBufferSize - c.peekPos) := by
  have extent := span_length behind.layout
  have ordered := behind.layout.ordered
  have grownOrdered := layout.ordered
  have lengths := congrArg List.length spanned
  rw [span_length layout, List.length_append, List.length_drop, node.value.size, extent,
    kept.readPos] at lengths
  rw [kept.readPos] at grownOrdered
  rw [List.length_append, List.length_cons, Nat.add_mul] at lengths ordered
  omega

theorem appendSelf_turn {c : Copying} {passed rest spare : List (Node Block)}
    {node tail : Node Block} (behind : Behind c passed node rest tail spare) :
    ∃ grown here later last left, appendSelf c =
        some (.again ⟨grown, first (later ++ [last]), 0⟩) ∧
      Turned c passed rest grown here later last left := by
  have layout := behind.layout
  have writeInside := layout.writeInside
  have inside := behind.inside
  have shape : c.buffer.buffers = passed ++ node :: (rest ++ tail :: spare) := by
    simpa using layout.shape
  have distinct : ((passed ++ node :: (rest ++ tail :: spare)).map Node.id).Nodup := by
    simpa using layout.distinct
  have loaded := load_rest node.value c.peekPos (Nat.le_of_lt inside)
  have unread : (node.value.bytes.drop c.peekPos).length = kBufferSize - c.peekPos := by
    rw [List.length_drop, node.value.size]
  obtain ⟨grown, appended, front, last, left, grownLayout, spanned, grownCount⟩ :=
    append_represents ⟨_, tail, spare, layout, rfl, behind.count⟩ (node.value.bytes.drop c.peekPos)
  have kept := append_extends appended
  have grownInside := grownLayout.writeInside
  have reach := behind.reach grownLayout kept spanned
  obtain ⟨before, same, others, split, length, named⟩ := extends_located kept shape
  have further : before.length < front.length := by
    apply Nat.lt_of_not_le
    intro few
    have blocks := Nat.mul_le_mul_right kBufferSize few
    rw [length] at blocks
    rw [Nat.add_mul, Nat.one_mul] at reach
    omega
  obtain ⟨later, rfl⟩ := located_left (grownLayout.shape.symm.trans split) further
  have grownDistinct : ((before ++ same :: (later ++ last :: left)).map Node.id).Nodup := by
    simpa using grownLayout.distinct
  have grownShape : grown.buffers = before ++ same :: (later ++ last :: left) := by
    simpa using grownLayout.shape
  have located := deref_located distinct
  have apart := walk_apart distinct
  obtain ⟨-, following, block, landed⟩ := walk_step grownDistinct
  rw [← grownShape] at following landed
  rw [← shape] at located
  have regrouped : before ++ same :: later = (before ++ [same]) ++ later := by simp
  refine ⟨grown, before ++ [same], later, last, left, ?_, regrouped ▸ grownLayout, ?_, ?_, ?_, ?_⟩
  · rw [named] at following
    simp only [appendSelf, behind.atNode, located, layout.writeAt, apart, loaded, appended,
      following, landed, ↓reduceIte, Option.bind_eq_bind, Option.bind_some]
  · rw [← regrouped, spanned]
    exact grownCount
  · rw [grownCount, List.length_append, unread, behind.count]
  · rw [List.length_append, List.length_singleton, length]
  · rw [List.length_append, List.length_cons, length, Nat.add_mul passed.length,
      Nat.add_mul later.length, Nat.one_mul] at reach
    rw [gap]
    omega

/-! The three outcomes. -/

/-- With a whole block or more to go the loop never meets the write cursor. -/
def Chasing (c : Copying) : Prop :=
  ∃ passed node rest tail spare, Behind c passed node rest tail spare ∧ kBufferSize ≤ gap c rest

theorem chasing_again {c : Copying} (chasing : Chasing c) :
    ∃ next, appendSelf c = some (.again next) ∧ Chasing next := by
  obtain ⟨passed, node, rest, tail, spare, behind, far⟩ := chasing
  obtain ⟨grown, here, later, last, left, ran, turned⟩ := appendSelf_turn behind
  have kept := turned.kept
  have writeInside := turned.layout.writeInside
  refine ⟨_, ran, ?_⟩
  cases later with
  | nil =>
      simp only [List.length_nil, Nat.zero_mul, Nat.zero_add] at kept
      omega
  | cons second others =>
      refine ⟨here, second, others, last, left, ⟨turned.layout, turned.count, rfl, ?_⟩, ?_⟩
      · exact Nat.zero_lt_of_lt writeInside
      · rw [gap, Nat.sub_zero, ← List.length_cons, kept]
        exact far

theorem diverges_of_far {b : ChainBuffer} {bytes : List Byte} (rep : Represents b bytes)
    (far : kBufferSize ≤ bytes.length) : Diverges appendSelf (start b) := by
  apply diverges_of_invariant fun c => chasing_again
  obtain ⟨front, tail, spare, layout, rfl, count⟩ := rep
  have extent := span_length layout
  cases front with
  | nil =>
      have writeInside := layout.writeInside
      simp only [List.length_nil, Nat.zero_mul, Nat.zero_add] at extent
      omega
  | cons head front =>
      rw [List.length_cons] at extent
      refine ⟨[], head, front, tail, spare, ⟨layout, count, layout.readAt, layout.readInside⟩, ?_⟩
      rw [extent] at far
      exact far

theorem returns_of_together {b : ChainBuffer} {bytes : List Byte} (rep : Represents b bytes)
    (together : b.readBuffer = b.writeBuffer) :
    ∃ after, Returns appendSelf (start b) after ∧ Represents after (bytes ++ bytes) := by
  have whole := rep
  obtain ⟨front, tail, spare, layout, rfl, count⟩ := rep
  cases front with
  | nil =>
      have ordered := layout.ordered
      simp only [List.length_nil, Nat.zero_mul, Nat.zero_add] at ordered
      obtain ⟨after, ran, grown⟩ := appendSelf_last layout whole ordered
      have place : start b = ⟨b, some tail.id, b.readPos⟩ := by
        rw [start, together, layout.writeAt]
      exact ⟨after, returns_of_body (place ▸ ran), grown⟩
  | cons head front =>
      have distinct : (([] ++ head :: (front ++ tail :: spare)).map Node.id).Nodup :=
        layout.distinct
      have apart := walk_apart distinct
      exact absurd (layout.readAt.symm.trans (together.trans layout.writeAt)) apart

/-- Less than a block of contents over two blocks: the first turn fills up the write block,
and what it appended is copied once more. -/
theorem returns_of_near {b : ChainBuffer} {bytes : List Byte} (rep : Represents b bytes)
    (apart : b.readBuffer ≠ b.writeBuffer) (near : bytes.length < kBufferSize) :
    ∃ after, Returns appendSelf (start b) after ∧
      after.readableBytes = bytes.length + bytes.length + (kBufferSize - b.readPos) := by
  obtain ⟨front, tail, spare, layout, rfl, count⟩ := rep
  cases front with
  | nil => exact absurd (layout.readAt.trans layout.writeAt.symm) apart
  | cons head front =>
      have extent := span_length layout
      have readInside := layout.readInside
      rw [List.length_cons] at extent
      have behind : Behind (start b) [] head front tail spare :=
        ⟨layout, count, layout.readAt, layout.readInside⟩
      obtain ⟨grown, here, later, last, left, ran, turned⟩ := appendSelf_turn behind
      have kept := turned.kept
      have longer : grown.readableBytes = b.readableBytes + (kBufferSize - b.readPos) :=
        turned.longer
      have writeInside := turned.layout.writeInside
      obtain rfl : later = [] := by
        apply List.length_eq_zero_iff.mp
        rw [gap, start] at kept
        apply Nat.eq_zero_of_not_pos
        intro more
        have block := Nat.mul_le_mul_right kBufferSize more
        dsimp only at kept
        omega
      obtain ⟨after, returned, afterRep⟩ := appendSelf_last turned.layout
        ⟨_, last, left, turned.layout, rfl, turned.count⟩ (Nat.zero_le grown.writePos)
      refine ⟨after, returns_of_again ran (returns_of_body returned), ?_⟩
      rw [ByteQueue.represents_length afterRep, List.length_append, ← turned.count, longer, count,
        List.drop_zero, List.length_take, last.value.size]
      rw [gap, start] at kept
      simp only [List.length_nil, Nat.zero_mul, Nat.zero_add] at kept
      omega

/-- From another buffer `Append` copies what that buffer holds. From the buffer itself it does
so exactly when both cursors are in one block; with a block of contents or more it never
ends, and with less over two blocks it ends with too many bytes. -/
theorem append_snapshot_iff {b : ChainBuffer} {bytes : List Byte} (rep : Represents b bytes) :
    (∀ source added, Represents source added →
      ∃ after, b.appendBuffer source = some after ∧ Represents after (bytes ++ added)) ∧
    ((∃ after, Returns appendSelf (start b) after ∧ Represents after (bytes ++ bytes)) ↔
      b.readBuffer = b.writeBuffer) ∧
    (Diverges appendSelf (start b) ↔ kBufferSize ≤ bytes.length) := by
  have readInside := (ChainInvariant.sound_of_represents rep).readInside
  refine ⟨fun source added held => appendBuffer_represents rep held, ?_, ?_⟩
  · constructor
    · rintro ⟨after, returned, doubled⟩
      apply Classical.byContradiction
      intro apart
      by_cases far : kBufferSize ≤ bytes.length
      · exact not_returns_of_diverges (diverges_of_far rep far) after returned
      · obtain ⟨other, ended, longer⟩ := returns_of_near rep apart (Nat.lt_of_not_le far)
        rw [returns_unique ended returned, ByteQueue.represents_length doubled,
          List.length_append] at longer
        omega
    · exact returns_of_together rep
  · constructor
    · intro forever
      apply Nat.le_of_not_lt
      intro near
      by_cases together : b.readBuffer = b.writeBuffer
      · obtain ⟨after, returned, -⟩ := returns_of_together rep together
        exact not_returns_of_diverges forever after returned
      · obtain ⟨after, returned, -⟩ := returns_of_near rep together near
        exact not_returns_of_diverges forever after returned
    · exact diverges_of_far rep

theorem halfRead_appended : ∃ b after, halfRead = some b ∧ init.appendBuffer b = some after ∧
    Represents after (List.replicate 5000 7) ∧ ∃ twice, b.appendBuffer after = some twice ∧
      Represents twice (List.replicate 10000 7) ∧ Diverges appendSelf (start b) := by
  obtain ⟨b, made, rep⟩ := halfRead_represents
  obtain ⟨after, copied, afterRep⟩ := (append_snapshot_iff init_represents).1 b _ rep
  obtain ⟨fromOther, -, forever⟩ := append_snapshot_iff rep
  obtain ⟨twice, doubled, twiceRep⟩ := fromOther after _ afterRep
  rw [List.nil_append] at afterRep twiceRep
  rw [List.replicate_append_replicate] at twiceRep
  refine ⟨b, after, made, copied, afterRep, twice, doubled, twiceRep, forever.mpr ?_⟩
  rw [List.length_replicate]
  decide

/-- A block of bytes appended to a fresh buffer, and the buffer to itself. -/
theorem appendSelf_whole_block :
    ∃ b, init.append (List.replicate 4096 0) = some b ∧ Diverges appendSelf (start b) := by
  obtain ⟨b, appended, rep⟩ := append_represents init_represents (List.replicate 4096 0)
  have far : kBufferSize ≤ ([] ++ List.replicate 4096 (0 : Byte)).length := by
    rw [List.nil_append, List.length_replicate]
    exact Nat.le_refl _
  exact ⟨b, appended, diverges_of_far rep far⟩

end Muzi.SelfAppend
