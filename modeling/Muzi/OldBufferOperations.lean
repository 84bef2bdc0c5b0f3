import Muzi.OldBuffer

/-!
What the legacy buffer's operations do to the bytes between its two iterators.
Iterators count as places of the flat storage, so block boundaries are crossed
in `advance_spec`, `copyTo_spec` and `scatter_flat` only.
-/

namespace Muzi.OldBuffer

open Storage Pages

structure Holds (b : OldBuffer) (bytes : List Byte) : Prop where
  read : b.readIndex.Valid b.bufferList.length
  write : b.writeIndex.Valid b.bufferList.length
  ordered : b.readIndex.pos ≤ b.writeIndex.pos
  bytes : ((flat b.bufferList).take b.writeIndex.pos).drop b.readIndex.pos = bytes

section Sizes
variable {b : OldBuffer} {bytes : List Byte}

theorem Holds.length (holds : Holds b bytes) :
    b.readIndex.pos + bytes.length = b.writeIndex.pos := by
  have inside := holds.write.pos_lt
  have ordered := holds.ordered
  rw [← holds.bytes, List.length_drop, List.length_take, length_flat]
  omega

theorem Holds.readableBytes (holds : Holds b bytes) : b.readableBytes = bytes.length := by
  have length := holds.length
  rw [OldBuffer.readableBytes, Iterator.minus_eq]
  omega

theorem Holds.writableBytes (holds : Holds b bytes) :
    b.writableBytes + b.writeIndex.pos + 1 = b.bufferList.length * kBufferSize := by
  have inside := holds.write.pos_lt
  have total : (Iterator.mk b.bufferList.length 0).pos = b.bufferList.length * kBufferSize :=
    Nat.add_zero _
  rw [OldBuffer.writableBytes, Iterator.minus_eq, total]
  omega

theorem getPrependableBytes_eq (b : OldBuffer) : b.getPrependableBytes = b.readIndex.pos := by
  have start : (Iterator.mk 0 0).pos = 0 := by simp [Iterator.pos]
  rw [getPrependableBytes, Iterator.minus_eq, start]
  omega

theorem Holds.window (holds : Holds b bytes) :
    ((flat b.bufferList).drop b.readIndex.pos).take bytes.length = bytes := by
  have length := holds.length
  have window := holds.bytes
  rw [List.drop_take] at window
  have count : b.writeIndex.pos - b.readIndex.pos = bytes.length := by omega
  rwa [count] at window

theorem holds_of_window (read : b.readIndex.Valid b.bufferList.length)
    (write : b.writeIndex.Valid b.bufferList.length)
    (length : b.readIndex.pos + bytes.length = b.writeIndex.pos)
    (window : ((flat b.bufferList).drop b.readIndex.pos).take bytes.length = bytes) :
    Holds b bytes := by
  refine ⟨read, write, by omega, ?_⟩
  have count : b.writeIndex.pos - b.readIndex.pos = bytes.length := by omega
  rw [List.drop_take, count, window]

end Sizes

section Ends
variable {b : OldBuffer} {bytes : List Byte}

theorem Holds.advanceRead (holds : Holds b bytes) (len : Nat) (available : len ≤ bytes.length) :
    ∃ index, b.readIndex.advance b.bufferList.length len = some index ∧
      index.pos = b.readIndex.pos + len ∧ index.cur < kBufferSize ∧
      Holds { b with readIndex := index } (bytes.drop len) := by
  have length := holds.length
  have inside := holds.write.pos_lt
  obtain ⟨index, moved, valid, reached⟩ :=
    Iterator.advance_spec holds.read len (by omega) (by omega)
  have place : index.pos = b.readIndex.pos + len := by omega
  refine ⟨index, moved, place, valid.cur, valid, holds.write, by dsimp only; omega, ?_⟩
  dsimp only
  rw [place, ← List.drop_drop, holds.bytes]

theorem Holds.retreatWrite (holds : Holds b bytes) (len : Nat) (available : len ≤ bytes.length) :
    ∃ index, b.writeIndex.advance b.bufferList.length (-len) = some index ∧
      Holds { b with writeIndex := index } (bytes.take (bytes.length - len)) := by
  have length := holds.length
  have inside := holds.write.pos_lt
  obtain ⟨index, moved, valid, reached⟩ :=
    Iterator.advance_spec holds.write (-len) (by omega) (by omega)
  refine ⟨index, moved, holds.read, valid, by dsimp only; omega, ?_⟩
  dsimp only
  have shorter : index.pos - b.readIndex.pos = min (bytes.length - len) bytes.length := by omega
  rw [List.drop_take, shorter, ← List.take_take, holds.window]

theorem Holds.grow (holds : Holds b bytes) {blocks : List BufferBlock} {data : List Byte}
    (same : blocks.length = b.bufferList.length)
    (copied : flat blocks = overwrite (flat b.bufferList) b.writeIndex.pos data)
    (fits : data.length ≤ b.writableBytes) :
    ∃ index, b.writeIndex.advance blocks.length data.length = some index ∧
      Holds { b with bufferList := blocks, writeIndex := index } (bytes ++ data) := by
  have room := holds.writableBytes
  have ordered := holds.ordered
  have write := holds.write
  have read := holds.read
  rw [← same] at write read room
  obtain ⟨index, moved, valid, reached⟩ :=
    Iterator.advance_spec write data.length (by omega) (by omega)
  have place : index.pos = b.writeIndex.pos + data.length := by omega
  refine ⟨index, moved, read, valid, by dsimp only; omega, ?_⟩
  have inside : b.writeIndex.pos ≤ (flat b.bufferList).length := by
    rw [length_flat, ← same]
    omega
  dsimp only
  rw [copied, place, take_overwrite _ _ _ inside, List.drop_append_of_le_length, holds.bytes]
  rw [List.length_take]
  omega

theorem resetIndex_holds (nonempty : 0 < b.bufferList.length) :
    ∃ after, b.resetIndex = some after ∧ Holds after [] := by
  obtain ⟨made, fine⟩ := Iterator.ofBlock_valid nonempty
  have start : (Iterator.mk 0 0).pos = 0 := by simp [Iterator.pos]
  obtain ⟨index, moved, valid, reached⟩ := Iterator.advance_spec fine kCheapPrepend
    (by rw [start]; decide) (by rw [start]; simp only [kCheapPrepend, kBufferSize]; omega)
  refine ⟨{ b with readIndex := index, writeIndex := index }, ?_, valid, valid, Nat.le_refl _, ?_⟩
  · simp only [resetIndex, made, moved, Option.bind_eq_bind, Option.bind_some]
  · exact List.drop_eq_nil_of_le (by rw [List.length_take]; exact Nat.min_le_left _ _)

end Ends

theorem init_holds {initialBufferNum : Nat} (positive : 0 < initialBufferNum) :
    ∃ b, init initialBufferNum = some b ∧ Holds b [] := by
  apply resetIndex_holds
  rw [allocateBuffer, List.length_replicate]
  exact positive

/-! Draining and taking back. -/

section Draining
variable {b : OldBuffer} {bytes : List Byte}

theorem retrive_holds (holds : Holds b bytes) (len : Nat) (available : len ≤ bytes.length) :
    ∃ after, b.retrive len = some after ∧ Holds after (bytes.drop len) := by
  have count := holds.readableBytes
  rw [retrive, count, if_pos available]
  by_cases part : len < bytes.length
  · obtain ⟨index, moved, -, -, rest⟩ := holds.advanceRead len available
    exact ⟨_, by rw [if_pos part, moved, Option.map_some], rest⟩
  · have nonempty : 0 < b.bufferList.length := Nat.zero_lt_of_lt holds.read.block
    obtain ⟨after, reset, empty⟩ := resetIndex_holds nonempty
    rw [List.drop_eq_nil_of_le (by omega)]
    exact ⟨after, by rw [if_neg part, reset], empty⟩

theorem retriveAll_holds (holds : Holds b bytes) :
    ∃ after, b.retriveAll = some after ∧ Holds after [] :=
  resetIndex_holds (Nat.zero_lt_of_lt holds.read.block)

theorem Holds.between (holds : Holds b bytes) {util : Iterator} {len : Nat}
    (place : util.pos = b.readIndex.pos + len) (inside : util.cur < kBufferSize)
    (available : len ≤ bytes.length) :
    (util.atMost b.writeIndex && b.readIndex.atMost util) = true ∧
      (util.minus b.readIndex).toNat = len := by
  have length := holds.length
  rw [Bool.and_eq_true, Iterator.atMost_iff inside holds.write.cur,
    Iterator.atMost_iff holds.read.cur inside, Iterator.minus_eq]
  omega

theorem retriveUtil_holds (holds : Holds b bytes) {util : Iterator} {len : Nat}
    (place : util.pos = b.readIndex.pos + len) (inside : util.cur < kBufferSize)
    (available : len ≤ bytes.length) :
    ∃ after, b.retriveUtil util = some after ∧ Holds after (bytes.drop len) := by
  obtain ⟨asserted, count⟩ := holds.between place inside available
  rw [retriveUtil, if_pos asserted, count]
  exact retrive_holds holds len available

theorem copyFrom_holds (holds : Holds b bytes) (len : Nat) (available : len ≤ bytes.length) :
    copyFrom b.bufferList len b.readIndex = some (bytes.take len) := by
  have length := holds.length
  have inside := holds.write.pos_lt
  have window := holds.window
  rw [copyFrom_spec holds.read len (by omega), ← window, List.take_take, Nat.min_eq_left available]

theorem retriveAsStringUtil_holds (holds : Holds b bytes) {util : Iterator} {len : Nat}
    (place : util.pos = b.readIndex.pos + len) (inside : util.cur < kBufferSize)
    (available : len ≤ bytes.length) :
    ∃ after, b.retriveAsStringUtil util = some (after, bytes.take len) ∧
      Holds after (bytes.drop len) := by
  obtain ⟨asserted, count⟩ := holds.between place inside available
  obtain ⟨after, retrived, rest⟩ := retriveUtil_holds holds place inside available
  refine ⟨after, ?_, rest⟩
  rw [retriveAsStringUtil, if_pos asserted, count]
  simp only [copyFrom_holds holds len available, retrived, Option.bind_eq_bind, Option.bind_some]

theorem retriveAsString_holds (holds : Holds b bytes) (len : Nat) (available : len ≤ bytes.length) :
    ∃ after, b.retriveAsString len = some (after, bytes.take len) ∧
      Holds after (bytes.drop len) := by
  obtain ⟨util, moved, place, inside, -⟩ := holds.advanceRead len available
  rw [retriveAsString, moved, Option.bind_some]
  exact retriveAsStringUtil_holds holds place inside available

theorem retriveAllAsString_holds (holds : Holds b bytes) :
    ∃ after, b.retriveAllAsString = some (after, bytes) ∧ Holds after [] := by
  have all := retriveAsStringUtil_holds holds holds.length.symm holds.write.cur (Nat.le_refl _)
  rwa [List.take_length, List.drop_length] at all

theorem peekAllAsString_holds (holds : Holds b bytes) : b.peekAllAsString = some bytes := by
  have count := holds.readableBytes
  rw [OldBuffer.readableBytes] at count
  rw [peekAllAsString, count, copyFrom_holds holds _ (Nat.le_refl _), List.take_length]

theorem unWrite_holds (holds : Holds b bytes) (len : Nat) (available : len ≤ bytes.length) :
    ∃ after, b.unWrite len = some after ∧ Holds after (bytes.take (bytes.length - len)) := by
  obtain ⟨index, moved, rest⟩ := holds.retreatWrite len available
  exact ⟨_, by rw [unWrite, holds.readableBytes, if_pos available, moved, Option.map_some], rest⟩

theorem prepend_holds (holds : Holds b bytes) (data : List Byte)
    (room : data.length ≤ b.getPrependableBytes) :
    ∃ after, b.prepend data = some after ∧ Holds after (data ++ bytes) := by
  have length := holds.length
  have inside := holds.write.pos_lt
  have before := room
  rw [getPrependableBytes_eq] at before
  obtain ⟨index, moved, valid, reached⟩ :=
    Iterator.advance_spec holds.read (-data.length) (by omega) (by omega)
  have place : index.pos + data.length = b.readIndex.pos := by omega
  obtain ⟨copied, ran, same, flatCopied⟩ := copyTo_spec valid data (by omega)
  refine ⟨{ b with bufferList := copied, readIndex := index }, ?_, ?_⟩
  · simp only [prepend, room, moved, ran, ↓reduceIte, Option.bind_eq_bind, Option.bind_some]
  · rw [← same] at valid
    have write := holds.write
    rw [← same] at write
    refine holds_of_window valid write (by rw [List.length_append]; dsimp only; omega) ?_
    have front : ((flat b.bufferList).take index.pos).length = index.pos := by
      rw [List.length_take, length_flat]
      omega
    dsimp only
    rw [flatCopied, overwrite, List.append_assoc, List.drop_left' front, List.length_append,
      List.take_length_add_append, place, holds.window]

end Draining

/-! `ExtendSpace`. -/

theorem toInt_of_lt {value : Int} (low : 0 ≤ value) (high : value < 0x80000000) :
    toInt value = value := by
  rw [toInt, Int.bmod_def]
  split <;> omega

/-- Live blocks that go to an earlier slot keep their order, whatever they are
swapped with. -/
theorem swapBlocks_spec (count : Nat) {left idle : Nat} (blocks : List BufferBlock)
    (lower : idle < left) (inside : left + count ≤ blocks.length) :
    ∃ moved, swapBlocks count left idle blocks = some moved ∧ moved.length = blocks.length ∧
      (∀ i < idle, moved[i]? = blocks[i]?) ∧
      ∀ i < count, moved[idle + i]? = blocks[left + i]? := by
  induction count generalizing left idle blocks with
  | zero => exact ⟨blocks, rfl, rfl, fun _ _ => rfl, fun _ none => absurd none (Nat.not_lt_zero _)⟩
  | succ count ih =>
      have leftFound : blocks[left]? = some (blocks.get ⟨left, by omega⟩) :=
        List.getElem?_eq_getElem (by omega)
      have idleFound : blocks[idle]? = some (blocks.get ⟨idle, by omega⟩) :=
        List.getElem?_eq_getElem (by omega)
      generalize swapped : (blocks.set left (blocks.get ⟨idle, by omega⟩)).set idle
        (blocks.get ⟨left, by omega⟩) = once
      have length : once.length = blocks.length := by simp [← swapped]
      have other : ∀ i, i ≠ idle → i ≠ left → once[i]? = blocks[i]? := by
        intro i apart further
        rw [← swapped, List.getElem?_set_ne (Ne.symm apart), List.getElem?_set_ne (Ne.symm further)]
      have landed : once[idle]? = blocks[left]? := by
        rw [← swapped, List.getElem?_set_self (by simp; omega), leftFound]
      obtain ⟨moved, ran, sameLength, front, later⟩ :=
        ih once (Nat.succ_lt_succ lower) (by omega)
      refine ⟨moved, ?_, sameLength.trans length, fun i low => ?_, fun i high => ?_⟩
      · simp only [swapBlocks, leftFound, idleFound, swapped, ran, Option.bind_eq_bind,
          Option.bind_some]
      · rw [front i (by omega), other i (by omega) (by omega)]
      · cases i with
        | zero => rw [Nat.add_zero, Nat.add_zero, front idle (Nat.lt_succ_self _), landed]
        | succ i =>
            have rest := later i (by omega)
            rw [show idle + (i + 1) = idle + 1 + i by omega, rest,
              other _ (by omega) (by omega), show left + 1 + i = left + (i + 1) by omega]

theorem place_spec {blocks : List BufferBlock} {readIndex readOffset offset writeOffset : Nat}
    (inside : readIndex + offset < blocks.length) (readFits : readOffset < kBufferSize)
    (writeFits : writeOffset < kBufferSize) :
    place blocks readIndex readOffset offset writeOffset =
      some ⟨blocks, ⟨readIndex, readOffset⟩, ⟨readIndex + offset, writeOffset⟩⟩ := by
  have stays : ∀ block cur : Nat, cur < kBufferSize →
      (Iterator.mk block 0).advance blocks.length cur = some ⟨block, cur⟩ := by
    intro block cur fits
    have within : 0 ≤ (cur : Int) + (0 : Nat) ∧ (cur : Int) + (0 : Nat) < kBufferSize := by omega
    rw [Iterator.advance, if_pos within]
    simp
  have read := (Iterator.ofBlock_valid (by omega : readIndex < blocks.length)).1
  have write := (Iterator.ofBlock_valid inside).1
  simp only [place, read, write, stays _ _ readFits, stays _ _ writeFits, Option.bind_eq_bind,
    Option.bind_some]

theorem Iterator.pos_shift {read write : Iterator} (order : read.block ≤ write.block)
    (slot : Nat) :
    (Iterator.mk slot read.cur).pos + write.pos =
      (Iterator.mk (slot + (write.block - read.block)) write.cur).pos + read.pos := by
  simp only [Iterator.pos, kBufferSize]
  omega

section Extending
variable {b : OldBuffer} {bytes : List Byte}

theorem Holds.block_le (holds : Holds b bytes) : b.readIndex.block ≤ b.writeIndex.block := by
  have ordered := holds.ordered
  have write := holds.write.cur
  simp only [Iterator.pos, kBufferSize] at ordered write
  omega

theorem Holds.moved (holds : Holds b bytes) {blocks : List BufferBlock} {slot : Nat}
    (inside : slot + (b.writeIndex.block - b.readIndex.block) < blocks.length)
    (same : ∀ i < b.writeIndex.block + 1 - b.readIndex.block,
      blocks[slot + i]? = b.bufferList[b.readIndex.block + i]?) :
    Holds ⟨blocks, ⟨slot, b.readIndex.cur⟩,
      ⟨slot + (b.writeIndex.block - b.readIndex.block), b.writeIndex.cur⟩⟩ bytes := by
  have length := holds.length
  have order := holds.block_le
  have write := holds.write.cur
  generalize blockCount : b.writeIndex.block + 1 - b.readIndex.block = count at same
  have span : b.readIndex.cur + bytes.length ≤ count * kBufferSize := by
    simp only [Iterator.pos, kBufferSize] at length write ⊢
    omega
  have windows : (blocks.drop slot).take count =
      (b.bufferList.drop b.readIndex.block).take count := by
    apply List.ext_getElem?
    intro i
    rw [List.getElem?_take, List.getElem?_take]
    split
    · rename_i within
      rw [List.getElem?_drop, List.getElem?_drop, same i within]
    · rfl
  have slotInside : slot < blocks.length := by omega
  refine holds_of_window ⟨slotInside, holds.read.cur⟩ ⟨inside, write⟩ ?_ ?_
  · have shift := Iterator.pos_shift order slot
    dsimp only
    omega
  · have window := holds.window
    rw [Iterator.pos, window_flat _ _ _ _ _ span] at window
    dsimp only [Iterator.pos]
    rw [window_flat _ _ _ _ _ span, windows, window]

theorem Holds.roomier {after : OldBuffer} (holds : Holds b bytes) (later : Holds after bytes)
    (cur : after.writeIndex.cur = b.writeIndex.cur)
    (more : after.writeIndex.block + b.bufferList.length <
      b.writeIndex.block + after.bufferList.length)
    (lower : after.writeIndex.block ≤ b.writeIndex.block) :
    after.writeIndex.pos ≤ b.writeIndex.pos ∧ b.writableBytes < after.writableBytes := by
  have room := holds.writableBytes
  have roomAfter := later.writableBytes
  simp only [Iterator.pos, kBufferSize] at room roomAfter ⊢
  omega

def frontSlot (b : OldBuffer) : Nat := if b.readIndex.cur ≥ kCheapPrepend then 0 else 1

/-- The two branches of `ExtendSpace`. -/
def toFront (b : OldBuffer) : Option OldBuffer :=
  (swapBlocks (b.writeIndex.block + 1 - b.readIndex.block) b.readIndex.block b.frontSlot
    b.bufferList).bind fun moved =>
      place moved b.frontSlot b.readIndex.cur (b.writeIndex.block - b.readIndex.block)
        b.writeIndex.cur

def doubled (b : OldBuffer) : Option OldBuffer :=
  place (b.bufferList ++ allocateBuffer b.bufferList.length) b.readIndex.block b.readIndex.cur
    (b.writeIndex.block - b.readIndex.block) b.writeIndex.cur

/-- `buffers_to_use` for a request of `len` bytes more than there is room for. -/
def buffersToUse (b : OldBuffer) (len : Nat) : Int :=
  toInt ((b.bufferList.length : Int) - b.readIndex.block +
    toInt (((len - 1) / kBufferSize + 1 : Nat) : Int))

theorem extendSpace_eq (b : OldBuffer) (len : Nat) :
    b.extendSpace len =
      if -0x80000000 ≤ 2 * b.buffersToUse len ∧ 2 * b.buffersToUse len < 0x80000000 then
        if b.bufferList.length > toSize (2 * b.buffersToUse len) then b.toFront else b.doubled
      else none := rfl

theorem frontSlot_le (b : OldBuffer) : b.frontSlot ≤ 1 := by
  unfold frontSlot
  split <;> decide

theorem Holds.toFront (holds : Holds b bytes) (lower : b.frontSlot < b.readIndex.block) :
    ∃ after, b.toFront = some after ∧ Holds after bytes ∧
      after.bufferList.length = b.bufferList.length ∧
      after.readIndex = ⟨b.frontSlot, b.readIndex.cur⟩ ∧
      after.writeIndex =
        ⟨b.frontSlot + (b.writeIndex.block - b.readIndex.block), b.writeIndex.cur⟩ := by
  have writeBlock := holds.write.block
  have order := holds.block_le
  obtain ⟨moved, ran, same, -, landed⟩ := swapBlocks_spec
    (b.writeIndex.block + 1 - b.readIndex.block) b.bufferList lower (by omega)
  have inside : b.frontSlot + (b.writeIndex.block - b.readIndex.block) < moved.length := by omega
  refine ⟨_, ?_, holds.moved inside landed, same, rfl, rfl⟩
  rw [OldBuffer.toFront, ran, Option.bind_some, place_spec inside holds.read.cur holds.write.cur]

theorem Holds.doubled (holds : Holds b bytes) :
    ∃ after, b.doubled = some after ∧ Holds after bytes ∧
      after.bufferList.length = b.bufferList.length + b.bufferList.length ∧
      after.readIndex = b.readIndex ∧ after.writeIndex = b.writeIndex := by
  have writeBlock := holds.write.block
  have order := holds.block_le
  have grown : (b.bufferList ++ allocateBuffer b.bufferList.length).length =
      b.bufferList.length + b.bufferList.length := by
    rw [List.length_append, allocateBuffer, List.length_replicate]
  have inside : b.readIndex.block + (b.writeIndex.block - b.readIndex.block) <
      (b.bufferList ++ allocateBuffer b.bufferList.length).length := by omega
  refine ⟨_, place_spec inside holds.read.cur holds.write.cur,
    holds.moved inside fun i within => List.getElem?_append_left (by omega), grown, rfl, ?_⟩
  dsimp only
  rw [Nat.add_sub_cancel' order]

end Extending

/-! Appending. -/

/-- `EnsureWritableBytes` makes room, and leaves the contents. -/
def Grows (b : OldBuffer) (bytes : List Byte) (len : Nat) : Prop :=
  ∃ after, b.ensureWritableBytes len = some after ∧ Holds after bytes ∧ len ≤ after.writableBytes

section Appending
variable {b : OldBuffer} {bytes : List Byte}

theorem append_holds (data : List Byte) (grows : b.Grows bytes data.length) :
    ∃ after, b.append data = some after ∧ Holds after (bytes ++ data) := by
  obtain ⟨ready, ensured, still, enough⟩ := grows
  have room := still.writableBytes
  obtain ⟨copied, ran, same, flatCopied⟩ := copyTo_spec still.write data (by omega)
  obtain ⟨index, moved, grown⟩ := still.grow same flatCopied enough
  refine ⟨_, ?_, grown⟩
  simp only [append, ensured, ran, moved, Option.bind_eq_bind, Option.bind_some]

end Appending

/-! `ReadFd` and `WriteFd`. -/

theorem shortenLast_concat (parts : List Part) (last : Part) :
    shortenLast (parts ++ [last]) = parts ++ [{ last with len := last.len - 1 }] := by
  induction parts with
  | nil => rfl
  | cons part rest ih =>
      cases rest with
      | nil => rfl
      | cons other rest =>
          rw [List.cons_append, List.cons_append, shortenLast, ← List.cons_append, ih]
          rfl

section Files
variable {b : OldBuffer} {bytes : List Byte}

theorem readParts_chain (holds : Holds b bytes) :
    Chain kBufferSize b.bufferList.length b.writeIndex.pos b.readParts ∧
      lengths b.readParts = b.writableBytes ∧
      b.readParts.length = b.bufferList.length - b.writeIndex.block := by
  have block := holds.write.block
  have cur := holds.write.cur
  have room := holds.writableBytes
  obtain ⟨count, blocks⟩ : ∃ count, b.bufferList.length = b.writeIndex.block + 1 + count :=
    ⟨_, (Nat.add_sub_of_le block).symm⟩
  have behind : b.bufferList.length - (b.writeIndex.block + 1) = count := by omega
  rw [readParts, behind]
  cases count with
  | zero =>
      refine ⟨⟨block, by dsimp only; omega, rfl, trivial⟩, ?_, ?_⟩
      · rw [blocks] at room
        simp only [whole, List.range'_zero, List.map_nil, shortenLast, lengths_cons, lengths_nil]
        simp only [Iterator.pos, kBufferSize] at room cur ⊢
        omega
      · simp only [whole, List.range'_zero, List.map_nil, shortenLast, List.length_singleton]
        omega
  | succ count =>
      rw [whole_succ, ← List.cons_append, shortenLast_concat, List.cons_append]
      refine ⟨⟨block, by dsimp only; omega, rfl, ?_⟩, ?_, ?_⟩
      · have next : b.writeIndex.pos + (kBufferSize - b.writeIndex.cur) =
            (b.writeIndex.block + 1) * kBufferSize := by
          rw [Iterator.pos, Nat.add_mul, Nat.one_mul]
          omega
        dsimp only
        rw [next]
        exact chain_whole_append (by omega) (Nat.sub_le _ _)
      · rw [blocks] at room
        simp only [lengths_cons, lengths_append, lengths_nil, lengths_whole]
        simp only [Iterator.pos, kBufferSize] at room cur ⊢
        omega
      · simp only [List.length_cons, List.length_append, length_whole, List.length_nil]
        omega

theorem readFd_error (holds : Holds b bytes)
    (few : b.bufferList.length - b.writeIndex.block < 0x80000000) (errno : Nat) :
    b.readFd (.error errno) = some b := by
  obtain ⟨-, room, count⟩ := readParts_chain holds
  have fits : toInt b.readParts.length = b.readParts.length := toInt_of_lt (by omega) (by omega)
  rw [readFd, if_pos ⟨fits, room⟩]

def full (b : OldBuffer) : OldBuffer :=
  { b with writeIndex := ⟨b.bufferList.length - 1, kBufferSize - 1⟩ }

theorem readFd_holds (holds : Holds b bytes) (data : List Byte)
    (few : b.bufferList.length - b.writeIndex.block < 0x80000000)
    (answer : data.length ≤ b.writableBytes + kExtraBufferSize)
    (grows : data.length ≤ b.writableBytes ∨ ∀ blocks other, blocks.length = b.bufferList.length →
      Holds { b.full with bufferList := blocks } other →
        Grows { b.full with bufferList := blocks } other (data.length - b.writableBytes)) :
    ∃ after, b.readFd (.bytes data) = some after ∧ Holds after (bytes ++ data) := by
  obtain ⟨chain, room, count⟩ := readParts_chain holds
  have fits : toInt b.readParts.length = b.readParts.length := toInt_of_lt (by omega) (by omega)
  obtain ⟨filled, ran, same, flatFilled⟩ := scatter_flat chain
    (by rw [room]; exact List.length_take_le _ _ : (data.take b.writableBytes).length ≤ _)
  rw [readFd, if_pos ⟨fits, room⟩, room, if_pos answer]
  by_cases inside : data.length ≤ b.writableBytes
  · rw [List.take_of_length_le inside] at flatFilled ran
    obtain ⟨index, moved, grown⟩ := holds.grow same flatFilled inside
    refine ⟨_, ?_, grown⟩
    simp only [List.take_of_length_le inside, ran, inside, moved, ↓reduceIte, Option.bind_eq_bind,
      Option.bind_some]
  · have taken : (data.take b.writableBytes).length = b.writableBytes :=
      List.length_take_of_le (by omega)
    obtain ⟨index, moved, grown⟩ := holds.grow same flatFilled (Nat.le_of_eq taken)
    rw [taken] at moved
    -- the write index is at the position that is kept
    have last : index = ⟨b.bufferList.length - 1, kBufferSize - 1⟩ := by
      have before := holds.length
      have behind := grown.length
      have free := holds.writableBytes
      have block := grown.write.block
      have cur := grown.write.cur
      rw [List.length_append, taken] at behind
      rw [same] at block
      have both : index.block = b.bufferList.length - 1 ∧ index.cur = kBufferSize - 1 := by
        simp only [Iterator.pos, kBufferSize] at *
        omega
      rw [← both.1, ← both.2]
    subst last
    have rest : (data.drop b.writableBytes).length = data.length - b.writableBytes :=
      List.length_drop
    obtain ⟨after, appended, final⟩ := append_holds (data.drop b.writableBytes)
      (rest ▸ (grows.resolve_left inside) filled _ same grown)
    refine ⟨after, ?_, ?_⟩
    · rw [full] at appended
      simp only [ran, inside, moved, appended, ↓reduceIte, Option.bind_eq_bind, Option.bind_some]
    · rwa [List.append_assoc, List.take_append_drop] at final

theorem writeParts_chain (holds : Holds b bytes) :
    Chain kBufferSize b.bufferList.length b.readIndex.pos b.writeParts ∧
      lengths b.writeParts = bytes.length ∧
      b.writeParts.length = b.writeIndex.block - b.readIndex.block + 1 := by
  have length := holds.length
  have order := holds.block_le
  have readBlock := holds.read.block
  have writeBlock := holds.write.block
  have readCur := holds.read.cur
  have writeCur := holds.write.cur
  have count := holds.readableBytes
  rw [OldBuffer.readableBytes] at count
  rw [writeParts, count]
  split
  · rename_i same
    have within : b.readIndex.cur + bytes.length = b.writeIndex.cur := by
      rw [Iterator.pos, Iterator.pos, same] at length
      omega
    refine ⟨⟨readBlock, by dsimp only; omega, rfl, trivial⟩, by simp, ?_⟩
    rw [List.length_singleton]
    omega
  · rename_i apart
    obtain ⟨between, last⟩ : ∃ between, b.writeIndex.block = b.readIndex.block + 1 + between :=
      ⟨_, (Nat.add_sub_of_le (by omega : b.readIndex.block + 1 ≤ b.writeIndex.block)).symm⟩
    have passed : b.writeIndex.block - (b.readIndex.block + 1) = between := by omega
    rw [passed]
    refine ⟨⟨readBlock, by dsimp only; omega, rfl, ?_⟩, ?_, ?_⟩
    · have next : b.readIndex.pos + (kBufferSize - b.readIndex.cur) =
          (b.readIndex.block + 1) * kBufferSize := by
        rw [Iterator.pos, Nat.add_mul, Nat.one_mul]
        omega
      dsimp only
      rw [next, last]
      exact chain_whole_append (by omega) (Nat.le_of_lt writeCur)
    · simp only [lengths_cons, lengths_append, lengths_nil, lengths_whole]
      simp only [Iterator.pos, kBufferSize, last] at length readCur ⊢
      omega
    · simp only [List.length_cons, List.length_append, length_whole, List.length_nil]
      omega

theorem writeFd_error (holds : Holds b bytes)
    (few : b.writeIndex.block - b.readIndex.block + 1 < 0x80000000) (errno : Nat) :
    b.writeFd (.error errno) = some (b, []) := by
  obtain ⟨-, -, count⟩ := writeParts_chain holds
  have fits : toInt b.writeParts.length = b.writeParts.length := toInt_of_lt (by omega) (by omega)
  rw [writeFd, if_pos fits]

theorem writeFd_holds (holds : Holds b bytes)
    (few : b.writeIndex.block - b.readIndex.block + 1 < 0x80000000) (n : Nat)
    (answer : n ≤ bytes.length) :
    ∃ after, b.writeFd (.count n) = some (after, bytes.take n) ∧ Holds after (bytes.drop n) := by
  obtain ⟨chain, offered, count⟩ := writeParts_chain holds
  have fits : toInt b.writeParts.length = b.writeParts.length := toInt_of_lt (by omega) (by omega)
  have gathered : gather b.bufferList b.writeParts = some bytes := by
    rw [gather_flat chain, offered, holds.window]
  obtain ⟨index, moved, -, -, rest⟩ := holds.advanceRead n answer
  refine ⟨_, ?_, rest⟩
  rw [writeFd, if_pos fits]
  simp only [gathered, answer, moved, ↓reduceIte, Option.bind_eq_bind, Option.bind_some]

end Files

end Muzi.OldBuffer
