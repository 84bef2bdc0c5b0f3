import Muzi.OldBuffer

/-!
The iterators of the legacy buffer against the laws of random access. Every
operator but one follows the place in the flat storage; `--` moves only from the
first byte of a block.
-/

namespace Muzi.OldBuffer.Iterator

def InRange (blocks : Nat) (it : Iterator) (n : Int) : Prop :=
  0 ≤ it.pos + n ∧ it.pos + n < (blocks * kBufferSize : Nat)

instance (blocks : Nat) (it : Iterator) (n : Int) : Decidable (InRange blocks it n) :=
  inferInstanceAs (Decidable (_ ∧ _))

/-- The operators of an iterator but for `--` agree on one line of places. -/
structure Linear (blocks : Nat) (it : Iterator) : Prop where
  lands : ∀ a, InRange blocks it a →
    ∃ there, it.advance blocks a = some there ∧ there.Valid blocks ∧ (there.pos : Int) = it.pos + a
  add_add : ∀ a b, InRange blocks it a → InRange blocks it (a + b) →
    ∃ there, (it.advance blocks a).bind (·.advance blocks b) = some there ∧
      it.advance blocks (a + b) = some there
  add_minus : ∀ a, InRange blocks it a → (it.advance blocks a).map (·.minus it) = some a
  increment : InRange blocks it 1 →
    ∃ there, it.increment blocks = some there ∧ it.advance blocks 1 = some there
  less : ∀ other, other.Valid blocks → (it.less other = true ↔ it.minus other < 0)
  atMost : ∀ other, other.Valid blocks → (it.atMost other = true ↔ it.minus other ≤ 0)

structure RandomAccess (blocks : Nat) (it : Iterator) : Prop extends Linear blocks it where
  decrement : InRange blocks it (-1) →
    ∃ there, it.decrement blocks = some there ∧ it.advance blocks (-1) = some there

variable {blocks : Nat} {it other : Iterator}

theorem eq_of_pos (inside : it.cur < kBufferSize) (within : other.cur < kBufferSize)
    (same : it.pos = other.pos) : it = other := by
  cases it with
  | mk block cur =>
      cases other with
      | mk block' cur' =>
          simp only [pos, kBufferSize] at inside within same
          rw [mk.injEq]
          omega

theorem less_iff (inside : it.cur < kBufferSize) (within : other.cur < kBufferSize) :
    it.less other = true ↔ it.pos < other.pos := by
  simp only [less, pos, kBufferSize] at *
  split <;> simp only [decide_eq_true_eq] <;> omega

theorem advance_advance (valid : it.Valid blocks) {a b : Int} (first : InRange blocks it a)
    (both : InRange blocks it (a + b)) :
    ∃ there, (it.advance blocks a).bind (·.advance blocks b) = some there ∧
      it.advance blocks (a + b) = some there := by
  obtain ⟨middle, moved, fine, reached⟩ := advance_spec valid a first.1 first.2
  obtain ⟨last, onward, arrived, place⟩ := advance_spec fine b
    (by rw [reached, Int.add_assoc]; exact both.1) (by rw [reached, Int.add_assoc]; exact both.2)
  obtain ⟨there, direct, sound, target⟩ := advance_spec valid (a + b) both.1 both.2
  have same : last = there := eq_of_pos arrived.cur sound.cur (by omega)
  refine ⟨there, ?_, direct⟩
  rw [moved, Option.bind_some, onward, same]

theorem linear_of_valid (valid : it.Valid blocks) : Linear blocks it where
  lands a range := advance_spec valid a range.1 range.2
  add_add _ _ first both := advance_advance valid first both
  add_minus a range := by
    obtain ⟨there, moved, -, reached⟩ := advance_spec valid a range.1 range.2
    rw [moved, Option.map_some, minus_eq, reached, Option.some.injEq]
    omega
  increment range := by
    obtain ⟨next, stepped, fine, following⟩ :=
      increment_spec valid (by have := range.2; omega)
    obtain ⟨there, moved, sound, reached⟩ := advance_spec valid 1 range.1 range.2
    have same : next = there := eq_of_pos fine.cur sound.cur (by omega)
    exact ⟨there, stepped.trans (congrArg some same), moved⟩
  less other fine := by
    rw [less_iff valid.cur fine.cur, minus_eq]
    omega
  atMost other fine := by
    rw [atMost_iff valid.cur fine.cur, minus_eq]
    omega

theorem decrement_first (valid : it.Valid blocks) (first : it.cur = 0)
    (range : InRange blocks it (-1)) :
    ∃ there, it.decrement blocks = some there ∧ it.advance blocks (-1) = some there := by
  have later : 0 < it.block := by
    have low := range.1
    simp only [pos, first, kBufferSize] at low
    omega
  have inside : it.block - 1 < blocks := Nat.lt_of_le_of_lt (Nat.sub_le _ _) valid.block
  obtain ⟨there, moved, sound, reached⟩ := advance_spec valid (-1) range.1 range.2
  have same : (⟨it.block - 1, kBufferSize - 1⟩ : Iterator) = there := by
    refine eq_of_pos (Nat.sub_lt (by decide) Nat.one_pos) sound.cur ?_
    simp only [pos, first, kBufferSize] at reached ⊢
    omega
  refine ⟨there, ?_, moved⟩
  rw [decrement, if_pos first, if_pos later, (ofBlock_valid inside).1, Option.map_some, same]

theorem decrement_inside (inside : it.cur ≠ 0) : it.decrement blocks = some it := if_neg inside

/-- An iterator keeps to all the laws exactly at the first byte of a block. -/
theorem randomAccess_iff (valid : it.Valid blocks) : RandomAccess blocks it ↔ it.cur = 0 := by
  constructor
  · intro laws
    apply Decidable.byContradiction
    intro inside
    have range : InRange blocks it (-1) := by
      have high := valid.pos_lt
      have behind : 1 ≤ it.pos := Nat.le_trans (Nat.pos_of_ne_zero inside) (Nat.le_add_left _ _)
      constructor <;> omega
    obtain ⟨there, stepped, moved⟩ := laws.decrement range
    obtain ⟨back, retreated, -, reached⟩ := laws.lands (-1) range
    rw [decrement_inside inside] at stepped
    cases stepped
    cases moved.symm.trans retreated
    omega
  · intro first
    exact ⟨linear_of_valid valid, decrement_first valid first⟩

theorem randomAccess_third_block : RandomAccess 3 ⟨2, 0⟩ :=
  (randomAccess_iff ⟨by decide, by decide⟩).mpr rfl

/-- `--` on the sixth byte of a block stays there; `- 1` is the fifth. -/
theorem decrement_stays : (Iterator.mk 0 5).Valid 1 ∧ InRange 1 ⟨0, 5⟩ (-1) ∧
    (Iterator.mk 0 5).decrement 1 = some ⟨0, 5⟩ ∧
    (Iterator.mk 0 5).advance 1 (-1) = some ⟨0, 4⟩ :=
  ⟨⟨by decide, by decide⟩, by decide, by decide, by decide⟩

end Muzi.OldBuffer.Iterator
