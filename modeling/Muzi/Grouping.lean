import Mathlib.Data.List.Basic

/-!
Lists in which all entries with the same tag stand one behind another. What a list of
tagged pieces keeps together is stated on its tags, with sublists: nothing with another tag
stands between two entries with the same one.
-/

namespace Muzi.Grouping

universe u v
variable {Tag : Type u} {Data : Type v}

def Grouped (tags : List Tag) : Prop := ∀ i j, [i, j, i].Sublist tags → j = i

theorem Grouped.sublist {tags fewer : List Tag} (grouped : Grouped tags)
    (sublist : fewer.Sublist tags) : Grouped fewer :=
  fun i j found => grouped i j (found.trans sublist)

theorem mem_of_between {front back : List Tag} {i x : Tag} (first : x ∉ front)
    (last : x ∉ back) (found : [i, x, i].Sublist (front ++ x :: back)) :
    i ∈ front ∧ i ∈ back := by
  obtain ⟨one, two, split, inFront, inBack⟩ := List.sublist_append_iff.mp found
  cases one with
  | nil =>
      rw [List.nil_append] at split
      subst split
      cases inBack with
      | cons _ later => exact absurd (later.subset (by simp)) last
      | cons_cons _ later => exact absurd (later.subset (by simp)) last
  | cons a one =>
      obtain ⟨rfl, rest⟩ := List.cons.inj split
      refine ⟨inFront.subset List.mem_cons_self, ?_⟩
      cases one with
      | nil =>
          change [x, i] = two at rest
          subst rest
          cases inBack with
          | cons _ later => exact absurd (later.subset List.mem_cons_self) last
          | cons_cons _ later => exact later.subset List.mem_cons_self
      | cons b one =>
          obtain ⟨rfl, -⟩ := List.cons.inj rest
          exact absurd (inFront.subset (by simp)) first

theorem grouped_insert {front back : List Tag} {x : Tag} (first : x ∉ front) (last : x ∉ back) :
    Grouped (front ++ x :: back) ↔ Grouped (front ++ back) ∧ ∀ i ∈ front, i ∉ back := by
  classical
  constructor
  · intro grouped
    refine ⟨grouped.sublist ((List.sublist_cons_self x back).append_left front), ?_⟩
    intro i before behind
    have parted : [i, x, i].Sublist (front ++ x :: back) :=
      (List.singleton_sublist.mpr before).append
        (List.Sublist.cons_cons x (List.singleton_sublist.mpr behind))
    exact first (grouped i x parted ▸ before)
  · rintro ⟨grouped, apart⟩ i j found
    by_cases inserted : j = x
    · subst inserted
      obtain ⟨before, behind⟩ := mem_of_between first last found
      exact absurd behind (apart i before)
    · have other : i ≠ x := by
        rintro rfl
        have twice := found.count_le i
        simp [List.count_eq_zero.mpr first, List.count_eq_zero.mpr last, inserted] at twice
      have kept := found.filter fun tag => !decide (tag = x)
      have frontKept : front.filter (fun tag => !decide (tag = x)) = front :=
        List.filter_eq_self.mpr fun tag member => by
          simpa using fun same : tag = x => first (same ▸ member)
      have backKept : back.filter (fun tag => !decide (tag = x)) = back :=
        List.filter_eq_self.mpr fun tag member => by
          simpa using fun same : tag = x => last (same ▸ member)
      simp only [List.filter_append, List.filter_cons, frontKept, backKept, other, inserted,
        decide_true, decide_false, Bool.not_true, Bool.not_false, List.filter_nil, if_true,
        Bool.false_eq_true, if_false] at kept
      exact grouped i j kept

theorem sublist_of_stutter {front back tags : List Tag} {x : Tag}
    (different : tags.IsChain (· ≠ ·)) (found : tags.Sublist (front ++ x :: x :: back)) :
    tags.Sublist (front ++ x :: back) := by
  induction front generalizing tags with
  | nil =>
      cases found with
      | cons _ later => exact later
      | cons_cons _ later =>
          cases later with
          | cons _ later => exact later.cons_cons x
          | cons_cons _ later => exact absurd rfl (List.isChain_cons_cons.mp different).1
  | cons tag front ih =>
      cases found with
      | cons _ later => exact (ih different later).cons tag
      | cons_cons _ later => exact (ih different.of_cons later).cons_cons tag

theorem grouped_stutter {front back : List Tag} {x : Tag} :
    Grouped (front ++ x :: x :: back) ↔ Grouped (front ++ x :: back) := by
  constructor
  · intro grouped
    exact grouped.sublist ((List.sublist_cons_self x (x :: back)).append_left front)
  · intro grouped i j found
    by_cases same : j = i
    · exact same
    · have different : [i, j, i].IsChain (· ≠ ·) := by simp [same, Ne.symm same]
      exact grouped i j (sublist_of_stutter different found)

theorem grouped_insert_replicate {front back : List Tag} {x : Tag} (first : x ∉ front)
    (last : x ∉ back) (n : Nat) :
    Grouped (front ++ (List.replicate (n + 1) x ++ back)) ↔
      Grouped (front ++ back) ∧ ∀ i ∈ front, i ∉ back := by
  induction n with
  | zero => exact grouped_insert first last
  | succ n ih =>
      rw [← ih]
      exact grouped_stutter

section Infix

variable [DecidableEq Tag]

def piecesOf (i : Tag) (pieces : List (Tag × Data)) : List (Tag × Data) :=
  pieces.filter fun piece => piece.1 = i

theorem piecesOf_mine {i : Tag} {piece : Tag × Data} (mine : piece.1 = i)
    (rest : List (Tag × Data)) : piecesOf i (piece :: rest) = piece :: piecesOf i rest :=
  List.filter_cons_of_pos (decide_eq_true mine)

theorem piecesOf_other {i : Tag} {piece : Tag × Data} (other : piece.1 ≠ i)
    (rest : List (Tag × Data)) : piecesOf i (piece :: rest) = piecesOf i rest :=
  List.filter_cons_of_neg (by simpa using other)

theorem piecesOf_append (i : Tag) (front back : List (Tag × Data)) :
    piecesOf i (front ++ back) = piecesOf i front ++ piecesOf i back :=
  List.filter_append ..

theorem piecesOf_eq_nil {i : Tag} {pieces : List (Tag × Data)} :
    piecesOf i pieces = [] ↔ i ∉ pieces.map Prod.fst := by
  rw [piecesOf, List.filter_eq_nil_iff, List.mem_map]
  constructor
  · rintro none ⟨piece, member, mine⟩
    exact none piece member (decide_eq_true mine)
  · rintro none piece member mine
    exact none ⟨piece, member, of_decide_eq_true mine⟩

theorem piecesOf_eq_self {i : Tag} {pieces : List (Tag × Data)}
    (mine : ∀ piece ∈ pieces, piece.1 = i) : piecesOf i pieces = pieces :=
  List.filter_eq_self.mpr fun piece member => decide_eq_true (mine piece member)

/-- Behind a piece with tag `i` all others with this tag follow at once. -/
theorem piecesOf_isPrefix {i : Tag} {pieces : List (Tag × Data)}
    (grouped : Grouped (i :: pieces.map Prod.fst)) : piecesOf i pieces <+: pieces := by
  induction pieces with
  | nil => exact List.prefix_rfl
  | cons piece rest ih =>
      by_cases mine : piece.1 = i
      · rw [piecesOf_mine mine]
        apply (List.prefix_cons_inj piece).mpr
        exact ih (grouped.sublist ((List.sublist_cons_self piece.1 _).cons_cons i))
      · have none : piecesOf i rest = [] := by
          rw [piecesOf_eq_nil]
          intro again
          have parted : [i, piece.1, i].Sublist (i :: piece.1 :: rest.map Prod.fst) :=
            ((List.singleton_sublist.mpr again).cons_cons _).cons_cons _
          exact mine (grouped i piece.1 parted)
        rw [piecesOf_other mine, none]
        exact List.nil_prefix

theorem grouped_iff_infix {pieces : List (Tag × Data)} :
    Grouped (pieces.map Prod.fst) ↔ ∀ i, piecesOf i pieces <:+: pieces := by
  constructor
  · intro grouped i
    induction pieces with
    | nil => exact List.infix_rfl
    | cons piece rest ih =>
        by_cases mine : piece.1 = i
        · rw [piecesOf_mine mine]
          subst mine
          exact ((List.prefix_cons_inj piece).mpr (piecesOf_isPrefix grouped)).isInfix
        · rw [piecesOf_other mine]
          exact List.infix_cons (ih (grouped.sublist (List.sublist_cons_self _ _)))
  · intro together i j found
    obtain ⟨front, back, split⟩ := together i
    have lengths := congrArg (fun list => (piecesOf i list).length) split
    have own : piecesOf i (piecesOf i pieces) = piecesOf i pieces := by
      simp [piecesOf, List.filter_filter]
    simp only [piecesOf_append, own, List.length_append] at lengths
    have before : i ∉ front.map Prod.fst :=
      piecesOf_eq_nil.mp (List.eq_nil_of_length_eq_zero (by omega))
    have behind : i ∉ back.map Prod.fst :=
      piecesOf_eq_nil.mp (List.eq_nil_of_length_eq_zero (by omega))
    rw [← split, List.map_append, List.map_append] at found
    -- All three stand in the middle: the first is not in front of it, the last not behind.
    obtain ⟨outer, three, whole, inside, last⟩ := List.sublist_append_iff.mp found
    obtain ⟨one, two, rfl, first, middle⟩ := List.sublist_append_iff.mp inside
    cases one with
    | cons a one =>
        obtain ⟨rfl, -⟩ := List.cons.inj whole
        exact absurd (first.subset List.mem_cons_self) before
    | nil =>
        rcases List.eq_nil_or_concat three with rfl | ⟨three, b, rfl⟩
        · have member : j ∈ two := by
            rw [List.nil_append, List.append_nil] at whole
            simp [← whole]
          obtain ⟨piece, mine, rfl⟩ := List.mem_map.mp (middle.subset member)
          exact of_decide_eq_true (List.mem_filter.mp mine).2
        · have ends : [i, j] ++ [i] = two ++ three ++ [b] := by simpa using whole
          have same : i = b := by simpa using (List.append_inj' ends rfl).2
          exact absurd (last.subset (by simp [same])) behind

end Infix

end Muzi.Grouping
