import Mathlib.Data.List.Sort
import Mathlib.Data.List.TakeWhile

/-!
An ordered set without duplicates, as the list of its elements in ascending
order of a comparator. Elements of which neither is less than the other are
equivalent: the set holds at most one of them, and lookup and removal go by
equivalence. The bounds of a range are given by a predicate that stays true
upwards, so that the comparator may also be asked about values of another type.
-/

namespace Muzi.OrderedSet

universe u
variable {α : Type u} (less : α → α → Prop)

/-- The elements in front of the first one that is `above`. -/
def belowBound (above : α → Bool) (set : List α) : List α := set.takeWhile fun a => !above a

def fromBound (above : α → Bool) (set : List α) : List α := set.dropWhile fun a => !above a

def Ascending (set : List α) : Prop := set.Pairwise less

variable {less}

theorem Ascending.fromBound {set : List α} (ascending : Ascending less set) (above : α → Bool) :
    Ascending less (fromBound above set) :=
  List.Pairwise.sublist (List.dropWhile_sublist _) ascending

theorem Ascending.belowBound {set : List α} (ascending : Ascending less set)
    (above : α → Bool) : Ascending less (belowBound above set) :=
  List.Pairwise.sublist (List.takeWhile_sublist _) ascending

theorem bound_split (above : α → Bool) (set : List α) :
    belowBound above set ++ fromBound above set = set :=
  List.takeWhile_append_dropWhile

theorem not_above_of_mem_belowBound {above : α → Bool} {set : List α} {a : α}
    (member : a ∈ belowBound above set) : above a = false := by
  simpa using List.mem_takeWhile_imp member

variable (less) [DecidableRel less]

def equivalent (a b : α) : Bool := !decide (less a b) && !decide (less b a)

def insert (a : α) (set : List α) : Option (List α) :=
  if set.any (equivalent less a) then none else some (set.orderedInsert less a)

def find (a : α) (set : List α) : Option α := set.find? (equivalent less a)

def erase (a : α) (set : List α) : List α := set.filter fun b => !equivalent less a b

variable {less}

theorem comparable_of_not_equivalent {a b : α} (apart : equivalent less a b = false) :
    less a b ∨ less b a := by
  by_cases below : less a b
  · exact .inl below
  · right
    simpa [equivalent, below] using apart

theorem insert_eq {a : α} {set : List α} (absent : ∀ b ∈ set, equivalent less a b = false) :
    insert less a set = some (set.orderedInsert less a) := by
  have none_there : set.any (equivalent less a) = false := by
    rw [List.any_eq_false]
    intro b member
    simp [absent b member]
  simp [insert, none_there]

theorem ascending_orderedInsert [IsTrans α less] {a : α} {set : List α}
    (ascending : Ascending less set) (absent : ∀ b ∈ set, equivalent less a b = false) :
    Ascending less (set.orderedInsert less a) := by
  induction set with
  | nil => exact List.pairwise_singleton less a
  | cons b rest ih =>
      rcases List.pairwise_cons.mp ascending with ⟨first, later⟩
      have comparable := comparable_of_not_equivalent (absent b List.mem_cons_self)
      rw [List.orderedInsert_cons]
      split
      · rename_i below
        apply List.Pairwise.cons _ ascending
        intro c member
        rcases List.mem_cons.mp member with same | behind
        · subst c
          exact below
        · exact trans_of less below (first c behind)
      · rename_i notBelow
        apply List.Pairwise.cons
        · intro c member
          rcases (List.mem_orderedInsert less).mp member with same | behind
          · subst c
            exact comparable.resolve_left notBelow
          · exact first c behind
        · exact ih later fun c member => absent c (List.mem_cons_of_mem b member)

theorem find_eq {a : α} {set : List α} (member : a ∈ set) (itself : equivalent less a a = true)
    (only : ∀ b ∈ set, equivalent less a b = true → b = a) : find less a set = some a := by
  cases search : find less a set with
  | none => exact absurd itself (List.find?_eq_none.mp search a member)
  | some b => rw [only b (List.mem_of_find?_eq_some search) (List.find?_some search)]

end Muzi.OrderedSet
