import Mathlib.Data.List.Basic

/-!
A doubly linked list whose nodes keep their identity, as `std::list` does.
An iterator names a node and stays valid while other nodes are moved, added
or removed; `none` is the past-the-end iterator. Using an iterator that names
no node of the list, or dereferencing the end, has no result.
-/

namespace Muzi.NodeList

universe u
variable {Value : Type u}

structure Node (Value : Type u) where
  id : Nat
  value : Value

abbrev Iterator := Option Nat

def split : List (Node Value) → Nat → Option (List (Node Value) × Node Value × List (Node Value))
  | [], _ => none
  | node :: rest, id =>
      if node.id = id then some ([], node, rest)
      else (split rest id).map fun cut => (node :: cut.1, cut.2)

def first (nodes : List (Node Value)) : Iterator := nodes.head?.map Node.id

def cutAt (nodes : List (Node Value)) (it : Iterator) :
    Option (List (Node Value) × Node Value × List (Node Value)) :=
  it.bind (split nodes)

def deref (nodes : List (Node Value)) (it : Iterator) : Option Value :=
  (cutAt nodes it).map fun cut => cut.2.1.value

def next (nodes : List (Node Value)) (it : Iterator) : Option Iterator :=
  (cutAt nodes it).map fun cut => first cut.2.2

def prev (nodes : List (Node Value)) (it : Iterator) : Option Iterator :=
  match it with
  | none => nodes.getLast?.map fun node => some node.id
  | some id => (split nodes id).bind fun cut => cut.1.getLast?.map fun node => some node.id

def distanceToEnd (nodes : List (Node Value)) (it : Iterator) : Option Nat :=
  (cutAt nodes it).map fun cut => cut.2.2.length + 1

def distance (nodes : List (Node Value)) (start stop : Iterator) : Option Nat :=
  (cutAt nodes start).bind fun cut =>
    match stop with
    | none => some (cut.2.2.length + 1)
    | some id => (split (cut.2.1 :: cut.2.2) id).map fun reached => reached.1.length

def moveToBack (nodes : List (Node Value)) (it : Iterator) : Option (List (Node Value)) :=
  (cutAt nodes it).map fun cut => cut.1 ++ cut.2.2 ++ [cut.2.1]

def eraseFrom (nodes : List (Node Value)) : Iterator → Option (List (Node Value))
  | none => some nodes
  | some id => (split nodes id).map Prod.fst

def update (nodes : List (Node Value)) (it : Iterator) (change : Value → Option Value) :
    Option (List (Node Value)) := do
  let cut ← cutAt nodes it
  let value ← change cut.2.1.value
  some (cut.1 ++ ⟨cut.2.1.id, value⟩ :: cut.2.2)

theorem split_eq {nodes before after : List (Node Value)} {node : Node Value} {id : Nat}
    (cut : split nodes id = some (before, node, after)) : nodes = before ++ node :: after := by
  induction nodes generalizing before with
  | nil => cases cut
  | cons head rest ih =>
      rw [split] at cut
      split at cut
      · cases cut
        rfl
      · obtain ⟨⟨front, target, back⟩, found, made⟩ := Option.map_eq_some_iff.mp cut
        cases made
        rw [ih found]
        rfl

theorem moveToBack_length {nodes moved : List (Node Value)} {it : Iterator}
    (ran : moveToBack nodes it = some moved) : moved.length = nodes.length := by
  obtain ⟨⟨before, node, after⟩, cut, rfl⟩ := Option.map_eq_some_iff.mp ran
  obtain ⟨id, -, found⟩ := Option.bind_eq_some_iff.mp cut
  rw [split_eq found]
  simp only [List.length_append, List.length_cons, List.length_nil]
  omega

theorem update_ids {nodes updated : List (Node Value)} {it : Iterator}
    {change : Value → Option Value} (ran : update nodes it change = some updated) :
    updated.map Node.id = nodes.map Node.id := by
  obtain ⟨⟨before, node, after⟩, cut, ran⟩ := Option.bind_eq_some_iff.mp ran
  obtain ⟨value, -, made⟩ := Option.bind_eq_some_iff.mp ran
  obtain ⟨id, -, found⟩ := Option.bind_eq_some_iff.mp cut
  cases made
  rw [split_eq found]
  simp

section Located
variable {before after : List (Node Value)} {node : Node Value}

theorem split_located (fresh : ∀ other ∈ before, other.id ≠ node.id) :
    split (before ++ node :: after) node.id = some (before, node, after) := by
  induction before with
  | nil => simp [split]
  | cons head rest ih =>
      have headFresh : head.id ≠ node.id := fresh head (by simp)
      have tail := ih fun other member => fresh other (List.mem_cons_of_mem head member)
      simp [split, headFresh, tail]

theorem fresh_of_distinct (distinct : ((before ++ node :: after).map Node.id).Nodup) :
    ∀ other ∈ before, other.id ≠ node.id := by
  intro other member same
  rw [List.map_append, List.nodup_append] at distinct
  exact distinct.2.2 other.id (List.mem_map_of_mem member) node.id (by simp) same

variable (distinct : ((before ++ node :: after).map Node.id).Nodup)
include distinct

theorem cutAt_located :
    cutAt (before ++ node :: after) (some node.id) = some (before, node, after) :=
  split_located (fresh_of_distinct distinct)

theorem deref_located : deref (before ++ node :: after) (some node.id) = some node.value := by
  simp [deref, cutAt_located distinct]

theorem next_located : next (before ++ node :: after) (some node.id) = some (first after) := by
  simp [next, cutAt_located distinct]

theorem prev_located :
    prev (before ++ node :: after) (some node.id) =
      before.getLast?.map fun earlier => some earlier.id := by
  simp [prev, split_located (fresh_of_distinct distinct)]

theorem distanceToEnd_located :
    distanceToEnd (before ++ node :: after) (some node.id) = some (after.length + 1) := by
  simp [distanceToEnd, cutAt_located distinct]

theorem moveToBack_located :
    moveToBack (before ++ node :: after) (some node.id) = some (before ++ after ++ [node]) := by
  simp [moveToBack, cutAt_located distinct]

theorem eraseFrom_located :
    eraseFrom (before ++ node :: after) (some node.id) = some before := by
  simp [eraseFrom, split_located (fresh_of_distinct distinct)]

theorem update_located (change : Value → Option Value) (value : Value)
    (changed : change node.value = some value) :
    update (before ++ node :: after) (some node.id) change =
      some (before ++ ⟨node.id, value⟩ :: after) := by
  simp [update, cutAt_located distinct, changed]
end Located

@[simp] theorem first_cons (node : Node Value) (rest : List (Node Value)) :
    first (node :: rest) = some node.id := rfl

theorem deref_first (node : Node Value) (rest : List (Node Value)) :
    deref (node :: rest) (first (node :: rest)) = some node.value := by
  simp [deref, cutAt, first, split]

theorem deref_first_append (before : List (Node Value)) (node : Node Value)
    (after others : List (Node Value)) :
    ∃ value, deref (before ++ node :: after) (first (before ++ node :: others)) = some value := by
  cases before with
  | nil => exact ⟨_, deref_first node after⟩
  | cons head rest => exact ⟨_, deref_first head (rest ++ node :: after)⟩

theorem distance_first {before after : List (Node Value)} {node : Node Value}
    (distinct : ((before ++ node :: after).map Node.id).Nodup) :
    distance (before ++ node :: after) (first (before ++ [node])) (some node.id) =
      some before.length := by
  have reached : split (before ++ node :: after) node.id = some (before, node, after) :=
    split_located (fresh_of_distinct distinct)
  cases before with
  | nil => simp [distance, cutAt, split]
  | cons head rest =>
      have own : split (head :: rest ++ node :: after) head.id =
          some ([], head, rest ++ node :: after) := by
        simp [split]
      rw [List.cons_append] at own reached
      simp [distance, cutAt, own, reached]

theorem first_append_cons (before : List (Node Value)) (node : Node Value)
    (after : List (Node Value)) :
    first (before ++ node :: after) = first (before ++ [node]) := by
  cases before <;> rfl

theorem map_id_replace (before after : List (Node Value)) (node : Node Value) (value : Value) :
    (before ++ ⟨node.id, value⟩ :: after).map Node.id =
      (before ++ node :: after).map Node.id := by
  simp

theorem forall_id_replace {before after : List (Node Value)} {node : Node Value} {value : Value}
    (fact : Nat → Prop) (holds : ∀ other ∈ before ++ node :: after, fact other.id) :
    ∀ other ∈ before ++ ⟨node.id, value⟩ :: after, fact other.id := by
  intro other member
  have named : other.id ∈ (before ++ node :: after).map Node.id := by
    rw [← map_id_replace before after node value]
    exact List.mem_map_of_mem member
  obtain ⟨old, present, same⟩ := List.mem_map.mp named
  rw [← same]
  exact holds old present

end Muzi.NodeList
