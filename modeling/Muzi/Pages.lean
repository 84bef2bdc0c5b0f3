import Muzi.Storage

/-!
Storage in pages of one size, seen as one flat range of bytes: page `i` covers
the bytes from `i * n` on. Copies into and out of the pages go page by page; a
chain of parts that follow each other is one copy of the flat range.
-/

namespace Muzi.Pages

open Storage

structure Page (n : Nat) where
  bytes : List Byte
  size : bytes.length = n

variable {n : Nat}

def Page.zero (n : Nat) : Page n := ⟨List.replicate n 0, List.length_replicate⟩

def flat (pages : List (Page n)) : List Byte := pages.flatMap Page.bytes

@[simp] theorem flat_nil : flat ([] : List (Page n)) = [] := rfl

@[simp] theorem flat_cons (page : Page n) (rest : List (Page n)) :
    flat (page :: rest) = page.bytes ++ flat rest := rfl

@[simp] theorem length_flat (pages : List (Page n)) : (flat pages).length = pages.length * n := by
  induction pages with
  | nil => simp
  | cons page rest ih =>
      rw [flat_cons, List.length_append, page.size, ih, List.length_cons, Nat.add_mul, Nat.one_mul,
        Nat.add_comm]

theorem drop_flat (pages : List (Page n)) (count start : Nat) :
    (flat pages).drop (count * n + start) = (flat (pages.drop count)).drop start := by
  induction pages generalizing count with
  | nil => simp
  | cons page rest ih =>
      cases count with
      | zero => simp
      | succ count =>
          have passed : (count + 1) * n + start = page.bytes.length + (count * n + start) := by
            rw [page.size, Nat.add_mul, Nat.one_mul]
            omega
          rw [passed, flat_cons, List.drop_append, List.drop_eq_nil_of_le (Nat.le_add_right _ _),
            Nat.add_sub_cancel_left, List.nil_append, ih, List.drop_succ_cons]

theorem take_flat (pages : List (Page n)) (count : Nat) :
    (flat pages).take (count * n) = flat (pages.take count) := by
  induction pages generalizing count with
  | nil => simp
  | cons page rest ih =>
      cases count with
      | zero => simp
      | succ count =>
          have passed : (count + 1) * n = page.bytes.length + count * n := by
            rw [page.size, Nat.add_mul, Nat.one_mul, Nat.add_comm]
          rw [passed, flat_cons, List.take_length_add_append, ih, List.take_succ_cons, flat_cons]

theorem window_flat (pages : List (Page n)) (first count start len : Nat)
    (fits : start + len ≤ count * n) :
    ((flat pages).drop (first * n + start)).take len =
      ((flat ((pages.drop first).take count)).drop start).take len := by
  rw [drop_flat, ← take_flat, List.drop_take, List.take_take, Nat.min_eq_left (by omega)]

/-! One part of a page. -/

def loadAt (pages : List (Page n)) (i pos len : Nat) : Option (List Byte) :=
  pages[i]?.bind fun page =>
    if pos + len ≤ n then some ((page.bytes.drop pos).take len) else none

def Page.store (pos : Nat) (data : List Byte) (page : Page n) : Option (Page n) :=
  if fits : pos + data.length ≤ n then
    some ⟨overwrite page.bytes pos data, by
      rw [length_overwrite _ _ _ (by rw [page.size]; exact fits), page.size]⟩
  else none

def storeAt (pages : List (Page n)) (i pos : Nat) (data : List Byte) : Option (List (Page n)) :=
  pages[i]?.bind fun page => (page.store pos data).map (pages.set i)

theorem loadAt_flat {pages : List (Page n)} {i pos len : Nat} (inside : i < pages.length)
    (fits : pos + len ≤ n) :
    loadAt pages i pos len = some (((flat pages).drop (i * n + pos)).take len) := by
  have found : pages[i]? = some (pages.get ⟨i, inside⟩) := List.getElem?_eq_getElem inside
  have one : (pages.drop i).take 1 = [pages.get ⟨i, inside⟩] := by
    rw [List.drop_eq_getElem_cons inside]
    rfl
  rw [loadAt, found, Option.bind_some, if_pos fits, window_flat pages i 1 pos len (by omega), one,
    flat_cons, flat_nil, List.append_nil]

theorem overwrite_append_left (left right : List Byte) (pos : Nat) (data : List Byte)
    (fits : pos + data.length ≤ left.length) :
    overwrite (left ++ right) pos data = overwrite left pos data ++ right := by
  rw [overwrite, overwrite, List.take_append_of_le_length (by omega),
    List.drop_append_of_le_length fits, List.append_assoc _ _ right]

theorem overwrite_append_right (left right : List Byte) (pos : Nat) (data : List Byte) :
    overwrite (left ++ right) (left.length + pos) data = left ++ overwrite right pos data := by
  rw [overwrite, overwrite, List.take_length_add_append, Nat.add_assoc, List.drop_length_add_append]
  simp only [List.append_assoc]

theorem storeAt_flat {pages : List (Page n)} {i pos : Nat} {data : List Byte}
    (inside : i < pages.length) (fits : pos + data.length ≤ n) :
    ∃ after, storeAt pages i pos data = some after ∧ after.length = pages.length ∧
      flat after = overwrite (flat pages) (i * n + pos) data := by
  induction pages generalizing i with
  | nil => cases inside
  | cons page rest ih =>
      cases i with
      | zero =>
          refine ⟨_, by rw [storeAt, List.getElem?_cons_zero, Option.bind_some, Page.store,
            dif_pos fits, Option.map_some], List.length_set, ?_⟩
          rw [List.set_cons_zero, flat_cons, flat_cons, Nat.zero_mul, Nat.zero_add,
            overwrite_append_left _ _ _ _ (by rw [page.size]; exact fits)]
      | succ i =>
          obtain ⟨after, stored, length, same⟩ := ih (Nat.lt_of_succ_lt_succ inside)
          obtain ⟨old, found, changed⟩ := Option.bind_eq_some_iff.mp stored
          obtain ⟨new, made, rfl⟩ := Option.map_eq_some_iff.mp changed
          refine ⟨page :: rest.set i new, ?_, by simp, ?_⟩
          · rw [storeAt, List.getElem?_cons_succ, found, Option.bind_some, made, Option.map_some,
              List.set_cons_succ]
          · have passed : (i + 1) * n + pos = page.bytes.length + (i * n + pos) := by
              rw [page.size, Nat.add_mul, Nat.one_mul]
              omega
            rw [flat_cons, flat_cons, same, passed, overwrite_append_right]

theorem overwrite_overwrite (bytes : List Byte) (pos : Nat) (first second : List Byte)
    (fits : pos + first.length ≤ bytes.length) :
    overwrite (overwrite bytes pos first) (pos + first.length) second =
      overwrite bytes pos (first ++ second) := by
  have front := take_overwrite bytes pos first (by omega)
  have extent : (bytes.take pos ++ first).length = pos + first.length := by
    rw [List.length_append, List.length_take, Nat.min_eq_left (by omega)]
  have back : (overwrite bytes pos first).drop (pos + first.length + second.length) =
      bytes.drop (pos + (first ++ second).length) := by
    rw [overwrite, ← extent, List.drop_length_add_append, List.drop_drop, extent,
      List.length_append, Nat.add_assoc]
  rw [overwrite, front, back, overwrite, List.append_assoc, List.append_assoc]
  simp only [List.append_assoc]

/-! Parts that follow each other. -/

structure Part where
  page : Nat
  pos : Nat
  len : Nat
  deriving DecidableEq

def lengths : List Part → Nat
  | [] => 0
  | part :: rest => part.len + lengths rest

@[simp] theorem lengths_cons (part : Part) (rest : List Part) :
    lengths (part :: rest) = part.len + lengths rest := rfl

@[simp] theorem lengths_nil : lengths [] = 0 := rfl

@[simp] theorem lengths_append (left right : List Part) :
    lengths (left ++ right) = lengths left + lengths right := by
  induction left with
  | nil => simp
  | cons part rest ih => simp [ih, Nat.add_assoc]

/-- Each part is in one of `count` pages, and begins where the one before ends. -/
def Chain (n count : Nat) : Nat → List Part → Prop
  | _, [] => True
  | start, part :: rest =>
      part.page < count ∧ part.pos + part.len ≤ n ∧ part.page * n + part.pos = start ∧
        Chain n count (start + part.len) rest

def scatter : List (Page n) → List Part → List Byte → Option (List (Page n))
  | pages, [], _ => some pages
  | pages, part :: rest, data =>
      (storeAt pages part.page part.pos (data.take part.len)).bind fun filled =>
        scatter filled rest (data.drop part.len)

def gather (pages : List (Page n)) : List Part → Option (List Byte)
  | [] => some []
  | part :: rest =>
      (loadAt pages part.page part.pos part.len).bind fun chunk =>
        (gather pages rest).map (chunk ++ ·)

theorem scatter_flat {pages : List (Page n)} {parts : List Part} {start : Nat} {data : List Byte}
    (chain : Chain n pages.length start parts) (fits : data.length ≤ lengths parts) :
    ∃ after, scatter pages parts data = some after ∧ after.length = pages.length ∧
      flat after = overwrite (flat pages) start data := by
  induction parts generalizing pages start data with
  | nil =>
      have none : data = [] := List.length_eq_zero_iff.mp (Nat.le_zero.mp fits)
      exact ⟨pages, rfl, rfl, by simp [none, overwrite]⟩
  | cons part rest ih =>
      obtain ⟨inside, within, rfl, later⟩ := chain
      have chunk : (data.take part.len).length ≤ part.len := List.length_take_le _ _
      obtain ⟨filled, stored, length, flatFilled⟩ := storeAt_flat inside
        (Nat.le_trans (Nat.add_le_add_left chunk _) within)
      rw [← length] at later
      by_cases short : data.length ≤ part.len
      · -- The other parts get nothing.
        have taken : data.take part.len = data := List.take_of_length_le short
        have dropped : data.drop part.len = [] := List.drop_eq_nil_of_le short
        have nothing : ([] : List Byte).length ≤ lengths rest := Nat.zero_le _
        obtain ⟨after, ran, sameLength, same⟩ := ih later nothing
        refine ⟨after, ?_, sameLength.trans length, ?_⟩
        · rw [scatter, stored, Option.bind_some, dropped]
          exact ran
        · rw [same, flatFilled, taken]
          simp [overwrite]
      · have taken : (data.take part.len).length = part.len :=
          List.length_take_of_le (by omega)
        have fewer : (data.drop part.len).length ≤ lengths rest := by
          rw [List.length_drop]
          rw [lengths_cons] at fits
          omega
        obtain ⟨after, ran, sameLength, same⟩ := ih later fewer
        refine ⟨after, ?_, sameLength.trans length, ?_⟩
        · rw [scatter, stored, Option.bind_some]
          exact ran
        · have room : part.page * n + part.pos + (data.take part.len).length ≤
              (flat pages).length := by
            have last : (part.page + 1) * n ≤ pages.length * n := Nat.mul_le_mul_right n inside
            rw [Nat.add_mul, Nat.one_mul] at last
            rw [length_flat, taken]
            omega
          have both := overwrite_overwrite (flat pages) _ _ (data.drop part.len) room
          rw [taken, List.take_append_drop] at both
          rw [same, flatFilled, both]

theorem gather_flat {pages : List (Page n)} {parts : List Part} {start : Nat}
    (chain : Chain n pages.length start parts) :
    gather pages parts = some (((flat pages).drop start).take (lengths parts)) := by
  induction parts generalizing start with
  | nil => simp [gather]
  | cons part rest ih =>
      obtain ⟨inside, within, rfl, later⟩ := chain
      rw [gather, loadAt_flat inside within, Option.bind_some, ih later, Option.map_some,
        lengths_cons, List.take_add, List.drop_drop]

/-! Neighbouring pages. -/

def whole (n first count : Nat) : List Part := (List.range' first count).map (⟨·, 0, n⟩)

theorem lengths_whole (first count : Nat) : lengths (whole n first count) = count * n := by
  induction count generalizing first with
  | zero => simp [whole]
  | succ count ih =>
      rw [whole, List.range'_succ, List.map_cons, lengths_cons]
      have rest := ih (first + 1)
      rw [whole] at rest
      rw [rest, Nat.add_mul, Nat.one_mul, Nat.add_comm]

theorem whole_succ (first count : Nat) :
    whole n first (count + 1) = whole n first count ++ [⟨first + count, 0, n⟩] := by
  simp [whole, List.range'_concat]

@[simp] theorem length_whole (first count : Nat) : (whole n first count).length = count := by
  simp [whole]

theorem chain_whole_append {first count pages last : Nat} (inside : first + count < pages)
    (fits : last ≤ n) :
    Chain n pages (first * n) (whole n first count ++ [⟨first + count, 0, last⟩]) := by
  induction count generalizing first with
  | zero => exact ⟨inside, by simpa using fits, rfl, trivial⟩
  | succ count ih =>
      rw [whole, List.range'_succ, List.map_cons, List.cons_append]
      refine ⟨by dsimp only; omega, by simp, rfl, ?_⟩
      have rest := ih (by omega : first + 1 + count < pages)
      have next : first * n + n = (first + 1) * n := by rw [Nat.add_mul, Nat.one_mul]
      have page : first + 1 + count = first + (count + 1) := by omega
      rw [page, whole] at rest
      dsimp only
      rw [next]
      exact rest

end Muzi.Pages
