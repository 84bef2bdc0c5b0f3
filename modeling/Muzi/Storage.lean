import Mathlib.Data.List.Basic

/-!
Byte storage: a flat memory read by address and length, and the effect of a
copy into part of a fixed range. Reads past the end of an object see whatever
the memory holds there.
-/

namespace Muzi.Storage

abbrev Byte := UInt8

abbrev Memory := Nat → Byte

def read (memory : Memory) (address len : Nat) : List Byte :=
  (List.range len).map fun offset => memory (address + offset)

@[simp] theorem length_read (memory : Memory) (address len : Nat) :
    (read memory address len).length = len := by
  simp [read]

theorem read_add (memory : Memory) (address first second : Nat) :
    read memory address (first + second) =
      read memory address first ++ read memory (address + first) second := by
  simp [read, List.range_add, Nat.add_assoc, Function.comp_def]

def store (memory : Memory) (address : Nat) (data : List Byte) : Memory := fun place =>
  if address ≤ place then data[place - address]?.getD (memory place) else memory place

theorem read_store_inside (memory : Memory) (address : Nat) (data : List Byte)
    {offset len : Nat} (inside : offset + len ≤ data.length) :
    read (store memory address data) (address + offset) len = (data.drop offset).take len := by
  apply List.ext_getElem?
  intro i
  by_cases within : i < len
  · have found : data[offset + i]? = some (data.get ⟨offset + i, by omega⟩) :=
      List.getElem?_eq_getElem (by omega)
    have index : address + offset + i - address = offset + i := by omega
    have after : address ≤ address + offset + i := by omega
    simp [read, store, within, index, after, found]
  · have beyond : len ≤ i := Nat.le_of_not_lt within
    rw [List.getElem?_eq_none (by simpa using beyond), List.getElem?_eq_none]
    rw [List.length_take]
    omega

theorem read_store_outside (memory : Memory) {address start len : Nat} {data : List Byte}
    (apart : start + len ≤ address ∨ address + data.length ≤ start) :
    read (store memory address data) start len = read memory start len := by
  apply List.map_congr_left
  intro i member
  have within : i < len := List.mem_range.mp member
  unfold store
  split
  · rw [List.getElem?_eq_none (by omega), Option.getD_none]
  · rfl

/-- Copy `data` over the bytes that start at `pos`. -/
def overwrite (bytes : List Byte) (pos : Nat) (data : List Byte) : List Byte :=
  bytes.take pos ++ data ++ bytes.drop (pos + data.length)

theorem length_overwrite (bytes : List Byte) (pos : Nat) (data : List Byte)
    (fits : pos + data.length ≤ bytes.length) :
    (overwrite bytes pos data).length = bytes.length := by
  simp only [overwrite, List.length_append, List.length_take, List.length_drop]
  omega

theorem take_overwrite (bytes : List Byte) (pos : Nat) (data : List Byte)
    (inside : pos ≤ bytes.length) :
    (overwrite bytes pos data).take (pos + data.length) = bytes.take pos ++ data := by
  have extent : (bytes.take pos ++ data).length = pos + data.length := by
    simp [inside]
  rw [overwrite, ← extent, List.take_left]

end Muzi.Storage
