import Muzi.Integers
import Muzi.OldBufferRoom

/-!
Integers in the legacy buffer, in network order: net/endian_transform.h and the
functions of net/old_buffer.h that use it. The templates of the conversion have
one body for every type, with `htonl`, and bodies of their own for the unsigned
types, so that the signed types of other widths go through 32 bits.
-/

namespace Muzi

open Storage Integers IntType

namespace Endian

def htobe16 (host16 : Nat) : Nat := swap 2 host16
def htobe32 (host32 : Nat) : Nat := swap 4 host32
def htobe64 (host64 : Nat) : Nat := swap 8 host64
def htonl (host : Nat) : Nat := swap 4 host
def be16toh (net16 : Nat) : Nat := swap 2 net16
def be32toh (net32 : Nat) : Nat := swap 4 net32
def be64toh (net64 : Nat) : Nat := swap 8 net64
def ntohl (net : Nat) : Nat := swap 4 net

def hostToNet : IntType → Int → Int
  | .uint8, net8 => net8
  | .uint16, host16 => htobe16 host16.toNat
  | .uint32, host32 => htobe32 host32.toNat
  | .uint64, host64 => htobe64 host64.toNat
  -- the argument of `htonl` and its result are of type `uint32_t`
  | T, host => T.convert (htonl (uint32.convert host).toNat)

def netToHost : IntType → Int → Int
  | .uint8, net8 => net8
  | .uint16, net16 => be16toh net16.toNat
  | .uint32, net32 => be32toh net32.toNat
  | .uint64, net64 => be64toh net64.toNat
  | T, net => T.convert (ntohl (uint32.convert net).toNat)

theorem netToHost_eq_hostToNet : netToHost = hostToNet := by
  funext T x
  cases T <;> rfl

/-- The types with a body of their own, and the one that is as wide as `htonl`. -/
def Swapped (T : IntType) : Prop := T.signed = false ∨ T = .int32

instance (T : IntType) : Decidable (Swapped T) := inferInstanceAs (Decidable (_ ∨ _))

/-- The conversion leaves the value in network order. -/
def Kept (T : IntType) (x : Int) : Prop :=
  Swapped T ∨ x = 0 ∨ x = -1 ∧ T ≠ .int64

instance (T : IntType) (x : Int) : Decidable (Kept T x) := inferInstanceAs (Decidable (_ ∨ _))

section Conversion
variable {T : IntType}

theorem swap_one (number : Nat) : swap 1 number = number % 256 := by
  simp [swap, bytesOf, numberOf]

theorem hostToNet_swapped (swapped : Swapped T) (v : T.Value) :
    hostToNet T v.val = T.convert (swap T.size (T.pattern v.val)) := by
  -- the unsigned types but the smallest
  have unsigned (plain : T.signed = false) :
      T.convert (swap T.size (T.pattern v.val)) = swap T.size v.val.toNat := by
    have bits : v.val.toNat = T.pattern v.val := by
      have cast := v.pattern_cast plain
      omega
    rw [convert_natCast plain (swap_lt _ _), bits]
  cases T with
  | int8 => exact absurd swapped (by decide)
  | int16 => exact absurd swapped (by decide)
  | int64 => exact absurd swapped (by decide)
  | int32 => rfl
  | uint8 =>
      have cast := v.pattern_cast rfl
      have small : pattern .uint8 v.val < 256 := pattern_lt .uint8 v.val
      rw [unsigned rfl]
      change v.val = (swap 1 v.val.toNat : Nat)
      rw [swap_one]
      omega
  | uint16 => exact (unsigned rfl).symm
  | uint32 => exact (unsigned rfl).symm
  | uint64 => exact (unsigned rfl).symm

theorem hostToNet_kept {v : T.Value} (kept : Kept T v.val) :
    T.image (hostToNet T v.val) = T.bigEndian v.val ∧
      netToHost T (T.ofImage (T.bigEndian v.val)) = v.val ∧
      netToHost T (hostToNet T v.val) = v.val := by
  rw [netToHost_eq_hostToNet]
  by_cases swapped : Swapped T
  · have small := pattern_lt T v.val
    have stored := hostToNet_swapped swapped v
    have pattern : T.pattern (hostToNet T v.val) = swap T.size (T.pattern v.val) := by
      rw [stored, pattern_convert, pattern_natCast, Nat.mod_eq_of_lt (swap_lt _ _)]
    have back := hostToNet_swapped swapped ⟨hostToNet T v.val, by rw [stored, convert_convert]⟩
    dsimp only at back
    have whole : hostToNet T (hostToNet T v.val) = v.val := by
      rw [back, pattern, swap_swap small, convert_pattern, v.fits]
    refine ⟨?_, ?_, whole⟩
    · rw [image, pattern, bytesOf_swap]
      rfl
    · rw [ofImage, numberOf_bigEndian, ← stored, whole]
  · rcases kept with plain | zero | ⟨minusOne, narrow⟩
    · exact absurd plain swapped
    · rw [zero]
      cases T <;> decide
    · rw [minusOne]
      cases T with
      | int8 => decide
      | int16 => decide
      | int64 => exact absurd rfl narrow
      | int32 => exact absurd (.inr rfl) swapped
      | uint8 => exact absurd (.inl rfl) swapped
      | uint16 => exact absurd (.inl rfl) swapped
      | uint32 => exact absurd (.inl rfl) swapped
      | uint64 => exact absurd (.inl rfl) swapped

theorem pattern_hostToNet (generic : ¬Swapped T) (x : Int) :
    T.pattern (hostToNet T x) = swap 4 (pattern .uint32 x) % radix T.size := by
  have body : hostToNet T x = T.convert (swap 4 (pattern .uint32 x)) := by
    cases T with
    | int8 => rfl
    | int16 => rfl
    | int64 => rfl
    | int32 => exact absurd (.inr rfl) generic
    | uint8 => exact absurd (.inl rfl) generic
    | uint16 => exact absurd (.inl rfl) generic
    | uint32 => exact absurd (.inl rfl) generic
    | uint64 => exact absurd (.inl rfl) generic
  rw [body, pattern_convert, pattern_natCast]

/-- A narrow value is extended before the swap, and what is kept is its extension. -/
theorem kept_int8 {v : Value .int8} (bits : swap 4 (pattern .uint32 v.val) % radix 1 =
    swap 1 (pattern .int8 v.val)) : v.val = 0 ∨ v.val = -1 := by
  have range := v.signed_range rfl
  have small := pattern_lt .uint32 v.val
  rw [swap_add_mod 3 1] at bits
  have top : pattern .uint32 v.val / radix 3 < radix 1 := by
    simp only [IntType.size, radix] at small ⊢
    omega
  have same := swap_inj top (pattern_lt .int8 v.val) bits
  have wide := pattern_sign (T := .uint32) (x := v.val)
  have narrow := pattern_sign (T := .int8) (x := v.val)
  simp only [IntType.size, radix] at range wide narrow same
  omega

theorem kept_int16 {v : Value .int16} (bits : swap 4 (pattern .uint32 v.val) % radix 2 =
    swap 2 (pattern .int16 v.val)) : v.val = 0 ∨ v.val = -1 := by
  have range := v.signed_range rfl
  have small := pattern_lt .uint32 v.val
  rw [swap_add_mod 2 2] at bits
  have top : pattern .uint32 v.val / radix 2 < radix 2 := by
    simp only [IntType.size, radix] at small ⊢
    omega
  have same := swap_inj top (pattern_lt .int16 v.val) bits
  have wide := pattern_sign (T := .uint32) (x := v.val)
  have narrow := pattern_sign (T := .int16) (x := v.val)
  simp only [IntType.size, radix] at range wide narrow same
  omega

/-- The upper half of a wide value is lost, and the lower half comes where it should be. -/
theorem kept_int64 {v : Value .int64} (bits : swap 4 (pattern .uint32 v.val) % radix 8 =
    swap 8 (pattern .int64 v.val)) : v.val = 0 := by
  have lower : pattern .uint32 v.val = pattern .int64 v.val % radix 4 := by
    have wide := pattern_cast .int64 v.val
    have half := pattern_cast .uint32 v.val
    simp only [IntType.size, radix] at wide half ⊢
    omega
  have nothing (low high : Nat) (small : low < radix 4)
      (same : low % radix 8 = high + radix 4 * low) : low = 0 ∧ high = 0 := by
    simp only [radix] at small same
    omega
  rw [lower, swap_mod, swap_add 4 4] at bits
  obtain ⟨front, back⟩ := nothing _ _ (swap_lt _ _) bits
  have zero : swap 4 0 = 0 := by decide
  have small := pattern_lt .int64 v.val
  have top : pattern .int64 v.val / radix 4 < radix 4 := by
    simp only [IntType.size, radix] at small ⊢
    omega
  have upper : pattern .int64 v.val / radix 4 = 0 :=
    swap_inj top (radix_pos 4) (back.trans zero.symm)
  have rest : pattern .int64 v.val % radix 4 = 0 :=
    swap_inj (Nat.mod_lt _ (radix_pos 4)) (radix_pos 4)
      ((swap_mod _ _).trans (front.trans zero.symm))
  have none : pattern .int64 v.val = 0 := by
    simp only [radix] at upper rest
    omega
  have value := convert_pattern .int64 v.val
  rw [none, v.fits] at value
  exact value.symm

theorem kept_of_bigEndian {v : T.Value}
    (same : T.image (hostToNet T v.val) = T.bigEndian v.val) : Kept T v.val := by
  by_cases swapped : Swapped T
  · exact .inl swapped
  · have bits : T.pattern (hostToNet T v.val) = swap T.size (T.pattern v.val) := by
      rw [← numberOf_bigEndian, ← same, image, numberOf_bytesOf, Nat.mod_eq_of_lt (pattern_lt T _)]
    rw [pattern_hostToNet swapped] at bits
    cases T with
    | int8 =>
        rcases kept_int8 bits with zero | minusOne
        · exact .inr (.inl zero)
        · exact .inr (.inr ⟨minusOne, by decide⟩)
    | int16 =>
        rcases kept_int16 bits with zero | minusOne
        · exact .inr (.inl zero)
        · exact .inr (.inr ⟨minusOne, by decide⟩)
    | int64 => exact .inr (.inl (kept_int64 bits))
    | int32 => exact absurd (.inr rfl) swapped
    | uint8 => exact absurd (.inl rfl) swapped
    | uint16 => exact absurd (.inl rfl) swapped
    | uint32 => exact absurd (.inl rfl) swapped
    | uint64 => exact absurd (.inl rfl) swapped

end Conversion

end Endian

namespace OldBuffer

open Endian

def appendInt (T : IntType) (val : Int) (b : OldBuffer) : Option OldBuffer :=
  b.append (T.image (hostToNet T val))

def prependInt (T : IntType) (val : Int) (b : OldBuffer) : Option OldBuffer :=
  b.prepend (T.image (hostToNet T val))

def peekInt (T : IntType) (b : OldBuffer) : Option Int :=
  if T.size ≤ b.readableBytes then do
    let last ← b.readIndex.advance b.bufferList.length T.size
    let buf ← copyFrom b.bufferList (last.minus b.readIndex).toNat b.readIndex
    some (netToHost T (T.ofImage buf))
  else none

def readInt (T : IntType) (b : OldBuffer) : Option (Int × OldBuffer) := do
  let res ← b.peekInt T
  let rest ← b.retrive T.size
  some (res, rest)

/-- The value goes through the buffer in network order. -/
structure NetworkOrder {T : IntType} (v : T.Value) (b : OldBuffer) (bytes : List Byte) :
    Prop where
  append : ∃ after, b.appendInt T v.val = some after ∧ Holds after (bytes ++ T.bigEndian v.val)
  prepend : T.size ≤ b.getPrependableBytes →
    ∃ after, b.prependInt T v.val = some after ∧ Holds after (T.bigEndian v.val ++ bytes)
  read : ∀ rest, bytes = T.bigEndian v.val ++ rest →
    ∃ after, b.readInt T = some (v.val, after) ∧ Holds after rest
  image : T.image (hostToNet T v.val) = T.bigEndian v.val
  roundTrip : netToHost T (hostToNet T v.val) = v.val

variable {T : IntType} {b : OldBuffer} {bytes : List Byte}

theorem Holds.unique {other : List Byte} (holds : Holds b bytes) (also : Holds b other) :
    bytes = other := holds.bytes.symm.trans also.bytes

theorem readInt_holds {front rest : List Byte} (holds : Holds b (front ++ rest))
    (size : front.length = T.size) :
    ∃ after, b.readInt T = some (netToHost T (T.ofImage front), after) ∧ Holds after rest := by
  have available : T.size ≤ (front ++ rest).length := by
    rw [List.length_append, size]
    exact Nat.le_add_right _ _
  obtain ⟨last, moved, place, -, -⟩ := holds.advanceRead T.size available
  have distance : (last.minus b.readIndex).toNat = T.size := by
    rw [Iterator.minus_eq, place]
    omega
  obtain ⟨after, retrived, still⟩ := retrive_holds holds T.size available
  rw [← size, List.drop_left] at still
  refine ⟨after, ?_, still⟩
  have count := holds.readableBytes
  have copied := copyFrom_holds holds T.size available
  rw [← size, List.take_left, size] at copied
  simp only [readInt, peekInt, count, available, moved, distance, copied, retrived, ↓reduceIte,
    Option.bind_eq_bind, Option.bind_some]

/-- On every buffer a value goes through in network order exactly when the conversion keeps
it. -/
theorem network_order_iff (holds : Holds b bytes) (modest : Modest b.bufferList.length T.size)
    (v : T.Value) : NetworkOrder v b bytes ↔ Kept T v.val := by
  have size : (T.image (hostToNet T v.val)).length = T.size := length_image _ _
  obtain ⟨after, appended, grown⟩ :=
    append_holds (T.image (hostToNet T v.val)) (size ▸ holds.grows (holds.roomy modest))
  constructor
  · intro order
    obtain ⟨other, ran, expected⟩ := order.append
    cases appended.symm.trans ran
    exact kept_of_bigEndian (List.append_cancel_left (grown.unique expected))
  · intro kept
    obtain ⟨stored, loaded, back⟩ := hostToNet_kept kept
    refine ⟨⟨after, appended, stored ▸ grown⟩, fun room => ?_, fun rest whole => ?_, stored, back⟩
    · rw [← stored]
      exact prepend_holds holds _ (by rwa [size])
    · subst whole
      have read := readInt_holds (T := T) holds
        (by rw [bigEndian, List.length_reverse, length_image])
      rwa [loaded] at read

theorem network_order_fresh : ∃ fresh, init 1 = some fresh ∧
    NetworkOrder (T := .uint16) ⟨0x1234, by decide⟩ fresh [] := by
  obtain ⟨fresh, made, holds⟩ := init_holds Nat.one_pos
  refine ⟨fresh, made, ?_⟩
  cases made
  exact (network_order_iff holds (by decide) _).mpr (by decide)

/-- The bytes of an `int16_t` 1 are both zero, and the big-endian bytes of 1 are read as 0. -/
theorem int16_lost : Value.val (T := .int16) ⟨1, rfl⟩ = 1 ∧ bigEndian .int16 1 = [0, 1] ∧
    ((init 1).bind fun fresh => (fresh.appendInt .int16 1).bind peekAllAsString) = some [0, 0] ∧
    (((init 1).bind fun fresh => (fresh.append [0, 1]).bind (readInt .int16)).map Prod.fst) =
      some 0 := by
  decide +kernel

end OldBuffer

end Muzi
