import Muzi.Storage

/-!
The fixed-width integer types of C on a little-endian host. A value is an integer
in the range of its type; a conversion takes the value of the new type that agrees
modulo its number of values. Bytes stand least significant first, as in memory.
-/

namespace Muzi.Integers

open Storage

/-! Numbers and their bytes. -/

def radix : Nat → Nat
  | 0 => 1
  | size + 1 => 256 * radix size

def bytesOf : Nat → Nat → List Byte
  | 0, _ => []
  | size + 1, number => UInt8.ofNat number :: bytesOf size (number / 256)

def numberOf : List Byte → Nat
  | [] => 0
  | byte :: rest => byte.toNat + 256 * numberOf rest

@[simp] theorem length_bytesOf (size number : Nat) : (bytesOf size number).length = size := by
  induction size generalizing number with
  | zero => rfl
  | succ size ih => rw [bytesOf, List.length_cons, ih]

theorem numberOf_lt (bytes : List Byte) : numberOf bytes < radix bytes.length := by
  induction bytes with
  | nil => decide
  | cons byte rest ih =>
      have low := byte.toNat_lt
      simp only [numberOf, radix, List.length_cons]
      omega

theorem bytesOf_numberOf (bytes : List Byte) : bytesOf bytes.length (numberOf bytes) = bytes := by
  induction bytes with
  | nil => rfl
  | cons byte rest ih =>
      have low := byte.toNat_lt
      have first : UInt8.ofNat (byte.toNat + 256 * numberOf rest) = byte := by
        apply UInt8.toNat_inj.mp
        rw [UInt8.toNat_ofNat']
        omega
      have later : (byte.toNat + 256 * numberOf rest) / 256 = numberOf rest := by omega
      rw [List.length_cons, bytesOf, numberOf, first, later, ih]

theorem numberOf_bytesOf (size number : Nat) :
    numberOf (bytesOf size number) = number % radix size := by
  induction size generalizing number with
  | zero => exact (Nat.mod_one number).symm
  | succ size ih => rw [bytesOf, numberOf, ih, UInt8.toNat_ofNat', radix, Nat.mod_mul]

theorem bytesOf_mod (size number : Nat) :
    bytesOf size (number % radix size) = bytesOf size number := by
  have same := bytesOf_numberOf (bytesOf size number)
  rwa [length_bytesOf, numberOf_bytesOf] at same

theorem bytesOf_add (first second number : Nat) :
    bytesOf (first + second) number =
      bytesOf first number ++ bytesOf second (number / radix first) := by
  induction first generalizing number with
  | zero => rw [Nat.zero_add, radix, Nat.div_one, bytesOf, List.nil_append]
  | succ first ih =>
      rw [Nat.succ_add_eq_add_succ, Nat.add_succ, bytesOf, ih, bytesOf, radix,
        Nat.div_div_eq_div_mul, List.cons_append]

theorem numberOf_append (front back : List Byte) :
    numberOf (front ++ back) = numberOf front + radix front.length * numberOf back := by
  induction front with
  | nil => simp [numberOf, radix]
  | cons byte rest ih =>
      rw [List.cons_append, numberOf, ih, numberOf, List.length_cons, radix, Nat.mul_add,
        Nat.mul_assoc, Nat.add_assoc]

def swap (size number : Nat) : Nat := numberOf (bytesOf size number).reverse

theorem bytesOf_swap (size number : Nat) :
    bytesOf size (swap size number) = (bytesOf size number).reverse := by
  have bytes := bytesOf_numberOf (bytesOf size number).reverse
  rwa [List.length_reverse, length_bytesOf] at bytes

theorem swap_lt (size number : Nat) : swap size number < radix size := by
  have bound := numberOf_lt (bytesOf size number).reverse
  rwa [List.length_reverse, length_bytesOf] at bound

theorem swap_swap {size number : Nat} (small : number < radix size) :
    swap size (swap size number) = number := by
  rw [swap, bytesOf_swap, List.reverse_reverse, numberOf_bytesOf, Nat.mod_eq_of_lt small]

theorem swap_inj {size first second : Nat} (small : first < radix size)
    (also : second < radix size) (same : swap size first = swap size second) : first = second := by
  rw [← swap_swap small, same, swap_swap also]

theorem swap_mod (size number : Nat) : swap size (number % radix size) = swap size number := by
  rw [swap, bytesOf_mod, swap]

theorem swap_add (first second number : Nat) :
    swap (first + second) number =
      swap second (number / radix first) + radix second * swap first number := by
  rw [swap, bytesOf_add, List.reverse_append, numberOf_append, List.length_reverse, length_bytesOf]
  rfl

theorem swap_add_mod (first second number : Nat) :
    swap (first + second) number % radix second = swap second (number / radix first) := by
  rw [swap_add, Nat.add_mul_mod_self_left, Nat.mod_eq_of_lt (swap_lt _ _)]

/-! The integer types. -/

inductive IntType where
  | int8 | int16 | int32 | int64 | uint8 | uint16 | uint32 | uint64
  deriving DecidableEq

namespace IntType

def size : IntType → Nat
  | .int8 | .uint8 => 1
  | .int16 | .uint16 => 2
  | .int32 | .uint32 => 4
  | .int64 | .uint64 => 8

def signed : IntType → Bool
  | .int8 | .int16 | .int32 | .int64 => true
  | .uint8 | .uint16 | .uint32 | .uint64 => false

def convert (T : IntType) (x : Int) : Int :=
  if T.signed then x.bmod (radix T.size) else x % radix T.size

structure Value (T : IntType) where
  val : Int
  fits : T.convert val = val

def pattern (T : IntType) (x : Int) : Nat := (x % radix T.size).toNat

def image (T : IntType) (x : Int) : List Byte := bytesOf T.size (T.pattern x)

def ofImage (T : IntType) (bytes : List Byte) : Int := T.convert (numberOf bytes)

def bigEndian (T : IntType) (x : Int) : List Byte := (T.image x).reverse

variable {T : IntType}

theorem radix_pos (size : Nat) : 0 < radix size := by
  induction size with
  | zero => decide
  | succ size ih => exact Nat.mul_pos (by decide) ih

theorem pattern_lt (T : IntType) (x : Int) : T.pattern x < radix T.size := by
  have positive : (0 : Int) < radix T.size := Int.natCast_pos.mpr (radix_pos _)
  have low := Int.emod_nonneg x (Int.ne_of_gt positive)
  have high := Int.emod_lt_of_pos x positive
  rw [pattern]
  omega

theorem convert_emod (T : IntType) (x : Int) : T.convert (x % radix T.size) = T.convert x := by
  unfold convert
  split
  · exact Int.emod_bmod _ _
  · exact Int.emod_emod_of_dvd x (Int.dvd_refl _)

theorem pattern_cast (T : IntType) (x : Int) : (T.pattern x : Int) = x % radix T.size := by
  have positive : (0 : Int) < radix T.size := Int.natCast_pos.mpr (radix_pos _)
  exact Int.toNat_of_nonneg (Int.emod_nonneg x (Int.ne_of_gt positive))

theorem pattern_sign {T : IntType} {x : Int} (low : -radix T.size ≤ x) (high : x < radix T.size) :
    0 ≤ x ∧ (T.pattern x : Int) = x ∨ x < 0 ∧ (T.pattern x : Int) = x + radix T.size := by
  by_cases negative : x < 0
  · rw [pattern_cast, ← Int.add_emod_right]
    exact .inr ⟨negative, Int.emod_eq_of_lt (by omega) (by omega)⟩
  · rw [pattern_cast]
    exact .inl ⟨by omega, Int.emod_eq_of_lt (by omega) high⟩

theorem convert_pattern (T : IntType) (x : Int) : T.convert (T.pattern x) = T.convert x := by
  rw [pattern_cast, convert_emod]

theorem pattern_convert (T : IntType) (x : Int) : T.pattern (T.convert x) = T.pattern x := by
  unfold pattern convert
  split
  · rw [Int.bmod_emod]
  · rw [Int.emod_emod_of_dvd x (Int.dvd_refl _)]

theorem convert_convert (T : IntType) (x : Int) : T.convert (T.convert x) = T.convert x := by
  rw [← convert_pattern, pattern_convert, convert_pattern]

theorem pattern_natCast (T : IntType) (number : Nat) :
    T.pattern number = number % radix T.size := by
  rw [pattern, ← Int.natCast_emod, Int.toNat_natCast]

theorem Value.signed_range (signed : T.signed = true) (v : T.Value) :
    -radix T.size ≤ 2 * v.val ∧ 2 * v.val < radix T.size := by
  have fits := v.fits
  have positive := radix_pos T.size
  rw [convert, if_pos signed] at fits
  have low := Int.le_bmod (x := v.val) positive
  have high := Int.bmod_lt (x := v.val) positive
  omega

theorem convert_natCast (plain : T.signed = false) {number : Nat} (small : number < radix T.size) :
    T.convert number = number := by
  rw [convert, plain]
  exact Int.emod_eq_of_lt (Int.natCast_nonneg _) (Int.ofNat_lt.mpr small)

theorem Value.pattern_cast (plain : T.signed = false) (v : T.Value) :
    (T.pattern v.val : Int) = v.val := by
  have fits := v.fits
  rw [convert, plain] at fits
  exact (IntType.pattern_cast T v.val).trans fits

@[simp] theorem length_image (T : IntType) (x : Int) : (T.image x).length = T.size :=
  length_bytesOf _ _

theorem numberOf_bigEndian (T : IntType) (x : Int) :
    numberOf (T.bigEndian x) = swap T.size (T.pattern x) := rfl

end IntType

/-! Types of any number of bits. -/

def twos : Nat → Nat
  | 0 => 1
  | n + 1 => 2 * twos n

theorem twos_pos (n : Nat) : 0 < twos n := by
  induction n with
  | zero => decide
  | succ n ih => exact Nat.mul_pos (by decide) ih

theorem twos_le {m n : Nat} (few : m ≤ n) : twos m ≤ twos n := by
  induction few with
  | refl => exact Nat.le_refl _
  | @step n _ ih =>
      have more := twos_pos n
      rw [twos]
      omega

structure IntegerType where
  signed : Bool
  width : Nat
  positive : 0 < width
  bounded : width ≤ 64

namespace IntegerType

def min (T : IntegerType) : Int := if T.signed then -(twos (T.width - 1)) else 0

def max (T : IntegerType) : Int :=
  if T.signed then twos (T.width - 1) - 1 else twos T.width - 1

structure Value (T : IntegerType) where
  val : Int
  low : T.min ≤ val
  high : val ≤ T.max

variable {T : IntegerType}

theorem range_zero (T : IntegerType) : T.min ≤ 0 ∧ 0 ≤ T.max := by
  have narrow := twos_pos (T.width - 1)
  have wide := twos_pos T.width
  unfold min max
  split <;> omega

theorem tdiv_range (i : Int) : (0 ≤ i → 0 ≤ i.tdiv 10 ∧ i.tdiv 10 ≤ i) ∧
    (i ≤ 0 → i ≤ i.tdiv 10 ∧ i.tdiv 10 ≤ 0) := by
  constructor
  · intro positive
    rw [Int.tdiv_eq_ediv_of_nonneg positive]
    omega
  · intro negative
    have opposite : i.tdiv 10 = -((-i) / 10) := by
      rw [← Int.tdiv_eq_ediv_of_nonneg (by omega), Int.neg_tdiv, Int.neg_neg]
    omega

/-- `i / 10` is a value of the type again. -/
def Value.quotient (i : T.Value) : T.Value where
  val := i.val.tdiv 10
  low := by
    have low := i.low
    have zero := range_zero T
    have range := tdiv_range i.val
    omega
  high := by
    have high := i.high
    have zero := range_zero T
    have range := tdiv_range i.val
    omega

theorem Value.natAbs_le (v : T.Value) : v.val.natAbs ≤ 0x10000000000000000 := by
  have low := v.low
  have high := v.high
  have most : twos 64 = 0x10000000000000000 := by decide
  have narrow := twos_le (Nat.le_trans (Nat.sub_le T.width 1) T.bounded)
  have wide := twos_le T.bounded
  unfold min at low
  unfold max at high
  cases signed : T.signed with
  | false =>
      rw [if_neg (by simp [signed])] at low high
      omega
  | true =>
      rw [if_pos signed] at low high
      omega

end IntegerType

end Muzi.Integers
