import Mathlib.Data.List.Basic

/-!
The conversions of `printf` for numbers: `%d` with and without a field width, and
`%g` of a double. A finite double is a mantissa and a power of two, and its digits
are those of the exact value, rounded half to even.
-/

namespace Muzi.Printf

def sign (negative : Bool) : List Char := if negative then ['-'] else []

/-- `%d`, also of wider types. -/
def decimal (x : Int) : List Char := sign (x < 0) ++ Nat.toDigits 10 x.natAbs

/-- `%<width>d`. -/
def blanks (width : Nat) (x : Int) : List Char :=
  List.replicate (width - (decimal x).length) ' ' ++ decimal x

/-- `%0<width>d`. -/
def zeros (width : Nat) (x : Int) : List Char :=
  sign (x < 0) ++
    (List.replicate (width - (decimal x).length) '0' ++ Nat.toDigits 10 x.natAbs)

def tens : Nat → Nat
  | 0 => 1
  | n + 1 => 10 * tens n

/-- A finite value is `mantissa * 2 ^ exponent / 2 ^ 1074`. -/
inductive Double where
  | nan (negative : Bool)
  | infinite (negative : Bool)
  | finite (negative : Bool) (mantissa : Fin 0x20000000000000) (exponent : Fin 2046)

def roundedQuotient (a b : Nat) : Nat :=
  if 2 * (a % b) < b ∨ 2 * (a % b) = b ∧ a / b % 2 = 0 then a / b else a / b + 1

/-- The least `place` up to `last` such that `value / unit` is below `10 ^ (place - shift)`. -/
def leadingPlace (unit shift last value : Nat) : Nat :=
  ((List.range (last + 1)).find? fun place => value * tens shift < unit * tens place).getD 0

/-- The significant digits of `value / unit` as a number, and the place of the first one. -/
def significant (unit shift last precision value : Nat) : Nat × Nat :=
  let place := leadingPlace unit shift last value
  let number := roundedQuotient (value * tens (shift + precision)) (unit * tens place)
  if number = tens precision then (tens (precision - 1), place + 1) else (number, place)

/-- The places go from that of `10 ^ -324` to that of `10 ^ 308`, and one further. -/
def doubleDigits (precision : Nat) (mantissa : Fin 0x20000000000000) (exponent : Fin 2046) :
    Nat × Nat :=
  significant (1 <<< 1074) 323 632 precision (mantissa.val <<< exponent.val)

def withoutTrailingZeros (digits : List Char) : List Char :=
  (digits.reverse.dropWhile (· = '0')).reverse

def fraction (digits : List Char) : List Char :=
  match withoutTrailingZeros digits with
  | [] => []
  | digits => '.' :: digits

/-- The exponent in the style of `%e`: a sign and two digits at least. -/
def exponentPart (x : Int) : List Char :=
  ['e', if x < 0 then '-' else '+'] ++
    (List.replicate (2 - (Nat.toDigits 10 x.natAbs).length) '0' ++ Nat.toDigits 10 x.natAbs)

/-- Digits of which the first one stands for tens to the power `x`. -/
def generalDigits (precision : Nat) (digits : List Char) (x : Int) : List Char :=
  if x < -4 ∨ x ≥ precision then
    digits.take 1 ++ (fraction (digits.drop 1) ++ exponentPart x)
  else if x < 0 then
    '0' :: fraction (List.replicate (x.natAbs - 1) '0' ++ digits)
  else
    digits.take (x.toNat + 1) ++ fraction (digits.drop (x.toNat + 1))

/-- `%.<precision>g`. -/
def general (precision : Nat) : Double → List Char
  | .nan negative => sign negative ++ ['n', 'a', 'n']
  | .infinite negative => sign negative ++ ['i', 'n', 'f']
  | .finite negative mantissa exponent =>
      if mantissa.val = 0 then sign negative ++ ['0']
      else
        let digits := doubleDigits precision mantissa exponent
        sign negative ++
          generalDigits precision (Nat.toDigits 10 digits.1) ((digits.2 : Int) - 324)

/-! The text of an integer. -/

def magnitude (text : List Char) : List Char :=
  if text.head? = some '-' then text.tail else text

def numeral (text : List Char) : Int :=
  if text.head? = some '-' then -(Nat.ofDigitChars 10 text.tail 0 : Nat)
  else (Nat.ofDigitChars 10 text 0 : Nat)

structure Canonical (x : Int) (text : List Char) : Prop where
  sign : text.head? = some '-' ↔ x < 0
  nonempty : magnitude text ≠ []
  digits : ∀ c ∈ magnitude text, c.isDigit = true
  leading : (magnitude text).head? = some '0' → magnitude text = ['0']
  value : numeral text = x

theorem toDigits_ne_nil (n : Nat) : Nat.toDigits 10 n ≠ [] := by
  rw [Nat.toDigits_eq_if (by decide)]
  split <;> simp

theorem toDigits_head (n : Nat) (zero : (Nat.toDigits 10 n).head? = some '0') : n = 0 := by
  induction n using Nat.strongRecOn with
  | ind n ih =>
      rw [Nat.toDigits_eq_if (by decide)] at zero
      split at zero
      · rename_i small
        have table : ∀ digit : Fin 10, digit.val.digitChar = '0' → digit.val = 0 := by decide
        exact table ⟨n, small⟩ (by simpa using zero)
      · rename_i large
        rw [List.head?_append_of_ne_nil _ (toDigits_ne_nil _)] at zero
        have quotient := ih (n / 10) (Nat.div_lt_self (by omega) (by decide)) zero
        omega

theorem isDigit_of_mem {n : Nat} {c : Char} (member : c ∈ Nat.toDigits 10 n) :
    c.isDigit = true :=
  Nat.isDigit_of_mem_toDigits (by decide) (by decide) member

theorem toDigits_no_sign (n : Nat) : (Nat.toDigits 10 n).head? ≠ some '-' := by
  intro found
  exact absurd (isDigit_of_mem (List.mem_of_mem_head? found)) (by decide)

theorem decimal_head (x : Int) : (decimal x).head? = some '-' ↔ x < 0 := by
  by_cases negative : x < 0
  · simp [decimal, sign, negative]
  · simpa [decimal, sign, negative] using toDigits_no_sign x.natAbs

theorem magnitude_decimal (x : Int) : magnitude (decimal x) = Nat.toDigits 10 x.natAbs := by
  unfold magnitude
  split
  · rename_i signed
    have negative := (decimal_head x).mp signed
    simp [decimal, sign, negative]
  · rename_i unsigned
    have positive := mt (decimal_head x).mpr unsigned
    simp [decimal, sign, positive]

theorem numeral_decimal (x : Int) : numeral (decimal x) = x := by
  have back : Nat.ofDigitChars 10 (Nat.toDigits 10 x.natAbs) 0 = x.natAbs :=
    Nat.ofDigitChars_toDigits (by decide) (by decide)
  have digits := magnitude_decimal x
  unfold numeral
  unfold magnitude at digits
  split
  · rename_i signed
    have negative := (decimal_head x).mp signed
    rw [if_pos signed] at digits
    rw [digits, back]
    omega
  · rename_i unsigned
    have positive := mt (decimal_head x).mpr unsigned
    rw [if_neg unsigned] at digits
    rw [digits, back]
    omega

theorem decimal_canonical (x : Int) : Canonical x (decimal x) where
  sign := decimal_head x
  nonempty := by
    rw [magnitude_decimal]
    exact toDigits_ne_nil _
  digits := by
    rw [magnitude_decimal]
    exact fun _ member => isDigit_of_mem member
  leading := by
    rw [magnitude_decimal]
    intro zero
    rw [toDigits_head _ zero]
    rfl
  value := numeral_decimal x

theorem decimal_ofNat (n : Nat) : decimal n = Nat.toDigits 10 n := by
  have positive : ¬((n : Int) < 0) := Int.not_lt.mpr (Int.natCast_nonneg n)
  simp [decimal, sign, positive]

/-! Padded numbers. -/

theorem tens_pos (n : Nat) : 0 < tens n := by
  induction n with
  | zero => decide
  | succ n ih => exact Nat.mul_pos (by decide) ih

theorem tens_add (m n : Nat) : tens (m + n) = tens m * tens n := by
  induction m with
  | zero => rw [Nat.zero_add, tens, Nat.one_mul]
  | succ m ih => rw [Nat.succ_add, tens, ih, tens, Nat.mul_assoc]

theorem tens_pred_lt {n : Nat} (positive : 0 < n) : tens (n - 1) < tens n := by
  cases n with
  | zero => cases positive
  | succ n =>
      have some := tens_pos n
      rw [Nat.add_sub_cancel, tens]
      omega

theorem length_toDigits {n precision : Nat} (positive : 0 < precision)
    (small : n < tens precision) :
    (Nat.toDigits 10 n).length ≤ precision := by
  have power : tens precision = 10 ^ precision := by
    clear small positive
    induction precision with
    | zero => rfl
    | succ precision ih => rw [tens, ih, Nat.pow_succ']
  rw [power] at small
  exact (Nat.length_toDigits_le_iff (by decide) positive).mpr small

theorem decimal_fits {width n : Nat} (some : 0 < width) (small : n < tens width) :
    (decimal n).length ≤ width := by
  rw [decimal_ofNat]
  exact length_toDigits some small

theorem length_blanks {width n : Nat} (some : 0 < width) (small : n < tens width) :
    (blanks width n).length = width := by
  have fits := decimal_fits some small
  rw [blanks, List.length_append, List.length_replicate]
  omega

theorem zeros_ofNat (width n : Nat) :
    zeros width n = List.replicate (width - (decimal n).length) '0' ++ Nat.toDigits 10 n := by
  have positive : ¬((n : Int) < 0) := Int.not_lt.mpr (Int.natCast_nonneg n)
  simp [zeros, sign, positive]

theorem length_zeros {width n : Nat} (some : 0 < width) (small : n < tens width) :
    (zeros width n).length = width := by
  have fits := decimal_fits some small
  rw [decimal_ofNat] at fits
  rw [zeros_ofNat, decimal_ofNat, List.length_append, List.length_replicate]
  omega

theorem ofDigitChars_zeros (width n : Nat) : Nat.ofDigitChars 10 (zeros width n) 0 = n := by
  rw [zeros_ofNat, Nat.ofDigitChars_append, Nat.ofDigitChars_replicate_zero, Nat.mul_zero,
    Nat.ofDigitChars_toDigits (by decide) (by decide)]

theorem dropWhile_blanks (width n : Nat) :
    (blanks width n).dropWhile (· = ' ') = Nat.toDigits 10 n := by
  have first : (Nat.toDigits 10 n).dropWhile (· = ' ') = Nat.toDigits 10 n := by
    cases digits : Nat.toDigits 10 n with
    | nil => rfl
    | cons c rest =>
        have digit : c.isDigit = true := isDigit_of_mem (digits ▸ List.mem_cons_self)
        have other : c ≠ ' ' := fun blank => absurd digit (by rw [blank]; decide)
        exact List.dropWhile_cons_of_neg (by simpa using other)
  rw [blanks, decimal_ofNat, List.dropWhile_append_of_pos, first]
  intro c member
  exact decide_eq_true (List.eq_of_mem_replicate member)

theorem zeros_append_inj {width m n : Nat} {rest other : List Char} (some : 0 < width)
    (small : m < tens width) (also : n < tens width)
    (same : zeros width m ++ rest = zeros width n ++ other) : m = n ∧ rest = other := by
  have lengths := (length_zeros some small).trans (length_zeros some also).symm
  obtain ⟨front, back⟩ := List.append_inj same lengths
  have numbers := congrArg (Nat.ofDigitChars 10 · 0) front
  rw [ofDigitChars_zeros, ofDigitChars_zeros] at numbers
  exact ⟨numbers, back⟩

theorem blanks_append_inj {width m n : Nat} {rest other : List Char} (some : 0 < width)
    (small : m < tens width) (also : n < tens width)
    (same : blanks width m ++ rest = blanks width n ++ other) : m = n ∧ rest = other := by
  have lengths := (length_blanks some small).trans (length_blanks some also).symm
  obtain ⟨front, back⟩ := List.append_inj same lengths
  have digits := congrArg (List.dropWhile (· = ' ')) front
  rw [dropWhile_blanks, dropWhile_blanks] at digits
  have numbers := congrArg (Nat.ofDigitChars 10 · 0) digits
  rw [Nat.ofDigitChars_toDigits (by decide) (by decide),
    Nat.ofDigitChars_toDigits (by decide) (by decide)] at numbers
  exact ⟨numbers, back⟩

/-! How long the text of a double can be. -/

theorem length_sign (negative : Bool) : (sign negative).length ≤ 1 := by
  cases negative <;> decide

theorem roundedQuotient_le {a b c : Nat} (below : a < b * c) : roundedQuotient a b ≤ c := by
  have quotient : a / b < c := Nat.div_lt_of_lt_mul below
  unfold roundedQuotient
  split <;> omega

section

variable {unit shift last value : Nat}

theorem leadingPlace_spec (below : value * tens shift < unit * tens last) :
    leadingPlace unit shift last value ≤ last ∧
      value * tens shift < unit * tens (leadingPlace unit shift last value) := by
  unfold leadingPlace
  cases found : (List.range (last + 1)).find? fun place =>
      value * tens shift < unit * tens place with
  | none =>
      have never := List.find?_eq_none.mp found last (List.mem_range.mpr (Nat.lt_succ_self last))
      exact absurd (decide_eq_true below) never
  | some place =>
      have inside := List.mem_range.mp (List.mem_of_find?_eq_some found)
      have met := List.find?_some found
      exact ⟨Nat.le_of_lt_succ inside, of_decide_eq_true met⟩

theorem significant_spec {precision : Nat} (positive : 0 < precision)
    (below : value * tens shift < unit * tens last) :
    (significant unit shift last precision value).1 < tens precision ∧
      (significant unit shift last precision value).2 ≤ last + 1 := by
  obtain ⟨place, leading⟩ := leadingPlace_spec below
  have scaled : value * tens (shift + precision) <
      unit * tens (leadingPlace unit shift last value) * tens precision := by
    rw [tens_add, ← Nat.mul_assoc]
    exact Nat.mul_lt_mul_of_pos_right leading (tens_pos precision)
  have rounded := roundedQuotient_le scaled
  unfold significant
  dsimp only
  split
  · exact ⟨tens_pred_lt positive, Nat.succ_le_succ place⟩
  · rename_i other
    exact ⟨Nat.lt_of_le_of_ne rounded other, Nat.le_succ_of_le place⟩

end

theorem shiftLeft_le {a b m n : Nat} (low : a ≤ b) (few : m ≤ n) : a <<< m ≤ b <<< n := by
  rw [Nat.shiftLeft_eq, Nat.shiftLeft_eq]
  exact Nat.mul_le_mul low (Nat.pow_le_pow_right (by decide) few)

theorem finite_below (mantissa : Fin 0x20000000000000) (exponent : Fin 2046) :
    (mantissa.val <<< exponent.val) * tens 323 < (1 <<< 1074) * tens 632 := by
  have largest : (0x20000000000000 <<< 2045) * tens 323 < (1 <<< 1074) * tens 632 := by
    decide +kernel
  have product : mantissa.val <<< exponent.val ≤ 0x20000000000000 <<< 2045 :=
    shiftLeft_le (Nat.le_of_lt mantissa.isLt) (Nat.le_of_lt_succ exponent.isLt)
  exact Nat.lt_of_le_of_lt (Nat.mul_le_mul_right _ product) largest

theorem doubleDigits_spec {precision : Nat} (positive : 0 < precision)
    (mantissa : Fin 0x20000000000000) (exponent : Fin 2046) :
    (doubleDigits precision mantissa exponent).1 < tens precision ∧
      (doubleDigits precision mantissa exponent).2 ≤ 633 :=
  significant_spec positive (finite_below mantissa exponent)

theorem length_withoutTrailingZeros (digits : List Char) :
    (withoutTrailingZeros digits).length ≤ digits.length := by
  have shorter := (List.dropWhile_sublist (· = '0') (l := digits.reverse)).length_le
  rw [withoutTrailingZeros, List.length_reverse]
  exact Nat.le_trans shorter (Nat.le_of_eq List.length_reverse)

theorem length_fraction (digits : List Char) : (fraction digits).length ≤ digits.length + 1 := by
  have shorter := length_withoutTrailingZeros digits
  unfold fraction
  split
  · exact Nat.zero_le _
  · exact Nat.succ_le_succ shorter

theorem length_exponentPart {x : Int} (small : x.natAbs < 1000) :
    (exponentPart x).length ≤ 5 := by
  have digits : (Nat.toDigits 10 x.natAbs).length ≤ 3 := length_toDigits (by decide) small
  simp only [exponentPart, List.length_append, List.length_cons, List.length_nil,
    List.length_replicate]
  omega

theorem length_generalDigits {precision : Nat} {digits : List Char} {x : Int}
    (few : digits.length ≤ precision) (small : x.natAbs < 1000) :
    (generalDigits precision digits x).length ≤ precision + 6 := by
  have exponent := length_exponentPart small
  unfold generalDigits
  split
  · have behind := length_fraction (digits.drop 1)
    simp only [List.length_append, List.length_take, List.length_drop] at behind ⊢
    omega
  · split
    · have behind := length_fraction (List.replicate (x.natAbs - 1) '0' ++ digits)
      simp only [List.length_cons, List.length_append, List.length_replicate] at behind ⊢
      omega
    · have behind := length_fraction (digits.drop (x.toNat + 1))
      simp only [List.length_append, List.length_take, List.length_drop] at behind ⊢
      omega

theorem length_general {precision : Nat} (positive : 0 < precision) (x : Double) :
    (general precision x).length ≤ precision + 7 := by
  cases x with
  | nan negative | infinite negative =>
      have front := length_sign negative
      simp only [general, List.length_append, List.length_cons, List.length_nil]
      omega
  | finite negative mantissa exponent =>
      have front := length_sign negative
      obtain ⟨number, place⟩ := doubleDigits_spec positive mantissa exponent
      have few := length_toDigits positive number
      have near : (((doubleDigits precision mantissa exponent).2 : Int) - 324).natAbs < 1000 := by
        omega
      have rest := length_generalDigits few near
      simp only [general]
      split
      · simp only [List.length_append, List.length_cons, List.length_nil]
        omega
      · rw [List.length_append]
        omega

example : (general 12 (.finite true 0x1fffffffffffff 2045)).length = 19 := by decide +kernel

end Muzi.Printf
