import Muzi.AsyncOutputer
import Muzi.Integers
import Muzi.Printf
import Muzi.TcpConnection

/-!
base/log_stream.h over base/fixed_buffer.h. Text is cut to the space that is left;
numbers are written in place when a constant number of bytes is left. A write at or
past the end of the storage is `none`; an `end_` behind the last usable byte is a
value like any other, and `GetAvail` then wraps.
-/

namespace Muzi

open Storage Execution
open Integers (IntegerType)

namespace LogStream

open Printf (Double)

def kMaxNumericSize : Nat := 48
def kMaxHexSize : Nat := 8

/-- `kZero` points to the middle one. -/
def kDigits : Vector Char 19 :=
  #v['9', '8', '7', '6', '5', '4', '3', '2', '1', '0',
    '1', '2', '3', '4', '5', '6', '7', '8', '9']

def kDigitsHex : Vector Char 16 :=
  #v['0', '1', '2', '3', '4', '5', '6', '7', '8', '9', 'A', 'B', 'C', 'D', 'E', 'F']

theorem kZero_index (i : Int) : (9 + i.tmod 10).toNat < 19 := by
  have high := Int.tmod_lt_of_pos i (by decide : (0 : Int) < 10)
  omega

/-- `kZero[i]` of a remainder. -/
def kZero (i : Int) : Char := kDigits.get ⟨(9 + i.tmod 10).toNat, kZero_index i⟩

theorem quotient_smaller {i : Int} (more : ¬i.tdiv 10 = 0) :
    (i.tdiv 10).natAbs < i.natAbs := by
  have size : (i.tdiv 10).natAbs = i.natAbs / 10 := Int.natAbs_tdiv i 10
  omega

def integerDigits {T : IntegerType} (i : T.Value) : List Char :=
  if i.quotient.val = 0 then [kZero i.val] else kZero i.val :: integerDigits i.quotient
termination_by i.val.natAbs
decreasing_by exact quotient_smaller ‹_›

def convertIneger {T : IntegerType} (val : T.Value) : List Char × Nat :=
  let written := integerDigits val ++ if val.val < 0 then ['-'] else []
  (written.reverse, written.length)

def hexDigits (i : Nat) : List Char :=
  if i / 16 = 0 then [kDigitsHex.get ⟨i % 16, Nat.mod_lt i (by decide)⟩]
  else kDigitsHex.get ⟨i % 16, Nat.mod_lt i (by decide)⟩ :: hexDigits (i / 16)

def convertHex (val : UInt64) : List Char × Nat :=
  let written := hexDigits val.toNat ++ ['x', '0']
  (written.reverse, written.length)

/-- `snprintf` with `%.12g` into `kMaxNumericSize` bytes: the text with its NUL, and the result. -/
def convertFloat (val : Double) : List Char × Nat :=
  let text := Printf.general 12 val
  (text.take (kMaxNumericSize - 1) ++ ['\x00'], text.length)

/-! The digits of an integer. -/

theorem kZero_eq (i : Int) : kZero i = (i.natAbs % 10).digitChar := by
  have table : ∀ place : Fin 19,
      kDigits.get place = ((place.val : Int) - 9).natAbs.digitChar := by decide
  have size : (i.tmod 10).natAbs = i.natAbs % 10 := Int.natAbs_tmod i 10
  have low : -10 < i.tmod 10 := by omega
  rw [kZero, table, ← size]
  congr 1
  dsimp only
  omega

theorem integerDigits_eq {T : IntegerType} (i : T.Value) :
    integerDigits i = (Nat.toDigits 10 i.val.natAbs).reverse := by
  have size : i.quotient.val.natAbs = i.val.natAbs / 10 := Int.natAbs_tdiv i.val 10
  rw [integerDigits, Nat.toDigits_eq_if (by decide), kZero_eq]
  split
  · rename_i last
    have small : i.val.natAbs < 10 := by omega
    rw [if_pos small, Nat.mod_eq_of_lt small]
    rfl
  · rename_i more
    have large : ¬i.val.natAbs < 10 := by omega
    rw [if_neg large, integerDigits_eq i.quotient, size, List.reverse_append]
    rfl
termination_by i.val.natAbs
decreasing_by exact quotient_smaller ‹_›

theorem convertIneger_eq {T : IntegerType} (val : T.Value) :
    convertIneger val = (Printf.decimal val.val, (Printf.decimal val.val).length) := by
  have written : (integerDigits val ++ if val.val < 0 then ['-'] else []).reverse =
      Printf.decimal val.val := by
    rw [integerDigits_eq, List.reverse_append, List.reverse_reverse, Printf.decimal]
    by_cases negative : val.val < 0 <;> simp [Printf.sign, negative]
  rw [convertIneger, written, ← List.length_reverse, written]

theorem length_decimal {T : IntegerType} (val : T.Value) :
    (Printf.decimal val.val).length ≤ 21 := by
  have small : val.val.natAbs < Printf.tens 20 :=
    Nat.lt_of_le_of_lt val.natAbs_le (by decide)
  have digits := Printf.length_toDigits (by decide) small
  have front := Printf.length_sign (val.val < 0)
  rw [Printf.decimal, List.length_append]
  omega

theorem convertIneger_length {T : IntegerType} (val : T.Value) :
    (convertIneger val).2 = (convertIneger val).1.length ∧
      (convertIneger val).2 ≤ kMaxNumericSize := by
  rw [convertIneger_eq]
  exact ⟨rfl, Nat.le_trans (length_decimal val) (by decide)⟩

/-- For every type up to 64 bits and every value, the least one included. -/
theorem convertIneger_exact {T : IntegerType} (val : T.Value) :
    Printf.Canonical val.val (convertIneger val).1 ∧
      (convertIneger val).2 = (convertIneger val).1.length ∧
      (convertIneger val).2 ≤ kMaxNumericSize := by
  refine ⟨?_, convertIneger_length val⟩
  rw [convertIneger_eq]
  exact Printf.decimal_canonical val.val

def ascii (text : List Char) : List Byte := text.map fun c => UInt8.ofNat c.toNat

@[simp] theorem length_ascii (text : List Char) : (ascii text).length = text.length :=
  List.length_map _

end LogStream

open AsyncOutputer (kSmallBuffSize SmallBuffer)

structure LogStream where
  data : List Byte

namespace LogStream

open Printf (Double)

def new : LogStream := ⟨[]⟩

def size (s : LogStream) : Nat := s.data.length

/-- The difference as a `size_t`. -/
def getAvail (s : LogStream) : Nat :=
  (((kSmallBuffSize : Int) - s.size - 1) % 0x10000000000000000).toNat

def write (s : LogStream) (bytes : List Byte) (count : Nat) : Option LogStream :=
  if s.size + bytes.length ≤ kSmallBuffSize then some ⟨s.data ++ bytes.take count⟩ else none

def append (s : LogStream) (memory : Memory) (msg len : Nat) : Option LogStream :=
  let count := min s.getAvail len
  if s.size + count ≤ kSmallBuffSize then s.write (read memory msg count) count else none

def appendAll (s : LogStream) (bytes : List Byte) : Option LogStream :=
  s.append (store (fun _ => 0) 0 bytes) 0 bytes.length

/-- A conversion in place, if there are `needed` bytes. -/
def convert (s : LogStream) (needed : Nat) (converted : List Char × Nat) : Option LogStream :=
  if s.getAvail ≥ needed then s.write (ascii converted.1) converted.2 else some s

def appendProxy (s : LogStream) (memory : Memory) (str : StringProxy) : Option LogStream :=
  s.append memory str.ptr str.length

inductive Operand where
  | integer {T : IntegerType} (val : T.Value)
  | float (val : Double)
  -- up to the NUL; `none` is a null pointer
  | cString (msg : Option (List Byte))
  -- without the last element of the array
  | charArray (msg : List Byte)
  | string (msg : List Byte)
  | stringProxy (memory : Memory) (str : StringProxy)
  | buffer (buf : SmallBuffer)
  -- the word that the pointer points to
  | pointer (hex : UInt64)
  | append (memory : Memory) (msg len : Nat)

def put (s : LogStream) : Operand → Option LogStream
  | .integer val => s.convert kMaxNumericSize (convertIneger val)
  | .float val => s.convert kMaxNumericSize (convertFloat val)
  | .cString (some msg) => s.appendAll (msg.takeWhile (· ≠ 0))
  | .cString none => s.appendAll (ascii ['(', 'n', 'u', 'l', 'l', ')'])
  | .charArray msg => s.appendAll msg
  | .string msg => s.appendAll msg
  | .stringProxy memory str => s.appendProxy memory str
  | .buffer buf => s.appendProxy (store (fun _ => 0) 0 buf.data) (.ofSize 0 buf.data.length)
  | .pointer hex => s.convert kMaxHexSize (convertHex hex)
  | .append memory msg len => s.append memory msg len

/-- The position is at most on the last byte, and `GetAvail` is the rest before it. -/
structure InBounds (s : LogStream) : Prop where
  size : s.size ≤ kSmallBuffSize - 1
  avail : s.getAvail = kSmallBuffSize - 1 - s.size

def Stays (s : LogStream) (operand : Operand) : Prop :=
  ∃ next, s.put operand = some next ∧ next.InBounds

/-- A pointer that is written at all fits. -/
def PointerFits (s : LogStream) : Operand → Prop
  | .pointer hex => kMaxHexSize ≤ s.getAvail → (convertHex hex).2 ≤ s.getAvail
  | _ => True

/-! One operation. -/

variable {s next : LogStream}

theorem inBounds_iff : s.InBounds ↔ s.size < kSmallBuffSize := by
  constructor
  · intro bounds
    exact Nat.lt_of_le_of_lt bounds.size (by decide)
  · intro room
    simp only [kSmallBuffSize] at room
    refine ⟨Nat.le_sub_one_of_lt room, ?_⟩
    simp only [getAvail, kSmallBuffSize]
    omega

theorem write_stays {bytes : List Byte} {count : Nat} (bounds : s.InBounds)
    (counted : count ≤ bytes.length) (last : bytes.length ≤ count + 1) :
    (∃ next, s.write bytes count = some next ∧ next.InBounds) ↔ count ≤ s.getAvail := by
  have room := inBounds_iff.mp bounds
  have grown : (⟨s.data ++ bytes.take count⟩ : LogStream).size = s.size + count := by
    simp [size, Nat.min_eq_left counted]
  rw [bounds.avail]
  constructor
  · rintro ⟨next, written, after⟩
    cases (Option.ite_none_right_eq_some.mp written).2
    have fits := inBounds_iff.mp after
    rw [grown] at fits
    omega
  · intro fits
    refine ⟨_, if_pos (by omega), inBounds_iff.mpr ?_⟩
    rw [grown]
    omega

theorem append_stays (bounds : s.InBounds) (memory : Memory) (msg len : Nat) :
    ∃ next, s.append memory msg len = some next ∧ next.InBounds := by
  have room := inBounds_iff.mp bounds
  have avail := bounds.avail
  have count : min s.getAvail len ≤ s.getAvail := Nat.min_le_left _ _
  simp only [append]
  rw [if_pos (by omega)]
  apply (write_stays bounds _ _).mpr count
  · exact Nat.le_of_eq (length_read _ _ _).symm
  · rw [length_read]
    exact Nat.le_succ _

theorem convert_stays {needed : Nat} {converted : List Char × Nat} (bounds : s.InBounds)
    (counted : converted.2 ≤ converted.1.length) (last : converted.1.length ≤ converted.2 + 1) :
    (∃ next, s.convert needed converted = some next ∧ next.InBounds) ↔
      (needed ≤ s.getAvail → converted.2 ≤ s.getAvail) := by
  unfold convert
  split
  · rename_i enough
    rw [forall_prop_of_true enough]
    apply write_stays bounds
    · rwa [length_ascii]
    · rwa [length_ascii]
  · rename_i few
    exact iff_of_true ⟨s, rfl, bounds⟩ fun enough => absurd enough few

/-- `%.12g` needs less than `kMaxNumericSize`, so that it is not cut. -/
theorem convertFloat_length (val : Double) :
    (convertFloat val).1.length = (convertFloat val).2 + 1 ∧
      (convertFloat val).2 ≤ kMaxNumericSize := by
  have short : (Printf.general 12 val).length ≤ 19 := Printf.length_general (by decide) val
  have whole : (Printf.general 12 val).take (kMaxNumericSize - 1) = Printf.general 12 val :=
    List.take_of_length_le (Nat.le_trans short (by decide))
  simp only [convertFloat, whole, List.length_append, List.length_singleton, true_and]
  exact Nat.le_trans short (by decide)

theorem convertHex_length (val : UInt64) : (convertHex val).1.length = (convertHex val).2 :=
  List.length_reverse

theorem put_stays (bounds : s.InBounds) (operand : Operand) :
    s.Stays operand ↔ s.PointerFits operand := by
  cases operand with
  | integer val =>
      obtain ⟨counted, short⟩ := convertIneger_length val
      exact (convert_stays bounds (Nat.le_of_eq counted) (by omega)).trans
        (iff_of_true (fun enough => Nat.le_trans short enough) trivial)
  | float val =>
      obtain ⟨counted, short⟩ := convertFloat_length val
      exact (convert_stays bounds (by omega) (by omega)).trans
        (iff_of_true (fun enough => Nat.le_trans short enough) trivial)
  | pointer hex =>
      have counted := convertHex_length hex
      exact convert_stays bounds (by omega) (by omega)
  | cString msg =>
      cases msg with
      | none => exact iff_of_true (append_stays bounds _ _ _) trivial
      | some msg => exact iff_of_true (append_stays bounds _ _ _) trivial
  | charArray msg | string msg | stringProxy memory str | buffer buf | append memory msg len =>
      exact iff_of_true (append_stays bounds _ _ _) trivial

theorem new_inBounds : new.InBounds := inBounds_iff.mpr (by decide)

/-- Over any operands the stream stays in its buffer exactly when every pointer that is
written has no more characters than there is room. -/
theorem stays_iff_pointers_fit (operands : List Operand) :
    Along put Stays new operands ↔ Along put PointerFits new operands :=
  along_congr InBounds
    (fun _ operand _ bounds fits moved => by
      obtain ⟨next, stepped, after⟩ := (put_stays bounds operand).mpr fits
      cases stepped.symm.trans moved
      exact after)
    (fun _ operand bounds => put_stays bounds operand) new_inBounds operands

theorem appendAll_buffer (b : SmallBuffer) (msg : List Byte) :
    (⟨b.data⟩ : LogStream).appendAll msg = some ⟨(b.append msg).data⟩ := by
  have bounds : (⟨b.data⟩ : LogStream).InBounds := inBounds_iff.mpr b.fits
  have avail : (⟨b.data⟩ : LogStream).getAvail = b.getAvail := by
    rw [bounds.avail, FixedBuffer.getAvail, size, Nat.sub_right_comm]
  have count : min b.getAvail msg.length ≤ msg.length := Nat.min_le_right _ _
  have copied : read (store (fun _ => 0) 0 msg) 0 (min b.getAvail msg.length) =
      msg.take (min b.getAvail msg.length) := by
    have inside := read_store_inside (fun _ => 0) 0 msg
      ((Nat.zero_add _).symm ▸ count : 0 + min b.getAvail msg.length ≤ msg.length)
    rwa [Nat.add_zero, List.drop_zero] at inside
  obtain ⟨next, appended, -⟩ := append_stays bounds (store (fun _ => 0) 0 msg) 0 msg.length
  rw [appendAll, appended]
  simp only [append, write, avail, copied] at appended
  obtain ⟨-, written⟩ := Option.ite_none_right_eq_some.mp appended
  rw [← (Option.ite_none_right_eq_some.mp written).2, FixedBuffer.append, List.take_take,
    Nat.min_self]

def filled (count : Nat) : LogStream := ⟨List.replicate count 32⟩

theorem put_blanks {count : Nat} (room : count < kSmallBuffSize) :
    new.put (.string (List.replicate count 32)) = some (filled count) := by
  have appended := appendAll_buffer ⟨[], by decide⟩ (List.replicate count 32)
  rw [FixedBuffer.append_data, List.nil_append] at appended
  · exact appended
  · simp only [FixedBuffer.getAvail, List.length_replicate, List.length_nil]
    omega

theorem filled_avail {count : Nat} (room : count < kSmallBuffSize) :
    (filled count).getAvail = kSmallBuffSize - 1 - count := by
  have length : (filled count).size = count := List.length_replicate
  have bounds : (filled count).InBounds := inBounds_iff.mpr (length.symm ▸ room)
  rw [bounds.avail, length]

theorem put_pointer (hex : UInt64) (enough : kMaxHexSize ≤ s.getAvail) :
    s.put (.pointer hex) =
      if s.size + (convertHex hex).2 ≤ kSmallBuffSize then
        some ⟨s.data ++ ascii (convertHex hex).1⟩
      else none := by
  have length : (ascii (convertHex hex).1).length = (convertHex hex).2 := by
    rw [length_ascii, convertHex_length]
  rw [put, convert, if_pos enough, write, length, ← length, List.take_length]

/-- One byte too many: `GetAvail` wraps, and the next text is written past the storage. -/
theorem full_overruns (full : s.size = kSmallBuffSize) :
    s.getAvail = 0xffffffffffffffff ∧ s.put (.string [32]) = none := by
  have wrapped : s.getAvail = 0xffffffffffffffff := by
    rw [getAvail, full]
    decide
  refine ⟨wrapped, ?_⟩
  rw [put, appendAll, append, wrapped, full]
  rfl

/-- With eight bytes left a pointer to a word of ones is written past the storage; with nine
left, one to a word of eight digits fills it up. -/
theorem pointer_overruns :
    (run put new [.string (List.replicate 4087 32)] = some (filled 4087) ∧
      (filled 4087).InBounds ∧ (filled 4087).put (.pointer 0xffffffffffffffff) = none) ∧
    ∃ full, run put new [.string (List.replicate 4086 32), .pointer 0xffffffff] = some full ∧
      full.size = 4096 ∧ full.getAvail = 0xffffffffffffffff ∧ full.put (.string [32]) = none := by
  have size (count : Nat) : (filled count).size = count := List.length_replicate
  have long : (convertHex 0xffffffffffffffff).2 = 18 := by decide +kernel
  have short : (convertHex 0xffffffff).2 = 10 := by decide +kernel
  constructor
  · have room : 4087 < kSmallBuffSize := by decide
    refine ⟨run_cons_some.mpr ⟨_, put_blanks room, rfl⟩, inBounds_iff.mpr (by rwa [size]), ?_⟩
    rw [put_pointer _ (by rw [filled_avail room]; decide), size, long]
    rfl
  · have room : 4086 < kSmallBuffSize := by decide
    have written := put_pointer (s := filled 4086) 0xffffffff (by rw [filled_avail room]; decide)
    rw [size, short, if_pos (by decide)] at written
    have full : (⟨(filled 4086).data ++ ascii (convertHex 0xffffffff).1⟩ : LogStream).size =
        kSmallBuffSize := by
      rw [LogStream.size, List.length_append, length_ascii, convertHex_length, short,
        ← LogStream.size, size]
      rfl
    exact ⟨_, run_cons_some.mpr ⟨_, put_blanks room, run_cons_some.mpr ⟨_, written, rfl⟩⟩, full,
      full_overruns full⟩

end LogStream

end Muzi
