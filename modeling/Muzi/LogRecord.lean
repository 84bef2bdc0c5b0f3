import Muzi.ChainCursor
import Muzi.LogStream

/-!
base/logger.cc: the record that a log statement hands to the outputer. `StackWritter`
writes the head of the record when it is made, and the place in the source when it is
destroyed, all into one LogStream. Of a record that is too long the number of the line is
lost first, and then the newline.
-/

namespace Muzi.LogRecord

open Storage Execution LogStream
open AsyncOutputer (kSmallBuffSize SmallBuffer)
open ChainBuffer (LogLevel)
open Integers (IntegerType)

def slash : Byte := 47
def newline : Byte := 10

/-- The loop of `SourceFile` over the `right` first characters, and the `++right` behind it. -/
def scan (file : List Byte) : Nat → Nat
  | 0 => 0
  | right + 1 => if file[right]? = some slash then right else scan file right

def sourceFile (file : List Byte) : List Byte := file.drop (scan file file.length)

theorem scan_spec (file : List Byte) (right : Nat) :
    scan file right ≤ right ∧ (scan file right = 0 ∨ file[scan file right]? = some slash) ∧
      ∀ i, scan file right < i → i < right → file[i]? ≠ some slash := by
  induction right with
  | zero => exact ⟨Nat.le_refl 0, .inl rfl, fun i _ none => absurd none (Nat.not_lt_zero i)⟩
  | succ right ih =>
      unfold scan
      split
      · rename_i found
        exact ⟨Nat.le_succ right, .inr found, fun i after before => by omega⟩
      · rename_i other
        obtain ⟨bound, stop, rest⟩ := ih
        refine ⟨Nat.le_succ_of_le bound, stop, fun i after before => ?_⟩
        by_cases last : i = right
        · rwa [last]
        · exact rest i after (by omega)

theorem sourceFile_name (file : List Byte) : ∃ dir, file = dir ++ sourceFile file ∧
    (dir = [] ∨ (sourceFile file).head? = some slash) ∧ slash ∉ (sourceFile file).tail := by
  obtain ⟨bound, stop, rest⟩ := scan_spec file file.length
  refine ⟨file.take (scan file file.length), (List.take_append_drop _ _).symm, ?_, fun member => ?_⟩
  · rcases stop with start | found
    · exact .inl (by rw [start]; rfl)
    · exact .inr (by rw [sourceFile, List.head?_drop, found])
  · rw [sourceFile, List.tail_drop] at member
    obtain ⟨i, found⟩ := List.mem_iff_getElem?.mp member
    rw [List.getElem?_drop] at found
    have inside := (List.getElem?_eq_some_iff.mp found).1
    exact rest _ (by omega) inside found

def int : IntegerType := ⟨true, 32, by decide, by decide⟩

structure Statement where
  -- `Timestamp().ToFormatString()` and `tid_string()`
  time : List Byte
  tid : List Byte
  level : LogLevel
  -- 0 but for `LOG_SYSERR` and `LOG_SYSFAT`; with the result of `strerror_r`
  errcode : int.Value
  error : List Byte
  -- `__func__`, for `LOG_TRACE` and `LOG_DEBUG`
  func : Option (List Byte)
  message : List Operand
  file : List Byte
  line : int.Value
  stackTrace : List Byte

namespace Statement

def kLogLevelName : LogLevel → List Byte
  | .kTrace => ascii "Trace".toList
  | .kDebug => ascii "Debug".toList
  | .kInfo => ascii "Info ".toList
  | .kWarn => ascii "Warn ".toList
  | .kError => ascii "Error".toList
  | .kFatal => ascii "Fatal".toList

def text (literal : String) : Operand := .charArray (ascii literal.toList)

def head (w : Statement) : List Operand :=
  [text "[", .string w.time, text " ", .string w.tid, text " ", .string (kLogLevelName w.level)] ++
    (if w.errcode.val ≠ 0 then
      [text " ", .cString (some w.error), text " (errno = ", .integer w.errcode, text ")"]
    else []) ++
    [text "] "] ++
    match w.func with
    | some func => [.cString (some func), text ": "]
    | none => []

def finish (w : Statement) : List Operand :=
  [text " ", .string (sourceFile w.file), text " : ", .integer w.line, text "\n"]

/-- What `~StackWritter` adds behind `Finish` for `kError` and above. -/
def trace (w : Statement) : List Byte :=
  match w.level with
  | .kError | .kFatal => w.stackTrace
  | .kTrace | .kDebug | .kInfo | .kWarn => []

def record (w : Statement) : Option LogStream :=
  run put new (w.head ++ w.message ++ w.finish ++ [.string w.trace])

end Statement

/-! A stream that keeps to its buffer holds the front of what was put into it. -/

def cut (bytes : List Byte) : List Byte := bytes.take (kSmallBuffSize - 1)

theorem length_cut (bytes : List Byte) : (cut bytes).length < kSmallBuffSize := by
  simp only [cut, List.length_take, kSmallBuffSize]
  omega

theorem cut_inBounds {s : LogStream} (bounds : s.InBounds) : s.data = cut s.data :=
  (List.take_of_length_le bounds.size).symm

theorem cut_append (bytes msg : List Byte) : cut (bytes ++ msg) =
    cut bytes ++ msg.take (kSmallBuffSize - 1 - bytes.length) := List.take_append

theorem appendAll_cut (bytes msg : List Byte) :
    (⟨cut bytes⟩ : LogStream).appendAll msg = some ⟨cut (bytes ++ msg)⟩ := by
  have avail : FixedBuffer.getAvail ⟨cut bytes, length_cut bytes⟩ =
      kSmallBuffSize - 1 - bytes.length := by
    simp only [FixedBuffer.getAvail, cut, List.length_take, kSmallBuffSize]
    omega
  have grown : (FixedBuffer.append ⟨cut bytes, length_cut bytes⟩ msg).data =
      cut (bytes ++ msg) := by
    rw [cut_append, ← avail]
    simp [FixedBuffer.append]
  rw [← grown]
  exact appendAll_buffer ⟨cut bytes, length_cut bytes⟩ msg

theorem put_integer {T : IntegerType} (bytes : List Byte) (val : T.Value) :
    (⟨cut bytes⟩ : LogStream).put (.integer val) = some ⟨cut
      (if bytes.length + kMaxNumericSize < kSmallBuffSize then
        bytes ++ ascii (Printf.decimal val.val) else bytes)⟩ := by
  have bounds : (⟨cut bytes⟩ : LogStream).InBounds := inBounds_iff.mpr (length_cut bytes)
  have avail : (⟨cut bytes⟩ : LogStream).getAvail = kSmallBuffSize - 1 - (cut bytes).length :=
    bounds.avail
  have short := length_decimal val
  rw [put, convert, convertIneger_eq, avail]
  by_cases room : bytes.length + kMaxNumericSize < kSmallBuffSize
  · have whole : cut bytes = bytes := List.take_of_length_le (by omega)
    have after : cut (bytes ++ ascii (Printf.decimal val.val)) =
        bytes ++ ascii (Printf.decimal val.val) := by
      refine List.take_of_length_le ?_
      rw [List.length_append, length_ascii]
      simp only [kMaxNumericSize] at room
      omega
    have fits : bytes.length + (ascii (Printf.decimal val.val)).length ≤ kSmallBuffSize := by
      rw [length_ascii]
      simp only [kMaxNumericSize] at room
      omega
    rw [if_pos room, after, whole, if_pos (by omega), write]
    refine (if_pos fits).trans ?_
    rw [List.take_of_length_le (Nat.le_of_eq (length_ascii _))]
  · rw [if_neg room, if_neg]
    simp only [cut, List.length_take, kMaxNumericSize, kSmallBuffSize] at room ⊢
    omega

def placed (w : Statement) (message : List Byte) : List Byte :=
  message ++ ascii " ".toList ++ sourceFile w.file ++ ascii " : ".toList

theorem finish_cut (w : Statement) (message : List Byte) :
    run put ⟨cut message⟩ (w.finish ++ [.string w.trace]) = some ⟨cut
      ((if (placed w message).length + kMaxNumericSize < kSmallBuffSize then
          placed w message ++ ascii (Printf.decimal w.line.val)
        else placed w message) ++ [newline] ++ w.trace)⟩ := by
  have text (literal : String) (bytes : List Byte) :
      (⟨cut bytes⟩ : LogStream).put (Statement.text literal) =
        some ⟨cut (bytes ++ ascii literal.toList)⟩ := appendAll_cut bytes _
  have string (msg bytes : List Byte) :
      (⟨cut bytes⟩ : LogStream).put (.string msg) = some ⟨cut (bytes ++ msg)⟩ :=
    appendAll_cut bytes _
  unfold placed
  simp only [Statement.finish, List.cons_append, List.nil_append, run, text, string, put_integer,
    Option.bind_some]
  rfl

/-- Where every pointer of the statement fits, the record has the text up to the number of the
line. The number is there exactly when that text leaves `kMaxNumericSize` bytes, and the newline
when it leaves one; what does not fit is cut off. -/
theorem record_loses_number_then_newline (w : Statement)
    (fits : Along put PointerFits new (w.head ++ w.message)) :
    ∃ message, run put new (w.head ++ w.message) = some ⟨message⟩ ∧
      ((placed w message).length + kMaxNumericSize < kSmallBuffSize → w.record = some ⟨cut
        (placed w message ++ ascii (Printf.decimal w.line.val) ++ [newline] ++ w.trace)⟩) ∧
      (kSmallBuffSize ≤ (placed w message).length + kMaxNumericSize →
        w.record = some ⟨cut (placed w message ++ [newline] ++ w.trace)⟩) ∧
      (kSmallBuffSize ≤ (placed w message).length + 1 →
        w.record = some ⟨cut (placed w message)⟩) := by
  have answers (s : LogStream) (_ : Unit) (operand : Operand) (bounds : s.InBounds)
      (fits : s.PointerFits operand) : ∃ next, s.put operand = some next ∧ next.InBounds :=
    (put_stays bounds operand).mpr fits
  obtain ⟨⟨message⟩, ran, bounds⟩ := run_related_along (fun nothing _ => nothing)
    (fun s _ => s.InBounds) answers () new_inBounds fits
  have held : message = cut message := cut_inBounds bounds
  have finished := finish_cut w message
  rw [← held] at finished
  have whole := run_append ran finished
  rw [← List.append_assoc, ← Statement.record] at whole
  refine ⟨message, ran, fun room => ?_, fun full => ?_, fun full => ?_⟩
  · rw [whole, if_pos room]
  · rw [whole, if_neg (Nat.not_lt.mpr full)]
  · have beyond : ¬(placed w message).length + kMaxNumericSize < kSmallBuffSize := by
      simp only [kMaxNumericSize]
      omega
    rw [whole, if_neg beyond, List.append_assoc, cut_append]
    have none : kSmallBuffSize - 1 - (placed w message).length = 0 := by omega
    rw [none, List.take_zero, List.append_nil]

def greeting : Statement where
  time := ascii "20240101 00:00:00.000000".toList
  tid := ascii "1".toList
  level := .kInfo
  errcode := ⟨0, by decide, by decide⟩
  error := []
  func := none
  message := [Statement.text "hi"]
  file := ascii "src/a.cc".toList
  line := ⟨7, by decide, by decide⟩
  stackTrace := []

theorem greeting_record : greeting.record =
    some ⟨ascii "[20240101 00:00:00.000000 1 Info ] hi /a.cc : 7\n".toList⟩ := by
  have fits : Along put PointerFits new (greeting.head ++ greeting.message) := by
    simp [greeting, Statement.head, Statement.text, Along, PointerFits]
  obtain ⟨message, ran, whole, -, -⟩ := record_loses_number_then_newline greeting fits
  have evaluated : (run put new (greeting.head ++ greeting.message)).map data =
      some (ascii "[20240101 00:00:00.000000 1 Info ] hi".toList) := by decide +kernel
  rw [ran, Option.map_some, Option.some.injEq] at evaluated
  obtain rfl : message = ascii "[20240101 00:00:00.000000 1 Info ] hi".toList := evaluated
  rw [whole (by decide +kernel)]
  exact congrArg (fun bytes => some (LogStream.mk bytes)) (by decide +kernel)

end Muzi.LogRecord
