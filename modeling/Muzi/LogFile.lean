import Mathlib.Data.List.Flatten
import Muzi.Execution
import Muzi.Storage

/-!
The rolling log file. Names are made from the clock, `fopen` with mode "w"
empties a file that is there already, and `stdio` holds back part of what was
written until the stream is flushed or closed. `time` may be read twice in one
`Append`, for the test of the roll interval and for the name.
-/

namespace Muzi

open Execution
open Storage (Byte)

namespace LogFile

structure File where
  name : String
  content : List Byte

/-- The files that were opened, in the order of their last opening. -/
abbrev Disk := List File

namespace Disk

def bytes (d : Disk) : List Byte := d.flatMap File.content

def write (name : String) (data : List Byte) (d : Disk) : Disk :=
  d.map fun file =>
    if file.name = name then { file with content := file.content ++ data } else file

def fopen (name : String) (d : Disk) : Disk :=
  d.filter (fun file => file.name ≠ name) ++ [⟨name, []⟩]

def Free (name : String) (d : Disk) : Prop := ∀ file ∈ d, file.name = name → file.content = []

def Latest (name : String) (d : Disk) : Prop :=
  ∃ earlier content, d = earlier ++ [⟨name, content⟩] ∧ ∀ file ∈ earlier, file.name ≠ name

theorem write_latest {name : String} {data content : List Byte} {earlier : Disk}
    (others : ∀ file ∈ earlier, file.name ≠ name) :
    write name data (earlier ++ [⟨name, content⟩]) = earlier ++ [⟨name, content ++ data⟩] := by
  have front : write name data earlier = earlier :=
    (List.map_congr_left fun file member => if_neg (others file member)).trans (List.map_id _)
  unfold write at front ⊢
  rw [List.map_append, front]
  simp

@[simp] theorem write_nil (name : String) (d : Disk) : write name [] d = d := by
  simp [write]

theorem Latest.write {name : String} {d : Disk} (latest : Latest name d) (data : List Byte) :
    Latest name (write name data d) ∧ bytes (write name data d) = bytes d ++ data := by
  rcases latest with ⟨earlier, content, rfl, others⟩
  rw [write_latest others]
  refine ⟨⟨earlier, content ++ data, rfl, others⟩, ?_⟩
  simp [bytes]

theorem fopen_latest (name : String) (d : Disk) : Latest name (fopen name d) := by
  refine ⟨_, [], rfl, ?_⟩
  intro file member
  simpa using (List.mem_filter.mp member).2

theorem write_names (name : String) (data : List Byte) (d : Disk) :
    (write name data d).map File.name = d.map File.name := by
  rw [write, List.map_map]
  refine List.map_congr_left fun file _ => ?_
  simp only [Function.comp_apply]
  split <;> rfl

theorem fopen_names {name other : String} {d : Disk}
    (member : other ∈ (fopen name d).map File.name) :
    other = name ∨ other ∈ d.map File.name := by
  rw [fopen, List.map_append, List.mem_append] at member
  rcases member with old | new
  · exact .inr ((List.filter_sublist.map File.name).subset old)
  · exact .inl (List.mem_singleton.mp new)

theorem fopen_bytes (name : String) (d : Disk) :
    bytes (fopen name d) = bytes (d.filter fun file => file.name ≠ name) := by
  simp [fopen, bytes]

theorem fopen_sublist (name : String) (d : Disk) : (bytes (fopen name d)).Sublist (bytes d) := by
  rw [fopen_bytes]
  exact List.filter_sublist.flatMap File.content

theorem fopen_keeps_iff (name : String) (d : Disk) :
    bytes (fopen name d) = bytes d ↔ Free name d := by
  rw [fopen_bytes]
  induction d with
  | nil => simp [Free, bytes]
  | cons file rest ih =>
      have parts : Free name (file :: rest) ↔
          (file.name = name → file.content = []) ∧ Free name rest := List.forall_mem_cons
      have cons_bytes (d : Disk) : bytes (file :: d) = file.content ++ bytes d :=
        List.flatMap_cons
      rw [parts, cons_bytes, ← ih]
      by_cases same : file.name = name
      · rw [List.filter_cons_of_neg (by simpa using same)]
        constructor
        · intro kept
          -- what the filter leaves is no longer than the rest
          have short := (fopen_bytes name rest ▸ fopen_sublist name rest).length_le
          have lengths := congrArg List.length kept
          rw [List.length_append] at lengths
          have empty : file.content = [] := List.length_eq_zero_iff.mp (by omega)
          rw [empty, List.nil_append] at kept
          exact ⟨fun _ => empty, kept⟩
        · rintro ⟨empty, kept⟩
          rw [empty same, kept, List.nil_append]
      · rw [List.filter_cons_of_pos (by simpa using same), cons_bytes, List.append_cancel_left_eq]
        simp [same]

end Disk

abbrev Time := Int

structure Tm where
  year : Int
  mon : Nat
  mday : Nat
  hour : Nat
  min : Nat
  sec : Nat

structure Host where
  hostName : String
  localtime : Time → Tm

def twoDigits (n : Nat) : String := if n < 10 then "0" ++ toString n else toString n

/-- The format ".%Y%m%d-%H%M%S.". -/
def strftime (tm : Tm) : String :=
  "." ++ toString (1900 + tm.year) ++ twoDigits (tm.mon + 1) ++ twoDigits tm.mday ++ "-" ++
    twoDigits tm.hour ++ twoDigits tm.min ++ twoDigits tm.sec ++ "."

structure Stream where
  name : String
  buffered : List Byte

end LogFile

structure LogFile where
  baseName : String
  writtenBytes : Nat
  lastRoll : LogFile.Time
  lastFlush : LogFile.Time
  count : Nat
  fp : Option LogFile.Stream
  disk : LogFile.Disk

namespace LogFile

def kRollSize : Nat := 32 * 1024 * 1024
def kCheckEveryN : Nat := 1024
def kFlushIntervalSeconds : Int := 3
def kRollIntervalSeconds : Int := 60 * 60 * 24
def kLogPath : String := "./log/"

def getLogFileName (host : Host) (baseName : String) (now : Time) : String :=
  baseName ++ strftime (host.localtime now) ++ host.hostName ++ ".log"

theorem getLogFileName_eq_iff (host : Host) (baseName : String) (first second : Time) :
    getLogFileName host baseName first = getLogFileName host baseName second ↔
      strftime (host.localtime first) = strftime (host.localtime second) := by
  unfold getLogFileName
  rw [String.append_left_inj, String.append_left_inj, String.append_right_inj]

def setBaseName (baseName : String) : String :=
  (if baseName ≠ "" ∧ kLogPath.back ≠ '/' then kLogPath.push '/' else kLogPath) ++ baseName

/-- `fwrite` on the open stream, of which `stdio` passes on the first `spill`
bytes that it holds. -/
def fwrite (msg : List Byte) (spill : Nat) (l : LogFile) : Option LogFile :=
  l.fp.map fun stream =>
    let held := stream.buffered ++ msg
    { l with
      fp := some { stream with buffered := held.drop spill }
      disk := l.disk.write stream.name (held.take spill) }

def flush (l : LogFile) : LogFile :=
  { l with
    fp := l.fp.map fun stream => { stream with buffered := [] }
    disk :=
      match l.fp with
      | none => l.disk
      | some stream => l.disk.write stream.name stream.buffered }

/-- `fclose` writes out what is held. -/
def close (l : LogFile) : LogFile := { l.flush with fp := none }

def reset (fileName : String) (l : LogFile) : LogFile :=
  let closed := if l.fp.isSome then l.close else l
  { closed with fp := some ⟨fileName, []⟩, disk := closed.disk.fopen fileName }

def rollFile (host : Host) (now : Time) (l : LogFile) : LogFile :=
  { l.flush with lastRoll := now, lastFlush := now }.reset (getLogFileName host l.baseName now)

def new (host : Host) (baseName : String) (now : Time) : LogFile :=
  rollFile host now
    { baseName := setBaseName baseName, writtenBytes := 0, lastRoll := 0, lastFlush := 0,
      count := 0, fp := none, disk := [] }

/-- `Append` behind its `fwrite`. -/
def account (host : Host) (len : Nat) (now later : Time) (l : LogFile) : LogFile :=
  if l.writtenBytes + len ≥ kRollSize then
    { l with writtenBytes := 0 }.rollFile host later
  else if l.count + 1 ≥ kCheckEveryN then
    let checked := { l with writtenBytes := l.writtenBytes + len, count := 0 }
    if now - l.lastRoll ≥ kRollIntervalSeconds then
      checked.rollFile host later
    else if now - l.lastFlush ≥ kFlushIntervalSeconds then
      { checked with lastFlush := now }.flush
    else checked
  else { l with writtenBytes := l.writtenBytes + len, count := l.count + 1 }

def append (host : Host) (msg : List Byte) (now later : Time) (spill : Nat) (l : LogFile) :
    Option LogFile :=
  (l.fwrite msg spill).map (account host msg.length now later)

def stored (l : LogFile) : List Byte :=
  Disk.bytes l.disk ++ (l.fp.map Stream.buffered).getD []

def Ready (l : LogFile) : Prop := ∃ stream, l.fp = some stream ∧ Disk.Latest stream.name l.disk

theorem fwrite_stored {msg : List Byte} {spill : Nat} {l written : LogFile} (ready : l.Ready)
    (wrote : l.fwrite msg spill = some written) :
    written.Ready ∧ written.stored = l.stored ++ msg := by
  rcases ready with ⟨stream, opened, latest⟩
  simp only [fwrite, opened, Option.map_some, Option.some.injEq] at wrote
  subst wrote
  have wrote := latest.write ((stream.buffered ++ msg).take spill)
  refine ⟨⟨_, rfl, wrote.1⟩, ?_⟩
  simp only [stored, wrote.2, opened, Option.map_some, Option.getD_some, List.append_assoc,
    List.take_append_drop]

theorem flush_stored {l : LogFile} (ready : l.Ready) :
    l.flush.Ready ∧ l.flush.stored = l.stored ∧ Disk.bytes l.flush.disk = l.stored := by
  rcases ready with ⟨stream, opened, latest⟩
  have wrote := latest.write stream.buffered
  have whole : l.stored = Disk.bytes l.disk ++ stream.buffered := by simp [stored, opened]
  have disk : l.flush.disk = Disk.write stream.name stream.buffered l.disk := by
    simp [flush, opened]
  have closed : l.flush.fp = some { stream with buffered := [] } := by simp [flush, opened]
  rw [whole]
  refine ⟨⟨_, closed, disk ▸ wrote.1⟩, ?_, disk ▸ wrote.2⟩
  simp [stored, closed, disk, wrote.2]

theorem rollFile_stored (host : Host) (now : Time) {l : LogFile} (ready : l.Ready) :
    (l.rollFile host now).Ready ∧
      (l.rollFile host now).disk =
        Disk.fopen (getLogFileName host l.baseName now) l.flush.disk ∧
      (l.rollFile host now).stored = Disk.bytes (l.rollFile host now).disk := by
  rcases ready with ⟨stream, opened, latest⟩
  have disk : (l.rollFile host now).disk =
      Disk.fopen (getLogFileName host l.baseName now) l.flush.disk := by
    simp [rollFile, reset, close, flush, opened]
  refine ⟨⟨_, rfl, ?_⟩, disk, ?_⟩
  · rw [disk]
    exact Disk.fopen_latest _ _
  · simp [stored, rollFile, reset]

theorem rollFile_fields (host : Host) (now : Time) (l : LogFile) :
    (l.rollFile host now).lastRoll = now ∧ (l.rollFile host now).baseName = l.baseName := by
  unfold rollFile reset
  dsimp only
  split <;> exact ⟨rfl, rfl⟩

/-- `Append` rolls: the file is full, or it is the turn of the test and a day has
passed. -/
def Rolls (l : LogFile) (len : Nat) (now : Time) : Prop :=
  l.writtenBytes + len ≥ kRollSize ∨
    l.count + 1 ≥ kCheckEveryN ∧ now - l.lastRoll ≥ kRollIntervalSeconds

instance (l : LogFile) (len : Nat) (now : Time) : Decidable (l.Rolls len now) :=
  inferInstanceAs (Decidable (_ ∨ _))

/-- What `Append` does behind its `fwrite`, but for its counters. -/
inductive Accounted (host : Host) (len : Nat) (now later : Time) (l : LogFile) : LogFile → Prop
  | rolled (written count : Nat) (full : l.Rolls len now) :
      Accounted host len now later l
        ({ l with writtenBytes := written, count := count }.rollFile host later)
  | flushed (written : Nat) (stays : ¬l.Rolls len now) :
      Accounted host len now later l
        { l with writtenBytes := written, count := 0, lastFlush := now }.flush
  | counted (written count : Nat) (stays : ¬l.Rolls len now) :
      Accounted host len now later l { l with writtenBytes := written, count := count }

theorem account_cases (host : Host) (len : Nat) (now later : Time) (l : LogFile) :
    Accounted host len now later l (l.account host len now later) := by
  unfold account
  split
  · rename_i full
    exact .rolled 0 l.count (.inl full)
  · rename_i room
    split
    · rename_i turn
      split
      · rename_i old
        exact .rolled _ 0 (.inr ⟨turn, old⟩)
      · rename_i young
        have stays : ¬l.Rolls len now := by
          rintro (full | ⟨-, old⟩)
          · exact room full
          · exact young old
        split
        · exact .flushed _ stays
        · exact .counted _ 0 stays
    · rename_i early
      refine .counted _ _ ?_
      rintro (full | ⟨turn, -⟩)
      · exact room full
      · exact early turn

theorem fwrite_fields {msg : List Byte} {spill : Nat} {l written : LogFile}
    (wrote : l.fwrite msg spill = some written) :
    written = { l with fp := written.fp, disk := written.disk } := by
  rcases Option.map_eq_some_iff.mp wrote with ⟨stream, -, rfl⟩
  rfl

theorem append_stored {host : Host} {msg : List Byte} {now later : Time} {spill : Nat}
    {l next : LogFile} (ready : l.Ready)
    (appended : l.append host msg now later spill = some next) :
    ∃ written, l.fwrite msg spill = some written ∧ next.Ready ∧
      Disk.bytes written.flush.disk = l.stored ++ msg ∧
      (l.Rolls msg.length now → next.stored =
        Disk.bytes (Disk.fopen (getLogFileName host l.baseName later) written.flush.disk)) ∧
      (¬l.Rolls msg.length now → next.stored = l.stored ++ msg) := by
  rcases Option.map_eq_some_iff.mp appended with ⟨written, wrote, rfl⟩
  rcases fwrite_stored ready wrote with ⟨still, stored⟩
  refine ⟨written, wrote, ?_⟩
  rw [← stored]
  have fields := fwrite_fields wrote
  have name : written.baseName = l.baseName := by rw [fields]
  have same : written.Rolls msg.length now ↔ l.Rolls msg.length now := by rw [fields]; rfl
  rw [← same, ← name]
  have onDisk := (flush_stored still).2.2
  have accounted := account_cases host msg.length now later written
  generalize account host msg.length now later written = after at accounted ⊢
  cases accounted with
  | rolled bytes count full =>
      rcases rollFile_stored host later
        (l := { written with writtenBytes := bytes, count := count }) still with ⟨again, disk, all⟩
      refine ⟨again, onDisk, fun _ => ?_, fun stays => absurd full stays⟩
      exact all.trans (congrArg Disk.bytes disk)
  | flushed bytes stays =>
      rcases flush_stored
        (l := { written with writtenBytes := bytes, count := 0, lastFlush := now }) still with
        ⟨again, all, -⟩
      exact ⟨again, onDisk, fun full => absurd full stays, fun _ => all⟩
  | counted bytes count stays =>
      exact ⟨still, onDisk, fun full => absurd full stays, fun _ => rfl⟩

/-! The file together with what was appended so far. -/

structure Logged where
  file : LogFile
  appended : List Byte
  /-- The last reading of the clock. -/
  clock : Time

inductive Action where
  /-- `now` and `later` are what the two calls of `time` answer. -/
  | append (msg : List Byte) (now later : Time) (spill : Nat)
  | flush

namespace Logged

def start (host : Host) (baseName : String) (now : Time) : Logged :=
  ⟨new host baseName now, [], now⟩

def step (host : Host) (s : Logged) : Action → Option Logged
  | .append msg now later spill =>
      if s.clock ≤ now ∧ now ≤ later then
        (s.file.append host msg now later spill).map fun file => ⟨file, s.appended ++ msg, later⟩
      else none
  | .flush => some { s with file := s.file.flush }

/-- If the call rolls, the name it opens belongs to no file that holds data. -/
def Spares (host : Host) (s : Logged) : Action → Prop
  | .append msg now later spill => s.file.Rolls msg.length now →
      ∀ written, s.file.fwrite msg spill = some written →
        Disk.Free (getLogFileName host s.file.baseName later) written.flush.disk
  | .flush => True

structure Inv (s : Logged) : Prop where
  ready : s.file.Ready
  stored : s.file.stored.Sublist s.appended

theorem start_inv (host : Host) (baseName : String) (now : Time) :
    Inv (start host baseName now) where
  ready := ⟨_, rfl, Disk.fopen_latest _ _⟩
  stored := List.Sublist.refl _

/-- A roll onto a name with data loses it; nothing else does. -/
theorem append_exact {host : Host} {msg : List Byte} {now later : Time} {spill : Nat}
    {s next : Logged} (inv : Inv s)
    (stepped : s.step host (.append msg now later spill) = some next) :
    Inv next ∧ (next.file.stored = next.appended ↔
      s.file.stored = s.appended ∧ s.Spares host (.append msg now later spill)) := by
  rcases Option.ite_none_right_eq_some.mp stepped with ⟨-, made⟩
  rcases Option.map_eq_some_iff.mp made with ⟨file, appended, rfl⟩
  rcases append_stored inv.ready appended with ⟨written, wrote, ready, onDisk, rolled, stays⟩
  have before : (s.file.stored ++ msg).Sublist (s.appended ++ msg) := inv.stored.append_right msg
  have spares : s.Spares host (.append msg now later spill) ↔
      (s.file.Rolls msg.length now →
        Disk.Free (getLogFileName host s.file.baseName later) written.flush.disk) := by
    simp [Spares, wrote]
  rw [spares]
  by_cases rolls : s.file.Rolls msg.length now
  · have kept := Disk.fopen_sublist (getLogFileName host s.file.baseName later) written.flush.disk
    rw [← rolled rolls, onDisk] at kept
    refine ⟨⟨ready, kept.trans before⟩, ?_⟩
    rw [forall_prop_of_true rolls, ← Disk.fopen_keeps_iff, ← rolled rolls, onDisk]
    constructor
    · intro whole
      change file.stored = s.appended ++ msg at whole
      have same : s.file.stored ++ msg = s.appended ++ msg := before.antisymm (whole ▸ kept)
      exact ⟨List.append_cancel_right same, whole.trans same.symm⟩
    · rintro ⟨whole, all⟩
      exact all.trans (congrArg (· ++ msg) whole)
  · have all := stays rolls
    refine ⟨⟨ready, all ▸ before⟩, ?_⟩
    change file.stored = s.appended ++ msg ↔ _
    rw [all, List.append_cancel_right_eq]
    simp [rolls]

theorem step_exact {host : Host} {s next : Logged} {action : Action} (inv : Inv s)
    (stepped : s.step host action = some next) :
    Inv next ∧ (next.file.stored = next.appended ↔
      s.file.stored = s.appended ∧ s.Spares host action) := by
  cases action with
  | append msg now later spill => exact append_exact inv stepped
  | flush =>
      cases stepped
      rcases flush_stored inv.ready with ⟨ready, same, -⟩
      refine ⟨⟨ready, same ▸ inv.stored⟩, ?_⟩
      change s.file.flush.stored = s.appended ↔ _
      rw [same]
      exact (and_iff_left trivial).symm

/-- Every byte is kept exactly when no roll opened a name that held data; a
`Flush` then leaves nothing in the stream. -/
theorem log_kept_iff_rolls_spare (host : Host) (baseName : String) (now : Time)
    (actions : List Action) (final : Logged)
    (ran : run (step host) (start host baseName now) actions = some final) :
    (final.file.stored = final.appended ↔
        Along (step host) (Spares host) (start host baseName now) actions) ∧
      Disk.bytes final.file.flush.disk = final.file.stored := by
  have inv := run_invariant Inv (fun _ _ _ inv stepped => (step_exact inv stepped).1)
    (start_inv host baseName now) ran
  refine ⟨?_, (flush_stored inv.ready).2.2⟩
  rw [good_iff_along (fun _ _ _ inv stepped => (step_exact inv stepped).1)
    (fun _ _ _ inv stepped => (step_exact inv stepped).2) (start_inv host baseName now) ran]
  exact and_iff_right rfl

theorem first_written (host : Host) (baseName : String) (now : Time) (msg : List Byte) :
    ∃ written, (start host baseName now).file.fwrite msg 0 = some written ∧
      written.flush.disk = [⟨getLogFileName host (setBaseName baseName) now, msg⟩] := by
  refine ⟨_, rfl, ?_⟩
  simp [start, new, rollFile, reset, flush, Disk.fopen, Disk.write]

theorem first_rolled (host : Host) (baseName : String) (now later : Time) (msg : List Byte)
    (order : now ≤ later) (full : kRollSize ≤ msg.length) :
    ∃ next, (start host baseName now).step host (.append msg now later 0) = some next ∧
      next.appended = msg ∧ next.file.lastRoll = later ∧
      next.file.stored = Disk.bytes (Disk.fopen (getLogFileName host (setBaseName baseName) later)
        [⟨getLogFileName host (setBaseName baseName) now, msg⟩]) := by
  rcases first_written host baseName now msg with ⟨written, wrote, disk⟩
  have ready := (fwrite_stored (start_inv host baseName now).ready wrote).1
  have rolled : account host msg.length now later written =
      { written with writtenBytes := 0 }.rollFile host later :=
    if_pos (Nat.le_trans full (Nat.le_add_left _ _))
  rcases rollFile_stored host later (l := { written with writtenBytes := 0 }) ready with
    ⟨-, opened, stored⟩
  refine ⟨⟨account host msg.length now later written, msg, later⟩, ?_, rfl, ?_, ?_⟩
  · simp only [step, append, wrote, Option.map_some]
    exact if_pos ⟨Int.le_refl now, order⟩
  · rw [rolled]
    exact (rollFile_fields host later _).1
  · rw [rolled, stored, opened, ← disk]
    have name : written.baseName = setBaseName baseName := by rw [fwrite_fields wrote]; rfl
    rw [← name]
    rfl

def minute : Host where
  hostName := "host"
  localtime time := ⟨124, 0, 1, 0, 0, time.toNat % 60⟩

/-- A whole file is appended a second after the first one was opened. -/
theorem full_file_rolls_apart : ∃ final,
    run (step minute) (start minute "log" 4) [.append (List.replicate kRollSize 7) 4 5 0] =
        some final ∧
      final.file.lastRoll = 5 ∧ final.file.stored = final.appended := by
  rcases first_rolled minute "log" 4 5 (List.replicate kRollSize 7) (by decide)
    (Nat.le_of_eq List.length_replicate.symm) with ⟨final, stepped, -, rolled, -⟩
  have ran : run (step minute) (start minute "log" 4) [.append (List.replicate kRollSize 7) 4 5 0] =
      some final := run_cons_some.mpr ⟨final, stepped, rfl⟩
  refine ⟨final, ran, rolled, (log_kept_iff_rolls_spare minute "log" 4 _ final ran).1.mpr ?_⟩
  refine ⟨fun _ written wrote file member same => ?_, fun _ _ => trivial⟩
  rcases first_written minute "log" 4 (List.replicate kRollSize 7) with ⟨other, also, disk⟩
  cases wrote.symm.trans also
  rw [disk] at member
  cases List.mem_singleton.mp member
  exact absurd ((getLogFileName_eq_iff minute _ 4 5).mp same) (by decide)

/-- A whole file is appended in the second in which the first one was opened:
the next one has the same name. -/
theorem full_file_lost : ∃ final,
    run (step minute) (start minute "log" 4) [.append (List.replicate kRollSize 7) 4 4 0] =
        some final ∧
      final.appended = List.replicate kRollSize 7 ∧ final.file.stored = [] := by
  rcases first_rolled minute "log" 4 4 (List.replicate kRollSize 7) (by decide)
    (Nat.le_of_eq List.length_replicate.symm) with ⟨final, stepped, all, -, stored⟩
  refine ⟨final, run_cons_some.mpr ⟨final, stepped, rfl⟩, all, stored.trans ?_⟩
  simp [Disk.fopen, Disk.bytes]

/-! When the local time of every second has its own text, it is enough that each
roll falls into a later second than the one before. -/

structure Dated (host : Host) (s : Logged) : Prop where
  names : ∀ name ∈ s.file.disk.map File.name,
    ∃ time ≤ s.file.lastRoll, name = getLogFileName host s.file.baseName time
  past : s.file.lastRoll ≤ s.clock

theorem flush_names (l : LogFile) : l.flush.disk.map File.name = l.disk.map File.name := by
  unfold flush
  cases l.fp with
  | none => rfl
  | some stream => exact Disk.write_names _ _ _

def InNewSecond (s : Logged) : Action → Prop
  | .append msg now later _ => s.file.Rolls msg.length now → s.file.lastRoll < later
  | .flush => True

theorem fwrite_names {msg : List Byte} {spill : Nat} {l written : LogFile}
    (wrote : l.fwrite msg spill = some written) :
    written.disk.map File.name = l.disk.map File.name := by
  rcases Option.map_eq_some_iff.mp wrote with ⟨stream, -, rfl⟩
  exact Disk.write_names _ _ _

theorem append_dated {host : Host} {msg : List Byte} {now later : Time} {spill : Nat}
    {s next : Logged} (inv : Inv s) (dated : Dated host s)
    (stepped : s.step host (.append msg now later spill) = some next) : Dated host next := by
  rcases Option.ite_none_right_eq_some.mp stepped with ⟨⟨first, second⟩, made⟩
  rcases Option.map_eq_some_iff.mp made with ⟨file, appended, rfl⟩
  rcases Option.map_eq_some_iff.mp appended with ⟨written, wrote, rfl⟩
  have still := (fwrite_stored inv.ready wrote).1
  have past : s.file.lastRoll ≤ later :=
    Int.le_trans dated.past (Int.le_trans first second)
  have fields := fwrite_fields wrote
  have names := dated.names
  rw [← fwrite_names wrote, show s.file.lastRoll = written.lastRoll by rw [fields],
    show s.file.baseName = written.baseName by rw [fields]] at names
  rw [show s.file.lastRoll = written.lastRoll by rw [fields]] at past
  have accounted := account_cases host msg.length now later written
  generalize account host msg.length now later written = after at accounted ⊢
  cases accounted with
  | rolled bytes count full =>
      rcases rollFile_stored host later
        (l := { written with writtenBytes := bytes, count := count }) still with ⟨-, disk, -⟩
      rcases rollFile_fields host later { written with writtenBytes := bytes, count := count } with
        ⟨roll, base⟩
      refine ⟨?_, Int.le_of_eq roll⟩
      dsimp only
      rw [disk, roll, base]
      intro name member
      rcases Disk.fopen_names member with new | old
      · exact ⟨later, Int.le_refl later, new⟩
      · rw [flush_names] at old
        rcases names name old with ⟨time, before, made⟩
        exact ⟨time, Int.le_trans before past, made⟩
  | flushed bytes stays =>
      refine ⟨?_, past⟩
      dsimp only
      rw [flush_names]
      exact names
  | counted bytes count stays => exact ⟨names, past⟩

theorem step_dated {host : Host} {s next : Logged} {action : Action} (inv : Inv s)
    (dated : Dated host s) (stepped : s.step host action = some next) : Dated host next := by
  cases action with
  | append msg now later spill => exact append_dated inv dated stepped
  | flush =>
      cases stepped
      refine ⟨?_, dated.past⟩
      dsimp only
      rw [flush_names]
      exact dated.names

theorem spares_of_inNewSecond {host : Host} {s : Logged} {action : Action}
    (distinct : Function.Injective fun time => strftime (host.localtime time))
    (dated : Dated host s) (new : s.InNewSecond action) : s.Spares host action := by
  cases action with
  | append msg now later spill =>
      intro rolls written wrote file member same
      have name : file.name ∈ s.file.disk.map File.name := by
        rw [← fwrite_names wrote, ← flush_names]
        exact List.mem_map_of_mem member
      rcases dated.names _ name with ⟨time, before, made⟩
      have equal : later = time :=
        distinct ((getLogFileName_eq_iff host _ later time).mp (same.symm.trans made))
      exact absurd (equal ▸ new rolls) (Int.not_lt.mpr before)
  | flush => trivial

theorem log_kept_in_new_seconds (host : Host)
    (distinct : Function.Injective fun time => strftime (host.localtime time))
    (baseName : String) (now : Time) (actions : List Action) (final : Logged)
    (ran : run (step host) (start host baseName now) actions = some final)
    (new : Along (step host) InNewSecond (start host baseName now) actions) :
    final.file.stored = final.appended := by
  have start_dated : Dated host (start host baseName now) := by
    refine ⟨?_, Int.le_refl now⟩
    intro name member
    rcases Disk.fopen_names member with made | none
    · exact ⟨now, Int.le_refl now, made⟩
    · cases none
  have kept := run_invariant_along
    (fun s => Inv s ∧ Dated host s ∧ s.file.stored = s.appended)
    (fun s action next ⟨inv, dated, whole⟩ meets stepped => by
      rcases step_exact inv stepped with ⟨still, exactly⟩
      exact ⟨still, step_dated inv dated stepped,
        exactly.mpr ⟨whole, spares_of_inNewSecond distinct dated meets⟩⟩)
    ⟨start_inv host baseName now, start_dated, rfl⟩ new ran
  exact kept.2.2

end Logged

end LogFile

end Muzi
