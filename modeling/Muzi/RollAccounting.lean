import Muzi.LogFile

/-!
`written_bytes_` against the bytes of the open log file. The counter goes back to
zero when it is what makes the file roll; a roll because a day has passed leaves
it as it is, and it counts the bytes of a file that is closed. The clock may
answer anything.
-/

namespace Muzi.LogFile

open Execution
open Storage (Byte)

/-- The bytes appended to the open file: those on disk and those still in the stream. -/
def openFile (l : LogFile) : List Byte :=
  match l.fp with
  | none => []
  | some stream =>
      Disk.bytes (l.disk.filter fun file => file.name = stream.name) ++ stream.buffered

def held (l : LogFile) : Nat := l.openFile.length

def SizeRoll (l : LogFile) (len : Nat) : Prop := l.writtenBytes + len ≥ kRollSize

instance (l : LogFile) (len : Nat) : Decidable (l.SizeRoll len) :=
  inferInstanceAs (Decidable (_ ≥ _))

def DayRoll (l : LogFile) (len : Nat) (now : Time) : Prop :=
  ¬l.SizeRoll len ∧ l.count + 1 ≥ kCheckEveryN ∧ now - l.lastRoll ≥ kRollIntervalSeconds

namespace Rolling

def step (host : Host) (l : LogFile) : Action → Option LogFile
  | .append msg now later spill => l.append host msg now later spill
  | .flush => some l.flush

/-- The counter is right behind the call; a roll for the size closes a file of that size, and
a file of that size is not appended to. -/
def Accounts (host : Host) (l : LogFile) (action : Action) : Prop :=
  (∀ next, step host l action = some next → next.writtenBytes = next.held) ∧
    match action with
    | .append msg _ _ _ =>
        (l.SizeRoll msg.length → kRollSize ≤ l.held + msg.length) ∧ l.held < kRollSize
    | .flush => True

/-- The call does not roll a file with data because a day has passed. -/
def NoDayRoll (l : LogFile) : Action → Prop
  | .append msg now _ _ => l.DayRoll msg.length now → l.writtenBytes + msg.length = 0
  | .flush => True

end Rolling

/-! The open file. -/

theorem openFile_latest {l : LogFile} {name : String} {buffered content : List Byte}
    {earlier : Disk} (opened : l.fp = some ⟨name, buffered⟩)
    (disk : l.disk = earlier ++ [⟨name, content⟩]) (others : ∀ file ∈ earlier, file.name ≠ name) :
    l.openFile = content ++ buffered := by
  have before : earlier.filter (fun file => file.name = name) = [] :=
    List.filter_eq_nil_iff.mpr fun file member => by simpa using others file member
  simp [openFile, opened, disk, Disk.bytes, before]

theorem fwrite_openFile {msg : List Byte} {spill : Nat} {l written : LogFile} (ready : l.Ready)
    (wrote : l.fwrite msg spill = some written) : written.openFile = l.openFile ++ msg := by
  rcases ready with ⟨⟨name, buffered⟩, opened, earlier, content, disk, others⟩
  have front := openFile_latest opened disk others
  simp only [fwrite, opened, Option.map_some, Option.some.injEq] at wrote
  subst wrote
  rw [front, openFile_latest rfl (by rw [disk, Disk.write_latest others]) others]
  simp only [List.append_assoc, List.take_append_drop]

theorem flush_openFile {l : LogFile} (ready : l.Ready) : l.flush.openFile = l.openFile := by
  rcases ready with ⟨⟨name, buffered⟩, opened, earlier, content, disk, others⟩
  have closed : l.flush.fp = some ⟨name, []⟩ := by simp [flush, opened]
  have written : l.flush.disk = earlier ++ [⟨name, content ++ buffered⟩] := by
    simp only [flush, opened, disk, Disk.write_latest others]
  rw [openFile_latest opened disk others, openFile_latest closed written others, List.append_nil]

theorem rollFile_openFile (host : Host) (now : Time) {l : LogFile} (ready : l.Ready) :
    (l.rollFile host now).openFile = [] ∧
      (l.rollFile host now).writtenBytes = l.writtenBytes := by
  obtain ⟨-, disk, -⟩ := rollFile_stored host now ready
  have opened : (l.rollFile host now).fp = some ⟨getLogFileName host l.baseName now, []⟩ := rfl
  constructor
  · rw [openFile_latest opened disk]
    · rfl
    · intro file member
      simpa using (List.mem_filter.mp member).2
  · unfold rollFile reset
    dsimp only
    split <;> rfl

/-! One call. -/

inductive Appended (len : Nat) (now : Time) (before : Nat) (l next : LogFile) : Prop
  | full (size : l.SizeRoll len) (none : next.writtenBytes = 0) (fresh : next.held = 0)
  | aged (day : l.DayRoll len now) (kept : next.writtenBytes = l.writtenBytes + len)
      (fresh : next.held = 0)
  | stayed (small : ¬l.SizeRoll len) (young : ¬l.DayRoll len now)
      (counted : next.writtenBytes = l.writtenBytes + len) (grown : next.held = before + len)

theorem account_appended (host : Host) (now later : Time) {len before : Nat} {l : LogFile}
    (ready : l.Ready) (grown : l.held = before + len) :
    Appended len now before l (l.account host len now later) := by
  unfold account
  split
  · rename_i full
    obtain ⟨fresh, none⟩ := rollFile_openFile host later (l := { l with writtenBytes := 0 }) ready
    exact .full full none (congrArg List.length fresh)
  · rename_i small
    split
    · rename_i turn
      dsimp only
      split
      · rename_i old
        obtain ⟨fresh, kept⟩ := rollFile_openFile host later
          (l := { l with writtenBytes := l.writtenBytes + len, count := 0 }) ready
        exact .aged ⟨small, turn, old⟩ kept (congrArg List.length fresh)
      · rename_i young
        have stays : ¬l.DayRoll len now := fun day => young day.2.2
        split
        · have same := flush_openFile (l := { l with
              writtenBytes := l.writtenBytes + len
              count := 0
              lastFlush := now }) ready
          exact .stayed small stays rfl ((congrArg List.length same).trans grown)
        · exact .stayed small stays rfl grown
    · rename_i early
      exact .stayed small (fun day => early day.2.1) rfl grown

theorem append_appended {host : Host} {msg : List Byte} {now later : Time} {spill : Nat}
    {l next : LogFile} (ready : l.Ready) (ran : l.append host msg now later spill = some next) :
    next.Ready ∧ Appended msg.length now l.held l next := by
  obtain ⟨-, -, again, -, -, -⟩ := append_stored ready ran
  obtain ⟨written, wrote, rfl⟩ := Option.map_eq_some_iff.mp ran
  have still := (fwrite_stored ready wrote).1
  have grown : written.held = l.held + msg.length := by
    rw [held, fwrite_openFile ready wrote, List.length_append, held]
  refine ⟨again, ?_⟩
  have appended := account_appended host now later still grown
  -- the counters are those before the `fwrite`
  generalize account host msg.length now later written = next at appended
  obtain ⟨stream, -, rfl⟩ := Option.map_eq_some_iff.mp wrote
  cases appended with
  | full size none fresh => exact .full size none fresh
  | aged day kept fresh => exact .aged day kept fresh
  | stayed small young counted grown => exact .stayed small young counted grown

namespace Rolling

structure Exact (l : LogFile) : Prop where
  ready : l.Ready
  counted : l.writtenBytes = l.held
  small : l.held < kRollSize

theorem new_held (host : Host) (baseName : String) (now : Time) :
    (new host baseName now).held = 0 := by
  have empty : (new host baseName now).openFile = [] ++ [] :=
    openFile_latest rfl rfl fun _ member => absurd member List.not_mem_nil
  rw [held, empty]
  rfl

theorem new_exact (host : Host) (baseName : String) (now : Time) :
    Exact (new host baseName now) where
  ready := ⟨_, rfl, Disk.fopen_latest _ _⟩
  counted := (new_held host baseName now).symm
  small := by
    rw [new_held]
    decide

variable {host : Host} {l next : LogFile} {action : Action}

theorem step_ready (ready : l.Ready) (stepped : step host l action = some next) : next.Ready := by
  cases action with
  | append msg now later spill => exact (append_appended ready stepped).1
  | flush =>
      cases stepped
      exact (flush_stored ready).1

/-- A call keeps the account exactly when it does not roll a file with data for its age. -/
theorem accounts_iff (exactly : Exact l) (stepped : step host l action = some next) :
    Accounts host l action ↔ NoDayRoll l action := by
  have counted := exactly.counted
  have small := exactly.small
  cases action with
  | append msg now later spill =>
      have appended := (append_appended exactly.ready stepped).2
      have only : Accounts host l (.append msg now later spill) ↔
          next.writtenBytes = next.held := by
        simp only [Accounts, stepped, Option.some.injEq, forall_eq', and_iff_left_iff_imp]
        intro _
        refine ⟨fun full => ?_, small⟩
        rw [← counted]
        exact full
      rw [only, NoDayRoll]
      cases appended with
      | full size none fresh =>
          exact iff_of_true (none.trans fresh.symm) fun day => absurd size day.1
      | aged day kept fresh => rw [kept, fresh, forall_prop_of_true day]
      | stayed few young sum grown =>
          exact iff_of_true (by omega) fun day => absurd day young
  | flush =>
      refine iff_of_true ⟨fun after ran => ?_, trivial⟩ trivial
      cases ran
      rw [held, flush_openFile exactly.ready]
      exact counted

theorem step_exact (exactly : Exact l) (met : NoDayRoll l action)
    (stepped : step host l action = some next) : Exact next := by
  have right := ((accounts_iff exactly stepped).mpr met).1 next stepped
  have ready := step_ready exactly.ready stepped
  refine ⟨ready, right, ?_⟩
  cases action with
  | append msg now later spill =>
      have counted := exactly.counted
      cases (append_appended exactly.ready stepped).2 with
      | full size none fresh => rw [fresh]; decide
      | aged day kept fresh => rw [fresh]; decide
      | stayed few young sum grown =>
          have few : ¬l.writtenBytes + msg.length ≥ kRollSize := few
          omega
  | flush =>
      cases stepped
      rw [held, flush_openFile exactly.ready]
      exact exactly.small

theorem run_answers (ready : l.Ready) (actions : List Action) :
    ∃ final, run (step host) l actions = some final := by
  induction actions generalizing l with
  | nil => exact ⟨l, rfl⟩
  | cons action rest ih =>
      have answered : ∃ next, step host l action = some next := by
        cases action with
        | append msg now later spill =>
            rcases ready with ⟨stream, opened, -⟩
            exact Option.isSome_iff_exists.mp (by simp [step, append, fwrite, opened])
        | flush => exact ⟨_, rfl⟩
      obtain ⟨next, stepped⟩ := answered
      obtain ⟨final, ran⟩ := ih (step_ready ready stepped)
      exact ⟨final, run_cons_some.mpr ⟨next, stepped, ran⟩⟩

/-- Over any calls and readings of the clock the counter is the size of the open file exactly
when no file with data is rolled for its age. -/
theorem accounting_iff (host : Host) (baseName : String) (now : Time) (actions : List Action) :
    Along (step host) (Accounts host) (new host baseName now) actions ↔
      Along (step host) NoDayRoll (new host baseName now) actions := by
  have start := new_exact host baseName now
  obtain ⟨final, ran⟩ := run_answers start.ready actions
  exact along_iff_along Exact (fun _ _ _ exactly stepped => accounts_iff exactly stepped)
    (fun _ _ _ exactly met stepped => step_exact exactly met stepped) start ran

theorem append_nothing {stream : Stream} {now later : Time} (opened : l.fp = some stream)
    (room : l.writtenBytes < kRollSize) (early : l.count + 1 < kCheckEveryN) :
    l.append host [] now later 0 = some { l with count := l.count + 1 } := by
  have small : ¬l.writtenBytes ≥ kRollSize := Nat.not_le.mpr room
  have soon : ¬l.count + 1 ≥ kCheckEveryN := Nat.not_le.mpr early
  simp only [append, fwrite, opened, Option.map_some, account, List.length_nil, small, soon,
    ↓reduceIte, List.append_nil, List.take_zero, List.drop_zero, Disk.write_nil, Nat.add_zero]

def called (host : Host) (calls : Nat) : LogFile := { new host "log" 4 with count := calls }

theorem run_nothing (host : Host) {calls : Nat} (early : calls < kCheckEveryN) :
    run (step host) (new host "log" 4) (List.replicate calls (.append [] 4 4 0)) =
      some (called host calls) := by
  induction calls with
  | zero => rfl
  | succ calls ih =>
      have before := ih (Nat.lt_of_succ_lt early)
      have last : step host (called host calls) (.append [] 4 4 0) =
          some (called host (calls + 1)) :=
        append_nothing rfl (by decide : 0 < kRollSize) early
      rw [List.replicate_succ']
      exact run_append before (run_cons_some.mpr ⟨_, last, rfl⟩)

/-- The call that finds that a day has passed leaves a counter of 1 with an empty file; the
next `kRollSize - 1` bytes make it roll. -/
theorem day_roll_keeps_counter : ∃ final,
    run (step Logged.minute) (new Logged.minute "log" 4)
        (List.replicate 1023 (.append [] 4 4 0) ++ [.append [7] 86404 86404 0]) = some final ∧
      final.writtenBytes = 1 ∧ final.held = 0 ∧
      final.SizeRoll (kRollSize - 1) ∧ final.held + (kRollSize - 1) < kRollSize := by
  have before := run_nothing Logged.minute (by decide : 1023 < kCheckEveryN)
  have ready : (called Logged.minute 1023).Ready := (new_exact Logged.minute "log" 4).ready
  have answered : ∃ final, run (step Logged.minute) (called Logged.minute 1023)
      [.append [7] 86404 86404 0] = some final := run_answers ready _
  obtain ⟨final, ran⟩ := answered
  obtain ⟨next, stepped, ended⟩ := run_cons_some.mp ran
  cases ended
  refine ⟨_, run_append before ran, ?_⟩
  cases (append_appended ready stepped).2 with
  | full size none fresh => exact absurd size (by decide)
  | stayed small young counted grown => exact absurd ⟨small, by decide, by decide⟩ young
  | aged day kept fresh =>
      have one : final.writtenBytes = 1 := kept
      rw [SizeRoll, one, fresh]
      exact ⟨rfl, rfl, by decide, by decide⟩

end Rolling

end Muzi.LogFile
