import Muzi.LogFile
import Muzi.LogOverload

/-!
The logger from `Output` to the files: base/async_outputer.cc with its `log_file_`. What
the backend takes goes to the `LogFile` buffer by buffer, and the file is flushed at the
end of each iteration. Two things lose messages on the way, a batch of more than 25
buffers and a roll that opens a file again; both lose whole messages.
-/

namespace Muzi

open Execution
open Storage (Byte)

theorem AsyncOutputer.Inv.given_all {o : AsyncOutputer} (inv : Inv o) (finished : o.pc = .finished)
    (small : ∀ batch ∈ o.batches, batch.length ≤ 25) :
    o.appended.flatten = o.messages.flatten := by
  have backend := inv.sound.backend
  have ending := inv.ending
  simp only [Backend, Ending, finished] at backend ending
  have whole : o.batches.map kept = o.batches.map id :=
    List.map_congr_left fun batch member => if_neg (Nat.not_lt.mpr (small batch member))
  rw [inv.sound.content, ending.2, List.append_nil, backend.2.2, List.flatMap_def, whole,
    List.map_id, contents, List.flatMap_def]

namespace LogFile

/-- Each file holds whole pieces, and over all the files they come in their order. -/
structure Pieces (disk : Disk) (appended : List (List Byte))
    (files : List (File × List (List Byte))) : Prop where
  disk : disk = files.map Prod.fst
  content : ∀ file ∈ files, file.1.content = file.2.flatten
  order : (files.flatMap Prod.snd).Sublist appended

theorem Pieces.refine {disk : Disk} {appended : List (List Byte)}
    {files : List (File × List (List Byte))} (pieces : Pieces disk appended files)
    {groups : List (List (List Byte))} (equal : files.flatMap Prod.snd = groups.map List.flatten)
    {messages : List (List Byte)} (order : groups.flatten.Sublist messages) :
    ∃ split, Pieces disk messages split := by
  suffices parts : ∃ split : List (File × List (List Byte)),
      split.map Prod.fst = files.map Prod.fst ∧
        (∀ file ∈ split, file.1.content = file.2.flatten) ∧
        split.flatMap Prod.snd = groups.flatten by
    obtain ⟨split, same, content, all⟩ := parts
    exact ⟨split, pieces.disk.trans same.symm, content, all ▸ order⟩
  have content := pieces.content
  clear pieces order
  induction files generalizing groups with
  | nil =>
      have none : groups = [] := List.map_eq_nil_iff.mp equal.symm
      exact ⟨[], rfl, by simp, by simp [none]⟩
  | cons file rest ih =>
      rw [List.flatMap_cons] at equal
      obtain ⟨first, others, rfl, own, left⟩ := List.map_eq_append_iff.mp equal.symm
      obtain ⟨split, same, held, all⟩ := ih left.symm fun file member =>
        content file (List.mem_cons_of_mem _ member)
      refine ⟨(file.1, first.flatten) :: split, by simp [same], ?_, by simp [all]⟩
      refine List.forall_mem_cons.mpr ⟨?_, held⟩
      rw [content file List.mem_cons_self, ← own, List.flatten_flatten]

theorem flush_latest {l : LogFile} (ready : l.Ready) : ∃ stream earlier content,
    l.fp = some stream ∧ l.disk = earlier ++ [⟨stream.name, content⟩] ∧
      (∀ file ∈ earlier, file.name ≠ stream.name) ∧
      l.flush.disk = earlier ++ [⟨stream.name, content ++ stream.buffered⟩] := by
  obtain ⟨stream, opened, earlier, content, disk, others⟩ := ready
  refine ⟨stream, earlier, content, opened, disk, others, ?_⟩
  simp only [flush, opened, disk]
  exact Disk.write_latest others

theorem flush_twice (l : LogFile) : l.flush.flush = l.flush := by
  unfold flush
  cases l.fp with
  | none => rfl
  | some stream => simp

theorem fwrite_pieces {l written : LogFile} {msg : List Byte} {spill : Nat}
    {appended : List (List Byte)} {files : List (File × List (List Byte))} (ready : l.Ready)
    (pieces : Pieces l.flush.disk appended files) (wrote : l.fwrite msg spill = some written) :
    ∃ grown, Pieces written.flush.disk (appended ++ [msg]) grown := by
  obtain ⟨stream, earlier, content, opened, disk, others, flushed⟩ := flush_latest ready
  have split := pieces.disk
  rw [flushed] at split
  obtain ⟨before, last, rfl, first, second⟩ := List.map_eq_append_iff.mp split.symm
  obtain ⟨⟨file, group⟩, rfl, rfl⟩ := List.map_eq_singleton_iff.mp second
  refine ⟨before ++ [(⟨stream.name, content ++ stream.buffered ++ msg⟩, group ++ [msg])],
    ?_, ?_, ?_⟩
  · simp only [fwrite, opened, Option.map_some, Option.some.injEq] at wrote
    subst wrote
    simp only [flush, disk, Disk.write_latest others]
    simp [first]
  · intro tagged member
    rcases List.mem_append.mp member with old | new
    · exact pieces.content tagged (List.mem_append_left _ old)
    · cases List.mem_singleton.mp new
      have own : content ++ stream.buffered = group.flatten :=
        pieces.content _ (List.mem_append_right _ (List.mem_singleton_self _))
      simp [own]
  · have order := pieces.order.append_right [msg]
    simpa using order

theorem rollFile_pieces (host : Host) (now : Time) {l : LogFile} {appended : List (List Byte)}
    {files : List (File × List (List Byte))} (ready : l.Ready)
    (pieces : Pieces l.flush.disk appended files) :
    ∃ left, Pieces (l.rollFile host now).flush.disk appended left := by
  obtain ⟨-, opened, -⟩ := rollFile_stored host now ready
  have stream : (l.rollFile host now).flush.disk = (l.rollFile host now).disk := by
    simp [rollFile, reset, flush]
  generalize getLogFileName host l.baseName now = name at opened
  refine ⟨files.filter (fun file => file.1.name ≠ name) ++ [(⟨name, []⟩, [])], ?_, ?_, ?_⟩
  · rw [stream, opened, pieces.disk, Disk.fopen, List.filter_map, List.map_append]
    rfl
  · intro tagged member
    rcases List.mem_append.mp member with old | new
    · exact pieces.content tagged (List.mem_filter.mp old).1
    · cases List.mem_singleton.mp new
      rfl
  · have fewer := List.filter_sublist (p := fun file => file.1.name ≠ name) (l := files)
    simpa using (fewer.flatMap Prod.snd).trans pieces.order

theorem append_pieces {host : Host} {l next : LogFile} {msg : List Byte} {now later : Time}
    {spill : Nat} {appended : List (List Byte)} {files : List (File × List (List Byte))}
    (ready : l.Ready) (pieces : Pieces l.flush.disk appended files)
    (ran : l.append host msg now later spill = some next) :
    ∃ grown, Pieces next.flush.disk (appended ++ [msg]) grown := by
  obtain ⟨written, wrote, rfl⟩ := Option.map_eq_some_iff.mp ran
  have still := (fwrite_stored ready wrote).1
  obtain ⟨grown, more⟩ := fwrite_pieces ready pieces wrote
  have accounted := account_cases host msg.length now later written
  generalize account host msg.length now later written = after at accounted ⊢
  cases accounted with
  | rolled bytes count full =>
      exact rollFile_pieces host later (l := { written with writtenBytes := bytes, count := count })
        still ⟨more.disk, more.content, more.order⟩
  | flushed bytes stays =>
      refine ⟨grown, ?_, more.content, more.order⟩
      rw [flush_twice]
      exact more.disk
  | counted bytes count stays => exact ⟨grown, more.disk, more.content, more.order⟩

namespace Logged

def Action.piece : Action → List (List Byte)
  | .append msg _ _ _ => [msg]
  | .flush => []

theorem step_appended {host : Host} {s next : Logged} {action : Action}
    (stepped : s.step host action = some next) :
    next.appended = s.appended ++ (Action.piece action).flatten := by
  cases action with
  | append msg now later spill =>
      obtain ⟨-, made⟩ := Option.ite_none_right_eq_some.mp stepped
      obtain ⟨file, -, rfl⟩ := Option.map_eq_some_iff.mp made
      simp [Action.piece]
  | flush =>
      cases stepped
      simp [Action.piece]

theorem step_pieces {host : Host} {s next : Logged} {action : Action}
    {appended : List (List Byte)} {files : List (File × List (List Byte))} (inv : Inv s)
    (pieces : Pieces s.file.flush.disk appended files)
    (stepped : s.step host action = some next) :
    ∃ grown, Pieces next.file.flush.disk (appended ++ Action.piece action) grown := by
  cases action with
  | append msg now later spill =>
      obtain ⟨-, made⟩ := Option.ite_none_right_eq_some.mp stepped
      obtain ⟨file, ran, rfl⟩ := Option.map_eq_some_iff.mp made
      exact append_pieces inv.ready pieces ran
  | flush =>
      cases stepped
      refine ⟨files, ?_, pieces.content, ?_⟩
      · rw [flush_twice]
        exact pieces.disk
      · simpa [Action.piece] using pieces.order

end Logged

end LogFile

structure LogPipeline where
  outputer : AsyncOutputer
  logged : LogFile.Logged
  /-- How many buffers of its batch the backend has appended. -/
  written : Nat

namespace LogPipeline

open AsyncOutputer (kept)
open LogFile (Host Time Disk Logged Pieces)

inductive Action where
  | outputer (action : AsyncOutputer.Action)
  -- one turn of the loop over `buffers_to_write`
  | append (now later : Time) (spill : Nat)
  -- the rest of the iteration
  | finish

def step (host : Host) (p : LogPipeline) : Action → Option LogPipeline
  | .outputer action =>
      match p.outputer.pc, action with
      | .writing _ _, .backend => none
      | _, _ => (p.outputer.step action).map fun outputer => { p with outputer := outputer }
  | .append now later spill =>
      match p.outputer.pc with
      | .writing _ batch => do
          let buffer ← (kept batch)[p.written]?
          let logged ← p.logged.step host (.append buffer.data now later spill)
          some { p with logged := logged, written := p.written + 1 }
      | _ => none
  | .finish =>
      match p.outputer.pc with
      | .writing lastWrite batch =>
          if p.written = (kept batch).length then do
            let outputer ← p.outputer.write lastWrite batch
            some ⟨outputer, { p.logged with file := p.logged.file.flush }, 0⟩
          else none
      | _ => none

def start (host : Host) (baseName : String) (now : Time) : LogPipeline :=
  ⟨AsyncOutputer.init, Logged.start host baseName now, 0⟩

def given (p : LogPipeline) : List (List Byte) :=
  p.outputer.appended ++
    match p.outputer.pc with
    | .writing _ batch => ((kept batch).take p.written).map FixedBuffer.data
    | _ => []

variable {host : Host} {p next : LogPipeline} {action : Action} {lastWrite : Bool}
  {batch : List AsyncOutputer.LargeBuffer}

theorem given_writing (pc : p.outputer.pc = .writing lastWrite batch) :
    p.given = p.outputer.appended ++ ((kept batch).take p.written).map FixedBuffer.data := by
  simp only [given, pc]

theorem given_begun (begun : p.written = 0) : p.given = p.outputer.appended := by
  unfold given
  split <;> simp [begun]

inductive Moves (host : Host) (p : LogPipeline) : Action → LogPipeline → Prop
  | outputer {action : AsyncOutputer.Action} {outputer : AsyncOutputer}
      (stepped : p.outputer.step action = some outputer)
      (same : outputer.appended = p.outputer.appended)
      (stays : ∀ lastWrite batch, p.outputer.pc = .writing lastWrite batch →
        outputer.pc = .writing lastWrite batch) :
      Moves host p (.outputer action) { p with outputer := outputer }
  | append {lastWrite : Bool} {batch : List AsyncOutputer.LargeBuffer}
      {buffer : AsyncOutputer.LargeBuffer} {now later : Time} {spill : Nat} {logged : Logged}
      (pc : p.outputer.pc = .writing lastWrite batch)
      (found : (kept batch)[p.written]? = some buffer)
      (stepped : p.logged.step host (.append buffer.data now later spill) = some logged) :
      Moves host p (.append now later spill) { p with logged := logged, written := p.written + 1 }
  | finish {lastWrite : Bool} {batch : List AsyncOutputer.LargeBuffer} {outputer : AsyncOutputer}
      (pc : p.outputer.pc = .writing lastWrite batch) (all : p.written = (kept batch).length)
      (stepped : p.outputer.step .backend = some outputer)
      (appended : outputer.appended = p.outputer.appended ++ (kept batch).map FixedBuffer.data)
      (after : outputer.pc = .testing lastWrite) :
      Moves host p .finish ⟨outputer, { p.logged with file := p.logged.file.flush }, 0⟩

theorem step_same {o next : AsyncOutputer} {action : AsyncOutputer.Action}
    (stepped : o.step action = some next)
    (idle : action = .backend → ∀ lastWrite batch, o.pc ≠ .writing lastWrite batch) :
    next.appended = o.appended ∧ ∀ lastWrite batch, o.pc = .writing lastWrite batch →
      next.pc = .writing lastWrite batch := by
  cases action with
  | output msg =>
      obtain ⟨after, wrote, rfl⟩ := Option.map_eq_some_iff.mp stepped
      obtain ⟨current, -, made⟩ := Option.bind_eq_some_iff.mp wrote
      split at made
      · obtain ⟨⟨fresh, rotated⟩, turned, made⟩ := Option.bind_eq_some_iff.mp made
        obtain ⟨_, -, pair⟩ := Option.map_eq_some_iff.mp turned
        cases pair
        cases made
        exact ⟨rfl, fun _ _ pc => pc⟩
      · cases made
        exact ⟨rfl, fun _ _ pc => pc⟩
  | flush =>
      obtain ⟨⟨fresh, rotated⟩, turned, rfl⟩ := Option.map_eq_some_iff.mp stepped
      obtain ⟨_, -, pair⟩ := Option.map_eq_some_iff.mp turned
      cases pair
      exact ⟨rfl, fun _ _ pc => pc⟩
  | start =>
      simp only [AsyncOutputer.step, AsyncOutputer.start] at stepped
      split at stepped
      · rename_i unstarted
        cases stepped
        refine ⟨rfl, fun _ _ pc => ?_⟩
        cases unstarted.symm.trans pc
      · cases stepped
  | stop =>
      simp only [AsyncOutputer.step, AsyncOutputer.stop] at stepped
      split at stepped <;> cases stepped
      exact ⟨rfl, fun _ _ pc => pc⟩
  | backend =>
      refine ⟨?_, fun _ _ pc => absurd pc (idle rfl _ _)⟩
      have taken {lastWrite : Bool} (took : o.take lastWrite = some next) :
          next.appended = o.appended := by
        obtain ⟨current, -, rfl⟩ := Option.map_eq_some_iff.mp took
        rfl
      simp only [AsyncOutputer.step, AsyncOutputer.backend] at stepped
      split at stepped
      · cases stepped
      · cases stepped
      · cases stepped
        rfl
      · cases stepped
        rfl
      · cases stepped
        rfl
      · split at stepped
        · cases stepped
          rfl
        · exact taken stepped
      · exact taken stepped
      · rename_i pc
        exact absurd pc (idle rfl _ _)

theorem write_appended {o next : AsyncOutputer} (wrote : o.write lastWrite batch = some next) :
    next.appended = o.appended ++ (kept batch).map FixedBuffer.data ∧
      next.pc = .testing lastWrite := by
  obtain ⟨⟨first, rest⟩, -, more⟩ := Option.bind_eq_some_iff.mp wrote
  obtain ⟨second, -, made⟩ := Option.bind_eq_some_iff.mp more
  cases made
  exact ⟨rfl, rfl⟩

theorem step_moves (stepped : p.step host action = some next) : Moves host p action next := by
  cases action with
  | outputer action =>
      simp only [step] at stepped
      split at stepped
      · cases stepped
      · rename_i idle
        obtain ⟨outputer, ran, rfl⟩ := Option.map_eq_some_iff.mp stepped
        obtain ⟨same, stays⟩ := step_same ran fun backend lastWrite batch pc =>
          idle lastWrite batch pc backend
        exact .outputer ran same stays
  | append now later spill =>
      simp only [step] at stepped
      split at stepped
      · rename_i lastWrite batch pc
        obtain ⟨buffer, found, more⟩ := Option.bind_eq_some_iff.mp stepped
        obtain ⟨logged, ran, made⟩ := Option.bind_eq_some_iff.mp more
        cases made
        exact .append pc found ran
      · cases stepped
  | finish =>
      simp only [step] at stepped
      split at stepped
      · rename_i lastWrite batch pc
        obtain ⟨all, made⟩ := Option.ite_none_right_eq_some.mp stepped
        obtain ⟨outputer, ran, made⟩ := Option.bind_eq_some_iff.mp made
        cases made
        obtain ⟨appended, after⟩ := write_appended ran
        refine .finish pc all ?_ appended after
        simpa only [AsyncOutputer.step, AsyncOutputer.backend, pc] using ran
      · cases stepped

structure Passed (p : LogPipeline) : Prop where
  inv : Logged.Inv p.logged
  appended : p.logged.appended = p.given.flatten
  pieces : ∃ files, Pieces p.logged.file.flush.disk p.given files
  flushed : p.written = 0 → p.logged.file.flush = p.logged.file
  idle : (∀ lastWrite batch, p.outputer.pc ≠ .writing lastWrite batch) → p.written = 0

theorem start_flushed (host : Host) (baseName : String) (now : Time) :
    (start host baseName now).logged.file.flush = (start host baseName now).logged.file := by
  simp [start, Logged.start, LogFile.new, LogFile.rollFile, LogFile.reset, LogFile.flush]

theorem start_passed (host : Host) (baseName : String) (now : Time) :
    Passed (start host baseName now) where
  inv := Logged.start_inv host baseName now
  appended := rfl
  pieces := ⟨[(⟨LogFile.getLogFileName host (LogFile.setBaseName baseName) now, []⟩, [])],
    by rw [start_flushed]; rfl, by simp, List.Sublist.refl _⟩
  flushed _ := start_flushed host baseName now
  idle _ := rfl

theorem Passed.outputer {outputer : AsyncOutputer} (passed : Passed p)
    (same : outputer.appended = p.outputer.appended)
    (stays : ∀ lastWrite batch, p.outputer.pc = .writing lastWrite batch →
      outputer.pc = .writing lastWrite batch) : Passed { p with outputer := outputer } := by
  have still : ({ p with outputer := outputer } : LogPipeline).given = p.given := by
    by_cases writing : ∃ lastWrite batch, p.outputer.pc = .writing lastWrite batch
    · obtain ⟨lastWrite, batch, pc⟩ := writing
      rw [given_writing pc, given_writing (stays _ _ pc), same]
    · have begun := passed.idle fun lastWrite batch pc => writing ⟨lastWrite, batch, pc⟩
      have after : ({ p with outputer := outputer } : LogPipeline).written = 0 := begun
      rw [given_begun begun, given_begun after, same]
  refine ⟨passed.inv, ?_, ?_, passed.flushed, fun idle => passed.idle fun lastWrite batch pc => ?_⟩
  · rw [still]
    exact passed.appended
  · rw [still]
    exact passed.pieces
  · exact idle _ _ (stays _ _ pc)

theorem Passed.append {buffer : AsyncOutputer.LargeBuffer} {now later : Time} {spill : Nat}
    {logged : Logged} (passed : Passed p) (pc : p.outputer.pc = .writing lastWrite batch)
    (found : (kept batch)[p.written]? = some buffer)
    (stepped : p.logged.step host (.append buffer.data now later spill) = some logged) :
    Passed { p with logged := logged, written := p.written + 1 } := by
  have grown : ({ p with logged := logged, written := p.written + 1 } : LogPipeline).given =
      p.given ++ [buffer.data] := by
    unfold given
    simp only [pc, List.take_add_one, found, List.append_assoc]
    simp
  obtain ⟨files, pieces⟩ := passed.pieces
  refine ⟨(Logged.step_exact passed.inv stepped).1, ?_, ?_, nofun, fun idle => absurd pc (idle _ _)⟩
  · rw [grown, List.flatten_append, ← passed.appended]
    exact Logged.step_appended stepped
  · rw [grown]
    exact Logged.step_pieces passed.inv pieces stepped

theorem Passed.finish {outputer : AsyncOutputer} (passed : Passed p)
    (pc : p.outputer.pc = .writing lastWrite batch) (all : p.written = (kept batch).length)
    (appended : outputer.appended = p.outputer.appended ++ (kept batch).map FixedBuffer.data) :
    Passed ⟨outputer, { p.logged with file := p.logged.file.flush }, 0⟩ := by
  have still : LogPipeline.given ⟨outputer, { p.logged with file := p.logged.file.flush }, 0⟩ =
      p.given := by
    rw [given_begun rfl, given_writing pc, all, List.take_length]
    exact appended
  obtain ⟨ready, stored, -⟩ := LogFile.flush_stored passed.inv.ready
  refine ⟨⟨ready, ?_⟩, ?_, ?_, fun _ => LogFile.flush_twice _, fun _ => rfl⟩
  · rw [stored]
    exact passed.inv.stored
  · rw [still]
    exact passed.appended
  · rw [still, LogFile.flush_twice]
    exact passed.pieces

theorem Moves.passed (passed : Passed p) (moved : Moves host p action next) : Passed next := by
  cases moved with
  | outputer stepped same stays => exact passed.outputer same stays
  | append pc found stepped => exact passed.append pc found stepped
  | finish pc all stepped appended after => exact passed.finish pc all appended

theorem run_passed {baseName : String} {now : Time} {actions : List Action}
    (ran : run (step host) (start host baseName now) actions = some p) : Passed p :=
  run_invariant Passed (fun _ _ _ passed stepped => (step_moves stepped).passed passed)
    (start_passed host baseName now) ran

theorem Moves.outputer_steps (moved : Moves host p action next) :
    next.outputer = p.outputer ∨ ∃ step, p.outputer.step step = some next.outputer := by
  cases moved with
  | outputer stepped same stays => exact .inr ⟨_, stepped⟩
  | append pc found stepped => exact .inl rfl
  | finish pc all stepped appended after => exact .inr ⟨_, stepped⟩

theorem run_grouped {baseName : String} {now : Time} {actions : List Action}
    (ran : run (step host) (start host baseName now) actions = some p) :
    AsyncOutputer.Sound p.outputer ∧ AsyncOutputer.Grouped p.outputer := by
  refine run_invariant (fun p => AsyncOutputer.Sound p.outputer ∧ AsyncOutputer.Grouped p.outputer)
    ?_ ⟨AsyncOutputer.init_sound, [[]], rfl, rfl⟩ ran
  rintro p action next ⟨sound, grouped⟩ stepped
  rcases (step_moves stepped).outputer_steps with same | ⟨step, moved⟩
  · rw [same]
    exact ⟨sound, grouped⟩
  · exact ⟨AsyncOutputer.step_sound sound moved, AsyncOutputer.step_grouped grouped sound moved⟩

theorem given_sublist (sound : AsyncOutputer.Sound p.outputer) :
    ∃ left, List.Sublist left p.outputer.filled ∧ p.given = left.map FixedBuffer.data := by
  by_cases writing : ∃ lastWrite batch, p.outputer.pc = .writing lastWrite batch
  · obtain ⟨lastWrite, batch, pc⟩ := writing
    have backend := sound.backend
    simp only [AsyncOutputer.Backend, pc] at backend
    obtain ⟨done, batches, appended, -⟩ := backend
    refine ⟨done.flatMap kept ++ (kept batch).take p.written, ?_, ?_⟩
    · rw [AsyncOutputer.filled, batches, List.append_assoc]
      refine List.Sublist.trans ?_ (List.sublist_append_left _ _)
      have parts := AsyncOutputer.kept_sublist (done ++ [batch])
      rw [List.flatMap_append, List.flatMap_singleton] at parts
      exact ((List.take_sublist _ _).append_left _).trans parts
    · rw [given_writing pc, appended, List.map_append]
  · obtain ⟨left, sub, appended⟩ := sound.appended_sublist
    refine ⟨left, sub, ?_⟩
    unfold given
    split
    · rename_i pc
      exact absurd ⟨_, _, pc⟩ writing
    · rw [List.append_nil]
      exact appended

/-- The backend takes 27 buffers, writes two of them, and is not stopped. -/
def overloadedFile : List Action :=
  AsyncOutputer.overloaded.dropLast.map .outputer ++ [.append 4 4 0, .append 4 4 1, .finish]

/-- Every `Output` comes before `Stop`. -/
def InTime (p : LogPipeline) : Action → Prop
  | .outputer action => p.outputer.InTime action
  | .append _ _ _ | .finish => True

instance (p : LogPipeline) (action : Action) : Decidable (p.InTime action) :=
  match action with
  | .outputer action => inferInstanceAs (Decidable (p.outputer.InTime action))
  | .append _ _ _ | .finish => isTrue trivial

theorem run_inv {baseName : String} {now : Time} {actions : List Action}
    (ran : run (step host) (start host baseName now) actions = some p)
    (inTime : Along (step host) InTime (start host baseName now) actions) :
    AsyncOutputer.Inv p.outputer := by
  have begun : AsyncOutputer.Inv AsyncOutputer.init := ⟨AsyncOutputer.init_sound, rfl⟩
  refine run_invariant_along (fun p => AsyncOutputer.Inv p.outputer) ?_ begun inTime ran
  rintro p action next ⟨sound, ending⟩ timely stepped
  cases step_moves stepped with
  | outputer moved same stays =>
      exact ⟨AsyncOutputer.step_sound sound moved,
        AsyncOutputer.step_ending sound ending timely moved⟩
  | append pc found moved => exact ⟨sound, ending⟩
  | finish pc all moved appended after =>
      have timely : p.outputer.InTime .backend := trivial
      exact ⟨AsyncOutputer.step_sound sound moved,
        AsyncOutputer.step_ending sound ending timely moved⟩

/-- No roll opens a file that holds data. -/
def Spares (host : Host) (p : LogPipeline) : Action → Prop
  | .append now later spill => ∀ lastWrite batch, p.outputer.pc = .writing lastWrite batch →
      ∀ buffer, (kept batch)[p.written]? = some buffer →
        p.logged.Spares host (.append buffer.data now later spill)
  | .outputer _ | .finish => True

theorem Moves.keeps_iff (passed : Passed p) (moved : Moves host p action next) :
    next.logged.file.stored = next.logged.appended ↔
      p.logged.file.stored = p.logged.appended ∧ Spares host p action := by
  cases moved with
  | outputer stepped same stays => simp [Spares]
  | append pc found stepped =>
      rename_i lastWrite batch buffer now later spill logged
      have spares : Spares host p (.append now later spill) ↔
          p.logged.Spares host (.append buffer.data now later spill) := by
        constructor
        · exact fun all => all _ _ pc _ found
        · intro one lastWrite batch writing other also
          cases pc.symm.trans writing
          cases found.symm.trans also
          exact one
      rw [spares]
      exact (Logged.step_exact passed.inv stepped).2
  | finish pc all stepped appended after =>
      rw [(LogFile.flush_stored passed.inv.ready).2.1]
      simp [Spares]

/-- Two messages, of which the second is still in `current_buffer_` when `Stop` is called. -/
def stoppedInTime : List Action :=
  (AsyncOutputer.stopAtLock.take 9).map .outputer ++ [.append 4 4 0, .append 4 5 1, .finish] ++
    List.replicate 4 (.outputer .backend) ++ [.append 5 5 0, .finish, .outputer .backend]

end LogPipeline

end Muzi
