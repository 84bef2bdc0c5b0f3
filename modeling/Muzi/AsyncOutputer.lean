import Muzi.Execution
import Muzi.Storage

/-!
The asynchronous logger. Front ends fill `current_buffer_` under the lock, the
backend thread swaps the full buffers out under the same lock and writes them
without it. Four buffers go round between the two sides; a pointer that was
moved from is `none`, and using it stops the model.
-/

namespace Muzi

open Execution
open Storage (Byte)

/-- The bytes up to `end_`. The last byte of the storage is never used. -/
structure FixedBuffer (size : Nat) where
  data : List Byte
  fits : data.length < size

namespace FixedBuffer

variable {size : Nat}

def getAvail (b : FixedBuffer size) : Nat := size - b.data.length - 1

def append (b : FixedBuffer size) (msg : List Byte) : FixedBuffer size where
  data := b.data ++ msg.take (min b.getAvail msg.length)
  fits := by
    have := b.fits
    simp only [getAvail, List.length_append, List.length_take]
    omega

def clear (b : FixedBuffer size) : FixedBuffer size := ⟨[], Nat.zero_lt_of_lt b.fits⟩

theorem append_data {b : FixedBuffer size} {msg : List Byte} (room : msg.length ≤ b.getAvail) :
    (b.append msg).data = b.data ++ msg := by
  simp [append, Nat.min_eq_right room]

end FixedBuffer

namespace AsyncOutputer

def kSmallBuffSize : Nat := 4096
def kLargeBuffSize : Nat := 4096 * 1000

abbrev SmallBuffer := FixedBuffer kSmallBuffSize
abbrev LargeBuffer := FixedBuffer kLargeBuffSize

def newBuffer : LargeBuffer := ⟨[], by decide⟩

def contents (buffers : List LargeBuffer) : List Byte := buffers.flatMap FixedBuffer.data

inductive Pc where
  | unstarted
  | starting
  | testing (lastWrite : Bool)
  | sampling
  | locking (lastWrite : Bool)
  | waiting (lastWrite : Bool)
  | writing (lastWrite : Bool) (buffersToWrite : List LargeBuffer)
  | finished

end AsyncOutputer

structure AsyncOutputer where
  running : Bool
  currentBuffer : Option AsyncOutputer.LargeBuffer
  nextBuffer : Option AsyncOutputer.LargeBuffer
  buffers : List AsyncOutputer.LargeBuffer
  pc : AsyncOutputer.Pc
  newBuffer1 : Option AsyncOutputer.LargeBuffer
  newBuffer2 : Option AsyncOutputer.LargeBuffer
  /-- The arguments of `log_file_.Append` so far. -/
  appended : List (List Byte)
  /-- The messages, in the order in which their `Output` held the lock. -/
  messages : List (List Byte)
  /-- The vectors that `Run` took. -/
  batches : List (List AsyncOutputer.LargeBuffer)
  stopped : Bool

namespace AsyncOutputer

def init : AsyncOutputer where
  running := false
  currentBuffer := some newBuffer
  nextBuffer := some newBuffer
  buffers := []
  pc := .unstarted
  newBuffer1 := none
  newBuffer2 := none
  appended := []
  messages := []
  batches := []
  stopped := false

/-- `current_buffer_` goes to `buffers_`, and the next buffer or a new one takes
its place. -/
def rotate (o : AsyncOutputer) : Option (LargeBuffer × AsyncOutputer) :=
  o.currentBuffer.map fun current =>
    (o.nextBuffer.getD newBuffer,
      { o with buffers := o.buffers ++ [current], currentBuffer := none, nextBuffer := none })

def flush (o : AsyncOutputer) : Option AsyncOutputer :=
  o.rotate.map fun (fresh, rotated) => { rotated with currentBuffer := some fresh }

def output (msg : SmallBuffer) (o : AsyncOutputer) : Option AsyncOutputer := do
  let current ← o.currentBuffer
  if msg.data.length > current.getAvail then
    let (fresh, rotated) ← o.rotate
    some { rotated with currentBuffer := some (fresh.append msg.data) }
  else
    some { o with currentBuffer := some (current.append msg.data) }

def start (o : AsyncOutputer) : Option AsyncOutputer :=
  match o.pc with
  | .unstarted => some { o with running := true, pc := .starting }
  | _ => none

/-- `Stop` of a started thread, up to its `Join`. -/
def stop (o : AsyncOutputer) : Option AsyncOutputer :=
  match o.pc with
  | .unstarted => none
  | _ => some { o with running := false, stopped := true }

/-- The critical section of `Run` behind the wait, when `current_buffer_` is
there. -/
def taken (lastWrite : Bool) (o : AsyncOutputer) (current : LargeBuffer) : AsyncOutputer :=
  { o with
    buffers := []
    currentBuffer := o.newBuffer1
    newBuffer1 := none
    nextBuffer := if o.nextBuffer.isNone then o.newBuffer2 else o.nextBuffer
    newBuffer2 := if o.nextBuffer.isNone then none else o.newBuffer2
    pc := .writing lastWrite (o.buffers ++ [current])
    batches := o.batches ++ [o.buffers ++ [current]] }

def take (lastWrite : Bool) (o : AsyncOutputer) : Option AsyncOutputer :=
  o.currentBuffer.map (o.taken lastWrite)

def kept (buffersToWrite : List LargeBuffer) : List LargeBuffer :=
  if buffersToWrite.length > 25 then buffersToWrite.take 2 else buffersToWrite

/-- `std::move` of the last element, with `pop_back` and `clear`. -/
def popBack (buffersToWrite : List LargeBuffer) : Option (LargeBuffer × List LargeBuffer) :=
  buffersToWrite.getLast?.map fun last => (last.clear, buffersToWrite.dropLast)

/-- `new_buffer2` is replaced only when it was moved to the front end. -/
def recycle (newBuffer2 : Option LargeBuffer) (rest : List LargeBuffer) : Option LargeBuffer :=
  match newBuffer2 with
  | some second => some second
  | none => (popBack rest).map Prod.fst

/-- The rest of the iteration. `resize` leaves at most two buffers. -/
def write (lastWrite : Bool) (buffersToWrite : List LargeBuffer) (o : AsyncOutputer) :
    Option AsyncOutputer := do
  let written := kept buffersToWrite
  let (first, rest) ← popBack (written.take 2)
  let second ← recycle o.newBuffer2 rest
  some { o with
    appended := o.appended ++ written.map FixedBuffer.data
    newBuffer1 := some first
    newBuffer2 := some second
    pc := .testing lastWrite }

/-- The next step of the backend thread. A wait ends by a notification, by the
timeout or for no reason. -/
def backend (o : AsyncOutputer) : Option AsyncOutputer :=
  match o.pc with
  | .unstarted | .finished => none
  | .starting =>
      some { o with
        newBuffer1 := some newBuffer, newBuffer2 := some newBuffer, pc := .testing true }
  | .testing lastWrite =>
      some { o with pc := if o.running || lastWrite then .sampling else .finished }
  | .sampling => some { o with pc := .locking o.running }
  | .locking lastWrite =>
      if o.buffers.isEmpty then some { o with pc := .waiting lastWrite } else o.take lastWrite
  | .waiting lastWrite => o.take lastWrite
  | .writing lastWrite buffersToWrite => o.write lastWrite buffersToWrite

inductive Action where
  | output (msg : SmallBuffer)
  | flush
  | start
  | stop
  | backend

def step (o : AsyncOutputer) : Action → Option AsyncOutputer
  | .output msg =>
      (o.output msg).map fun after => { after with messages := o.messages ++ [msg.data] }
  | .flush => o.flush
  | .start => o.start
  | .stop => o.stop
  | .backend => o.backend

/-! The buffers on their way round. -/

def Cleared (pointer : Option LargeBuffer) : Prop := ∃ b, pointer = some b ∧ b.data = []

def remaining (o : AsyncOutputer) : List Byte :=
  contents o.buffers ++ (o.currentBuffer.map FixedBuffer.data).getD []

def Backend (o : AsyncOutputer) : Prop :=
  match o.pc with
  | .unstarted | .starting => o.batches = [] ∧ o.appended = []
  | .writing _ batch => ∃ done, o.batches = done ++ [batch] ∧
      o.appended = (done.flatMap kept).map FixedBuffer.data ∧ batch ≠ [] ∧
      (Cleared o.newBuffer2 ∨ o.newBuffer2 = none ∧ 2 ≤ batch.length)
  | _ => Cleared o.newBuffer1 ∧ Cleared o.newBuffer2 ∧
      o.appended = (o.batches.flatMap kept).map FixedBuffer.data

/-- `running_` falls with `Stop`. An iteration that saw it fall is the last, and
takes all there is. -/
def Ending (o : AsyncOutputer) : Prop :=
  match o.pc with
  | .unstarted => o.stopped = false
  | .starting | .sampling => o.running = !o.stopped
  | .locking lastWrite | .waiting lastWrite =>
      o.running = !o.stopped ∧ (lastWrite = false → o.stopped = true)
  | .testing lastWrite | .writing lastWrite _ =>
      o.running = !o.stopped ∧ (lastWrite = false → o.stopped = true ∧ o.remaining = [])
  | .finished => o.stopped = true ∧ o.remaining = []

/-- What the front ends rely on. -/
structure Stocked (o : AsyncOutputer) : Prop where
  current : ∃ b, o.currentBuffer = some b
  next : Cleared o.nextBuffer ∨ o.nextBuffer = none ∧ o.buffers ≠ []

/-- What holds in every run, also when messages come behind `Stop`. -/
structure Sound (o : AsyncOutputer) : Prop extends Stocked o where
  backend : Backend o
  content : o.messages.flatten = contents o.batches.flatten ++ o.remaining

structure Inv (o : AsyncOutputer) : Prop where
  sound : Sound o
  ending : Ending o

theorem contents_append (first second : List LargeBuffer) :
    contents (first ++ second) = contents first ++ contents second := List.flatMap_append

theorem remaining_some {o : AsyncOutputer} {b : LargeBuffer} (current : o.currentBuffer = some b) :
    o.remaining = contents o.buffers ++ b.data := by
  simp [remaining, current]

theorem newBuffer_cleared : Cleared (some newBuffer) := ⟨newBuffer, rfl, rfl⟩

theorem init_sound : Sound init where
  current := ⟨newBuffer, rfl⟩
  next := .inl newBuffer_cleared
  backend := ⟨rfl, rfl⟩
  content := rfl

/-! Front ends. -/

structure Front (o next : AsyncOutputer) (msg : List Byte) : Prop where
  current : ∃ b, next.currentBuffer = some b
  spare : Cleared next.nextBuffer ∨ next.nextBuffer = none ∧ next.buffers ≠ []
  added : next.remaining = o.remaining ++ msg
  rest : next = { o with
    buffers := next.buffers, currentBuffer := next.currentBuffer, nextBuffer := next.nextBuffer }

theorem Ending.front {o next : AsyncOutputer} (ending : Ending o) (pc : next.pc = o.pc)
    (running : next.running = o.running) (stopped : next.stopped = o.stopped)
    (still : o.stopped = true → next.remaining = o.remaining) : Ending next := by
  unfold Ending at ending ⊢
  rw [pc, running, stopped]
  have empty : o.stopped = true ∧ o.remaining = [] → o.stopped = true ∧ next.remaining = [] :=
    fun ⟨stop, nothing⟩ => ⟨stop, (still stop).trans nothing⟩
  generalize o.pc = place at ending ⊢
  cases place with
  | unstarted => exact ending
  | starting => exact ending
  | testing lastWrite => exact ⟨ending.1, fun last => empty (ending.2 last)⟩
  | sampling => exact ending
  | locking lastWrite => exact ending
  | waiting lastWrite => exact ending
  | writing lastWrite batch => exact ⟨ending.1, fun last => empty (ending.2 last)⟩
  | finished => exact empty ending

theorem Front.sound {o next : AsyncOutputer} {msg : List Byte} {messages : List (List Byte)}
    (front : Front o next msg) (sound : Sound o)
    (counted : messages.flatten = o.messages.flatten ++ msg) :
    Sound { next with messages := messages } := by
  have rest := front.rest
  refine ⟨⟨front.current, front.spare⟩, ?_, ?_⟩
  · rw [rest]
    exact sound.backend
  · change messages.flatten = contents next.batches.flatten ++ next.remaining
    rw [counted, front.added, sound.content, show next.batches = o.batches by rw [rest],
      List.append_assoc]

theorem Front.ending {o next : AsyncOutputer} {msg : List Byte} {messages : List (List Byte)}
    (front : Front o next msg) (ending : Ending o) (quiet : o.stopped = true → msg = []) :
    Ending { next with messages := messages } := by
  have rest := front.rest
  refine ending.front ?_ ?_ ?_ fun stopped => ?_
  · rw [rest]
  · rw [rest]
  · rw [rest]
  · change next.remaining = o.remaining
    rw [front.added, quiet stopped, List.append_nil]

theorem rotate_spec {o : AsyncOutputer} (stocked : Stocked o) : ∃ current fresh rotated,
    o.currentBuffer = some current ∧ o.rotate = some (fresh, rotated) ∧ fresh.data = [] ∧
      rotated = { o with
        buffers := o.buffers ++ [current], currentBuffer := none, nextBuffer := none } := by
  rcases stocked.current with ⟨current, found⟩
  refine ⟨current, o.nextBuffer.getD newBuffer, _, found, by simp [rotate, found], ?_, rfl⟩
  rcases stocked.next with ⟨next, spare, empty⟩ | ⟨none, -⟩
  · rw [spare]
    exact empty
  · rw [none]
    rfl

theorem rotated_front {o : AsyncOutputer} {current fresh : LargeBuffer} {msg : List Byte}
    (found : o.currentBuffer = some current) (filled : fresh.data = msg) :
    Front o { o with
      buffers := o.buffers ++ [current], currentBuffer := some fresh, nextBuffer := none } msg where
  current := ⟨fresh, rfl⟩
  spare := .inr ⟨rfl, by simp⟩
  added := by
    rw [remaining_some found, remaining_some rfl, contents_append, filled]
    simp [contents]
  rest := rfl

theorem flush_front {o : AsyncOutputer} (stocked : Stocked o) :
    ∃ next, o.flush = some next ∧ Front o next [] := by
  rcases rotate_spec stocked with ⟨current, fresh, rotated, found, turned, empty, rfl⟩
  exact ⟨_, by rw [flush, turned]; rfl, rotated_front found empty⟩

theorem small_fits (msg : SmallBuffer) {fresh : LargeBuffer} (empty : fresh.data = []) :
    msg.data.length ≤ fresh.getAvail := by
  have short := msg.fits
  simp only [FixedBuffer.getAvail, empty, kSmallBuffSize, kLargeBuffSize,
    List.length_nil] at short ⊢
  omega

theorem output_front {o : AsyncOutputer} (stocked : Stocked o) (msg : SmallBuffer) :
    ∃ next, o.output msg = some next ∧ Front o next msg.data := by
  rcases rotate_spec stocked with ⟨current, fresh, rotated, found, turned, empty, rfl⟩
  by_cases full : msg.data.length > current.getAvail
  · have filled : (fresh.append msg.data).data = msg.data := by
      rw [FixedBuffer.append_data (small_fits msg empty), empty, List.nil_append]
    refine ⟨_, ?_, rotated_front found filled⟩
    simp [output, found, turned, full]
  · have grown := FixedBuffer.append_data (Nat.le_of_not_gt full)
    refine ⟨{ o with currentBuffer := some (current.append msg.data) }, ?_,
      ⟨_, rfl⟩, stocked.next, ?_, rfl⟩
    · simp [output, found, full]
    · rw [remaining_some found, remaining_some rfl, grown, List.append_assoc]

/-! The backend. -/

theorem start_sound {o next : AsyncOutputer} (sound : Sound o) (started : o.start = some next) :
    Sound next := by
  unfold start at started
  split at started
  · rename_i pc
    cases started
    have backend := sound.backend
    simp only [Backend, pc] at backend
    exact ⟨⟨sound.current, sound.next⟩, backend, sound.content⟩
  · cases started

theorem start_ending {o next : AsyncOutputer} (ending : Ending o) (started : o.start = some next) :
    Ending next := by
  unfold start at started
  split at started
  · rename_i pc
    cases started
    simp only [Ending, pc] at ending
    change true = !o.stopped
    rw [ending]
    rfl
  · cases started

theorem stop_sound {o next : AsyncOutputer} (sound : Sound o) (stopped : o.stop = some next) :
    Sound next := by
  unfold stop at stopped
  split at stopped
  · cases stopped
  · cases stopped
    exact ⟨⟨sound.current, sound.next⟩, sound.backend, sound.content⟩

theorem stop_ending {o next : AsyncOutputer} (ending : Ending o) (stopped : o.stop = some next) :
    Ending next := by
  unfold stop at stopped
  split at stopped
  · cases stopped
  · rename_i started
    cases stopped
    unfold Ending at ending ⊢
    dsimp only
    cases pc : o.pc with
    | unstarted => exact absurd pc started
    | starting => rfl
    | testing lastWrite =>
        rw [pc] at ending
        exact ⟨rfl, fun last => ⟨rfl, (ending.2 last).2⟩⟩
    | sampling => rfl
    | locking lastWrite => exact ⟨rfl, fun _ => rfl⟩
    | waiting lastWrite => exact ⟨rfl, fun _ => rfl⟩
    | writing lastWrite batch =>
        rw [pc] at ending
        exact ⟨rfl, fun last => ⟨rfl, (ending.2 last).2⟩⟩
    | finished =>
        rw [pc] at ending
        exact ⟨rfl, ending.2⟩

theorem taken_remaining {o : AsyncOutputer} {lastWrite : Bool} {current : LargeBuffer}
    (first : Cleared o.newBuffer1) : (o.taken lastWrite current).remaining = [] := by
  obtain ⟨spare, held, empty⟩ := first
  simp [remaining, taken, contents, held, empty]

theorem taken_sound {o : AsyncOutputer} {lastWrite : Bool} {current : LargeBuffer}
    (sound : Sound o) (found : o.currentBuffer = some current) (first : Cleared o.newBuffer1)
    (second : Cleared o.newBuffer2)
    (appended : o.appended = (o.batches.flatMap kept).map FixedBuffer.data) :
    Sound (o.taken lastWrite current) := by
  refine ⟨⟨first.imp fun _ held => held.1, .inl ?_⟩, ?_, ?_⟩
  · rcases sound.next with ⟨next, spare, clear⟩ | ⟨absent, -⟩
    · exact ⟨next, by simp [taken, spare], clear⟩
    · simpa [taken, absent] using second
  · refine ⟨o.batches, rfl, appended, by simp, ?_⟩
    rcases sound.next with ⟨next, spare, -⟩ | ⟨absent, some⟩
    · left
      simpa [taken, spare] using second
    · right
      have one := List.length_pos_iff.mpr some
      refine ⟨by simp [taken, absent], ?_⟩
      rw [List.length_append, List.length_singleton]
      omega
  · rw [taken_remaining first, List.append_nil]
    refine sound.content.trans ?_
    rw [remaining_some found]
    simp [taken, contents]

theorem popBack_some {buffers : List LargeBuffer} (some : buffers ≠ []) :
    ∃ b, popBack buffers = Option.some (b, buffers.dropLast) ∧ b.data = [] :=
  ⟨_, by rw [popBack, List.getLast?_eq_getLast_of_ne_nil some]; rfl, rfl⟩

theorem kept_length {batch : List LargeBuffer} :
    (batch ≠ [] → (kept batch).take 2 ≠ []) ∧
      (2 ≤ batch.length → ((kept batch).take 2).dropLast ≠ []) := by
  have bound (n : Nat) (least : n ≤ batch.length) (few : n ≤ 2) :
      n ≤ ((kept batch).take 2).length := by
    unfold kept
    split <;> simp only [List.length_take] <;> omega
  constructor
  · intro some
    exact List.length_pos_iff.mp (bound 1 (List.length_pos_iff.mpr some) (by decide))
  · intro two
    apply List.length_pos_iff.mp
    have enough := bound 2 two (Nat.le_refl 2)
    rw [List.length_dropLast]
    omega

theorem write_spec {o : AsyncOutputer} {lastWrite : Bool} {batch : List LargeBuffer}
    (some : batch ≠ [])
    (spare : Cleared o.newBuffer2 ∨ o.newBuffer2 = none ∧ 2 ≤ batch.length) :
    ∃ first second, first.data = [] ∧ second.data = [] ∧
      o.write lastWrite batch = .some { o with
        appended := o.appended ++ (kept batch).map FixedBuffer.data
        newBuffer1 := .some first
        newBuffer2 := .some second
        pc := .testing lastWrite } := by
  rcases popBack_some (kept_length.1 some) with ⟨first, popped, clear⟩
  have recycled : ∃ second, recycle o.newBuffer2 ((kept batch).take 2).dropLast = .some second ∧
      second.data = [] := by
    rcases spare with ⟨second, held, clear⟩ | ⟨absent, two⟩
    · exact ⟨second, by rw [held]; rfl, clear⟩
    · rcases popBack_some (kept_length.2 two) with ⟨second, popped, clear⟩
      exact ⟨second, by rw [absent, recycle, popped]; rfl, clear⟩
  rcases recycled with ⟨second, chosen, also⟩
  refine ⟨first, second, clear, also, ?_⟩
  simp [write, popped, chosen]

theorem write_sound {o : AsyncOutputer} {lastWrite : Bool} {batch : List LargeBuffer}
    (sound : Sound o) (pc : o.pc = .writing lastWrite batch) :
    ∃ next, o.write lastWrite batch = some next ∧ Sound next ∧
      (Ending o → Ending next) ∧ next.stopped = o.stopped ∧ next.pc = .testing lastWrite := by
  have backend := sound.backend
  simp only [Backend, pc] at backend
  rcases backend with ⟨done, batches, appended, some, spare⟩
  rcases write_spec some spare with ⟨first, second, clear, also, wrote⟩
  have all : o.appended ++ (kept batch).map FixedBuffer.data =
      (o.batches.flatMap kept).map FixedBuffer.data := by
    rw [appended, batches, List.flatMap_append, List.map_append]
    simp
  refine ⟨_, wrote, ⟨⟨sound.current, sound.next⟩, ?_, sound.content⟩, fun ending => ?_, rfl, rfl⟩
  · exact ⟨⟨first, rfl, clear⟩, ⟨second, rfl, also⟩, all⟩
  · simp only [Ending, pc] at ending
    exact ending

/-- How far the backend is from its end once `running_` is false. -/
def Pc.rank : Pc → Nat
  | .unstarted => 11
  | .starting => 10
  | .locking lastWrite => if lastWrite then 9 else 4
  | .waiting lastWrite => if lastWrite then 8 else 3
  | .writing lastWrite _ => if lastWrite then 7 else 2
  | .testing lastWrite => if lastWrite then 6 else 1
  | .sampling => 5
  | .finished => 0

structure Advanced (o next : AsyncOutputer) : Prop where
  sound : Sound next
  ending : Ending o → Ending next
  stopped : next.stopped = o.stopped
  nearer : Ending o → o.stopped = true → next.pc.rank < o.pc.rank

theorem take_advances {o : AsyncOutputer} {lastWrite : Bool} (sound : Sound o)
    (pc : o.pc = .locking lastWrite ∨ o.pc = .waiting lastWrite) :
    ∃ next, o.take lastWrite = some next ∧ Advanced o next := by
  obtain ⟨current, found⟩ := sound.current
  have backend := sound.backend
  refine ⟨o.taken lastWrite current, by rw [take, found]; rfl, ?_⟩
  rcases pc with pc | pc
  all_goals
    simp only [Backend, pc] at backend
    refine ⟨taken_sound sound found backend.1 backend.2.1 backend.2.2, fun ending => ?_, rfl,
      fun _ _ => ?_⟩
    · simp only [Ending, pc] at ending
      exact ⟨ending.1, fun last => ⟨ending.2 last, taken_remaining backend.1⟩⟩
    · cases lastWrite <;> simp [pc, taken, Pc.rank]

theorem testing_advances {o : AsyncOutputer} {lastWrite : Bool} (sound : Sound o)
    (pc : o.pc = .testing lastWrite) : ∃ next, o.backend = some next ∧ Advanced o next := by
  have backend := sound.backend
  simp only [Backend, pc] at backend
  by_cases again : (o.running || lastWrite) = true
  · refine ⟨{ o with pc := .sampling }, by simp [AsyncOutputer.backend, pc, again],
      ⟨⟨sound.current, sound.next⟩, backend, sound.content⟩, fun ending => ?_, rfl,
      fun ending stopped => ?_⟩
    · simp only [Ending, pc] at ending
      exact ending.1
    · simp only [Ending, pc] at ending
      have last : lastWrite = true := by simpa [ending.1, stopped] using again
      simp [pc, last, Pc.rank]
  · refine ⟨{ o with pc := .finished }, by simp [AsyncOutputer.backend, pc, again],
      ⟨⟨sound.current, sound.next⟩, backend, sound.content⟩, fun ending => ?_, rfl, fun _ _ => ?_⟩
    · simp only [Ending, pc] at ending
      have last : o.running = false ∧ lastWrite = false := by simpa using again
      exact ending.2 last.2
    · cases lastWrite <;> simp [pc, Pc.rank]

theorem backend_advances {o : AsyncOutputer} (sound : Sound o) (started : o.pc ≠ .unstarted)
    (working : o.pc ≠ .finished) : ∃ next, o.backend = some next ∧ Advanced o next := by
  have backend := sound.backend
  unfold AsyncOutputer.backend
  cases pc : o.pc with
  | unstarted => exact absurd pc started
  | starting =>
      simp only [Backend, pc] at backend
      refine ⟨_, rfl, ⟨⟨sound.current, sound.next⟩, ?_, sound.content⟩, fun ending => ?_, rfl,
        fun _ _ => by simp [pc, Pc.rank]⟩
      · refine ⟨newBuffer_cleared, newBuffer_cleared, ?_⟩
        simp [backend.1, backend.2]
      · simp only [Ending, pc] at ending
        exact ⟨ending, nofun⟩
  | testing lastWrite =>
      have tested := testing_advances sound pc
      simpa only [AsyncOutputer.backend, pc] using tested
  | sampling =>
      simp only [Backend, pc] at backend
      refine ⟨_, rfl, ⟨⟨sound.current, sound.next⟩, backend, sound.content⟩, fun ending => ?_, rfl,
        fun ending stopped => ?_⟩
      · simp only [Ending, pc] at ending
        exact ⟨ending, fun idle => by simpa [ending] using idle⟩
      · simp only [Ending, pc] at ending
        simp [pc, Pc.rank, ending, stopped]
  | locking lastWrite =>
      simp only [Backend, pc] at backend
      by_cases empty : o.buffers.isEmpty
      · refine ⟨{ o with pc := .waiting lastWrite }, by simp [empty],
          ⟨⟨sound.current, sound.next⟩, backend, sound.content⟩, fun ending => ?_, rfl,
          fun _ _ => ?_⟩
        · simpa only [Ending, pc] using ending
        · cases lastWrite <;> simp [pc, Pc.rank]
      · obtain ⟨next, took, advanced⟩ := take_advances sound (.inl pc)
        exact ⟨next, by simp [empty, took], advanced⟩
  | waiting lastWrite => exact take_advances sound (.inr pc)
  | writing lastWrite batch =>
      obtain ⟨next, wrote, still, ending, stopped, after⟩ := write_sound sound pc
      refine ⟨next, wrote, still, ending, stopped, fun _ _ => ?_⟩
      cases lastWrite <;> simp [pc, after, Pc.rank]
  | finished => exact absurd pc working

theorem advanced_of_step {o next : AsyncOutputer} (sound : Sound o)
    (stepped : o.backend = some next) : Advanced o next := by
  have started : o.pc ≠ .unstarted := fun pc => by simp [AsyncOutputer.backend, pc] at stepped
  have working : o.pc ≠ .finished := fun pc => by simp [AsyncOutputer.backend, pc] at stepped
  obtain ⟨after, moved, advanced⟩ := backend_advances sound started working
  cases moved.symm.trans stepped
  exact advanced

theorem step_sound {o next : AsyncOutputer} {action : Action} (sound : Sound o)
    (stepped : o.step action = some next) : Sound next := by
  cases action with
  | output msg =>
      obtain ⟨after, wrote, front⟩ := output_front sound.toStocked msg
      rw [step, wrote] at stepped
      cases stepped
      exact front.sound sound (by simp)
  | flush =>
      obtain ⟨after, flushed, front⟩ := flush_front sound.toStocked
      cases flushed.symm.trans stepped
      have still : Sound { next with messages := next.messages } :=
        front.sound sound (by rw [front.rest, List.append_nil])
      exact still
  | start => exact start_sound sound stepped
  | stop => exact stop_sound sound stepped
  | backend => exact (advanced_of_step sound stepped).sound

def InTime (o : AsyncOutputer) : Action → Prop
  | .output _ => o.stopped = false
  | _ => True

instance (o : AsyncOutputer) (action : Action) : Decidable (o.InTime action) :=
  match action with
  | .output _ => inferInstanceAs (Decidable (o.stopped = false))
  | .flush | .start | .stop | .backend => isTrue trivial

theorem step_ending {o next : AsyncOutputer} {action : Action} (sound : Sound o)
    (ending : Ending o) (inTime : o.InTime action) (stepped : o.step action = some next) :
    Ending next := by
  cases action with
  | output msg =>
      obtain ⟨after, wrote, front⟩ := output_front sound.toStocked msg
      rw [step, wrote] at stepped
      cases stepped
      refine front.ending ending fun stopped => ?_
      cases stopped.symm.trans (show o.stopped = false from inTime)
  | flush =>
      obtain ⟨after, flushed, front⟩ := flush_front sound.toStocked
      cases flushed.symm.trans stepped
      have still : Ending { next with messages := next.messages } :=
        front.ending ending fun _ => rfl
      exact still
  | start => exact start_ending ending stepped
  | stop => exact stop_ending ending stepped
  | backend => exact (advanced_of_step sound stepped).ending ending

theorem run_inv {actions : List Action} {final : AsyncOutputer}
    (ran : run step init actions = some final) (inTime : Along step InTime init actions) :
    Inv final :=
  run_invariant_along Inv
    (fun _ _ _ inv timely stepped =>
      ⟨step_sound inv.sound stepped, step_ending inv.sound inv.ending timely stepped⟩)
    ⟨init_sound, rfl⟩ inTime ran

/-- `Join` returns: from any state behind `Stop` the backend gets to its end. -/
theorem backend_finishes {o : AsyncOutputer} (inv : Inv o) (stopped : o.stopped = true) :
    ∃ steps last, run step o (List.replicate steps .backend) = some last ∧ last.pc = .finished := by
  induction rank : o.pc.rank using Nat.strongRecOn generalizing o with
  | ind n ih =>
      subst rank
      by_cases finished : o.pc = .finished
      · exact ⟨0, o, rfl, finished⟩
      · have started : o.pc ≠ .unstarted := by
          intro pc
          have ending := inv.ending
          simp only [Ending, pc] at ending
          rw [ending] at stopped
          cases stopped
        obtain ⟨next, moved, advanced⟩ := backend_advances inv.sound started finished
        obtain ⟨steps, last, ran, done⟩ := ih _ (advanced.nearer inv.ending stopped)
          ⟨advanced.sound, advanced.ending inv.ending⟩ (advanced.stopped.trans stopped) rfl
        exact ⟨steps + 1, last, run_cons_some.mpr ⟨next, moved, ran⟩, done⟩

/-- No critical section and no step of the backend meets a moved-from pointer;
behind `Stop` the backend ends; and then the file was given the messages, but
for the buffers that were dropped. -/
theorem log_given_messages (actions : List Action) (final : AsyncOutputer)
    (ran : run step init actions = some final) (inTime : Along step InTime init actions) :
    ((∀ msg, (final.step (.output msg)).isSome) ∧ (final.step .flush).isSome ∧
        (final.pc ≠ .unstarted → final.pc ≠ .finished → (final.step .backend).isSome)) ∧
      (final.stopped = true → ∃ steps last,
        run step final (List.replicate steps .backend) = some last ∧ last.pc = .finished) ∧
      (final.pc = .finished →
        final.messages.flatten = contents final.batches.flatten ∧
          final.appended.flatten = contents (final.batches.flatMap kept) ∧
          ((∀ batch ∈ final.batches, batch.length ≤ 25) →
            final.appended.flatten = final.messages.flatten)) := by
  have inv := run_inv ran inTime
  have sound := inv.sound
  refine ⟨⟨fun msg => ?_, ?_, fun started working => ?_⟩, backend_finishes inv, fun done => ?_⟩
  · rcases output_front sound.toStocked msg with ⟨next, wrote, -⟩
    simp [step, wrote]
  · rcases flush_front sound.toStocked with ⟨next, flushed, -⟩
    simp [step, flushed]
  · rcases backend_advances sound started working with ⟨next, moved, -⟩
    simp [step, moved]
  · have backend := sound.backend
    have ending := inv.ending
    simp only [Backend, Ending, done] at backend ending
    have all : final.messages.flatten = contents final.batches.flatten := by
      rw [sound.content, ending.2, List.append_nil]
    have given : final.appended.flatten = contents (final.batches.flatMap kept) := by
      rw [backend.2.2, ← List.flatMap_def]
      rfl
    refine ⟨all, given, fun small => ?_⟩
    have same : final.batches.map kept = final.batches.map id :=
      List.map_congr_left fun batch member => if_neg (Nat.not_lt.mpr (small batch member))
    rw [given, all, List.flatMap_def, same, List.map_id]

/-- `Stop` comes while the second message is in `current_buffer_`, and the backend
is on its way to the lock. -/
def stopAtLock : List Action :=
  [.start, .backend, .output ⟨[1, 2], by decide⟩, .flush, .output ⟨[3], by decide⟩, .backend,
    .backend, .stop] ++ List.replicate 8 .backend

theorem last_buffer_written : ∃ final, run step init stopAtLock = some final ∧
    final.pc = .finished ∧ final.batches.length = 2 ∧
    final.appended.flatten = final.messages.flatten := by
  refine ⟨_, rfl, rfl, rfl, ?_⟩
  exact ((log_given_messages stopAtLock _ rfl (by decide)).2.2 rfl).2.2 (by decide)

end AsyncOutputer

end Muzi
