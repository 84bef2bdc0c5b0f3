import Muzi.Execution
import Muzi.Monitor

/-!
base/thread_pool.cc. A step is what one thread does between two points at which
another can see it: the tests of `running_`, which nothing protects, the
acquisition of `lock_`, the look at `queue_` under it with what follows up to
`Wait` or to the release, and `Notify`, which is called without it. A task that
calls `Run` is one more producer. `accepted` and `taken` are the history; a task
is taken by the worker it is noted with.
-/

namespace Muzi

open Monitor (Outcome Goes)

namespace ThreadPool

inductive Worker where
  -- in `thread_init_callback_`
  | starting
  -- at `while (running_)`
  | testing
  | taking (phase : Monitor.Phase)
  -- with a task, before `not_full_cond_.Notify()`
  | took
  | running
  | done
  deriving DecidableEq

inductive Producer (Task : Type) where
  | putting (phase : Monitor.Phase) (task : Task)
  -- before `not_empty_cond_.Notify()`
  | put
  | done
  deriving DecidableEq

inductive Stop where
  | outside
  | stored
  | notEmptyNotified
  | joining
  | returned
  deriving DecidableEq

namespace Worker

def phase : Worker → Option Monitor.Phase
  | .taking phase => some phase
  | _ => none

def wake (signalled : Bool) : Worker → Option Worker
  | .taking .waiting => some (.taking (.woken signalled))
  | _ => none

/-- The worker is in its critical section or about to be, as `p` has it. -/
def within (p : Monitor.Phase → Bool) (worker : Worker) : Bool := worker.phase.any p

def notifies : Worker → Bool
  | .took => true
  | _ => false

end Worker

namespace Producer
variable {Task : Type}

def phase : Producer Task → Option Monitor.Phase
  | .putting phase _ => some phase
  | _ => none

def wake (signalled : Bool) : Producer Task → Option (Producer Task)
  | .putting .waiting task => some (.putting (.woken signalled) task)
  | _ => none

def within (p : Monitor.Phase → Bool) (producer : Producer Task) : Bool := producer.phase.any p

def notifies : Producer Task → Bool
  | .put => true
  | _ => false

end Producer

end ThreadPool

structure ThreadPool (Task : Type) where
  maxQueueSize : Int
  running : Bool
  -- `lock_` is held
  lock : Bool
  queue : List Task
  -- what `Start` has still to start
  unstarted : Nat
  workers : List ThreadPool.Worker
  producers : List (ThreadPool.Producer Task)
  stop : ThreadPool.Stop
  accepted : List Task
  taken : List (Nat × Task)

namespace ThreadPool

open Execution Monitor

variable {Task : Type}

/-- A new pool behind `SetMaxQueueSize`, or with the -1 of the constructor. -/
def init (maxQueueSize : Int) : ThreadPool Task where
  maxQueueSize := maxQueueSize
  running := false
  lock := false
  queue := []
  unstarted := 0
  workers := []
  producers := []
  stop := .outside
  accepted := []
  taken := []

def isFull (s : ThreadPool Task) : Bool :=
  decide (0 < s.maxQueueSize) && decide (s.maxQueueSize.toNat ≤ s.queue.length)

def setWorker (s : ThreadPool Task) (i : Nat) (worker : Worker) : ThreadPool Task :=
  { s with workers := s.workers.set i worker }

def setProducer (s : ThreadPool Task) (i : Nat) (producer : Producer Task) : ThreadPool Task :=
  { s with producers := s.producers.set i producer }

def workerStep (i : Nat) (s : ThreadPool Task) : Worker → Option (ThreadPool Task)
  | .starting => some (s.setWorker i .testing)
  | .testing => some (s.setWorker i (if s.running then .taking .locking else .done))
  | .taking phase =>
      match phase.step s.lock s.running (!s.queue.isEmpty), s.queue with
      | some (.goes next), _ => some { s.setWorker i (.taking next) with lock := next.holds }
      | some .returns, _ => some { s.setWorker i .done with lock := false }
      | some .acts, task :: rest =>
          some { s.setWorker i .took with
            lock := false
            queue := rest
            taken := s.taken ++ [(i, task)] }
      | _, _ => none
  -- An exception of the task is caught here, or it ends the process.
  | .running => some (s.setWorker i .testing)
  | .took | .done => none

def producerStep (i : Nat) (s : ThreadPool Task) : Producer Task → Option (ThreadPool Task)
  | .putting phase task =>
      match phase.step s.lock s.running !s.isFull with
      | some (.goes next) => some { s.setProducer i (.putting next task) with lock := next.holds }
      | some .returns => some { s.setProducer i .done with lock := false }
      | some .acts =>
          some { s.setProducer i .put with
            lock := false
            queue := s.queue ++ [task]
            accepted := s.accepted ++ [task] }
      | none => none
  | .put | .done => none

inductive Action (Task : Type) where
  | start (threadNum : Nat)
  | startThread
  -- a call of `Run`, up to `lock_`; an empty `std::function` is `none`
  | run (task : Option Task)
  | worker (i : Nat)
  | producer (i : Nat)
  -- `Notify` of the worker or producer, and whom it releases
  | notifyNotFull (i : Nat) (target : Option Nat)
  | notifyNotEmpty (i : Nat) (target : Option Nat)
  -- a thread wakes without a signal
  | wakeWorker (i : Nat)
  | wakeProducer (i : Nat)
  | stop

/-- The next step of `Stop`. `Join` returns when the thread is done. -/
def stopStep (s : ThreadPool Task) : Option (ThreadPool Task) :=
  match s.stop with
  | .outside =>
      if s.unstarted = 0 then
        some (if s.running then { s with running := false, stop := .stored } else s)
      else none
  | .stored =>
      some { s with workers := notifyAll Worker.wake s.workers, stop := .notEmptyNotified }
  | .notEmptyNotified =>
      some { s with producers := notifyAll Producer.wake s.producers, stop := .joining }
  | .joining => if s.workers.all (· = .done) then some { s with stop := .returned } else none
  | .returned => none

/-- `Start` and `Stop` are for the owner of the pool: one after the other. -/
def step (s : ThreadPool Task) : Action Task → Option (ThreadPool Task)
  | .start threadNum =>
      if s.stop = .outside then
        some (if s.running then s else { s with running := true, unstarted := threadNum })
      else none
  | .startThread =>
      match s.unstarted with
      | 0 => none
      | rest + 1 => some { s with workers := s.workers ++ [.starting], unstarted := rest }
  | .run task =>
      match s.running, task with
      | true, some task => some { s with producers := s.producers ++ [.putting .locking task] }
      | _, _ => some s
  | .worker i => s.workers[i]?.bind (s.workerStep i)
  | .producer i => s.producers[i]?.bind (s.producerStep i)
  | .notifyNotFull i target =>
      if s.workers[i]? = some .took then
        (notify Producer.wake target s.producers).map fun producers =>
          { s.setWorker i .running with producers := producers }
      else none
  | .notifyNotEmpty i target =>
      match s.producers[i]? with
      | some .put =>
          (notify Worker.wake target s.workers).map fun workers =>
            { s.setProducer i .done with workers := workers }
      | _ => none
  | .wakeWorker i =>
      (wakeAt Worker.wake false i s.workers).map fun workers => { s with workers := workers }
  | .wakeProducer i =>
      (wakeAt Producer.wake false i s.producers).map fun producers =>
        { s with producers := producers }
  | .stop => s.stopStep

/-! Steps that a thread can take. -/

section Enabled
variable {s : ThreadPool Task} {i : Nat} {phase : Monitor.Phase} {task : Task} {signalled : Bool}

theorem worker_takes {rest : List Task} (found : s.workers[i]? = some (.taking phase))
    (inside : phase.inside = true) (queue : s.queue = task :: rest) :
    s.step (.worker i) = some { s.setWorker i .took with
      lock := false, queue := rest, taken := s.taken ++ [(i, task)] } := by
  have acts : phase.step s.lock s.running (!(task :: rest).isEmpty) = some .acts :=
    acts_of_inside inside
  simp only [step, found, Option.bind_some, workerStep, queue, acts]

theorem worker_waits (found : s.workers[i]? = some (.taking phase))
    (inside : phase.inside = true) (queue : s.queue = []) :
    s.step (.worker i) = some { s.setWorker i (.taking .waiting) with lock := false } := by
  have waits : phase.step s.lock s.running (!([] : List Task).isEmpty) = some (.goes .waiting) :=
    waits_of_inside inside
  simp only [step, found, Option.bind_some, workerStep, queue, waits, Monitor.Phase.holds]

theorem worker_locks (found : s.workers[i]? = some (.taking .locking)) (free : s.lock = false) :
    s.step (.worker i) = some { s.setWorker i (.taking .locked) with lock := true } := by
  simp [step, found, workerStep, Monitor.Phase.step, free, Monitor.Phase.holds]

theorem worker_relocks (found : s.workers[i]? = some (.taking (.woken signalled)))
    (free : s.lock = false) :
    s.step (.worker i) =
      some { s.setWorker i (.taking (.relocked signalled)) with lock := true } := by
  simp [step, found, workerStep, Monitor.Phase.step, free, Monitor.Phase.holds]

theorem worker_rechecks (found : s.workers[i]? = some (.taking (.relocked signalled)))
    (on : s.running = true) :
    s.step (.worker i) =
      some { s.setWorker i (.taking (.rechecked signalled)) with lock := true } := by
  simp [step, found, workerStep, Monitor.Phase.step, on, Monitor.Phase.holds]

theorem worker_returns (found : s.workers[i]? = some (.taking (.relocked signalled)))
    (off : s.running = false) :
    s.step (.worker i) = some { s.setWorker i .done with lock := false } := by
  simp [step, found, workerStep, Monitor.Phase.step, off]

theorem producer_puts (found : s.producers[i]? = some (.putting phase task))
    (inside : phase.inside = true) (space : s.isFull = false) :
    s.step (.producer i) = some { s.setProducer i .put with
      lock := false, queue := s.queue ++ [task], accepted := s.accepted ++ [task] } := by
  have acts : phase.step s.lock s.running (!s.isFull) = some .acts := by
    rw [space]
    exact acts_of_inside inside
  simp only [step, found, Option.bind_some, producerStep, acts]

theorem producer_waits (found : s.producers[i]? = some (.putting phase task))
    (inside : phase.inside = true) (full : s.isFull = true) :
    s.step (.producer i) =
      some { s.setProducer i (.putting .waiting task) with lock := false } := by
  have waits : phase.step s.lock s.running (!s.isFull) = some (.goes .waiting) := by
    rw [full]
    exact waits_of_inside inside
  simp only [step, found, Option.bind_some, producerStep, waits, Monitor.Phase.holds]

theorem producer_locks (found : s.producers[i]? = some (.putting .locking task))
    (free : s.lock = false) :
    s.step (.producer i) =
      some { s.setProducer i (.putting .locked task) with lock := true } := by
  simp [step, found, producerStep, Monitor.Phase.step, free, Monitor.Phase.holds]

theorem producer_relocks (found : s.producers[i]? = some (.putting (.woken signalled) task))
    (free : s.lock = false) :
    s.step (.producer i) =
      some { s.setProducer i (.putting (.relocked signalled) task) with lock := true } := by
  simp [step, found, producerStep, Monitor.Phase.step, free, Monitor.Phase.holds]

theorem producer_rechecks (found : s.producers[i]? = some (.putting (.relocked signalled) task))
    (on : s.running = true) :
    s.step (.producer i) =
      some { s.setProducer i (.putting (.rechecked signalled) task) with lock := true } := by
  simp [step, found, producerStep, Monitor.Phase.step, on, Monitor.Phase.holds]

theorem producer_returns (found : s.producers[i]? = some (.putting (.relocked signalled) task))
    (off : s.running = false) :
    s.step (.producer i) = some { s.setProducer i .done with lock := false } := by
  simp [step, found, producerStep, Monitor.Phase.step, off]

end Enabled

/-! What a step can do. -/

inductive Turns (running : Bool) : Worker → Worker → Prop
  | started : Turns running .starting .testing
  | enters (on : running = true) : Turns running .testing (.taking .locking)
  | leaves (off : running = false) : Turns running .testing .done
  | finished : Turns running .running .testing

inductive Notified {Pc : Type} (wake : Bool → Pc → Option Pc) (threads : List Pc) :
    List Pc → Prop
  | released (i : Nat) (pc woken : Pc) (found : threads[i]? = some pc)
      (wakes : wake true pc = some woken) : Notified wake threads (threads.set i woken)
  | lost (none : ∀ pc ∈ threads, wake true pc = none) : Notified wake threads threads

inductive Stepped (s : ThreadPool Task) : ThreadPool Task → Prop
  | same : Stepped s s
  | start (threadNum : Nat) (outside : s.stop = .outside) (off : s.running = false) :
      Stepped s { s with running := true, unstarted := threadNum }
  | startThread (rest : Nat) (more : s.unstarted = rest + 1) :
      Stepped s { s with workers := s.workers ++ [.starting], unstarted := rest }
  | run (task : Task) (on : s.running = true) :
      Stepped s { s with producers := s.producers ++ [.putting .locking task] }
  | turns (i : Nat) (before after : Worker) (found : s.workers[i]? = some before)
      (turns : Turns s.running before after) : Stepped s (s.setWorker i after)
  | workerGoes (i : Nat) (phase next : Monitor.Phase) (found : s.workers[i]? = some (.taking phase))
      (goes : Goes s.lock s.running (!s.queue.isEmpty) phase next) :
      Stepped s { s.setWorker i (.taking next) with lock := next.holds }
  | workerReturns (i : Nat) (signalled : Bool)
      (found : s.workers[i]? = some (.taking (.relocked signalled))) (off : s.running = false) :
      Stepped s { s.setWorker i .done with lock := false }
  | takes (i : Nat) (phase : Monitor.Phase) (task : Task) (rest : List Task)
      (found : s.workers[i]? = some (.taking phase)) (inside : phase.inside = true)
      (queue : s.queue = task :: rest) :
      Stepped s { s.setWorker i .took with
        lock := false
        queue := rest
        taken := s.taken ++ [(i, task)] }
  | producerGoes (i : Nat) (phase next : Monitor.Phase) (task : Task)
      (found : s.producers[i]? = some (.putting phase task))
      (goes : Goes s.lock s.running (!s.isFull) phase next) :
      Stepped s { s.setProducer i (.putting next task) with lock := next.holds }
  | producerReturns (i : Nat) (signalled : Bool) (task : Task)
      (found : s.producers[i]? = some (.putting (.relocked signalled) task))
      (off : s.running = false) : Stepped s { s.setProducer i .done with lock := false }
  | puts (i : Nat) (phase : Monitor.Phase) (task : Task)
      (found : s.producers[i]? = some (.putting phase task)) (inside : phase.inside = true)
      (room : s.isFull = false) :
      Stepped s { s.setProducer i .put with
        lock := false
        queue := s.queue ++ [task]
        accepted := s.accepted ++ [task] }
  | notifyNotFull (i : Nat) (producers : List (Producer Task))
      (found : s.workers[i]? = some .took)
      (notified : Notified Producer.wake s.producers producers) :
      Stepped s { s.setWorker i .running with producers := producers }
  | notifyNotEmpty (i : Nat) (workers : List Worker) (found : s.producers[i]? = some .put)
      (notified : Notified Worker.wake s.workers workers) :
      Stepped s { s.setProducer i .done with workers := workers }
  | wakeWorker (i : Nat) (found : s.workers[i]? = some (.taking .waiting)) :
      Stepped s (s.setWorker i (.taking (.woken false)))
  | wakeProducer (i : Nat) (task : Task)
      (found : s.producers[i]? = some (.putting .waiting task)) :
      Stepped s (s.setProducer i (.putting (.woken false) task))
  | stopStore (outside : s.stop = .outside) (none : s.unstarted = 0) (on : s.running = true) :
      Stepped s { s with running := false, stop := .stored }
  | stopNotEmpty (stored : s.stop = .stored) :
      Stepped s { s with workers := notifyAll Worker.wake s.workers, stop := .notEmptyNotified }
  | stopNotFull (notified : s.stop = .notEmptyNotified) :
      Stepped s { s with producers := notifyAll Producer.wake s.producers, stop := .joining }
  | stopReturns (joining : s.stop = .joining) : Stepped s { s with stop := .returned }

theorem Notified.of_notify {Pc : Type} {wake : Bool → Pc → Option Pc} {target : Option Nat}
    {threads after : List Pc} (notified : notify wake target threads = some after) :
    Notified wake threads after := by
  rcases notify_some notified with ⟨i, pc, woken, found, wakes, rfl⟩ | ⟨none, rfl⟩
  · exact .released i pc woken found wakes
  · exact .lost none

theorem Worker.wake_some {signalled : Bool} {worker woken : Worker}
    (wakes : worker.wake signalled = some woken) :
    worker = .taking .waiting ∧ woken = .taking (.woken signalled) := by
  unfold Worker.wake at wakes
  split at wakes
  · cases wakes
    exact ⟨rfl, rfl⟩
  · cases wakes

theorem Producer.wake_some {signalled : Bool} {producer woken : Producer Task}
    (wakes : producer.wake signalled = some woken) :
    ∃ task, producer = .putting .waiting task ∧ woken = .putting (.woken signalled) task := by
  unfold Producer.wake at wakes
  split at wakes
  · cases wakes
    exact ⟨_, rfl, rfl⟩
  · cases wakes

section Inversion
variable {s next : ThreadPool Task} {i : Nat}

theorem workerStep_stepped {worker : Worker} (found : s.workers[i]? = some worker)
    (stepped : s.workerStep i worker = some next) : Stepped s next := by
  cases worker with
  | starting =>
      cases stepped
      exact .turns i _ _ found .started
  | testing =>
      cases stepped
      cases on : s.running with
      | true => exact .turns i _ _ found (.enters on)
      | false => exact .turns i _ _ found (.leaves on)
  | taking phase =>
      simp only [workerStep] at stepped
      split at stepped
      · rename_i goes
        cases stepped
        exact .workerGoes i phase _ found (step_goes goes)
      · rename_i returns
        cases stepped
        obtain ⟨⟨signalled, rfl⟩, off⟩ := step_returns returns
        exact .workerReturns i signalled found off
      · rename_i task rest acts queue
        cases stepped
        exact .takes i phase task rest found (step_acts acts).1 queue
      · cases stepped
  | running =>
      cases stepped
      exact .turns i _ _ found .finished
  | took => cases stepped
  | done => cases stepped

theorem producerStep_stepped {producer : Producer Task}
    (found : s.producers[i]? = some producer)
    (stepped : s.producerStep i producer = some next) : Stepped s next := by
  cases producer with
  | putting phase task =>
      simp only [producerStep] at stepped
      split at stepped
      · rename_i goes
        cases stepped
        exact .producerGoes i phase _ task found (step_goes goes)
      · rename_i returns
        cases stepped
        obtain ⟨⟨signalled, rfl⟩, off⟩ := step_returns returns
        exact .producerReturns i signalled task found off
      · rename_i acts
        cases stepped
        obtain ⟨inside, room⟩ := step_acts acts
        exact .puts i phase task found inside (by simpa using room)
      · cases stepped
  | put => cases stepped
  | done => cases stepped

theorem stopStep_stepped (stepped : s.stopStep = some next) : Stepped s next := by
  unfold stopStep at stepped
  split at stepped
  · rename_i outside
    obtain ⟨none, made⟩ := Option.ite_none_right_eq_some.mp stepped
    cases made
    cases on : s.running with
    | true => exact .stopStore outside none on
    | false => exact .same
  · rename_i stored
    cases stepped
    exact .stopNotEmpty stored
  · rename_i notified
    cases stepped
    exact .stopNotFull notified
  · rename_i joining
    obtain ⟨-, made⟩ := Option.ite_none_right_eq_some.mp stepped
    cases made
    exact .stopReturns joining
  · cases stepped

theorem step_stepped {action : Action Task} (stepped : s.step action = some next) :
    Stepped s next := by
  cases action with
  | start threadNum =>
      obtain ⟨outside, made⟩ := Option.ite_none_right_eq_some.mp stepped
      cases made
      cases on : s.running with
      | true => exact .same
      | false => exact .start threadNum outside on
  | startThread =>
      simp only [step] at stepped
      split at stepped
      · cases stepped
      · rename_i more
        cases stepped
        exact .startThread _ more
  | run task =>
      simp only [step] at stepped
      split at stepped
      · rename_i on
        cases stepped
        exact .run _ on
      · cases stepped
        exact .same
  | worker i =>
      obtain ⟨worker, found, moved⟩ := Option.bind_eq_some_iff.mp stepped
      exact workerStep_stepped found moved
  | producer i =>
      obtain ⟨producer, found, moved⟩ := Option.bind_eq_some_iff.mp stepped
      exact producerStep_stepped found moved
  | notifyNotFull i target =>
      obtain ⟨found, made⟩ := Option.ite_none_right_eq_some.mp stepped
      obtain ⟨producers, notified, rfl⟩ := Option.map_eq_some_iff.mp made
      exact .notifyNotFull i producers found (.of_notify notified)
  | notifyNotEmpty i target =>
      simp only [step] at stepped
      split at stepped
      · rename_i found
        obtain ⟨workers, notified, rfl⟩ := Option.map_eq_some_iff.mp stepped
        exact .notifyNotEmpty i workers found (.of_notify notified)
      · cases stepped
  | wakeWorker i =>
      obtain ⟨workers, woke, rfl⟩ := Option.map_eq_some_iff.mp stepped
      obtain ⟨worker, woken, found, wakes, rfl⟩ := wakeAt_some.mp woke
      obtain ⟨rfl, rfl⟩ := Worker.wake_some wakes
      exact .wakeWorker i found
  | wakeProducer i =>
      obtain ⟨producers, woke, rfl⟩ := Option.map_eq_some_iff.mp stepped
      obtain ⟨producer, woken, found, wakes, rfl⟩ := wakeAt_some.mp woke
      obtain ⟨task, rfl, rfl⟩ := Producer.wake_some wakes
      exact .wakeProducer i task found
  | stop => exact stopStep_stepped stepped

end Inversion

/-! How many threads are where. -/

def workersIn (p : Monitor.Phase → Bool) (s : ThreadPool Task) : Nat :=
  s.workers.countP (Worker.within p)

def producersIn (p : Monitor.Phase → Bool) (s : ThreadPool Task) : Nat :=
  s.producers.countP (Producer.within p)

def notFullDue (s : ThreadPool Task) : Nat := s.workers.countP Worker.notifies

def notEmptyDue (s : ThreadPool Task) : Nat := s.producers.countP Producer.notifies

/-- How many tasks the queue takes before it is full. -/
def room (s : ThreadPool Task) : Nat := s.maxQueueSize.toNat - s.queue.length

structure Inv (s : ThreadPool Task) : Prop where
  fresh : s.running = false → s.stop = .outside →
    s.workers = [] ∧ s.producers = [] ∧ s.unstarted = 0
  halted : s.stop ≠ .outside → s.running = false
  bounded : 0 < s.maxQueueSize → s.queue.length ≤ s.maxQueueSize.toNat
  fifo : s.accepted = s.taken.map Prod.snd ++ s.queue
  lock : s.workersIn Monitor.Phase.holds + s.producersIn Monitor.Phase.holds = s.lock.toNat
  notEmpty : s.running = true → 0 < s.workersIn Monitor.Phase.isWaiting →
    s.queue.length ≤ s.notEmptyDue + s.workersIn Monitor.Phase.signalled
  notFull : s.running = true → 0 < s.producersIn Monitor.Phase.isWaiting →
    0 < s.maxQueueSize ∧ s.room ≤ s.notFullDue + s.producersIn Monitor.Phase.signalled
  alive : s.running = true → Worker.done ∉ s.workers

theorem isFull_eq_false {s : ThreadPool Task} :
    s.isFull = false ↔ (0 < s.maxQueueSize → s.queue.length < s.maxQueueSize.toNat) := by
  simp only [isFull, Bool.and_eq_false_iff, decide_eq_false_iff_not]
  omega

theorem isFull_eq_true {s : ThreadPool Task} :
    s.isFull = true ↔ 0 < s.maxQueueSize ∧ s.maxQueueSize.toNat ≤ s.queue.length := by
  simp [isFull]

section Invariant
variable {s next : ThreadPool Task}

theorem setWorker_workersIn {i : Nat} {before : Worker} (found : s.workers[i]? = some before)
    (p : Monitor.Phase → Bool) (after : Worker) :
    (s.workers.set i after).countP (Worker.within p) + (before.within p).toNat =
      s.workersIn p + (after.within p).toNat :=
  countP_set_add found (Worker.within p) after

theorem setProducer_producersIn {i : Nat} {before : Producer Task}
    (found : s.producers[i]? = some before) (p : Monitor.Phase → Bool) (after : Producer Task) :
    (s.producers.set i after).countP (Producer.within p) + (before.within p).toNat =
      s.producersIn p + (after.within p).toNat :=
  countP_set_add found (Producer.within p) after

theorem Inv.started_of_worker (inv : Inv s) {i : Nat} {worker : Worker}
    (found : s.workers[i]? = some worker) (off : s.running = false) : s.stop ≠ .outside := by
  intro outside
  rw [(inv.fresh off outside).1] at found
  cases found

theorem Inv.started_of_producer (inv : Inv s) {i : Nat} {producer : Producer Task}
    (found : s.producers[i]? = some producer) (off : s.running = false) : s.stop ≠ .outside := by
  intro outside
  rw [(inv.fresh off outside).2.1] at found
  cases found

theorem Inv.step_fresh (inv : Inv s) (stepped : Stepped s next) :
    next.running = false → next.stop = .outside →
      next.workers = [] ∧ next.producers = [] ∧ next.unstarted = 0 := by
  intro off outside
  cases stepped with
  | same => exact inv.fresh off outside
  | start threadNum _ _ => cases off
  | startThread rest more =>
      have none := (inv.fresh off outside).2.2
      omega
  | run task on =>
      rw [on] at off
      cases off
  | turns i before after found _ => exact absurd outside (inv.started_of_worker found off)
  | workerGoes i phase after found _ => exact absurd outside (inv.started_of_worker found off)
  | workerReturns i signalled found _ => exact absurd outside (inv.started_of_worker found off)
  | takes i phase task rest found _ _ => exact absurd outside (inv.started_of_worker found off)
  | producerGoes i phase after task found _ =>
      exact absurd outside (inv.started_of_producer found off)
  | producerReturns i signalled task found _ =>
      exact absurd outside (inv.started_of_producer found off)
  | puts i phase task found _ _ => exact absurd outside (inv.started_of_producer found off)
  | notifyNotFull i producers found _ => exact absurd outside (inv.started_of_worker found off)
  | notifyNotEmpty i workers found _ => exact absurd outside (inv.started_of_producer found off)
  | wakeWorker i found => exact absurd outside (inv.started_of_worker found off)
  | wakeProducer i task found => exact absurd outside (inv.started_of_producer found off)
  | stopStore _ _ _ => cases outside
  | stopNotEmpty _ => cases outside
  | stopNotFull _ => cases outside
  | stopReturns _ => cases outside

theorem Inv.step_bounded (inv : Inv s) (stepped : Stepped s next) :
    0 < next.maxQueueSize → next.queue.length ≤ next.maxQueueSize.toNat := by
  cases stepped with
  | takes i phase task rest found inside queue =>
      intro limited
      have bounded := inv.bounded limited
      rw [queue, List.length_cons] at bounded
      exact Nat.le_of_succ_le bounded
  | puts i phase task found inside room =>
      intro limited
      have free := isFull_eq_false.mp room limited
      rw [List.length_append]
      exact free
  | _ => exact inv.bounded

theorem Inv.step_fifo (inv : Inv s) (stepped : Stepped s next) :
    next.accepted = next.taken.map Prod.snd ++ next.queue := by
  cases stepped with
  | takes i phase task rest found inside queue =>
      have fifo := inv.fifo
      rw [queue] at fifo
      simpa [setWorker] using fifo
  | puts i phase task found inside room =>
      have fifo := inv.fifo
      change s.accepted ++ [task] = s.taken.map Prod.snd ++ (s.queue ++ [task])
      rw [fifo, List.append_assoc]
  | _ => exact inv.fifo

theorem Notified.workers_holds {workers : List Worker}
    (notified : Notified Worker.wake s.workers workers) :
    workers.countP (Worker.within Monitor.Phase.holds) = s.workersIn Monitor.Phase.holds := by
  cases notified with
  | released i pc woken found wakes =>
      obtain ⟨rfl, rfl⟩ := Worker.wake_some wakes
      exact setWorker_workersIn found Monitor.Phase.holds _
  | lost none => rfl

theorem Notified.producers_holds {producers : List (Producer Task)}
    (notified : Notified Producer.wake s.producers producers) :
    producers.countP (Producer.within Monitor.Phase.holds) = s.producersIn Monitor.Phase.holds := by
  cases notified with
  | released i pc woken found wakes =>
      obtain ⟨task, rfl, rfl⟩ := Producer.wake_some wakes
      exact setProducer_producersIn found Monitor.Phase.holds _
  | lost none => rfl

theorem Worker.wake_within {p : Monitor.Phase → Bool} (same : p (.woken true) = p .waiting)
    (worker : Worker) : ((worker.wake true).getD worker).within p = worker.within p := by
  unfold Worker.wake
  split
  · exact same
  · rfl

theorem Producer.wake_within {p : Monitor.Phase → Bool} (same : p (.woken true) = p .waiting)
    (producer : Producer Task) :
    ((producer.wake true).getD producer).within p = producer.within p := by
  unfold Producer.wake
  split
  · exact same
  · rfl

/-! The mutex. -/

theorem Inv.lock_of_worker (inv : Inv s) {i : Nat} {phase : Monitor.Phase}
    (found : s.workers[i]? = some (.taking phase)) (holds : phase.holds = true) :
    s.lock = true := by
  have held : 0 < s.workersIn Monitor.Phase.holds := countP_pos_of_getElem? found holds
  have lock := inv.lock
  exact Bool.toNat_eq_one.mp (by have := Bool.toNat_le s.lock; omega)

theorem Inv.lock_of_producer (inv : Inv s) {i : Nat} {phase : Monitor.Phase} {task : Task}
    (found : s.producers[i]? = some (.putting phase task)) (holds : phase.holds = true) :
    s.lock = true := by
  have held : 0 < s.producersIn Monitor.Phase.holds := countP_pos_of_getElem? found holds
  have lock := inv.lock
  exact Bool.toNat_eq_one.mp (by have := Bool.toNat_le s.lock; omega)

theorem Inv.free_worker (inv : Inv s) (free : s.lock = false) {i : Nat} {phase : Monitor.Phase}
    (found : s.workers[i]? = some (.taking phase)) : phase.holds = false := by
  cases holds : phase.holds with
  | false => rfl
  | true =>
      rw [inv.lock_of_worker found holds] at free
      cases free

theorem Inv.free_producer (inv : Inv s) (free : s.lock = false) {i : Nat} {phase : Monitor.Phase}
    {task : Task} (found : s.producers[i]? = some (.putting phase task)) :
    phase.holds = false := by
  cases holds : phase.holds with
  | false => rfl
  | true =>
      rw [inv.lock_of_producer found holds] at free
      cases free

theorem Inv.holder (inv : Inv s) (held : s.lock = true) :
    (∃ (i : Nat) (phase : Monitor.Phase),
        s.workers[i]? = some (.taking phase) ∧ phase.holds = true) ∨
      ∃ (i : Nat) (phase : Monitor.Phase) (task : Task),
        s.producers[i]? = some (.putting phase task) ∧ phase.holds = true := by
  have lock := inv.lock
  rw [held, Bool.toNat_true] at lock
  have one : 0 < s.workersIn Monitor.Phase.holds ∨ 0 < s.producersIn Monitor.Phase.holds := by omega
  rcases one with worker | producer
  · obtain ⟨i, worker, found, holds⟩ := exists_of_countP_pos worker
    cases worker with
    | taking phase => exact .inl ⟨i, phase, found, holds⟩
    | _ => cases holds
  · obtain ⟨i, producer, found, holds⟩ := exists_of_countP_pos producer
    cases producer with
    | putting phase task => exact .inr ⟨i, phase, task, found, holds⟩
    | _ => cases holds

theorem Inv.lock_setWorker (inv : Inv s) {i : Nat} {before : Worker}
    (found : s.workers[i]? = some before) (after : Worker) (lock : Bool)
    (follows : lock.toNat + (before.within Monitor.Phase.holds).toNat =
      s.lock.toNat + (after.within Monitor.Phase.holds).toNat) :
    (s.workers.set i after).countP (Worker.within Monitor.Phase.holds) +
        s.producersIn Monitor.Phase.holds =
      lock.toNat := by
  have counts := setWorker_workersIn found Monitor.Phase.holds after
  have before := inv.lock
  omega

theorem Inv.lock_setProducer (inv : Inv s) {i : Nat} {before : Producer Task}
    (found : s.producers[i]? = some before) (after : Producer Task) (lock : Bool)
    (follows : lock.toNat + (before.within Monitor.Phase.holds).toNat =
      s.lock.toNat + (after.within Monitor.Phase.holds).toNat) :
    s.workersIn Monitor.Phase.holds +
        (s.producers.set i after).countP (Producer.within Monitor.Phase.holds) =
      lock.toNat := by
  have counts := setProducer_producersIn found Monitor.Phase.holds after
  have before := inv.lock
  omega

theorem Inv.step_lock (inv : Inv s) (stepped : Stepped s next) :
    next.workersIn Monitor.Phase.holds + next.producersIn Monitor.Phase.holds =
      next.lock.toNat := by
  cases stepped with
  | startThread rest more =>
      rw [← inv.lock]
      simp [workersIn, producersIn, Worker.within, Worker.phase]
  | run task on =>
      rw [← inv.lock]
      simp [workersIn, producersIn, Producer.within, Producer.phase, Monitor.Phase.holds]
  | turns i before after found turns => cases turns <;> exact inv.lock_setWorker found _ _ rfl
  | workerGoes i phase after found goes =>
      have own := goes.lock_eq (inv.lock_of_worker found)
      exact inv.lock_setWorker found _ _ (by rw [own]; exact Nat.add_comm _ _)
  | workerReturns i signalled found off =>
      have own := inv.lock_of_worker found rfl
      exact inv.lock_setWorker found _ _ (by rw [own]; rfl)
  | takes i phase task rest found inside queue =>
      have holds := inside_holds inside
      have own := inv.lock_of_worker found holds
      refine inv.lock_setWorker found _ _ ?_
      simp [own, Worker.within, Worker.phase, holds]
  | producerGoes i phase after task found goes =>
      have own := goes.lock_eq (inv.lock_of_producer found)
      exact inv.lock_setProducer found _ _ (by rw [own]; exact Nat.add_comm _ _)
  | producerReturns i signalled task found off =>
      have own := inv.lock_of_producer found rfl
      exact inv.lock_setProducer found _ _ (by rw [own]; rfl)
  | puts i phase task found inside room =>
      have holds := inside_holds inside
      have own := inv.lock_of_producer found holds
      refine inv.lock_setProducer found _ _ ?_
      simp [own, Producer.within, Producer.phase, holds]
  | notifyNotFull i producers found notified =>
      have same := inv.lock_setWorker found .running s.lock rfl
      rw [← notified.producers_holds] at same
      exact same
  | notifyNotEmpty i workers found notified =>
      have same := inv.lock_setProducer found .done s.lock rfl
      rw [← notified.workers_holds] at same
      exact same
  | wakeWorker i found => exact inv.lock_setWorker found _ _ rfl
  | wakeProducer i task found => exact inv.lock_setProducer found _ _ rfl
  | stopNotEmpty stored =>
      rw [← inv.lock]
      exact congrArg (· + _) (notifyAll_countP_same s.workers (Worker.wake_within rfl))
  | stopNotFull notified =>
      rw [← inv.lock]
      exact congrArg (_ + ·) (notifyAll_countP_same s.producers (Producer.wake_within rfl))
  | _ => exact inv.lock

/-! Signals. -/

theorem Inv.step_halted (inv : Inv s) (stepped : Stepped s next) :
    next.stop ≠ .outside → next.running = false := by
  cases stepped with
  | start threadNum outside off => exact fun stopped => absurd outside stopped
  | stopStore outside none on => exact fun _ => rfl
  | stopNotEmpty stored => exact fun _ => inv.halted (by simp [stored])
  | stopNotFull notified => exact fun _ => inv.halted (by simp [notified])
  | stopReturns joining => exact fun _ => inv.halted (by simp [joining])
  | _ => exact inv.halted

theorem startThread_workersIn (s : ThreadPool Task) (rest : Nat) (p : Monitor.Phase → Bool) :
    workersIn p { s with workers := s.workers ++ [.starting], unstarted := rest } =
      s.workersIn p := by
  simp [workersIn, Worker.within, Worker.phase]

theorem startThread_notFullDue (s : ThreadPool Task) (rest : Nat) :
    notFullDue { s with workers := s.workers ++ [.starting], unstarted := rest } =
      s.notFullDue := by
  simp [notFullDue, Worker.notifies]

theorem run_producersIn (s : ThreadPool Task) (task : Task) (p : Monitor.Phase → Bool) :
    producersIn p { s with producers := s.producers ++ [.putting .locking task] } =
      s.producersIn p + (p .locking).toNat := by
  cases starts : p .locking <;> simp [producersIn, Producer.within, Producer.phase, starts]

theorem run_notEmptyDue (s : ThreadPool Task) (task : Task) :
    notEmptyDue { s with producers := s.producers ++ [.putting .locking task] } =
      s.notEmptyDue := by
  simp [notEmptyDue, Producer.notifies]

theorem Notified.workers_served {workers : List Worker}
    (notified : Notified Worker.wake s.workers workers)
    (waiting : 0 < workers.countP (Worker.within Monitor.Phase.isWaiting)) :
    0 < s.workersIn Monitor.Phase.isWaiting ∧
      workers.countP (Worker.within Monitor.Phase.signalled) =
        s.workersIn Monitor.Phase.signalled + 1 := by
  cases notified with
  | released i pc woken found wakes =>
      obtain ⟨rfl, rfl⟩ := Worker.wake_some wakes
      exact ⟨countP_pos_of_getElem? found rfl, setWorker_workersIn found Monitor.Phase.signalled _⟩
  | lost none =>
      obtain ⟨worker, member, waits⟩ := List.countP_pos_iff.mp waiting
      have stays := none worker member
      cases worker with
      | taking phase =>
          cases phase with
          | waiting => cases stays
          | _ => cases waits
      | _ => cases waits

theorem Notified.workers_notify {workers : List Worker}
    (notified : Notified Worker.wake s.workers workers) :
    workers.countP Worker.notifies = s.notFullDue := by
  cases notified with
  | released i pc woken found wakes =>
      obtain ⟨rfl, rfl⟩ := Worker.wake_some wakes
      exact countP_set_add found Worker.notifies _
  | lost none => rfl

theorem Notified.producers_served {producers : List (Producer Task)}
    (notified : Notified Producer.wake s.producers producers)
    (waiting : 0 < producers.countP (Producer.within Monitor.Phase.isWaiting)) :
    0 < s.producersIn Monitor.Phase.isWaiting ∧
      producers.countP (Producer.within Monitor.Phase.signalled) =
        s.producersIn Monitor.Phase.signalled + 1 := by
  cases notified with
  | released i pc woken found wakes =>
      obtain ⟨task, rfl, rfl⟩ := Producer.wake_some wakes
      exact ⟨countP_pos_of_getElem? found rfl,
        setProducer_producersIn found Monitor.Phase.signalled _⟩
  | lost none =>
      obtain ⟨producer, member, waits⟩ := List.countP_pos_iff.mp waiting
      have stays := none producer member
      cases producer with
      | putting phase task =>
          cases phase with
          | waiting => cases stays
          | _ => cases waits
      | _ => cases waits

theorem Notified.producers_notify {producers : List (Producer Task)}
    (notified : Notified Producer.wake s.producers producers) :
    producers.countP Producer.notifies = s.notEmptyDue := by
  cases notified with
  | released i pc woken found wakes =>
      obtain ⟨task, rfl, rfl⟩ := Producer.wake_some wakes
      exact countP_set_add found Producer.notifies _
  | lost none => rfl

theorem Inv.outside_of_running (inv : Inv s) (on : s.running = true) : s.stop = .outside := by
  apply Classical.byContradiction
  intro past
  cases (inv.halted past).symm.trans on

theorem Inv.workers_balanced (inv : Inv s) {i : Nat} {before : Worker}
    (found : s.workers[i]? = some before) (after : Worker)
    (waits : after.within Monitor.Phase.isWaiting = before.within Monitor.Phase.isWaiting)
    (signalled : after.within Monitor.Phase.signalled = before.within Monitor.Phase.signalled)
    (on : s.running = true)
    (waiting : 0 < (s.workers.set i after).countP (Worker.within Monitor.Phase.isWaiting)) :
    s.queue.length ≤
      s.notEmptyDue + (s.workers.set i after).countP (Worker.within Monitor.Phase.signalled) := by
  have waitingCount := setWorker_workersIn found Monitor.Phase.isWaiting after
  have signalledCount := setWorker_workersIn found Monitor.Phase.signalled after
  rw [waits] at waitingCount
  rw [signalled] at signalledCount
  have balanced := inv.notEmpty on
  omega

theorem Inv.producers_balanced (inv : Inv s) {i : Nat} {before : Producer Task}
    (found : s.producers[i]? = some before) (after : Producer Task)
    (waits : after.within Monitor.Phase.isWaiting = before.within Monitor.Phase.isWaiting)
    (signalled : after.within Monitor.Phase.signalled = before.within Monitor.Phase.signalled)
    (on : s.running = true)
    (waiting : 0 < (s.producers.set i after).countP (Producer.within Monitor.Phase.isWaiting)) :
    0 < s.maxQueueSize ∧ s.room ≤
      s.notFullDue +
        (s.producers.set i after).countP (Producer.within Monitor.Phase.signalled) := by
  have waitingCount := setProducer_producersIn found Monitor.Phase.isWaiting after
  have signalledCount := setProducer_producersIn found Monitor.Phase.signalled after
  rw [waits] at waitingCount
  rw [signalled] at signalledCount
  obtain ⟨limited, balanced⟩ := inv.notFull on (by omega)
  exact ⟨limited, by omega⟩

theorem Inv.notFull_setWorker (inv : Inv s) {i : Nat} {before : Worker}
    (found : s.workers[i]? = some before) (after : Worker)
    (same : after.notifies = before.notifies) (on : s.running = true)
    (waiting : 0 < s.producersIn Monitor.Phase.isWaiting) :
    0 < s.maxQueueSize ∧ s.room ≤
      (s.workers.set i after).countP Worker.notifies +
        s.producersIn Monitor.Phase.signalled := by
  have due := countP_set_add found Worker.notifies after
  rw [same] at due
  have balanced := inv.notFull on waiting
  rwa [notFullDue, ← Nat.add_right_cancel due] at balanced

theorem Inv.notEmpty_setProducer (inv : Inv s) {i : Nat} {before : Producer Task}
    (found : s.producers[i]? = some before) (after : Producer Task)
    (same : after.notifies = before.notifies) (on : s.running = true)
    (waiting : 0 < s.workersIn Monitor.Phase.isWaiting) :
    s.queue.length ≤
      (s.producers.set i after).countP Producer.notifies +
        s.workersIn Monitor.Phase.signalled := by
  have due := countP_set_add found Producer.notifies after
  rw [same] at due
  have balanced := inv.notEmpty on waiting
  rwa [notEmptyDue, ← Nat.add_right_cancel due] at balanced

theorem Inv.takes_balanced (inv : Inv s) {i : Nat} {phase : Monitor.Phase} {task : Task}
    {rest : List Task} (found : s.workers[i]? = some (.taking phase))
    (queue : s.queue = task :: rest) (on : s.running = true)
    (waiting : 0 < (s.workers.set i .took).countP (Worker.within Monitor.Phase.isWaiting)) :
    rest.length ≤
      s.notEmptyDue + (s.workers.set i .took).countP (Worker.within Monitor.Phase.signalled) := by
  have waitingCount := setWorker_workersIn found Monitor.Phase.isWaiting .took
  have signalledCount := setWorker_workersIn found Monitor.Phase.signalled .took
  have taken := Bool.toNat_le ((Worker.taking phase).within Monitor.Phase.signalled)
  have free : (Worker.took.within Monitor.Phase.isWaiting).toNat = 0 := rfl
  have balanced := inv.notEmpty on (by omega)
  rw [queue, List.length_cons] at balanced
  omega

theorem Inv.puts_balanced (inv : Inv s) {i : Nat} {phase : Monitor.Phase} {task : Task}
    (found : s.producers[i]? = some (.putting phase task)) (space : s.isFull = false)
    (on : s.running = true)
    (waiting : 0 < (s.producers.set i .put).countP (Producer.within Monitor.Phase.isWaiting)) :
    0 < s.maxQueueSize ∧ s.maxQueueSize.toNat - (s.queue ++ [task]).length ≤
      s.notFullDue +
        (s.producers.set i .put).countP (Producer.within Monitor.Phase.signalled) := by
  have waitingCount := setProducer_producersIn found Monitor.Phase.isWaiting .put
  have signalledCount := setProducer_producersIn found Monitor.Phase.signalled .put
  have taken := Bool.toNat_le ((Producer.putting phase task).within Monitor.Phase.signalled)
  have free : ((Producer.put : Producer Task).within Monitor.Phase.isWaiting).toNat = 0 := rfl
  obtain ⟨limited, balanced⟩ := inv.notFull on (by omega)
  have below := isFull_eq_false.mp space limited
  refine ⟨limited, ?_⟩
  rw [room] at balanced
  rw [List.length_append, List.length_singleton]
  omega

theorem Inv.step_notEmpty (inv : Inv s) (stepped : Stepped s next) :
    next.running = true → 0 < next.workersIn Monitor.Phase.isWaiting →
      next.queue.length ≤ next.notEmptyDue + next.workersIn Monitor.Phase.signalled := by
  intro on waiting
  cases stepped with
  | same => exact inv.notEmpty on waiting
  | start threadNum outside off =>
      have none := (inv.fresh off outside).1
      simp [workersIn, none] at waiting
  | startThread rest more =>
      rw [startThread_workersIn] at waiting ⊢
      exact inv.notEmpty on waiting
  | run task _ =>
      have balanced := inv.notEmpty on waiting
      rw [← run_notEmptyDue s task] at balanced
      exact balanced
  | turns i before after found turns =>
      cases turns <;> exact inv.workers_balanced found _ rfl rfl on waiting
  | workerGoes i phase after found goes =>
      rcases goes.served with unready | ⟨waits, signalled⟩
      · have empty : s.queue = [] := by simpa using unready
        change s.queue.length ≤ _
        simp [empty]
      · exact inv.workers_balanced found _ waits signalled on waiting
  | workerReturns i signalled found off => cases off.symm.trans on
  | takes i phase task rest found inside queue =>
      exact inv.takes_balanced found queue on waiting
  | producerGoes i phase after task found goes =>
      exact inv.notEmpty_setProducer found _ rfl on waiting
  | producerReturns i signalled task found off => cases off.symm.trans on
  | puts i phase task found inside room =>
      have due : (s.producers.set i .put).countP Producer.notifies = s.notEmptyDue + 1 :=
        countP_set_add found Producer.notifies .put
      have balanced := inv.notEmpty on waiting
      change (s.queue ++ [task]).length ≤
        (s.producers.set i .put).countP Producer.notifies + s.workersIn Monitor.Phase.signalled
      rw [due, List.length_append, List.length_singleton]
      omega
  | notifyNotFull i producers found notified =>
      have balanced := inv.workers_balanced found .running rfl rfl on waiting
      rwa [← notified.producers_notify] at balanced
  | notifyNotEmpty i workers found notified =>
      have due : (s.producers.set i .done).countP Producer.notifies + 1 = s.notEmptyDue :=
        countP_set_add found Producer.notifies .done
      obtain ⟨still, signalled⟩ := notified.workers_served waiting
      have balanced := inv.notEmpty on still
      change s.queue.length ≤ (s.producers.set i .done).countP Producer.notifies +
        workers.countP (Worker.within Monitor.Phase.signalled)
      omega
  | wakeWorker i found =>
      have signalled : (s.workers.set i (.taking (.woken false))).countP _ = s.workersIn _ :=
        setWorker_workersIn found Monitor.Phase.signalled _
      have still : 0 < s.workersIn Monitor.Phase.isWaiting := countP_pos_of_getElem? found rfl
      have balanced := inv.notEmpty on still
      rwa [← signalled] at balanced
  | wakeProducer i task found =>
      exact inv.notEmpty_setProducer found _ rfl on waiting
  | stopStore _ _ _ => cases on
  | stopNotEmpty stored => cases stored.symm.trans (inv.outside_of_running on)
  | stopNotFull notified => cases notified.symm.trans (inv.outside_of_running on)
  | stopReturns joining => exact inv.notEmpty on waiting

theorem Inv.step_notFull (inv : Inv s) (stepped : Stepped s next) :
    next.running = true → 0 < next.producersIn Monitor.Phase.isWaiting →
      0 < next.maxQueueSize ∧
        next.room ≤ next.notFullDue + next.producersIn Monitor.Phase.signalled := by
  intro on waiting
  cases stepped with
  | same => exact inv.notFull on waiting
  | start threadNum outside off =>
      have none := (inv.fresh off outside).2.1
      simp [producersIn, none] at waiting
  | startThread rest more =>
      have balanced := inv.notFull on waiting
      rw [← startThread_notFullDue s rest] at balanced
      exact balanced
  | run task _ =>
      rw [run_producersIn] at waiting ⊢
      exact inv.notFull on waiting
  | turns i before after found turns =>
      cases turns <;> exact inv.notFull_setWorker found _ rfl on waiting
  | workerGoes i phase after found goes =>
      exact inv.notFull_setWorker found _ rfl on waiting
  | workerReturns i signalled found off => cases off.symm.trans on
  | takes i phase task rest found inside queue =>
      have due : (s.workers.set i .took).countP Worker.notifies = s.notFullDue + 1 :=
        countP_set_add found Worker.notifies .took
      obtain ⟨limited, balanced⟩ := inv.notFull on waiting
      refine ⟨limited, ?_⟩
      change s.maxQueueSize.toNat - rest.length ≤
        (s.workers.set i .took).countP Worker.notifies + s.producersIn Monitor.Phase.signalled
      rw [room, queue, List.length_cons] at balanced
      omega
  | producerGoes i phase after task found goes =>
      rcases goes.served with unready | ⟨waits, signalled⟩
      · obtain ⟨limited, full⟩ := isFull_eq_true.mp (by simpa using unready)
        refine ⟨limited, ?_⟩
        change s.room ≤ _
        simp [room, Nat.sub_eq_zero_of_le full]
      · exact inv.producers_balanced found _ waits signalled on waiting
  | producerReturns i signalled task found off => cases off.symm.trans on
  | puts i phase task found inside space =>
      exact inv.puts_balanced found space on waiting
  | notifyNotFull i producers found notified =>
      have due : (s.workers.set i .running).countP Worker.notifies + 1 = s.notFullDue :=
        countP_set_add found Worker.notifies .running
      obtain ⟨still, signalled⟩ := notified.producers_served waiting
      obtain ⟨limited, balanced⟩ := inv.notFull on still
      refine ⟨limited, ?_⟩
      change s.room ≤ (s.workers.set i .running).countP Worker.notifies +
        producers.countP (Producer.within Monitor.Phase.signalled)
      omega
  | notifyNotEmpty i workers found notified =>
      have balanced := inv.producers_balanced found .done rfl rfl on waiting
      rwa [← notified.workers_notify] at balanced
  | wakeWorker i found =>
      exact inv.notFull_setWorker found _ rfl on waiting
  | wakeProducer i task found =>
      have signalled :
          (s.producers.set i (.putting (.woken false) task)).countP _ = s.producersIn _ :=
        setProducer_producersIn found Monitor.Phase.signalled _
      have still : 0 < s.producersIn Monitor.Phase.isWaiting := countP_pos_of_getElem? found rfl
      have balanced := inv.notFull on still
      rwa [← signalled] at balanced
  | stopStore _ _ _ => cases on
  | stopNotEmpty stored => cases stored.symm.trans (inv.outside_of_running on)
  | stopNotFull notified => cases notified.symm.trans (inv.outside_of_running on)
  | stopReturns joining => exact inv.notFull on waiting

theorem Inv.alive_set (inv : Inv s) {i : Nat} {after : Worker} (on : s.running = true)
    (stays : after ≠ .done) : Worker.done ∉ s.workers.set i after := by
  intro member
  rcases List.mem_or_eq_of_mem_set member with before | same
  · exact inv.alive on before
  · exact stays same.symm

theorem Inv.step_alive (inv : Inv s) (stepped : Stepped s next) :
    next.running = true → Worker.done ∉ next.workers := by
  intro on
  cases stepped with
  | start threadNum outside off =>
      rw [show s.workers = [] from (inv.fresh off outside).1]
      exact List.not_mem_nil
  | startThread rest more =>
      have alive := inv.alive on
      simpa using alive
  | turns i before after found turns =>
      cases turns with
      | started => exact inv.alive_set on (by decide)
      | enters _ => exact inv.alive_set on (by decide)
      | leaves off => cases off.symm.trans on
      | finished => exact inv.alive_set on (by decide)
  | workerGoes i phase after found goes => exact inv.alive_set on (by simp)
  | workerReturns i signalled found off => cases off.symm.trans on
  | takes i phase task rest found inside queue => exact inv.alive_set on (by decide)
  | notifyNotFull i producers found notified => exact inv.alive_set on (by decide)
  | notifyNotEmpty i workers found notified =>
      cases notified with
      | released j pc woken at_j wakes =>
          obtain ⟨-, rfl⟩ := Worker.wake_some wakes
          exact inv.alive_set on (by decide)
      | lost none => exact inv.alive on
  | wakeWorker i found => exact inv.alive_set on (by decide)
  | stopStore _ _ _ => cases on
  | stopNotEmpty stored => cases stored.symm.trans (inv.outside_of_running on)
  | _ => exact inv.alive on

theorem Inv.stepped (inv : Inv s) (stepped : Stepped s next) : Inv next where
  fresh := inv.step_fresh stepped
  halted := inv.step_halted stepped
  bounded := inv.step_bounded stepped
  fifo := inv.step_fifo stepped
  lock := inv.step_lock stepped
  notEmpty := inv.step_notEmpty stepped
  notFull := inv.step_notFull stepped
  alive := inv.step_alive stepped

theorem inv_init (maxQueueSize : Int) : Inv (init maxQueueSize : ThreadPool Task) where
  fresh _ _ := ⟨rfl, rfl, rfl⟩
  halted stopped := absurd rfl stopped
  bounded _ := Nat.zero_le _
  fifo := rfl
  lock := rfl
  notEmpty on := by cases on
  notFull on := by cases on
  alive on := by cases on

theorem Inv.of_run {maxQueueSize : Int} {actions : List (Action Task)}
    (ran : Execution.run step (init maxQueueSize) actions = some s) : Inv s :=
  run_invariant Inv (fun _ _ _ inv moved => inv.stepped (step_stepped moved))
    (inv_init maxQueueSize) ran

theorem maxQueueSize_fixed {maxQueueSize : Int} {actions : List (Action Task)}
    (ran : Execution.run step (init maxQueueSize) actions = some s) :
    s.maxQueueSize = maxQueueSize := by
  refine run_invariant (fun s => s.maxQueueSize = maxQueueSize) ?_ rfl ran
  intro s action next fixed moved
  cases step_stepped moved <;> exact fixed

end Invariant

end ThreadPool

end Muzi
