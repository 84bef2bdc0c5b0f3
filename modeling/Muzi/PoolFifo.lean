import Muzi.ThreadPool

/-!
The pool as a bounded queue. What the invariant of base/thread_pool.cc says
about the queue holds at once; that an accepted task does not stay in it is
shown by a continuation: whoever has the mutex gives it up, then a worker that
is awake takes the next task, and where all of them wait a signal is due.
-/

namespace Muzi.ThreadPool

open Execution Monitor

variable {Task : Type} {s next : ThreadPool Task} {i : Nat}

def CanTake (s : ThreadPool Task) : Prop :=
  ∃ actions final, Execution.run step s actions = some final ∧ final.running = true ∧
    final.workers ≠ [] ∧ s.taken.length < final.taken.length ∧ s.accepted <+: final.accepted

theorem CanTake.after {action : Action Task} (moved : s.step action = some next)
    (taken : next.taken = s.taken) (accepted : s.accepted <+: next.accepted)
    (can : CanTake next) : CanTake s := by
  obtain ⟨actions, final, ran, on, workers, more, prefixed⟩ := can
  rw [taken] at more
  exact ⟨action :: actions, final, run_cons_some.mpr ⟨next, moved, ran⟩, on, workers, more,
    accepted.trans prefixed⟩

/-! One worker, awake. -/

theorem canTake_inside {phase : Monitor.Phase} (on : s.running = true) (filled : s.queue ≠ [])
    (found : s.workers[i]? = some (.taking phase)) (inside : phase.inside = true) :
    CanTake s := by
  obtain ⟨task, rest, queue⟩ := List.exists_cons_of_ne_nil filled
  refine ⟨[.worker i], _, run_cons_some.mpr ⟨_, worker_takes found inside queue, rfl⟩, on, ?_, ?_,
    List.prefix_rfl⟩
  · have member := List.mem_of_getElem? (getElem?_set_found found .took)
    exact List.ne_nil_of_mem member
  · simp

theorem canTake_relocked {signalled : Bool} (on : s.running = true) (filled : s.queue ≠ [])
    (found : s.workers[i]? = some (.taking (.relocked signalled))) : CanTake s := by
  refine .after (worker_rechecks found on) rfl List.prefix_rfl ?_
  exact canTake_inside on filled (getElem?_set_found found _) rfl

theorem canTake_woken {signalled : Bool} (on : s.running = true) (filled : s.queue ≠ [])
    (free : s.lock = false) (found : s.workers[i]? = some (.taking (.woken signalled))) :
    CanTake s := by
  refine .after (worker_relocks found free) rfl List.prefix_rfl ?_
  exact canTake_relocked on filled (getElem?_set_found found _)

theorem canTake_locking (on : s.running = true) (filled : s.queue ≠ [])
    (free : s.lock = false) (found : s.workers[i]? = some (.taking .locking)) : CanTake s := by
  refine .after (worker_locks found free) rfl List.prefix_rfl ?_
  exact canTake_inside on filled (getElem?_set_found found _) rfl

theorem canTake_testing (on : s.running = true) (filled : s.queue ≠ [])
    (free : s.lock = false) (found : s.workers[i]? = some .testing) : CanTake s := by
  have moved : s.step (.worker i) = some (s.setWorker i (.taking .locking)) := by
    simp only [step, found, Option.bind_some, workerStep, on, if_true]
  refine .after moved rfl List.prefix_rfl ?_
  exact canTake_locking on filled free (getElem?_set_found found _)

theorem canTake_running (on : s.running = true) (filled : s.queue ≠ [])
    (free : s.lock = false) (found : s.workers[i]? = some .running) : CanTake s := by
  have moved : s.step (.worker i) = some (s.setWorker i .testing) := by
    simp only [step, found, Option.bind_some, workerStep]
  refine .after moved rfl List.prefix_rfl ?_
  exact canTake_testing on filled free (getElem?_set_found found _)

theorem canTake_took (on : s.running = true) (filled : s.queue ≠ [])
    (free : s.lock = false) (found : s.workers[i]? = some .took) : CanTake s := by
  obtain ⟨target, producers, notified⟩ := notify_possible Producer.wake s.producers
  have moved : s.step (.notifyNotFull i target) =
      some { s.setWorker i .running with producers := producers } := by
    simp only [step, found, notified, if_true, Option.map_some]
  refine .after moved rfl List.prefix_rfl ?_
  exact canTake_running on filled free (getElem?_set_found found _)

/-! Somebody is awake. -/

theorem canTake_waiting (inv : Inv s) (on : s.running = true) (filled : s.queue ≠ [])
    (free : s.lock = false) (found : s.workers[i]? = some (.taking .waiting)) : CanTake s := by
  have balanced := inv.notEmpty on (countP_pos_of_getElem? found rfl)
  have pos : 0 < s.queue.length := List.length_pos_of_ne_nil filled
  have signal : 0 < s.notEmptyDue ∨ 0 < s.workersIn Monitor.Phase.signalled := by omega
  rcases signal with due | signalled
  · obtain ⟨j, producer, at_j, notifies⟩ := exists_of_countP_pos due
    have put : producer = .put := by
      cases producer <;> first | rfl | cases notifies
    subst put
    have moved : s.step (.notifyNotEmpty j (some i)) = some
        { s.setProducer j .done with workers := s.workers.set i (.taking (.woken true)) } := by
      have woken : notify Worker.wake (some i) s.workers = some _ :=
        wakeAt_some.mpr ⟨_, _, found, rfl, rfl⟩
      simp only [step, at_j, woken, Option.map_some]
    refine .after moved rfl List.prefix_rfl ?_
    exact canTake_woken on filled free (getElem?_set_found found _)
  · obtain ⟨j, worker, at_j, signalled⟩ := exists_of_countP_pos signalled
    cases worker with
    | taking phase =>
        have idle := inv.free_worker free at_j
        cases phase with
        | woken by_signal => exact canTake_woken on filled free at_j
        | relocked by_signal => cases idle
        | rechecked by_signal => cases idle
        | _ => cases signalled
    | _ => cases signalled

theorem canTake_free (inv : Inv s) (on : s.running = true) (filled : s.queue ≠ [])
    (workers : s.workers ≠ []) (free : s.lock = false) : CanTake s := by
  obtain ⟨worker, rest, list⟩ := List.exists_cons_of_ne_nil workers
  have found : s.workers[0]? = some worker := by simp [list]
  cases worker with
  | starting =>
      have moved : s.step (.worker 0) = some (s.setWorker 0 .testing) := by
        simp only [step, found, Option.bind_some, workerStep]
      refine .after moved rfl List.prefix_rfl ?_
      exact canTake_testing on filled free (getElem?_set_found found _)
  | testing => exact canTake_testing on filled free found
  | taking phase =>
      have idle := inv.free_worker free found
      cases phase with
      | locking => exact canTake_locking on filled free found
      | waiting => exact canTake_waiting inv on filled free found
      | woken signalled => exact canTake_woken on filled free found
      | _ => cases idle
  | took => exact canTake_took on filled free found
  | running => exact canTake_running on filled free found
  | done => exact absurd (List.mem_of_getElem? found) (inv.alive on)

theorem canTake_producer_inside (inv : Inv s) (on : s.running = true) (filled : s.queue ≠ [])
    (workers : s.workers ≠ []) {phase : Monitor.Phase} {task : Task}
    (found : s.producers[i]? = some (.putting phase task)) (inside : phase.inside = true) :
    CanTake s := by
  cases full : s.isFull with
  | true =>
      have moved := producer_waits found inside full
      refine .after moved rfl List.prefix_rfl ?_
      exact canTake_free (inv.stepped (step_stepped moved)) on filled workers rfl
  | false =>
      have moved := producer_puts found inside full
      refine .after moved rfl (List.prefix_append _ _) ?_
      exact canTake_free (inv.stepped (step_stepped moved)) on (by simp) workers rfl

theorem canTake (inv : Inv s) (on : s.running = true) (filled : s.queue ≠ [])
    (workers : s.workers ≠ []) : CanTake s := by
  cases held : s.lock with
  | false => exact canTake_free inv on filled workers held
  | true =>
      rcases inv.holder held with ⟨j, phase, found, holds⟩ | ⟨j, phase, task, found, holds⟩
      · rcases holds_cases holds with inside | ⟨signalled, rfl⟩
        · exact canTake_inside on filled found inside
        · exact canTake_relocked on filled found
      · rcases holds_cases holds with inside | ⟨signalled, rfl⟩
        · exact canTake_producer_inside inv on filled workers found inside
        · have moved := producer_rechecks found on
          refine .after moved rfl List.prefix_rfl ?_
          exact canTake_producer_inside (inv.stepped (step_stepped moved)) on filled workers
            (getElem?_set_found found _) rfl

/-- Every task accepted by now is taken in some continuation. -/
theorem takes_accepted (count : Nat) {target : Nat} (inv : Inv s) (on : s.running = true)
    (workers : s.workers ≠ []) (accepted : target ≤ s.accepted.length)
    (enough : target ≤ s.taken.length + count) :
    ∃ actions final, Execution.run step s actions = some final ∧ Inv final ∧
      s.accepted <+: final.accepted ∧ target ≤ final.taken.length := by
  induction count generalizing s with
  | zero => exact ⟨[], s, rfl, inv, List.prefix_rfl, enough⟩
  | succ count ih =>
      by_cases done : target ≤ s.taken.length
      · exact ⟨[], s, rfl, inv, List.prefix_rfl, done⟩
      · have fifo := congrArg List.length inv.fifo
        rw [List.length_append, List.length_map] at fifo
        have filled : s.queue ≠ [] := List.ne_nil_of_length_pos (by omega)
        obtain ⟨first, mid, ran, midOn, midWorkers, more, prefixed⟩ :=
          canTake inv on filled workers
        have midInv : Inv mid :=
          run_invariant Inv (fun _ _ _ inv moved => inv.stepped (step_stepped moved)) inv ran
        obtain ⟨later, final, ranLater, finalInv, finalPrefixed, taken⟩ :=
          ih midInv midOn midWorkers (Nat.le_trans accepted prefixed.length_le) (by omega)
        exact ⟨first ++ later, final, run_append ran ranLater, finalInv,
          prefixed.trans finalPrefixed, taken⟩

/-! The pool. -/

/-- A producer is about to signal `not_empty_cond_`, or a worker that was
signalled did not look at the queue yet. -/
def NotEmptySignal (s : ThreadPool Task) : Prop :=
  Producer.put ∈ s.producers ∨ ∃ worker ∈ s.workers, worker.within Monitor.Phase.signalled = true

instance [DecidableEq Task] (s : ThreadPool Task) : Decidable s.NotEmptySignal :=
  inferInstanceAs (Decidable (_ ∨ _))

def NotFullSignal (s : ThreadPool Task) : Prop :=
  Worker.took ∈ s.workers ∨ ∃ producer ∈ s.producers, producer.within Monitor.Phase.signalled = true

theorem Inv.notEmptySignal (inv : Inv s) (on : s.running = true) (filled : s.queue ≠ [])
    (waiting : Worker.taking .waiting ∈ s.workers) : s.NotEmptySignal := by
  have balanced := inv.notEmpty on (List.countP_pos_iff.mpr ⟨_, waiting, rfl⟩)
  have pos : 0 < s.queue.length := List.length_pos_of_ne_nil filled
  have signal : 0 < s.notEmptyDue ∨ 0 < s.workersIn Monitor.Phase.signalled := by omega
  rcases signal with due | signalled
  · obtain ⟨producer, member, notifies⟩ := List.countP_pos_iff.mp due
    have put : producer = .put := by
      cases producer <;> first | rfl | cases notifies
    exact .inl (put ▸ member)
  · exact .inr (List.countP_pos_iff.mp signalled)

theorem Inv.notFullSignal (inv : Inv s) (on : s.running = true) (space : s.isFull = false)
    {task : Task} (waiting : Producer.putting .waiting task ∈ s.producers) :
    s.NotFullSignal := by
  obtain ⟨limited, balanced⟩ := inv.notFull on (List.countP_pos_iff.mpr ⟨_, waiting, rfl⟩)
  have free := isFull_eq_false.mp space limited
  rw [room] at balanced
  have signal : 0 < s.notFullDue ∨ 0 < s.producersIn Monitor.Phase.signalled := by omega
  rcases signal with due | signalled
  · obtain ⟨worker, member, notifies⟩ := List.countP_pos_iff.mp due
    have took : worker = .took := by
      cases worker <;> first | rfl | cases notifies
    exact .inl (took ▸ member)
  · exact .inr (List.countP_pos_iff.mp signalled)

/-- While `running_` stays true the queue is bounded, no task is lost, taken
twice or overtaken, whatever was accepted can still be taken, and nobody waits
for a queue that would serve them without a signal on its way. -/
theorem bounded_fifo_without_lost_wakeup {maxQueueSize : Int} {actions : List (Action Task)}
    (ran : Execution.run step (init maxQueueSize) actions = some s) (on : s.running = true) :
    (0 < maxQueueSize → (s.queue.length : Int) ≤ maxQueueSize) ∧
      s.accepted = s.taken.map Prod.snd ++ s.queue ∧
      (s.workers ≠ [] → ∃ more final, Execution.run step s more = some final ∧
        s.accepted <+: final.taken.map Prod.snd) ∧
      (s.queue ≠ [] → Worker.taking .waiting ∈ s.workers → s.NotEmptySignal) ∧
      (s.isFull = false → (∃ task, Producer.putting .waiting task ∈ s.producers) →
        s.NotFullSignal) := by
  have inv : Inv s := .of_run ran
  have fixed := maxQueueSize_fixed ran
  refine ⟨fun limited => ?_, inv.fifo, fun workers => ?_, inv.notEmptySignal on, ?_⟩
  · have bounded := inv.bounded (fixed ▸ limited)
    omega
  · obtain ⟨more, final, later, finalInv, prefixed, taken⟩ :=
      takes_accepted s.accepted.length inv on workers (Nat.le_refl _) (Nat.le_add_left _ _)
    refine ⟨more, final, later, ?_⟩
    have order : final.taken.map Prod.snd <+: final.accepted := by
      rw [finalInv.fifo]
      exact List.prefix_append _ _
    exact List.prefix_of_prefix_length_le prefixed order (by simpa using taken)
  · rintro space ⟨task, waiting⟩
    exact inv.notFullSignal on space waiting

def putRun : List (Action Nat) :=
  [.start 1, .startThread, .worker 0, .worker 0, .worker 0, .worker 0, .run none, .run (some 7),
    .producer 0, .producer 0]

theorem put_signals_waiting_worker :
    ∃ s, Execution.run step (init 1) putRun = some s ∧ s.running = true ∧ s.queue ≠ [] ∧
      Worker.taking .waiting ∈ s.workers ∧ s.NotEmptySignal := by
  refine ⟨_, rfl, rfl, by simp, by decide, ?_⟩
  have ran : Execution.run step (init 1) putRun = some _ := rfl
  exact (bounded_fifo_without_lost_wakeup ran rfl).2.2.2.1 (by simp) (by decide)

end Muzi.ThreadPool
