import Muzi.PoolFifo

/-!
`Stop` of base/thread_pool.cc. It stores `running_` and broadcasts without the
mutex. A thread that read `running_` before the store and is on its way to the
queue is not reached by the broadcast; it goes by the queue alone. So what
decides is how many threads are on that way, what the queue has for them, and
how many of those that wait somebody will still notify.
-/

namespace Muzi.ThreadPool

open Execution Monitor

variable {Task : Type} {s next : ThreadPool Task} {i : Nat}

/-- A worker is blocked on `not_empty_cond_`, or a producer on `not_full_cond_`,
and no notification of it is outstanding. -/
def Stranded (s : ThreadPool Task) : Prop :=
  Worker.taking .waiting ∈ s.workers ∧ ¬s.NotEmptySignal ∨
    (∃ task, Producer.putting .waiting task ∈ s.producers) ∧ ¬s.NotFullSignal

/-- Behind both broadcasts a signalled thread returns and notifies nobody. So for
those that wait there are as many threads that will notify, and not only
signals on their way; the workers on their way to the queue find tasks there,
and the producers on theirs find room. Who looks at the queue now, with the
mutex, does so before anybody else comes. -/
structure Fits (s : ThreadPool Task) : Prop where
  waitingWorkers : 0 < s.workersIn Monitor.Phase.isWaiting →
    0 < s.notEmptyDue + s.workersIn Monitor.Phase.signalled ∧
      s.workersIn Monitor.Phase.isWaiting ≤ s.notEmptyDue + s.producersIn Monitor.Phase.inside
  waitingProducers : 0 < s.producersIn Monitor.Phase.isWaiting →
    0 < s.notFullDue + s.producersIn Monitor.Phase.signalled ∧
      s.producersIn Monitor.Phase.isWaiting ≤ s.notFullDue + s.workersIn Monitor.Phase.inside
  workers : s.workersIn Monitor.Phase.entering ≤ s.queue.length + s.producersIn Monitor.Phase.inside
  producers : 0 < s.maxQueueSize →
    s.queue.length + s.producersIn Monitor.Phase.entering ≤
      s.maxQueueSize.toNat + s.workersIn Monitor.Phase.inside

def Broadcast (s : ThreadPool Task) : Prop := s.stop = .joining ∨ s.stop = .returned

theorem Broadcast.stop_ne (past : s.Broadcast) {stop : Stop}
    (early : stop ≠ .joining ∧ stop ≠ .returned) : s.stop ≠ stop := by
  rintro rfl
  exact past.elim early.1 early.2

theorem Broadcast.step (past : s.Broadcast) (stepped : Stepped s next) : next.Broadcast := by
  cases stepped with
  | stopReturns joining => exact .inr rfl
  | stopNotFull notified => exact .inl rfl
  | stopStore outside none on => exact absurd outside (past.stop_ne (by decide))
  | stopNotEmpty stored => exact absurd stored (past.stop_ne (by decide))
  | _ => exact past

theorem Broadcast.off (past : s.Broadcast) (inv : Inv s) : s.running = false := by
  apply inv.halted
  rcases past with past | past <;> simp [past]

/-! Who is stranded, by how many threads are where. -/

theorem worker_waits_iff :
    Worker.taking .waiting ∈ s.workers ↔ 0 < s.workersIn Monitor.Phase.isWaiting := by
  rw [workersIn, List.countP_pos_iff]
  constructor
  · intro member
    exact ⟨_, member, rfl⟩
  · rintro ⟨worker, member, waits⟩
    cases worker with
    | taking phase =>
        cases phase with
        | waiting => exact member
        | _ => cases waits
    | _ => cases waits

theorem producer_waits_iff : (∃ task, Producer.putting .waiting task ∈ s.producers) ↔
    0 < s.producersIn Monitor.Phase.isWaiting := by
  rw [producersIn, List.countP_pos_iff]
  constructor
  · rintro ⟨task, member⟩
    exact ⟨_, member, rfl⟩
  · rintro ⟨producer, member, waits⟩
    cases producer with
    | putting phase task =>
        cases phase with
        | waiting => exact ⟨task, member⟩
        | _ => cases waits
    | _ => cases waits

theorem notEmptySignal_iff :
    s.NotEmptySignal ↔ 0 < s.notEmptyDue + s.workersIn Monitor.Phase.signalled := by
  rw [Nat.add_pos_iff_pos_or_pos, notEmptyDue, workersIn, List.countP_pos_iff, List.countP_pos_iff]
  refine or_congr_left ⟨fun member => ⟨_, member, rfl⟩, ?_⟩
  rintro ⟨producer, member, notifies⟩
  cases producer with
  | put => exact member
  | _ => cases notifies

theorem notFullSignal_iff :
    s.NotFullSignal ↔ 0 < s.notFullDue + s.producersIn Monitor.Phase.signalled := by
  rw [Nat.add_pos_iff_pos_or_pos, notFullDue, producersIn, List.countP_pos_iff, List.countP_pos_iff]
  refine or_congr_left ⟨fun member => ⟨_, member, rfl⟩, ?_⟩
  rintro ⟨worker, member, notifies⟩
  cases worker with
  | took => exact member
  | _ => cases notifies

theorem stranded_iff : s.Stranded ↔
    0 < s.workersIn Monitor.Phase.isWaiting ∧
        s.notEmptyDue + s.workersIn Monitor.Phase.signalled = 0 ∨
      0 < s.producersIn Monitor.Phase.isWaiting ∧
        s.notFullDue + s.producersIn Monitor.Phase.signalled = 0 := by
  rw [Stranded, worker_waits_iff, producer_waits_iff, notEmptySignal_iff, notFullSignal_iff,
    Nat.not_lt, Nat.not_lt, Nat.le_zero, Nat.le_zero]

theorem Fits.not_stranded (fits : Fits s) : ¬s.Stranded := by
  have workers := fits.waitingWorkers
  have producers := fits.waitingProducers
  rw [stranded_iff]
  omega

/-! One at a time has the mutex. -/

theorem workersIn_inside_le (s : ThreadPool Task) :
    s.workersIn Monitor.Phase.inside ≤ s.workersIn Monitor.Phase.holds := by
  refine List.countP_mono_left fun worker _ inside => ?_
  cases worker with
  | taking phase => exact inside_holds inside
  | _ => cases inside

theorem producersIn_inside_le (s : ThreadPool Task) :
    s.producersIn Monitor.Phase.inside ≤ s.producersIn Monitor.Phase.holds := by
  refine List.countP_mono_left fun producer _ inside => ?_
  cases producer with
  | putting phase task => exact inside_holds inside
  | _ => cases inside

theorem Inv.worker_alone (inv : Inv s) {phase : Monitor.Phase}
    (found : s.workers[i]? = some (.taking phase)) (holds : phase.holds = true) :
    s.producersIn Monitor.Phase.inside = 0 := by
  have held : 0 < s.workersIn Monitor.Phase.holds := countP_pos_of_getElem? found holds
  have lock := inv.lock
  have one := Bool.toNat_le s.lock
  have fewer := producersIn_inside_le s
  omega

theorem Inv.producer_alone (inv : Inv s) {phase : Monitor.Phase} {task : Task}
    (found : s.producers[i]? = some (.putting phase task)) (holds : phase.holds = true) :
    s.workersIn Monitor.Phase.inside = 0 := by
  have held : 0 < s.producersIn Monitor.Phase.holds := countP_pos_of_getElem? found holds
  have lock := inv.lock
  have one := Bool.toNat_le s.lock
  have fewer := workersIn_inside_le s
  omega

theorem Inv.nobody_inside (inv : Inv s) (free : s.lock = false) :
    s.workersIn Monitor.Phase.inside = 0 ∧ s.producersIn Monitor.Phase.inside = 0 := by
  have lock := inv.lock
  rw [free, Bool.toNat_false] at lock
  have workers := workersIn_inside_le s
  have producers := producersIn_inside_le s
  omega

/-! One thread moves. -/

structure WorkerMoved (s next : ThreadPool Task) (i : Nat) (before after : Worker) : Prop where
  found : s.workers[i]? = some before
  workers : next.workers = s.workers.set i after
  producers : next.producers = s.producers
  maxQueueSize : next.maxQueueSize = s.maxQueueSize

structure ProducerMoved (s next : ThreadPool Task) (i : Nat) (before after : Producer Task) :
    Prop where
  found : s.producers[i]? = some before
  producers : next.producers = s.producers.set i after
  workers : next.workers = s.workers
  maxQueueSize : next.maxQueueSize = s.maxQueueSize

def approaching : Monitor.Phase → Bool
  | .locking | .relocked _ => true
  | _ => false

def isWoken : Monitor.Phase → Bool
  | .woken _ => true
  | _ => false

/-- How much a thread on its way has still to do. A notification is more than
the way of the thread that it releases. -/
def Worker.toGo (worker : Worker) : Nat :=
  4 * (worker.within Monitor.Phase.entering).toNat + (worker.within approaching).toNat +
    2 * (worker.within isWoken).toNat + 3 * worker.notifies.toNat

def Producer.toGo (producer : Producer Task) : Nat :=
  4 * (producer.within Monitor.Phase.entering).toNat + (producer.within approaching).toNat +
    2 * (producer.within isWoken).toNat + 3 * producer.notifies.toNat

def ahead (s : ThreadPool Task) : Nat :=
  4 * s.workersIn Monitor.Phase.entering + s.workersIn approaching + 2 * s.workersIn isWoken +
    3 * s.notFullDue +
  (4 * s.producersIn Monitor.Phase.entering + s.producersIn approaching +
    2 * s.producersIn isWoken + 3 * s.notEmptyDue)

theorem Worker.toGo_inside {phase : Monitor.Phase} (inside : phase.inside = true) :
    (Worker.taking phase).toGo = 4 := by
  cases phase <;> first | rfl | cases inside

theorem Producer.toGo_inside {phase : Monitor.Phase} {task : Task}
    (inside : phase.inside = true) : (Producer.putting phase task).toGo = 4 := by
  cases phase <;> first | rfl | cases inside

namespace WorkerMoved
variable {before after : Worker} (moved : WorkerMoved s next i before after)
include moved

theorem workersIn (p : Monitor.Phase → Bool) :
    next.workersIn p + (before.within p).toNat = s.workersIn p + (after.within p).toNat := by
  rw [ThreadPool.workersIn, moved.workers]
  exact setWorker_workersIn moved.found p after

theorem notFullDue :
    next.notFullDue + before.notifies.toNat = s.notFullDue + after.notifies.toNat := by
  rw [ThreadPool.notFullDue, moved.workers]
  exact countP_set_add moved.found Worker.notifies after

theorem producersIn (p : Monitor.Phase → Bool) : next.producersIn p = s.producersIn p := by
  rw [ThreadPool.producersIn, moved.producers, ThreadPool.producersIn]

theorem notEmptyDue : next.notEmptyDue = s.notEmptyDue := by
  rw [ThreadPool.notEmptyDue, moved.producers, ThreadPool.notEmptyDue]

theorem ahead : next.ahead + before.toGo = s.ahead + after.toGo := by
  have entering := moved.workersIn Monitor.Phase.entering
  have steps := moved.workersIn approaching
  have woken := moved.workersIn isWoken
  have due := moved.notFullDue
  simp only [ThreadPool.ahead, Worker.toGo, moved.producersIn, moved.notEmptyDue]
  omega

theorem fits (fits : Fits s)
    (awake : after.within Monitor.Phase.isWaiting = false)
    (signals : (before.within Monitor.Phase.signalled).toNat ≤
        (after.within Monitor.Phase.signalled).toNat ∨
      s.producersIn Monitor.Phase.inside = 0)
    (notifies : before.notifies = false)
    (due : (before.within Monitor.Phase.inside).toNat ≤
      after.notifies.toNat + (after.within Monitor.Phase.inside).toNat)
    (served : (after.within Monitor.Phase.entering).toNat + s.queue.length ≤
      next.queue.length + (before.within Monitor.Phase.entering).toNat)
    (room : next.queue.length + (before.within Monitor.Phase.inside).toNat ≤
      s.queue.length + (after.within Monitor.Phase.inside).toNat) :
    Fits next := by
  have waiting := moved.workersIn Monitor.Phase.isWaiting
  have entering := moved.workersIn Monitor.Phase.entering
  have inside := moved.workersIn Monitor.Phase.inside
  have signalled := moved.workersIn Monitor.Phase.signalled
  have notFull := moved.notFullDue
  rw [awake, Bool.toNat_false] at waiting
  rw [notifies, Bool.toNat_false] at notFull
  obtain ⟨waitingWorkers, waitingProducers, workers, producers⟩ := fits
  constructor
  all_goals simp only [moved.producersIn, moved.notEmptyDue, moved.maxQueueSize]; omega

end WorkerMoved

namespace ProducerMoved
variable {before after : Producer Task} (moved : ProducerMoved s next i before after)
include moved

theorem producersIn (p : Monitor.Phase → Bool) :
    next.producersIn p + (before.within p).toNat = s.producersIn p + (after.within p).toNat := by
  rw [ThreadPool.producersIn, moved.producers]
  exact setProducer_producersIn moved.found p after

theorem notEmptyDue :
    next.notEmptyDue + before.notifies.toNat = s.notEmptyDue + after.notifies.toNat := by
  rw [ThreadPool.notEmptyDue, moved.producers]
  exact countP_set_add moved.found Producer.notifies after

theorem workersIn (p : Monitor.Phase → Bool) : next.workersIn p = s.workersIn p := by
  rw [ThreadPool.workersIn, moved.workers, ThreadPool.workersIn]

theorem notFullDue : next.notFullDue = s.notFullDue := by
  rw [ThreadPool.notFullDue, moved.workers, ThreadPool.notFullDue]

theorem ahead : next.ahead + before.toGo = s.ahead + after.toGo := by
  have entering := moved.producersIn Monitor.Phase.entering
  have steps := moved.producersIn approaching
  have woken := moved.producersIn isWoken
  have due := moved.notEmptyDue
  simp only [ThreadPool.ahead, Producer.toGo, moved.workersIn, moved.notFullDue]
  omega

theorem fits (fits : Fits s)
    (awake : after.within Monitor.Phase.isWaiting = false)
    (signals : (before.within Monitor.Phase.signalled).toNat ≤
        (after.within Monitor.Phase.signalled).toNat ∨
      s.workersIn Monitor.Phase.inside = 0)
    (notifies : before.notifies = false)
    (due : (before.within Monitor.Phase.inside).toNat ≤
      after.notifies.toNat + (after.within Monitor.Phase.inside).toNat)
    (served : s.queue.length + (before.within Monitor.Phase.inside).toNat ≤
      next.queue.length + (after.within Monitor.Phase.inside).toNat)
    (room : next.queue.length + (after.within Monitor.Phase.entering).toNat ≤
      s.queue.length + (before.within Monitor.Phase.entering).toNat) :
    Fits next := by
  have waiting := moved.producersIn Monitor.Phase.isWaiting
  have entering := moved.producersIn Monitor.Phase.entering
  have inside := moved.producersIn Monitor.Phase.inside
  have signalled := moved.producersIn Monitor.Phase.signalled
  have notEmpty := moved.notEmptyDue
  rw [awake, Bool.toNat_false] at waiting
  rw [notifies, Bool.toNat_false] at notEmpty
  obtain ⟨waitingWorkers, waitingProducers, workers, producers⟩ := fits
  constructor
  all_goals simp only [moved.workersIn, moved.notFullDue, moved.maxQueueSize]; omega

end ProducerMoved

/-! A notification: nothing that decides changes. -/

section Notify
variable {mid : ThreadPool Task} {j : Nat}

theorem ProducerMoved.fits_iff (moved : ProducerMoved s next i .put .done)
    (queue : next.queue = s.queue) (nobody : s.workersIn Monitor.Phase.isWaiting = 0) :
    Fits next ↔ Fits s := by
  have same (p : Monitor.Phase → Bool) : next.producersIn p = s.producersIn p :=
    moved.producersIn p
  have idle : next.workersIn Monitor.Phase.isWaiting = 0 := (moved.workersIn _).trans nobody
  constructor <;> rintro ⟨waitingWorkers, waitingProducers, workers, producers⟩ <;> constructor
  all_goals
    simp only [same, queue, moved.workersIn, moved.notFullDue, moved.maxQueueSize] at *
    first | assumption | omega

theorem fits_notifyNotEmpty_iff (notifier : ProducerMoved s mid i .put .done)
    (freed : WorkerMoved mid next j (.taking .waiting) (.taking (.woken true)))
    (queue : next.queue = s.queue) : Fits next ↔ Fits s := by
  have due : next.notEmptyDue + 1 = s.notEmptyDue :=
    (congrArg (· + 1) freed.notEmptyDue).trans notifier.notEmptyDue
  have waiting : next.workersIn Monitor.Phase.isWaiting + 1 = s.workersIn Monitor.Phase.isWaiting :=
    (freed.workersIn _).trans (notifier.workersIn _)
  have signalled :
      next.workersIn Monitor.Phase.signalled = s.workersIn Monitor.Phase.signalled + 1 :=
    (freed.workersIn Monitor.Phase.signalled).trans (congrArg (· + 1) (notifier.workersIn _))
  have entering : next.workersIn Monitor.Phase.entering = s.workersIn Monitor.Phase.entering :=
    (freed.workersIn Monitor.Phase.entering).trans (notifier.workersIn _)
  have inside : next.workersIn Monitor.Phase.inside = s.workersIn Monitor.Phase.inside :=
    (freed.workersIn Monitor.Phase.inside).trans (notifier.workersIn _)
  have notFull : next.notFullDue = s.notFullDue := freed.notFullDue.trans notifier.notFullDue
  have same (p : Monitor.Phase → Bool) : next.producersIn p = s.producersIn p :=
    (freed.producersIn p).trans (notifier.producersIn p)
  have limit := freed.maxQueueSize.trans notifier.maxQueueSize
  constructor <;> rintro ⟨waitingWorkers, waitingProducers, workers, producers⟩ <;> constructor
  all_goals
    simp only [same, queue, limit, notFull, entering, inside] at *
    first | assumption | omega

theorem WorkerMoved.fits_iff (moved : WorkerMoved s next i .took .running)
    (queue : next.queue = s.queue) (nobody : s.producersIn Monitor.Phase.isWaiting = 0) :
    Fits next ↔ Fits s := by
  have same (p : Monitor.Phase → Bool) : next.workersIn p = s.workersIn p := moved.workersIn p
  have idle : next.producersIn Monitor.Phase.isWaiting = 0 := (moved.producersIn _).trans nobody
  constructor <;> rintro ⟨waitingWorkers, waitingProducers, workers, producers⟩ <;> constructor
  all_goals
    simp only [same, queue, moved.producersIn, moved.notEmptyDue, moved.maxQueueSize] at *
    first | assumption | omega

theorem fits_notifyNotFull_iff {task : Task} (notifier : WorkerMoved s mid i .took .running)
    (freed : ProducerMoved mid next j (.putting .waiting task) (.putting (.woken true) task))
    (queue : next.queue = s.queue) : Fits next ↔ Fits s := by
  have due : next.notFullDue + 1 = s.notFullDue :=
    (congrArg (· + 1) freed.notFullDue).trans notifier.notFullDue
  have waiting :
      next.producersIn Monitor.Phase.isWaiting + 1 = s.producersIn Monitor.Phase.isWaiting :=
    (freed.producersIn _).trans (notifier.producersIn _)
  have signalled :
      next.producersIn Monitor.Phase.signalled = s.producersIn Monitor.Phase.signalled + 1 :=
    (freed.producersIn Monitor.Phase.signalled).trans (congrArg (· + 1) (notifier.producersIn _))
  have entering : next.producersIn Monitor.Phase.entering = s.producersIn Monitor.Phase.entering :=
    (freed.producersIn Monitor.Phase.entering).trans (notifier.producersIn _)
  have inside : next.producersIn Monitor.Phase.inside = s.producersIn Monitor.Phase.inside :=
    (freed.producersIn Monitor.Phase.inside).trans (notifier.producersIn _)
  have notEmpty : next.notEmptyDue = s.notEmptyDue := freed.notEmptyDue.trans notifier.notEmptyDue
  have same (p : Monitor.Phase → Bool) : next.workersIn p = s.workersIn p :=
    (freed.workersIn p).trans (notifier.workersIn p)
  have limit := freed.maxQueueSize.trans notifier.maxQueueSize
  constructor <;> rintro ⟨waitingWorkers, waitingProducers, workers, producers⟩ <;> constructor
  all_goals
    simp only [same, queue, limit, notEmpty, entering, inside] at *
    first | assumption | omega

theorem no_worker_waits (none : ∀ worker ∈ s.workers, worker.wake true = Option.none) :
    s.workersIn Monitor.Phase.isWaiting = 0 := by
  refine Nat.eq_zero_of_not_pos fun waits => ?_
  cases none _ (worker_waits_iff.mpr waits)

theorem no_producer_waits
    (none : ∀ producer ∈ s.producers, producer.wake true = Option.none) :
    s.producersIn Monitor.Phase.isWaiting = 0 := by
  refine Nat.eq_zero_of_not_pos fun waits => ?_
  obtain ⟨task, member⟩ := producer_waits_iff.mpr waits
  cases none _ member

theorem notifyNotEmpty_neutral {workers : List Worker} (found : s.producers[i]? = some .put)
    (notified : Notified Worker.wake s.workers workers)
    (made : next = { s.setProducer i .done with workers := workers }) :
    (Fits next ↔ Fits s) ∧ next.ahead < s.ahead := by
  have notifier : ProducerMoved s (s.setProducer i .done) i .put .done := ⟨found, rfl, rfl, rfl⟩
  have rest := notifier.ahead
  cases notified with
  | released j worker woken at_j wakes =>
      obtain ⟨rfl, rfl⟩ := Worker.wake_some wakes
      have freed : WorkerMoved (s.setProducer i .done) next j (.taking .waiting)
          (.taking (.woken true)) := by
        subst made
        exact ⟨at_j, rfl, rfl, rfl⟩
      have more := freed.ahead
      refine ⟨fits_notifyNotEmpty_iff notifier freed (by rw [made]; rfl), ?_⟩
      change _ + 3 = _ + 0 at rest
      change _ + 0 = _ + 2 at more
      omega
  | lost none =>
      have alone : next = s.setProducer i .done := made
      rw [alone]
      refine ⟨notifier.fits_iff rfl (no_worker_waits none), ?_⟩
      change _ + 3 = _ + 0 at rest
      omega

theorem notifyNotFull_neutral {producers : List (Producer Task)}
    (found : s.workers[i]? = some .took)
    (notified : Notified Producer.wake s.producers producers)
    (made : next = { s.setWorker i .running with producers := producers }) :
    (Fits next ↔ Fits s) ∧ next.ahead < s.ahead := by
  have notifier : WorkerMoved s (s.setWorker i .running) i .took .running := ⟨found, rfl, rfl, rfl⟩
  have rest := notifier.ahead
  cases notified with
  | released j producer woken at_j wakes =>
      obtain ⟨task, rfl, rfl⟩ := Producer.wake_some wakes
      have freed : ProducerMoved (s.setWorker i .running) next j (.putting .waiting task)
          (.putting (.woken true) task) := by
        subst made
        exact ⟨at_j, rfl, rfl, rfl⟩
      have more := freed.ahead
      refine ⟨fits_notifyNotFull_iff notifier freed (by rw [made]; rfl), ?_⟩
      change _ + 3 = _ + 0 at rest
      change _ + 0 = _ + 2 at more
      omega
  | lost none =>
      have alone : next = s.setWorker i .running := made
      rw [alone]
      refine ⟨notifier.fits_iff rfl (no_producer_waits none), ?_⟩
      change _ + 3 = _ + 0 at rest
      omega

end Notify

/-! What fits goes on to fit. -/

theorem Fits.worker_served (fits : Fits s) (inv : Inv s) {phase : Monitor.Phase}
    (found : s.workers[i]? = some (.taking phase)) (inside : phase.inside = true) :
    s.queue ≠ [] := by
  intro empty
  have coming : 0 < s.workersIn Monitor.Phase.entering :=
    countP_pos_of_getElem? found (inside_entering inside)
  have workers := fits.workers
  rw [empty, inv.worker_alone found (inside_holds inside), List.length_nil] at workers
  omega

theorem Fits.producer_served (fits : Fits s) (inv : Inv s) {phase : Monitor.Phase} {task : Task}
    (found : s.producers[i]? = some (.putting phase task)) (inside : phase.inside = true) :
    s.isFull ≠ true := by
  intro filled
  obtain ⟨limited, full⟩ := isFull_eq_true.mp filled
  have coming : 0 < s.producersIn Monitor.Phase.entering :=
    countP_pos_of_getElem? found (inside_entering inside)
  have producers := fits.producers limited
  rw [inv.producer_alone found (inside_holds inside)] at producers
  omega

theorem Fits.workerMoves (fits : Fits s) {before after : Worker}
    (moved : WorkerMoved s next i before after) (queue : next.queue = s.queue)
    (awake : after.within Monitor.Phase.isWaiting = false)
    (signals : after.within Monitor.Phase.signalled = before.within Monitor.Phase.signalled ∨
      s.producersIn Monitor.Phase.inside = 0)
    (notifies : before.notifies = false)
    (inside : before.within Monitor.Phase.inside = false)
    (entering : after.within Monitor.Phase.entering = before.within Monitor.Phase.entering) :
    Fits next := by
  refine moved.fits fits awake (signals.imp_left fun same => ?_) notifies ?_ ?_ ?_
  · exact Nat.le_of_eq (by rw [same])
  · simp [inside]
  · exact Nat.le_of_eq (by rw [entering, queue, Nat.add_comm])
  · simp [inside, queue]

theorem Fits.producerMoves (fits : Fits s) {before after : Producer Task}
    (moved : ProducerMoved s next i before after) (queue : next.queue = s.queue)
    (awake : after.within Monitor.Phase.isWaiting = false)
    (signals : after.within Monitor.Phase.signalled = before.within Monitor.Phase.signalled ∨
      s.workersIn Monitor.Phase.inside = 0)
    (notifies : before.notifies = false)
    (inside : before.within Monitor.Phase.inside = false)
    (entering : after.within Monitor.Phase.entering = before.within Monitor.Phase.entering) :
    Fits next := by
  refine moved.fits fits awake (signals.imp_left fun same => ?_) notifies ?_ ?_ ?_
  · exact Nat.le_of_eq (by rw [same])
  · simp [inside]
  · simp [inside, queue]
  · exact Nat.le_of_eq (by rw [entering, queue])

theorem Fits.step (fits : Fits s) (inv : Inv s) (past : s.Broadcast) (stepped : Stepped s next) :
    Fits next := by
  have off := past.off inv
  cases stepped with
  | same => exact fits
  | start threadNum outside _ => exact absurd outside (past.stop_ne (by decide))
  | startThread rest more =>
      obtain ⟨waitingWorkers, waitingProducers, workers, producers⟩ := fits
      constructor <;> simpa only [startThread_workersIn, startThread_notFullDue]
  | run task on => cases off.symm.trans on
  | turns i before after found turns =>
      cases turns with
      | enters on => cases off.symm.trans on
      | _ => exact fits.workerMoves ⟨found, rfl, rfl, rfl⟩ rfl rfl (.inl rfl) rfl rfl rfl
  | workerGoes i phase after found goes =>
      cases goes with
      | locks free => exact fits.workerMoves ⟨found, rfl, rfl, rfl⟩ rfl rfl (.inl rfl) rfl rfl rfl
      | relocks signalled free =>
          exact fits.workerMoves ⟨found, rfl, rfl, rfl⟩ rfl rfl (.inl rfl) rfl rfl rfl
      | rechecks signalled on => cases off.symm.trans on
      | waits _ inside unready =>
          exact absurd (by simpa using unready) (fits.worker_served inv found inside)
  | workerReturns i signalled found _ =>
      have alone := inv.worker_alone found rfl
      exact fits.workerMoves ⟨found, rfl, rfl, rfl⟩ rfl rfl (.inr alone) rfl rfl rfl
  | takes i phase task rest found inside queue =>
      have alone := inv.worker_alone found (inside_holds inside)
      have in_lock : (Worker.taking phase).within Monitor.Phase.inside = true := inside
      refine WorkerMoved.fits ⟨found, rfl, rfl, rfl⟩ fits rfl (.inr alone) rfl ?_ ?_ ?_
      · simp [in_lock, Worker.notifies]
      · simp [inside_entering inside, queue, Worker.within, Worker.phase]
      · simp [in_lock, queue]
  | producerGoes i phase after task found goes =>
      cases goes with
      | locks free => exact fits.producerMoves ⟨found, rfl, rfl, rfl⟩ rfl rfl (.inl rfl) rfl rfl rfl
      | relocks signalled free =>
          exact fits.producerMoves ⟨found, rfl, rfl, rfl⟩ rfl rfl (.inl rfl) rfl rfl rfl
      | rechecks signalled on => cases off.symm.trans on
      | waits _ inside unready =>
          exact absurd (by simpa using unready) (fits.producer_served inv found inside)
  | producerReturns i signalled task found _ =>
      have alone := inv.producer_alone found rfl
      exact fits.producerMoves ⟨found, rfl, rfl, rfl⟩ rfl rfl (.inr alone) rfl rfl rfl
  | puts i phase task found inside space =>
      have alone := inv.producer_alone found (inside_holds inside)
      have in_lock : (Producer.putting phase task).within Monitor.Phase.inside = true := inside
      refine ProducerMoved.fits ⟨found, rfl, rfl, rfl⟩ fits rfl (.inr alone) rfl ?_ ?_ ?_
      · simp [in_lock, Producer.notifies]
      · simp [in_lock]
      · simp [inside_entering inside, Producer.within, Producer.phase]
  | notifyNotFull i producers found notified =>
      exact (notifyNotFull_neutral found notified rfl).1.mpr fits
  | notifyNotEmpty i workers found notified =>
      exact (notifyNotEmpty_neutral found notified rfl).1.mpr fits
  | wakeWorker i found =>
      exact fits.workerMoves ⟨found, rfl, rfl, rfl⟩ rfl rfl (.inl rfl) rfl rfl rfl
  | wakeProducer i task found =>
      exact fits.producerMoves ⟨found, rfl, rfl, rfl⟩ rfl rfl (.inl rfl) rfl rfl rfl
  | stopStore outside _ _ => exact absurd outside (past.stop_ne (by decide))
  | stopNotEmpty stored => exact absurd stored (past.stop_ne (by decide))
  | stopNotFull notified => exact absurd notified (past.stop_ne (by decide))
  | stopReturns joining =>
      exact ⟨fits.waitingWorkers, fits.waitingProducers, fits.workers, fits.producers⟩

/-! What does not fit strands somebody. -/

def CanStrand (s : ThreadPool Task) : Prop :=
  ∃ more final, Execution.run step s more = some final ∧ final.Stranded

def Approaches (s : ThreadPool Task) : Prop :=
  s.Stranded ∨ ∃ action next, s.step action = some next ∧ next.ahead < s.ahead ∧ ¬Fits next

/-- First of all who owes a notification gives it: it is lost, or it releases a
thread that will return. -/
theorem approaches_notifyNotEmpty (short : ¬Fits s) (due : 0 < s.notEmptyDue) : s.Approaches := by
  obtain ⟨i, producer, found, notifies⟩ := exists_of_countP_pos due
  have put : producer = .put := by
    cases producer <;> first | rfl | cases notifies
  subst put
  obtain ⟨target, workers, notified⟩ := notify_possible Worker.wake s.workers
  have moved : s.step (.notifyNotEmpty i target) =
      some { s.setProducer i .done with workers := workers } := by
    simp only [step, found, notified, Option.map_some]
  obtain ⟨same, less⟩ := notifyNotEmpty_neutral found (.of_notify notified) rfl
  exact .inr ⟨_, _, moved, less, fun fits => short (same.mp fits)⟩

theorem approaches_notifyNotFull (short : ¬Fits s) (due : 0 < s.notFullDue) : s.Approaches := by
  obtain ⟨i, worker, found, notifies⟩ := exists_of_countP_pos due
  have took : worker = .took := by
    cases worker <;> first | rfl | cases notifies
  subst took
  obtain ⟨target, producers, notified⟩ := notify_possible Producer.wake s.producers
  have moved : s.step (.notifyNotFull i target) =
      some { s.setWorker i .running with producers := producers } := by
    simp only [step, found, notified, if_true, Option.map_some]
  obtain ⟨same, less⟩ := notifyNotFull_neutral found (.of_notify notified) rfl
  exact .inr ⟨_, _, moved, less, fun fits => short (same.mp fits)⟩

theorem WorkerMoved.approaches {action : Action Task} {before after : Worker}
    (moved : WorkerMoved s next i before after) (step : s.step action = some next)
    (less : after.toGo < before.toGo) (short : ¬Fits next) : s.Approaches := by
  have ahead := moved.ahead
  exact .inr ⟨action, next, step, by omega, short⟩

theorem ProducerMoved.approaches {action : Action Task} {before after : Producer Task}
    (moved : ProducerMoved s next i before after) (step : s.step action = some next)
    (less : after.toGo < before.toGo) (short : ¬Fits next) : s.Approaches := by
  have ahead := moved.ahead
  exact .inr ⟨action, next, step, by omega, short⟩

theorem not_waiting_of_inside {phase : Monitor.Phase} (inside : phase.inside = true) :
    phase.isWaiting = false := by
  cases phase <;> first | rfl | cases inside

section Quiet
variable (quiet : s.notEmptyDue = 0 ∧ s.notFullDue = 0)
include quiet

theorem WorkerMoved.not_fits {before after : Worker} (moved : WorkerMoved s next i before after)
    (short : ¬Fits s) (served : ¬s.Stranded) (alone : s.producersIn Monitor.Phase.inside = 0)
    (awake : before.within Monitor.Phase.isWaiting = false)
    (owes : after.notifies.toNat + (after.within Monitor.Phase.inside).toNat =
      before.notifies.toNat + (before.within Monitor.Phase.inside).toNat)
    (lacks : next.queue.length + (before.within Monitor.Phase.entering).toNat ≤
      s.queue.length + (after.within Monitor.Phase.entering).toNat)
    (room : s.queue.length + (after.within Monitor.Phase.inside).toNat ≤
      next.queue.length + (before.within Monitor.Phase.inside).toNat) :
    ¬Fits next := by
  have waiting := moved.workersIn Monitor.Phase.isWaiting
  have entering := moved.workersIn Monitor.Phase.entering
  have inside := moved.workersIn Monitor.Phase.inside
  have notFull := moved.notFullDue
  rw [awake, Bool.toNat_false] at waiting
  rw [stranded_iff] at served
  rintro ⟨waitingWorkers, waitingProducers, workers, producers⟩
  refine short ⟨?_, ?_, ?_, ?_⟩
  all_goals
    simp only [moved.producersIn, moved.notEmptyDue, moved.maxQueueSize] at *
    omega

theorem ProducerMoved.not_fits {before after : Producer Task}
    (moved : ProducerMoved s next i before after)
    (short : ¬Fits s) (served : ¬s.Stranded) (alone : s.workersIn Monitor.Phase.inside = 0)
    (awake : before.within Monitor.Phase.isWaiting = false)
    (owes : after.notifies.toNat + (after.within Monitor.Phase.inside).toNat =
      before.notifies.toNat + (before.within Monitor.Phase.inside).toNat)
    (lacks : next.queue.length + (after.within Monitor.Phase.inside).toNat ≤
      s.queue.length + (before.within Monitor.Phase.inside).toNat)
    (room : s.queue.length + (before.within Monitor.Phase.entering).toNat ≤
      next.queue.length + (after.within Monitor.Phase.entering).toNat) :
    ¬Fits next := by
  have waiting := moved.producersIn Monitor.Phase.isWaiting
  have entering := moved.producersIn Monitor.Phase.entering
  have inside := moved.producersIn Monitor.Phase.inside
  have notEmpty := moved.notEmptyDue
  rw [awake, Bool.toNat_false] at waiting
  rw [stranded_iff] at served
  rintro ⟨waitingWorkers, waitingProducers, workers, producers⟩
  refine short ⟨?_, ?_, ?_, ?_⟩
  all_goals
    simp only [moved.workersIn, moved.notFullDue, moved.maxQueueSize] at *
    omega

theorem WorkerMoved.not_fits_of_waits {before after : Worker}
    (moved : WorkerMoved s next i before after) (alone : s.producersIn Monitor.Phase.inside = 0)
    (waits : 0 < s.workersIn Monitor.Phase.isWaiting +
      (after.within Monitor.Phase.isWaiting).toNat)
    (awake : before.within Monitor.Phase.isWaiting = false) : ¬Fits next := by
  have waiting := moved.workersIn Monitor.Phase.isWaiting
  rw [awake, Bool.toNat_false] at waiting
  intro fits
  have released := fits.waitingWorkers (by omega)
  rw [moved.producersIn, moved.notEmptyDue, quiet.1, alone] at released
  omega

theorem ProducerMoved.not_fits_of_waits {before after : Producer Task}
    (moved : ProducerMoved s next i before after) (alone : s.workersIn Monitor.Phase.inside = 0)
    (waits : 0 < s.producersIn Monitor.Phase.isWaiting +
      (after.within Monitor.Phase.isWaiting).toNat)
    (awake : before.within Monitor.Phase.isWaiting = false) : ¬Fits next := by
  have waiting := moved.producersIn Monitor.Phase.isWaiting
  rw [awake, Bool.toNat_false] at waiting
  intro fits
  have released := fits.waitingProducers (by omega)
  rw [moved.workersIn, moved.notFullDue, quiet.2, alone] at released
  omega

theorem approaches_worker_inside (inv : Inv s) (short : ¬Fits s) (served : ¬s.Stranded)
    {phase : Monitor.Phase} (found : s.workers[i]? = some (.taking phase))
    (inside : phase.inside = true) : s.Approaches := by
  have alone := inv.worker_alone found (inside_holds inside)
  have awake : (Worker.taking phase).within Monitor.Phase.isWaiting = false :=
    not_waiting_of_inside inside
  have toGo := Worker.toGo_inside inside
  cases queue : s.queue with
  | nil =>
      have moved : WorkerMoved s { s.setWorker i (.taking .waiting) with lock := false } i
        (.taking phase) (.taking .waiting) := ⟨found, rfl, rfl, rfl⟩
      exact moved.approaches (worker_waits found inside queue) (by rw [toGo]; decide)
        (moved.not_fits_of_waits quiet alone (Nat.succ_pos _) awake)
  | cons task rest =>
      have in_lock : (Worker.taking phase).within Monitor.Phase.inside = true := inside
      have coming : (Worker.taking phase).within Monitor.Phase.entering = true :=
        inside_entering inside
      have moved : WorkerMoved s { s.setWorker i .took with
          lock := false, queue := rest, taken := s.taken ++ [(i, task)] } i (.taking phase) .took :=
        ⟨found, rfl, rfl, rfl⟩
      refine moved.approaches (worker_takes found inside queue) (by rw [toGo]; decide) ?_
      refine moved.not_fits quiet short served alone awake ?_ ?_ ?_
      · rw [in_lock]; rfl
      · rw [coming, queue]; exact Nat.le_refl _
      · rw [in_lock, queue]; exact Nat.le_refl _

theorem approaches_producer_inside (inv : Inv s) (short : ¬Fits s) (served : ¬s.Stranded)
    {phase : Monitor.Phase} {task : Task} (found : s.producers[i]? = some (.putting phase task))
    (inside : phase.inside = true) : s.Approaches := by
  have alone := inv.producer_alone found (inside_holds inside)
  have awake : (Producer.putting phase task).within Monitor.Phase.isWaiting = false :=
    not_waiting_of_inside inside
  have toGo : (Producer.putting phase task).toGo = 4 := Producer.toGo_inside inside
  cases full : s.isFull with
  | true =>
      have moved : ProducerMoved s { s.setProducer i (.putting .waiting task) with lock := false } i
        (.putting phase task) (.putting .waiting task) := ⟨found, rfl, rfl, rfl⟩
      refine moved.approaches (producer_waits found inside full) ?_
        (moved.not_fits_of_waits quiet alone (Nat.succ_pos _) awake)
      rw [toGo]
      exact Nat.zero_lt_succ 3
  | false =>
      have in_lock : (Producer.putting phase task).within Monitor.Phase.inside = true := inside
      have coming : (Producer.putting phase task).within Monitor.Phase.entering = true :=
        inside_entering inside
      have moved : ProducerMoved s { s.setProducer i .put with
          lock := false, queue := s.queue ++ [task], accepted := s.accepted ++ [task] } i
          (.putting phase task) .put := ⟨found, rfl, rfl, rfl⟩
      refine moved.approaches (producer_puts found inside full) ?_ ?_
      · rw [toGo]
        exact Nat.lt_succ_self 3
      refine moved.not_fits quiet short served alone awake ?_ ?_ ?_
      · rw [in_lock]; rfl
      · rw [in_lock, List.length_append]; exact Nat.le_refl _
      · rw [coming, List.length_append]; exact Nat.le_refl _

theorem approaches_held (inv : Inv s) (off : s.running = false) (held : s.lock = true)
    (short : ¬Fits s) (served : ¬s.Stranded) : s.Approaches := by
  rcases inv.holder held with ⟨i, phase, found, holds⟩ | ⟨i, phase, task, found, holds⟩
  · rcases holds_cases holds with inside | ⟨signalled, rfl⟩
    · exact approaches_worker_inside quiet inv short served found inside
    · have moved : WorkerMoved s { s.setWorker i .done with lock := false } i
        (.taking (.relocked signalled)) .done := ⟨found, rfl, rfl, rfl⟩
      refine moved.approaches (worker_returns found off) (Nat.zero_lt_succ 0) ?_
      exact moved.not_fits quiet short served (inv.worker_alone found rfl) rfl rfl
        (Nat.le_refl _) (Nat.le_refl _)
  · rcases holds_cases holds with inside | ⟨signalled, rfl⟩
    · exact approaches_producer_inside quiet inv short served found inside
    · have moved : ProducerMoved s { s.setProducer i .done with lock := false } i
        (.putting (.relocked signalled) task) .done := ⟨found, rfl, rfl, rfl⟩
      refine moved.approaches (producer_returns found off) (Nat.zero_lt_succ 0) ?_
      exact moved.not_fits quiet short served (inv.producer_alone found rfl) rfl rfl
        (Nat.le_refl _) (Nat.le_refl _)

theorem approaches_relocking_worker (inv : Inv s) (free : s.lock = false) (served : ¬s.Stranded)
    (waits : 0 < s.workersIn Monitor.Phase.isWaiting) : s.Approaches := by
  rw [stranded_iff, quiet.1] at served
  obtain ⟨i, worker, found, signalled⟩ := exists_of_countP_pos
    (show 0 < s.workersIn Monitor.Phase.signalled by omega)
  cases worker with
  | taking phase =>
      have idle := inv.free_worker free found
      cases phase with
      | woken released =>
          have moved : WorkerMoved s
            { s.setWorker i (.taking (.relocked released)) with lock := true } i
            (.taking (.woken released)) (.taking (.relocked released)) := ⟨found, rfl, rfl, rfl⟩
          exact moved.approaches (worker_relocks found free) (Nat.lt_succ_self 1)
            (moved.not_fits_of_waits quiet (inv.nobody_inside free).2 waits rfl)
      | relocked released => cases idle
      | rechecked released => cases idle
      | _ => cases signalled
  | _ => cases signalled

theorem approaches_relocking_producer (inv : Inv s) (free : s.lock = false) (served : ¬s.Stranded)
    (waits : 0 < s.producersIn Monitor.Phase.isWaiting) : s.Approaches := by
  rw [stranded_iff, quiet.2] at served
  obtain ⟨i, producer, found, signalled⟩ := exists_of_countP_pos
    (show 0 < s.producersIn Monitor.Phase.signalled by omega)
  cases producer with
  | putting phase task =>
      have idle := inv.free_producer free found
      cases phase with
      | woken released =>
          have moved : ProducerMoved s
            { s.setProducer i (.putting (.relocked released) task) with lock := true } i
            (.putting (.woken released) task) (.putting (.relocked released) task) :=
              ⟨found, rfl, rfl, rfl⟩
          exact moved.approaches (producer_relocks found free) (Nat.lt_succ_self 1)
            (moved.not_fits_of_waits quiet (inv.nobody_inside free).1 waits rfl)
      | relocked released => cases idle
      | rechecked released => cases idle
      | _ => cases signalled
  | _ => cases signalled

end Quiet

theorem entering_free {phase : Monitor.Phase} (entering : phase.entering = true)
    (idle : phase.holds = false) : phase = .locking := by
  cases phase with
  | locking => rfl
  | locked => cases idle
  | rechecked signalled => cases idle
  | waiting => cases entering
  | woken signalled => cases entering
  | relocked signalled => cases entering

theorem WorkerMoved.not_fits_of_short {before after : Worker}
    (moved : WorkerMoved s next i before after) (queue : next.queue = s.queue)
    (entering : after.within Monitor.Phase.entering = before.within Monitor.Phase.entering)
    (short : s.queue.length + s.producersIn Monitor.Phase.inside <
      s.workersIn Monitor.Phase.entering) : ¬Fits next := by
  have still := moved.workersIn Monitor.Phase.entering
  rw [entering] at still
  intro fits
  have workers := fits.workers
  rw [moved.producersIn, queue] at workers
  omega

theorem ProducerMoved.not_fits_of_short {before after : Producer Task}
    (moved : ProducerMoved s next i before after) (queue : next.queue = s.queue)
    (entering : after.within Monitor.Phase.entering = before.within Monitor.Phase.entering)
    (limited : 0 < s.maxQueueSize)
    (short : s.maxQueueSize.toNat + s.workersIn Monitor.Phase.inside <
      s.queue.length + s.producersIn Monitor.Phase.entering) : ¬Fits next := by
  have still := moved.producersIn Monitor.Phase.entering
  rw [entering] at still
  intro fits
  have producers := fits.producers (moved.maxQueueSize ▸ limited)
  rw [moved.workersIn, moved.maxQueueSize, queue] at producers
  omega

theorem approaches_locking_worker (inv : Inv s) (free : s.lock = false)
    (short : s.queue.length + s.producersIn Monitor.Phase.inside <
      s.workersIn Monitor.Phase.entering) : s.Approaches := by
  obtain ⟨i, worker, found, entering⟩ := exists_of_countP_pos (Nat.zero_lt_of_lt short)
  cases worker with
  | taking phase =>
      have locking := entering_free entering (inv.free_worker free found)
      subst locking
      have moved : WorkerMoved s { s.setWorker i (.taking .locked) with lock := true } i
        (.taking .locking) (.taking .locked) := ⟨found, rfl, rfl, rfl⟩
      exact moved.approaches (worker_locks found free) (by decide)
        (moved.not_fits_of_short rfl rfl short)
  | _ => cases entering

theorem approaches_locking_producer (inv : Inv s) (free : s.lock = false)
    (limited : 0 < s.maxQueueSize)
    (short : s.maxQueueSize.toNat + s.workersIn Monitor.Phase.inside <
      s.queue.length + s.producersIn Monitor.Phase.entering) : s.Approaches := by
  have bounded := inv.bounded limited
  obtain ⟨i, producer, found, entering⟩ := exists_of_countP_pos
    (show 0 < s.producersIn Monitor.Phase.entering by omega)
  cases producer with
  | putting phase task =>
      have locking := entering_free entering (inv.free_producer free found)
      subst locking
      have moved : ProducerMoved s { s.setProducer i (.putting .locked task) with lock := true } i
        (.putting .locking task) (.putting .locked task) := ⟨found, rfl, rfl, rfl⟩
      exact moved.approaches (producer_locks found free) (Nat.lt_succ_self 4)
        (moved.not_fits_of_short rfl rfl limited short)
  | _ => cases entering

/-- With the mutex free and nobody to notify, who waits is left to those that a
signal released; where nobody waits too many are on their way. -/
theorem approaches_free (inv : Inv s) (free : s.lock = false)
    (quiet : s.notEmptyDue = 0 ∧ s.notFullDue = 0) (short : ¬Fits s) (served : ¬s.Stranded) :
    s.Approaches := by
  by_cases workerWaits : 0 < s.workersIn Monitor.Phase.isWaiting
  · exact approaches_relocking_worker quiet inv free served workerWaits
  by_cases producerWaits : 0 < s.producersIn Monitor.Phase.isWaiting
  · exact approaches_relocking_producer quiet inv free served producerWaits
  by_cases tasks : s.workersIn Monitor.Phase.entering ≤
      s.queue.length + s.producersIn Monitor.Phase.inside
  · by_cases limited : 0 < s.maxQueueSize
    · refine approaches_locking_producer inv free limited (Nat.lt_of_not_le fun room => ?_)
      exact short ⟨fun waits => absurd waits workerWaits, fun waits => absurd waits producerWaits,
        tasks, fun _ => room⟩
    · exact absurd ⟨fun waits => absurd waits workerWaits, fun waits => absurd waits producerWaits,
        tasks, fun positive => absurd positive limited⟩ short
  · exact approaches_locking_worker inv free (Nat.lt_of_not_le tasks)

theorem approaches (inv : Inv s) (past : s.Broadcast) (short : ¬Fits s) : s.Approaches := by
  by_cases served : s.Stranded
  · exact .inl served
  by_cases notEmpty : 0 < s.notEmptyDue
  · exact approaches_notifyNotEmpty short notEmpty
  by_cases notFull : 0 < s.notFullDue
  · exact approaches_notifyNotFull short notFull
  have quiet : s.notEmptyDue = 0 ∧ s.notFullDue = 0 := by omega
  cases held : s.lock with
  | true => exact approaches_held quiet inv (past.off inv) held short served
  | false => exact approaches_free inv held quiet short served

theorem canStrand_of_not_fits (inv : Inv s) (past : s.Broadcast) (short : ¬Fits s) :
    s.CanStrand := by
  induction steps : s.ahead using Nat.strongRecOn generalizing s with
  | ind count ih =>
      rcases approaches inv past short with stranded | ⟨action, next, moved, closer, still⟩
      · exact ⟨[], s, rfl, stranded⟩
      · have stepped := step_stepped moved
        obtain ⟨more, final, ran, stranded⟩ :=
          ih next.ahead (steps ▸ closer) (inv.stepped stepped) (past.step stepped) still rfl
        exact ⟨action :: more, final, run_cons_some.mpr ⟨next, moved, ran⟩, stranded⟩

/-- Behind both broadcasts of `Stop` no thread is ever stranded exactly when
those that wait or are on their way to the queue fit. -/
theorem never_stranded_iff_fits {maxQueueSize : Int} {actions : List (Action Task)}
    (ran : Execution.run step (init maxQueueSize) actions = some s) (past : s.Broadcast) :
    (∀ more final, Execution.run step s more = some final → ¬final.Stranded) ↔ Fits s := by
  have inv : Inv s := .of_run ran
  constructor
  · intro never
    apply Classical.byContradiction
    intro short
    obtain ⟨more, final, later, stranded⟩ := canStrand_of_not_fits inv past short
    exact never more final later stranded
  · intro fits more final later
    have kept := run_invariant (fun s => Inv s ∧ s.Broadcast ∧ Fits s)
      (fun s action next ⟨inv, past, fits⟩ moved =>
        ⟨inv.stepped (step_stepped moved), past.step (step_stepped moved),
          fits.step inv past (step_stepped moved)⟩)
      ⟨inv, past, fits⟩ later
    exact kept.2.2.not_stranded

/-- One worker waits and the other comes back to the queue when `Stop` is called.
The producer that has put a task notifies behind the broadcasts. -/
def servedRun : List (Action Nat) :=
  [.start 2, .startThread, .startThread, .worker 0, .worker 0, .worker 0, .worker 0,
    .worker 1, .worker 1, .run (some 7), .producer 0, .producer 0, .stop, .stop, .stop]

theorem stop_reaches_workers :
    ∃ s, Execution.run step (init (-1)) servedRun = some s ∧ s.Broadcast ∧
      s.workersIn Monitor.Phase.entering = 1 ∧
      ∀ more final, Execution.run step s more = some final → ¬final.Stranded := by
  refine ⟨_, rfl, .inl rfl, rfl, ?_⟩
  have ran : Execution.run step (init (-1)) servedRun = some _ := rfl
  exact (never_stranded_iff_fits ran (.inl rfl)).mpr
    ⟨by decide, by decide, by decide, by decide⟩

/-- The worker has read `running_` when `Stop` stores it, and looks at the queue
when both broadcasts are over. -/
def missedRun : List (Action Nat) :=
  [.start 1, .startThread, .worker 0, .worker 0, .stop, .stop, .stop, .worker 0, .worker 0]

theorem stop_misses_worker :
    ∃ s, Execution.run step (init (-1)) missedRun = some s ∧ s.Broadcast ∧
      Worker.taking .waiting ∈ s.workers ∧ ¬s.NotEmptySignal := by
  exact ⟨_, rfl, .inl rfl, by decide, by decide⟩

end Muzi.ThreadPool
