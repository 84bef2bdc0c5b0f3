import Muzi.TimerQueue

/-!
The timer fd is armed early enough. It is set by an insertion that becomes the
earliest and at the end of `HandleRead`, never by a cancel. `ResetTimerFd` reads
the clock once, and the fd counts from that reading.
-/

namespace Muzi

open Execution

/-- Set to a delay that is not zero, and early enough for a timer due at `time`. -/
structure Armed.Serves (armed : Armed) (time : Int) : Prop where
  nonzero : armed.tvSec ≠ 0 ∨ armed.tvNsec ≠ 0
  early : armed.deadline ≤ max time (armed.armedAt + 10) * 1000

theorem resetDelay_pos (time clock : Int) : 0 < resetDelay time clock := by
  unfold resetDelay
  split
  · assumption
  · decide

theorem resetDelay_le (time clock : Int) :
    clock + resetDelay time clock ≤ max time (clock + 10) := by
  unfold resetDelay
  split
  · omega
  · omega

/-- The seconds and nanoseconds that `ResetTimerFd` computes are well formed and
make up the delay. -/
theorem resetTimerFd_serves (fd : Option Armed) (time clock : Int) :
    ∃ armed, resetTimerFd fd time clock = some armed ∧ armed.Serves time := by
  have positive := resetDelay_pos time clock
  have bound := resetDelay_le time clock
  unfold resetTimerFd
  generalize resetDelay time clock = delay at positive bound ⊢
  have seconds : delay.tdiv 1000000 = delay / 1000000 := Int.tdiv_eq_ediv_of_nonneg positive.le
  have rest : delay.tmod 1000000 = delay % 1000000 := Int.tmod_eq_emod_of_nonneg positive.le
  rw [seconds, rest]
  have formed : ¬(delay / 1000000 < 0 ∨ delay % 1000000 * 1000 < 0 ∨
      1000000000 ≤ delay % 1000000 * 1000) := by omega
  have nonzero : ¬(delay / 1000000 = 0 ∧ delay % 1000000 * 1000 = 0) := by omega
  refine ⟨⟨clock, delay / 1000000, delay % 1000000 * 1000⟩, ?_, ?_, ?_⟩
  · rw [timerfdSettime, if_neg formed, if_neg nonzero]
  · simp only
    omega
  · simp only [Armed.deadline]
    omega

theorem Armed.Serves.later {armed : Armed} {time other : Int} (serves : armed.Serves time)
    (order : time ≤ other) : armed.Serves other := by
  refine ⟨serves.nonzero, ?_⟩
  have early := serves.early
  omega

namespace TimerQueue

/-- The fd serves every timer of `timers_`. -/
def Watched (q : TimerQueue) : Prop :=
  ∃ armed, q.timerFd = some armed ∧ ∀ timer ∈ q.timers, armed.Serves timer.expiration

def Positive : Action → Prop
  | .addTimerInLoop timer _ => 0 < timer.expiration
  | .handleRead now => 0 < now
  | _ => True

structure Guarded (q : TimerQueue) : Prop where
  coherent : q.Coherent
  positive : ∀ timer ∈ q.live, 0 < timer.expiration
  reading : ∀ now, q.phase.reading = some now → 0 < now
  watched : q.phase = .outside → q.timers ≠ [] → q.Watched

theorem Filed.first_le {q : TimerQueue} (filed : q.Filed) {first : Timer} {rest : List Timer}
    (timers : q.timers = first :: rest) {timer : Timer} (member : timer ∈ q.timers) :
    first.expiration ≤ timer.expiration := by
  have ascending := filed.ascending
  rw [timers] at ascending member
  rcases List.mem_cons.mp member with same | behind
  · rw [same]
  · exact ((List.pairwise_cons.mp ascending).1 timer behind).expiration_le

theorem Filed.earliest_le {q : TimerQueue} (filed : q.Filed) {timer other : Timer}
    (earliest : q.isEarliest timer = true) (member : other ∈ q.timers) :
    timer.expiration ≤ other.expiration := by
  cases timers : q.timers with
  | nil =>
      rw [timers] at member
      cases member
  | cons first rest =>
      have order := filed.first_le timers member
      rw [isEarliest, timers] at earliest
      have before := of_decide_eq_true earliest
      omega

/-- An insertion arms the fd if it becomes the earliest; if it does not, the fd is
early enough for the timer in front of it. -/
theorem Guarded.added {q : TimerQueue} (guarded : q.Guarded) (outside : q.phase = .outside)
    (timer : Timer) (clock : Int) : (q.added timer clock).Watched := by
  have filed := guarded.coherent.filed
  have members : ∀ other ∈ (q.added timer clock).timers, other = timer ∨ other ∈ q.timers := by
    intro other member
    exact List.mem_cons.mp ((q.filedWith_timers timer).mem_iff.mp member)
  by_cases earliest : q.isEarliest timer = true
  · rcases resetTimerFd_serves q.timerFd timer.expiration clock with ⟨armed, set, serves⟩
    refine ⟨armed, ?_, ?_⟩
    · simp only [TimerQueue.added, earliest, if_true]
      exact set
    · intro other member
      rcases members other member with same | old
      · rw [same]
        exact serves
      · exact serves.later (filed.earliest_le earliest old)
  · cases timers : q.timers with
    | nil => simp [isEarliest, timers] at earliest
    | cons first rest =>
        have inside : first ∈ q.timers := by
          rw [timers]
          exact List.mem_cons_self
        rcases guarded.watched outside (List.ne_nil_of_mem inside) with ⟨armed, set, serves⟩
        refine ⟨armed, ?_, ?_⟩
        · simp only [TimerQueue.added, earliest]
          exact set
        · intro other member
          rcases members other member with same | old
          · rw [isEarliest, timers] at earliest
            have order : first.expiration ≤ timer.expiration := by simpa using earliest
            rw [same]
            exact (serves first inside).later order
          · exact serves other old

theorem resetNext_watched {q : TimerQueue} (filed : q.Filed)
    (positive : ∀ timer ∈ q.timers, 0 < timer.expiration) (pending : q.timers ≠ []) (clock : Int) :
    (q.resetNext clock).Watched := by
  cases timers : q.timers with
  | nil => exact absurd timers pending
  | cons first rest =>
      have inside : first ∈ q.timers := by
        rw [timers]
        exact List.mem_cons_self
      rcases resetTimerFd_serves q.timerFd first.expiration clock with ⟨armed, set, serves⟩
      have reset : q.resetNext clock =
          { q with timerFd := resetTimerFd q.timerFd first.expiration clock } := by
        simp only [resetNext, timers, positive first inside, if_true]
      refine ⟨armed, ?_, ?_⟩
      · rw [reset]
        exact set
      · intro timer member
        rw [reset] at member
        exact serves.later (filed.first_le timers member)

theorem Guarded.withdrawn {q : TimerQueue} (guarded : q.Guarded) (outside : q.phase = .outside)
    {timerId : Nat} (pending : (q.withdrawn timerId).timers ≠ []) :
    (q.withdrawn timerId).Watched := by
  have kept : ∀ timer ∈ (q.withdrawn timerId).timers, timer ∈ q.timers :=
    fun timer => List.mem_of_mem_filter
  rcases List.exists_mem_of_ne_nil _ pending with ⟨timer, member⟩
  rcases guarded.watched outside (List.ne_nil_of_mem (kept timer member)) with
    ⟨armed, set, serves⟩
  exact ⟨armed, set, fun other inside => serves other (kept other inside)⟩

theorem Guarded.step_positive {q next : TimerQueue} {action : Action} (guarded : q.Guarded)
    (promised : Positive action) (moved : Moves q action next) :
    ∀ timer ∈ next.live, 0 < timer.expiration := by
  intro timer member
  rcases moved.live_cases guarded.coherent member with
    ⟨clock, rfl⟩ | old | ⟨old, -, now, reading, repeats, rfl⟩
  · exact promised
  · exact guarded.positive timer old
  · have forward := old.interval.forward (Bool.and_eq_true_iff.mp repeats).1
    have began := guarded.reading now reading
    simp only [Timer.restart]
    omega

theorem Guarded.step {q next : TimerQueue} {action : Action} (guarded : q.Guarded)
    (promised : Positive action) (stepped : q.step action = some next) : next.Guarded := by
  have moved := step_moves guarded.coherent stepped
  have coherent := moved.coherent guarded.coherent
  have positive := guarded.step_positive promised moved
  refine ⟨coherent, positive, ?_, ?_⟩
  · intro now reading
    cases moved with
    | addTimerInLoop timer clock user new => exact guarded.reading now reading
    | cancelTimerInLoop timerId user => exact guarded.reading now reading
    | handleRead began phase =>
        cases reading
        exact promised
    | runNext began timer rest phase =>
        apply guarded.reading now
        rw [phase]
        exact reading
    | callbackReturn began rest phase =>
        apply guarded.reading now
        rw [phase]
        exact reading
    | resetTimer began clock timers active phase rearmed filed =>
        rw [resetNext_eq] at reading
        cases reading
  · intro outside pending
    cases moved with
    | addTimerInLoop timer clock user new => exact guarded.added outside timer clock
    | cancelTimerInLoop timerId user => exact guarded.withdrawn outside pending
    | handleRead began phase => cases outside
    | runNext began timer rest phase => cases outside
    | callbackReturn began rest phase => cases outside
    | resetTimer began clock timers active phase rearmed filed =>
        have held := positive
        rw [resetNext_eq] at pending held
        apply resetNext_watched
        · exact ⟨filed.ascending, filed.indexed⟩
        · exact fun timer member => held timer (List.mem_append_left _ member)
        · exact pending

theorem init_guarded : init.Guarded where
  coherent := init_coherent
  positive := nofun
  reading := nofun
  watched _ pending := absurd rfl pending

/-- Outside `HandleRead`, as long as a timer is pending the timer fd is set, with
a value that was not zero, to go off no later than the earliest timer or ten
microseconds behind its last setting. -/
theorem timer_fd_armed_early_enough (actions : List Action) (final : TimerQueue)
    (promised : ∀ action ∈ actions, Positive action)
    (ran : run step init actions = some final) (outside : final.phase = .outside)
    (pending : final.timers ≠ []) :
    ∃ armed, final.timerFd = some armed ∧ (armed.tvSec ≠ 0 ∨ armed.tvNsec ≠ 0) ∧
      ∀ timer ∈ final.timers,
        armed.deadline ≤ max timer.expiration (armed.armedAt + 10) * 1000 := by
  have guarded : final.Guarded :=
    run_invariant_along Guarded (fun _ _ _ guarded => guarded.step) init_guarded
      (along_of_forall step promised init) ran
  rcases guarded.watched outside pending with ⟨armed, set, serves⟩
  rcases List.exists_mem_of_ne_nil _ pending with ⟨timer, member⟩
  exact ⟨armed, set, (serves timer member).nonzero, fun other inside => (serves other inside).early⟩

/-- A timer is added, its callback adds an earlier one, and that one is cancelled:
the fd is left at the time of the cancelled timer. -/
def cancelHead : List Action :=
  [.addTimerInLoop ⟨32, 0, 1500000, ⟨true, 2000000, by decide⟩⟩ 1000000,
    .handleRead 1500001, .runNext,
    .addTimerInLoop ⟨64, 1, 1600000, .zero⟩ 1500002, .callbackReturn,
    .resetTimer 1500003, .cancelTimerInLoop 1]

theorem cancel_head_stays_armed : ∃ final, run step init cancelHead = some final ∧
    final.timers.map Timer.expiration = [3500001] ∧
      final.timerFd = some ⟨1500003, 0, 99997000⟩ ∧
      ∃ armed, final.timerFd = some armed ∧ (armed.tvSec ≠ 0 ∨ armed.tvNsec ≠ 0) ∧
        ∀ timer ∈ final.timers,
          armed.deadline ≤ max timer.expiration (armed.armedAt + 10) * 1000 := by
  refine ⟨_, rfl, rfl, rfl, ?_⟩
  apply timer_fd_armed_early_enough cancelHead _ _ rfl rfl nofun
  intro action member
  simp only [cancelHead, List.mem_cons, List.not_mem_nil, or_false] at member
  rcases member with rfl | rfl | rfl | rfl | rfl | rfl | rfl <;> simp [Positive]

end TimerQueue

end Muzi
