import Mathlib
import Muzi.Connector

/-!
The delays of the connector's retry timers. `Retry` arms a timer with `retry_delay_` and
doubles it up to `kMaxRetryDelayMs`; only `ReStartInLoop` sets it back. The history has
the delays of the timers armed since then.
-/

namespace Muzi.Connector

open Execution

/-- A timer was armed with `delay`, or `retry_delay_` is as it was. -/
def Arms (delay : Nat) (c next : Connector) : Prop :=
  next.nextTimer = c.nextTimer ∧ next.retryDelay = delay ∨
    next.nextTimer = c.nextTimer + 1 ∧ next.retryDelay = min (delay * 2) kMaxRetryDelayMs

theorem retry_arms (c : Connector) (id : Nat) : Arms c.retryDelay c (c.retry id) := by
  unfold retry
  dsimp only
  split
  · exact .inr ⟨rfl, rfl⟩
  · exact .inl ⟨rfl, rfl⟩

theorem connectWith_arms (errno : Errno) (c : Connector) :
    Arms c.retryDelay c (c.connectWith errno) := by
  cases errno with
  | success | eInProgress | eIntr | eIsConn => exact .inl ⟨rfl, rfl⟩
  | eAgain | eAddrInUse | eAddrNotAvail | eConnRefused | eNetUnreach =>
      exact retry_arms { c with created := c.created + 1 } c.created
  | eAcces | ePerm | eAfNoSupport | eAlready | eBadF | eFault | eNotSock | other =>
      exact .inl ⟨rfl, rfl⟩

theorem startInLoop_arms (errno : Errno) (c : Connector) :
    Arms c.retryDelay c (c.startInLoop errno) := by
  unfold startInLoop
  split
  · exact connectWith_arms errno c
  · exact .inl ⟨rfl, rfl⟩

theorem stopInLoop_arms {c next : Connector} (stopped : c.stopInLoop = some next) :
    Arms c.retryDelay c next := by
  unfold stopInLoop at stopped
  split at stopped
  · obtain ⟨⟨id, removed⟩, withdrawn, rfl⟩ := Option.map_eq_some_iff.mp stopped
    obtain ⟨_, -, made⟩ := Option.map_eq_some_iff.mp withdrawn
    cases made
    exact retry_arms (c.cancelTimer.withdraw id) id
  · cases stopped
    exact .inl ⟨rfl, rfl⟩

theorem handleWrite_arms {c next : Connector} {err : Nat} {isSelfConnect : Bool}
    (handled : c.handleWrite err isSelfConnect = some next) : Arms c.retryDelay c next := by
  unfold handleWrite at handled
  split at handled
  · obtain ⟨⟨id, removed⟩, withdrawn, rfl⟩ := Option.map_eq_some_iff.mp handled
    obtain ⟨_, -, made⟩ := Option.map_eq_some_iff.mp withdrawn
    cases made
    dsimp only
    split
    · exact retry_arms (c.withdraw id) id
    · split
      · exact retry_arms (c.withdraw id) id
      · split
        · exact .inl ⟨rfl, rfl⟩
        · exact .inl ⟨rfl, rfl⟩
  · cases handled
    exact .inl ⟨rfl, rfl⟩

/-- What `retry_delay_` is when a step comes to `Retry`. -/
def delayIn (c : Connector) (action : Action) : Nat :=
  if action.reStarts then kInitRetryDelayMs else c.retryDelay

theorem step_arms {c next : Connector} {action : Action} (stepped : c.step action = some next) :
    Arms (c.delayIn action) c next := by
  cases action with
  | start errno =>
      cases stepped
      exact startInLoop_arms errno { c with connect := true }
  | stop => exact stopInLoop_arms (c := { c with connect := false }) stepped
  | reStartInLoop errno =>
      cases stepped
      exact startInLoop_arms errno
        { c with connect := true, state := .kDisConnected, retryDelay := kInitRetryDelayMs }
  | handleWrite err isSelfConnect => exact handleWrite_arms stepped
  | expire timer =>
      obtain ⟨-, ran⟩ := Option.ite_none_right_eq_some.mp stepped
      cases ran
      exact .inl ⟨rfl, rfl⟩
  | fire timer errno =>
      obtain ⟨-, ran⟩ := Option.ite_none_right_eq_some.mp stepped
      cases ran
      exact startInLoop_arms errno { c with expired := c.expired.erase timer }
  | runFunctor errno =>
      simp only [step] at stepped
      split at stepped
      · cases stepped
      · cases stepped
        exact .inl ⟨rfl, rfl⟩
      · rename_i rest _
        cases stepped
        exact startInLoop_arms errno { c with functors := rest }
      · rename_i rest _
        exact stopInLoop_arms (c := { c with functors := rest }) stepped
  | storeConnect value =>
      cases stepped
      exact .inl ⟨rfl, rfl⟩
  | pushStart | pushStop =>
      cases stepped
      exact .inl ⟨rfl, rfl⟩

structure Retries where
  connector : Connector
  /-- The delays of the timers armed since the last `ReStartInLoop`. -/
  delays : List Nat

namespace Retries

def since (r : Retries) (action : Action) : List Nat :=
  if action.reStarts then [] else r.delays

def step (r : Retries) (action : Action) : Option Retries :=
  (r.connector.step action).map fun next =>
    ⟨next, if next.nextTimer = r.connector.nextTimer then r.since action
      else r.since action ++ [r.connector.delayIn action]⟩

/-- The delay of the retry number `i`. -/
def backoff (i : Nat) : Nat := min (kInitRetryDelayMs * 2 ^ i) kMaxRetryDelayMs

theorem backoff_succ (i : Nat) : backoff (i + 1) = min (backoff i * 2) kMaxRetryDelayMs := by
  simp only [backoff, kInitRetryDelayMs, kMaxRetryDelayMs, pow_succ]
  omega

structure Doubling (r : Retries) : Prop where
  delay : r.connector.retryDelay = backoff r.delays.length
  delays : r.delays = (List.range r.delays.length).map backoff

theorem step_doubling (r : Retries) (action : Action) (next : Retries) (doubling : Doubling r)
    (stepped : r.step action = some next) : Doubling next := by
  obtain ⟨c, moved, rfl⟩ := Option.map_eq_some_iff.mp stepped
  have before : r.connector.delayIn action = backoff (r.since action).length ∧
      r.since action = (List.range (r.since action).length).map backoff := by
    unfold delayIn since
    cases action.reStarts with
    | true => exact ⟨rfl, rfl⟩
    | false => exact ⟨doubling.delay, doubling.delays⟩
  rcases step_arms moved with ⟨timer, delay⟩ | ⟨timer, delay⟩
  · rw [if_pos timer]
    exact ⟨delay.trans before.1, before.2⟩
  · rw [if_neg (by omega), before.1]
    refine ⟨?_, ?_⟩
    · rw [delay, before.1, List.length_append, List.length_singleton, backoff_succ]
    · rw [List.length_append, List.length_singleton, List.range_succ, List.map_append, ← before.2]
      rfl

end Retries

/-- Over every run of the connector, with any answers of the kernel: the retry number `i` since
the last `ReStartInLoop` waits for 500 ms doubled `i` times, and never for more than 30 s. -/
theorem retry_delays_double (newConnectionCallback : Bool) (actions : List Action) (r : Retries)
    (ran : run Retries.step ⟨init newConnectionCallback, []⟩ actions = some r) :
    ∀ i (inside : i < r.delays.length), r.delays[i] = min (500 * 2 ^ i) 30000 := by
  have begun : Retries.Doubling ⟨init newConnectionCallback, []⟩ := ⟨rfl, rfl⟩
  have doubling := run_invariant Retries.Doubling Retries.step_doubling begun ran
  intro i inside
  have same := List.getElem_of_eq doubling.delays inside
  rw [same, List.getElem_map, List.getElem_range]
  rfl

def refused : List Action :=
  .start .eConnRefused ::
    (List.range 6).flatMap fun timer => [.expire timer, .fire timer .eConnRefused]

theorem refused_delays : ∃ r, run Retries.step ⟨init true, []⟩ refused = some r ∧
    r.delays.length = 7 ∧ ∀ i (inside : i < r.delays.length),
      r.delays[i] = min (500 * 2 ^ i) 30000 := by
  obtain ⟨r, ran, seven⟩ : ∃ r, run Retries.step ⟨init true, []⟩ refused = some r ∧
      r.delays.length = 7 := ⟨_, rfl, rfl⟩
  exact ⟨r, ran, seven, retry_delays_double true refused r ran⟩

end Muzi.Connector
