import Muzi.CountdownLatch
import Muzi.StopHandshake

/-!
net/tcp_client.cc: all threads that wait on `condition_` of one client. Any number of them
are in `GetConnection`, which waits until `connection_` is there, and in
`DisableConnectAndWait`, which waits once. `NewConnection` and `DisableConnectInLoop` call
`Notify`, and that releases one thread, whichever of the two it is in.
-/

namespace Muzi

namespace GetConnection

open CountdownLatch (Waiter)

inductive Disabler where
  | locking
  | locked
  -- behind `QueueInLoop`, with the lock
  | queued
  | waiting
  | woken
  | returned
  deriving DecidableEq

/-- Where a call is. The loop of `GetConnection` is that of `CountdownLatch::Wait`, with
another condition. -/
inductive Caller where
  | getting (waiter : Waiter)
  | disabling (disabler : Disabler)
  deriving DecidableEq

namespace Caller

def holds : Caller → Bool
  | .getting waiter => waiter.holds
  | .disabling disabler => disabler = .locked || disabler = .queued

def isWaiting : Caller → Bool
  | .getting waiter => waiter.isWaiting
  | .disabling disabler => disabler = .waiting

def isReturned : Caller → Bool
  | .getting waiter => waiter = .returned
  | .disabling disabler => disabler = .returned

def wake (signalled : Bool) : Caller → Option Caller
  | .getting waiter => (waiter.wake signalled).map .getting
  | .disabling .waiting => some (.disabling .woken)
  | .disabling _ => none

end Caller

end GetConnection

structure GetConnection where
  client : TcpClient
  -- a call has `lock_`
  lock : Bool
  callers : List GetConnection.Caller
  /-- How many `DisableConnectInLoop` are in the queue of the loop. -/
  functors : Nat
  /-- The `Notify` calls so far. -/
  notifies : Nat

namespace GetConnection

open Execution Monitor
open CountdownLatch (Waiter)
open StopHandshake (disableConnectAndWait)

def init : GetConnection := ⟨.init, false, [], 0, 0⟩

inductive Action where
  -- a thread that is not the loop's calls one of the two
  | callGet
  | callDisable
  -- the call goes on
  | go (i : Nat)
  | wakeUp (i : Nat)
  -- the loop thread, with the thread that a `Notify` releases
  | runInLoop (target : Option Nat)
  | client (action : TcpClient.Action) (target : Option Nat)

def set (s : GetConnection) (i : Nat) (caller : Caller) : GetConnection :=
  { s with callers := s.callers.set i caller }

def notify (s : GetConnection) (target : Option Nat) : Option GetConnection :=
  (Monitor.notify Caller.wake target s.callers).map fun callers =>
    { s with callers := callers, notifies := s.notifies + 1 }

def getStep (i : Nat) (s : GetConnection) : Waiter → Option GetConnection
  | .looping phase =>
      match phase.step s.lock true s.client.connection.isSome with
      | some (.goes next) => some { s.set i (.getting (.looping next)) with lock := next.holds }
      | some .acts => some (s.set i (.getting .leaving))
      | _ => none
  | .leaving => some { s.set i (.getting .returned) with lock := false }
  | .returned => none

def disableStep (i : Nat) (s : GetConnection) : Disabler → Option GetConnection
  | .locking =>
      if s.lock then none else some { s.set i (.disabling .locked) with lock := true }
  | .locked => some { s.set i (.disabling .queued) with functors := s.functors + 1 }
  | .queued => some { s.set i (.disabling .waiting) with lock := false }
  -- it gives `lock_` back at once
  | .woken => if s.lock then none else some (s.set i (.disabling .returned))
  | .waiting | .returned => none

def callerStep (i : Nat) (s : GetConnection) : Caller → Option GetConnection
  | .getting waiter => s.getStep i waiter
  | .disabling disabler => s.disableStep i disabler

def step (s : GetConnection) : Action → Option GetConnection
  | .callGet => some { s with callers := s.callers ++ [.getting (.looping .locking)] }
  | .callDisable => some { s with callers := s.callers ++ [.disabling .locking] }
  | .go i => s.callers[i]?.bind (s.callerStep i)
  | .wakeUp i => (wakeAt Caller.wake false i s.callers).map ({ s with callers := · })
  | .runInLoop target =>
      if s.functors = 0 then none else
        (disableConnectAndWait.inLoop s.client).bind fun client =>
          { s with client := client, functors := s.functors - 1 }.notify target
  | .client action target =>
      if s.lock && disableConnectAndWait.takesLock s.client action then none else
        (s.client.step action).bind fun client =>
          if disableConnectAndWait.notifies s.client action then
            { s with client := client }.notify target
          else if target = none then some { s with client := client } else none

def waiting (s : GetConnection) : Nat := s.callers.countP Caller.isWaiting

def holders (s : GetConnection) : Nat := s.callers.countP Caller.holds

def Owned (s : GetConnection) : Prop := s.holders = s.lock.toNat

/-! Who leaves the condition variable. -/

theorem wake_some {signalled : Bool} {caller woken : Caller}
    (wakes : caller.wake signalled = some woken) :
    caller.isWaiting = true ∧ woken.isWaiting = false ∧ woken.holds = caller.holds := by
  cases caller with
  | getting waiter =>
      obtain ⟨after, woke, rfl⟩ := Option.map_eq_some_iff.mp wakes
      rcases waiter with ⟨_ | _ | _ | _ | _ | _⟩ | _ | _ <;> cases woke
      exact ⟨rfl, rfl, rfl⟩
  | disabling disabler =>
      cases disabler <;> cases wakes
      exact ⟨rfl, rfl, rfl⟩

theorem wake_none {signalled : Bool} {caller : Caller} (stays : caller.wake signalled = none) :
    caller.isWaiting = false := by
  cases caller with
  | getting waiter =>
      rcases waiter with ⟨_ | _ | _ | _ | _ | _⟩ | _ | _ <;> first | rfl | cases stays
  | disabling disabler => cases disabler <;> first | rfl | cases stays

theorem woken_counts {callers : List Caller} {i : Nat} {signalled : Bool} {caller woken : Caller}
    (found : callers[i]? = some caller) (wakes : caller.wake signalled = some woken) :
    (callers.set i woken).countP Caller.isWaiting + 1 = callers.countP Caller.isWaiting ∧
      (callers.set i woken).countP Caller.holds = callers.countP Caller.holds := by
  obtain ⟨waited, left, same⟩ := wake_some wakes
  have waits := countP_set_add found Caller.isWaiting woken
  have held := countP_set_add found Caller.holds woken
  rw [waited, left] at waits
  rw [same, Nat.add_right_cancel_iff] at held
  exact ⟨waits, held⟩

section Step
variable {s next : GetConnection} {i : Nat}

theorem notify_counts {target : Option Nat} (notified : s.notify target = some next) :
    next.waiting = s.waiting - 1 ∧ next.notifies = s.notifies + 1 ∧
      next.holders = s.holders ∧ next.lock = s.lock := by
  obtain ⟨callers, released, rfl⟩ := Option.map_eq_some_iff.mp notified
  rcases notify_some released with ⟨i, caller, woken, found, wakes, rfl⟩ | ⟨nobody, rfl⟩
  · obtain ⟨fewer, held⟩ := woken_counts found wakes
    exact ⟨Nat.eq_sub_of_add_eq fewer, rfl, held, rfl⟩
  · have none : s.waiting = 0 :=
      List.countP_eq_zero.mpr fun caller member => by simp [wake_none (nobody caller member)]
    refine ⟨?_, rfl, rfl, rfl⟩
    rw [none]
    exact none

theorem Owned.locked (owned : Owned s) {caller : Caller} (found : s.callers[i]? = some caller)
    (holds : caller.holds = true) : s.lock = true ∧ s.holders = 1 := by
  have positive : 0 < s.holders := countP_pos_of_getElem? found holds
  cases lock : s.lock with
  | false =>
      rw [owned, lock] at positive
      cases positive
  | true =>
      rw [owned, lock]
      exact ⟨rfl, rfl⟩

/-- What a call does when it goes on: it takes `lock_`, keeps it or gives it back, and begins to
wait only when there is no connection, or in `DisableConnectAndWait`. -/
structure Went (s : GetConnection) (i : Nat) (caller after : Caller) (next : GetConnection) :
    Prop where
  callers : next.callers = s.callers.set i after
  notifies : next.notifies = s.notifies
  before : caller.isWaiting = false
  lock : s.lock = caller.holds
  lockAfter : next.lock = after.holds
  waits : after.isWaiting = true → s.client.connection = none ∨ caller = .disabling .queued

theorem getStep_went {waiter : Waiter} (owned : Owned s)
    (found : s.callers[i]? = some (.getting waiter)) (stepped : s.getStep i waiter = some next) :
    ∃ after, Went s i (.getting waiter) after next := by
  cases waiter with
  | looping phase =>
      simp only [getStep] at stepped
      split at stepped
      · rename_i after went
        cases stepped
        have goes := step_goes went
        have lock : s.lock = phase.holds := goes.lock_eq fun holds => (owned.locked found holds).1
        refine ⟨.getting (.looping after), rfl, rfl, ?_, lock, rfl, fun waits => ?_⟩
        · cases goes with
          | waits _ inside _ => cases phase <;> first | rfl | cases inside
          | locks | relocks | rechecks => rfl
        · cases goes with
          | waits _ _ unready => exact .inl (by simpa using unready)
          | locks | relocks | rechecks => cases waits
      · rename_i acted
        cases stepped
        obtain ⟨inside, -⟩ := step_acts acted
        have locked := (owned.locked found (inside_holds inside)).1
        refine ⟨.getting .leaving, rfl, rfl, ?_, ?_, locked, fun waits => nomatch waits⟩
        · cases phase <;> first | rfl | cases inside
        · rw [locked]
          exact (inside_holds inside).symm
      · cases stepped
  | leaving =>
      cases stepped
      exact ⟨.getting .returned, rfl, rfl, rfl, (owned.locked found rfl).1, rfl,
        fun waits => nomatch waits⟩
  | returned => cases stepped

theorem disableStep_went {disabler : Disabler} (owned : Owned s)
    (found : s.callers[i]? = some (.disabling disabler))
    (stepped : s.disableStep i disabler = some next) :
    ∃ after, Went s i (.disabling disabler) after next := by
  cases disabler with
  | locking =>
      obtain ⟨free, made⟩ := Option.ite_none_left_eq_some.mp stepped
      cases made
      have free : s.lock = false := by simpa using free
      exact ⟨.disabling .locked, rfl, rfl, rfl, free, rfl, fun waits => nomatch waits⟩
  | locked =>
      cases stepped
      have locked := (owned.locked found rfl).1
      exact ⟨.disabling .queued, rfl, rfl, rfl, locked, locked, fun waits => nomatch waits⟩
  | queued =>
      cases stepped
      exact ⟨.disabling .waiting, rfl, rfl, rfl, (owned.locked found rfl).1, rfl,
        fun _ => .inr rfl⟩
  | woken =>
      obtain ⟨free, made⟩ := Option.ite_none_left_eq_some.mp stepped
      cases made
      have free : s.lock = false := by simpa using free
      exact ⟨.disabling .returned, rfl, rfl, rfl, free, free, fun waits => nomatch waits⟩
  | waiting | returned => cases stepped

theorem go_went (owned : Owned s) (stepped : s.step (.go i) = some next) :
    ∃ caller after, s.callers[i]? = some caller ∧ Went s i caller after next := by
  obtain ⟨caller, found, went⟩ := Option.bind_eq_some_iff.mp stepped
  cases caller with
  | getting waiter =>
      obtain ⟨after, went⟩ := getStep_went owned found went
      exact ⟨_, after, found, went⟩
  | disabling disabler =>
      obtain ⟨after, went⟩ := disableStep_went owned found went
      exact ⟨_, after, found, went⟩

/-- What one step does to the threads that wait. -/
inductive Effect (s : GetConnection) : Action → GetConnection → Prop
  | calls {action : Action} (caller : Caller) (awake : caller.isWaiting = false)
      (outside : caller.holds = false) :
      Effect s action { s with callers := s.callers ++ [caller] }
  | goes (i : Nat) (caller after : Caller) (next : GetConnection)
      (found : s.callers[i]? = some caller) (went : Went s i caller after next) :
      Effect s (.go i) next
  | wakes (i : Nat) (caller woken : Caller) (found : s.callers[i]? = some caller)
      (wakes : caller.wake false = some woken) : Effect s (.wakeUp i) (s.set i woken)
  | notifies {action : Action} (client : TcpClient) (functors : Nat) (target : Option Nat)
      (next : GetConnection)
      (notified : { s with client := client, functors := functors }.notify target = some next) :
      Effect s action next
  | acts {action : Action} (client : TcpClient) : Effect s action { s with client := client }

theorem step_effect {action : Action} (owned : Owned s) (stepped : s.step action = some next) :
    Effect s action next := by
  cases action with
  | callGet =>
      cases stepped
      exact .calls _ rfl rfl
  | callDisable =>
      cases stepped
      exact .calls _ rfl rfl
  | go i =>
      obtain ⟨caller, after, found, went⟩ := go_went owned stepped
      exact .goes i caller after next found went
  | wakeUp i =>
      obtain ⟨callers, woke, rfl⟩ := Option.map_eq_some_iff.mp stepped
      obtain ⟨caller, woken, found, wakes, rfl⟩ := wakeAt_some.mp woke
      exact .wakes i caller woken found wakes
  | runInLoop target =>
      obtain ⟨-, ran⟩ := Option.ite_none_left_eq_some.mp stepped
      obtain ⟨client, -, notified⟩ := Option.bind_eq_some_iff.mp ran
      exact .notifies client _ target next notified
  | client action target =>
      obtain ⟨-, ran⟩ := Option.ite_none_left_eq_some.mp stepped
      obtain ⟨client, -, went⟩ := Option.bind_eq_some_iff.mp ran
      split at went
      · exact .notifies client _ target next went
      · obtain ⟨-, made⟩ := Option.ite_none_right_eq_some.mp went
        cases made
        exact .acts client

theorem Went.counts {caller after : Caller} (went : Went s i caller after next)
    (found : s.callers[i]? = some caller) (p : Caller → Bool) :
    next.callers.countP p + (p caller).toNat = s.callers.countP p + (p after).toNat := by
  rw [went.callers]
  exact countP_set_add found p after

end Step

theorem step_owned (s : GetConnection) (action : Action) (next : GetConnection) (owned : Owned s)
    (stepped : s.step action = some next) : Owned next := by
  cases step_effect owned stepped with
  | calls caller awake outside =>
      simpa [Owned, holders, List.countP_append, outside] using owned
  | goes i caller after next found went =>
      have counts := went.counts found Caller.holds
      simp only [Owned, holders] at owned ⊢
      rw [went.lockAfter]
      rw [went.lock] at owned
      omega
  | wakes i caller woken found wakes =>
      exact (woken_counts found wakes).2.trans owned
  | notifies client functors target next notified =>
      obtain ⟨-, -, held, lock⟩ := notify_counts notified
      rw [Owned, held, lock]
      exact owned
  | acts client => exact owned

/-- No thread wakes by itself. -/
def Action.calm : Action → Bool
  | .wakeUp _ => false
  | .callGet | .callDisable | .go _ | .runInLoop _ | .client _ _ => true

/-- A step with `connection_` there, and not one into the wait of `DisableConnectAndWait`. -/
def connected (s : GetConnection) : Action → Bool
  | .go i => s.client.connection.isSome && s.callers[i]? != some (.disabling .queued)
  | .callGet | .callDisable | .runInLoop _ | .client _ _ => s.client.connection.isSome
  | .wakeUp _ => false

theorem calm_of_connected {s : GetConnection} {action : Action}
    (connected : s.connected action = true) : action.calm = true := by
  cases action <;> first | rfl | cases connected

theorem step_waiting {s next : GetConnection} {action : Action} (owned : Owned s)
    (calm : action.calm = true) (stepped : s.step action = some next) :
    s.notifies ≤ next.notifies ∧ s.waiting + s.notifies ≤ next.waiting + next.notifies ∧
      (s.connected action = true → next.waiting = s.waiting - (next.notifies - s.notifies)) := by
  cases step_effect owned stepped with
  | calls caller awake outside =>
      have same : s.callers.countP Caller.isWaiting =
          (s.callers ++ [caller]).countP Caller.isWaiting := by
        simp [List.countP_append, awake]
      simp only [waiting, ← same]
      omega
  | goes i caller after next found went =>
      have counts := went.counts found Caller.isWaiting
      rw [went.before, Bool.toNat_false, Nat.add_zero] at counts
      simp only [waiting]
      rw [went.notifies, counts]
      refine ⟨Nat.le_refl _, by omega, fun connected => ?_⟩
      have awake : after.isWaiting = false := by
        rw [Bool.eq_false_iff]
        intro waits
        simp only [GetConnection.connected, Bool.and_eq_true, bne_iff_ne] at connected
        rcases went.waits waits with gone | rfl
        · rw [gone] at connected
          cases connected.1
        · exact connected.2 found
      rw [awake]
      simp
  | wakes i caller woken found wakes => cases calm
  | notifies client functors target next notified =>
      obtain ⟨released, notifies, -, -⟩ := notify_counts notified
      have same : { s with client := client, functors := functors }.waiting = s.waiting := rfl
      rw [same] at released
      rw [released, notifies]
      dsimp only
      omega
  | acts client =>
      have same : { s with client := client }.waiting = s.waiting := rfl
      rw [same]
      dsimp only
      omega

def Quiet (s : GetConnection) : Prop := ∀ i, s.step (.go i) = none

section Quiet
variable {s : GetConnection}

theorem Quiet.callerStep (quiet : Quiet s) {i : Nat} {caller : Caller}
    (found : s.callers[i]? = some caller) : s.callerStep i caller = none := by
  have stuck := quiet i
  rwa [step, found, Option.bind_some] at stuck

theorem holder_goes {i : Nat} {caller : Caller} (holds : caller.holds = true) :
    s.callerStep i caller ≠ none := by
  cases caller with
  | getting waiter =>
      cases waiter with
      | looping phase =>
          rcases holds_cases holds with inside | ⟨signalled, rfl⟩
          · cases there : s.client.connection.isSome with
            | true => simp [GetConnection.callerStep, getStep, there, acts_of_inside inside]
            | false => simp [GetConnection.callerStep, getStep, there, waits_of_inside inside]
          · simp [GetConnection.callerStep, getStep, Monitor.Phase.step]
      | leaving => simp [GetConnection.callerStep, getStep]
      | returned => cases holds
  | disabling disabler =>
      cases disabler with
      | locked => simp [GetConnection.callerStep, disableStep]
      | queued => simp [GetConnection.callerStep, disableStep]
      | locking | waiting | woken | returned => cases holds

theorem Quiet.free (quiet : Quiet s) (owned : Owned s) : s.lock = false := by
  rw [Bool.eq_false_iff]
  intro locked
  have one : 0 < s.holders := by
    rw [owned, locked]
    exact Nat.one_pos
  obtain ⟨i, caller, found, holds⟩ := exists_of_countP_pos one
  exact holder_goes holds (quiet.callerStep found)

theorem Quiet.cases (quiet : Quiet s) (owned : Owned s) {caller : Caller}
    (member : caller ∈ s.callers) : caller.isWaiting = true ∨ caller.isReturned = true := by
  obtain ⟨i, found⟩ := List.getElem?_of_mem member
  have stuck := quiet.callerStep found
  have free := quiet.free owned
  have outside : ¬caller.holds = true := fun holds => holder_goes holds stuck
  cases caller with
  | getting waiter =>
      cases waiter with
      | looping phase =>
          cases phase with
          | waiting => exact .inl rfl
          | locking | woken =>
              rw [GetConnection.callerStep, getStep, free] at stuck
              cases stuck
          | locked | relocked | rechecked => exact absurd rfl outside
      | leaving => exact absurd rfl outside
      | returned => exact .inr rfl
  | disabling disabler =>
      cases disabler with
      | waiting => exact .inl rfl
      | returned => exact .inr rfl
      | locking | woken =>
          rw [GetConnection.callerStep, disableStep, free] at stuck
          cases stuck
      | locked | queued => exact absurd rfl outside

end Quiet

theorem run_waiting {s later : GetConnection} {more : List Action} (owned : Owned s)
    (calm : ∀ action ∈ more, action.calm = true) (on : run step s more = some later) :
    s.waiting + s.notifies ≤ later.waiting + later.notifies := by
  have kept := run_invariant_along
    (fun t : GetConnection => Owned t ∧ s.waiting + s.notifies ≤ t.waiting + t.notifies)
    (fun t action next inv calm stepped => ?_) ⟨owned, Nat.le_refl _⟩
    (along_of_forall step calm s) on
  · exact kept.2
  · obtain ⟨-, more, -⟩ := step_waiting inv.1 calm stepped
    exact ⟨step_owned t action next inv.1 stepped, Nat.le_trans inv.2 more⟩

theorem run_released {s later : GetConnection} {more : List Action} (owned : Owned s)
    (connected : Along step (fun t action => t.connected action = true) s more)
    (on : run step s more = some later) :
    later.waiting = s.waiting - (later.notifies - s.notifies) := by
  have kept := run_invariant_along
    (fun t : GetConnection => Owned t ∧ s.notifies ≤ t.notifies ∧
      t.waiting = s.waiting - (t.notifies - s.notifies))
    (fun t action next inv connected stepped => ?_) ⟨owned, Nat.le_refl _, by simp⟩ connected on
  · exact kept.2.2
  · obtain ⟨owned, so, far⟩ := inv
    obtain ⟨grow, -, released⟩ := step_waiting owned (calm_of_connected connected) stepped
    refine ⟨step_owned t action next owned stepped, Nat.le_trans so grow, ?_⟩
    rw [released connected, far]
    omega

/-- Any threads in `GetConnection` and `DisableConnectAndWait`, in any order, but without spurious
wakeups: every `Notify` releases one of the waiting threads at most, and exactly one as long as
there is a connection. When no call can go on, the calls that do not wait have returned. So of
several threads that wait for a connection one gets it, and the others wait though it is there. -/
theorem notify_serves_one (before more : List Action) (s later : GetConnection)
    (ran : run step init before = some s) (on : run step s more = some later)
    (calm : ∀ action ∈ more, action.calm = true) :
    s.waiting - (later.notifies - s.notifies) ≤ later.waiting ∧
      (Along step (fun t action => t.connected action = true) s more →
        later.waiting = s.waiting - (later.notifies - s.notifies)) ∧
      (Quiet later → ∀ caller ∈ later.callers,
        caller.isWaiting = true ∨ caller.isReturned = true) := by
  have start : Owned init := rfl
  have owned : Owned s := run_invariant Owned step_owned start ran
  have ownedLater : Owned later := run_invariant Owned step_owned owned on
  refine ⟨?_, fun connected => run_released owned connected on,
    fun quiet caller member => quiet.cases ownedLater member⟩
  have kept := run_waiting owned calm on
  omega

def twoWait : List Action :=
  [.callGet, .callGet, .go 0, .go 0, .go 1, .go 1, .client (.connect .eInProgress) none,
    .client (.handleWrite 0 false) (some 0)]

def oneReturns : List Action := [.go 0, .go 0, .go 0, .go 0]

theorem second_waits_on : ∃ s later, run step init twoWait = some s ∧
    run step s oneReturns = some later ∧ later.client.connection = some 0 ∧
    later.callers = [.getting .returned, .getting (.looping .waiting)] ∧
    later.waiting = s.waiting - (later.notifies - s.notifies) := by
  obtain ⟨s, ran, later, on, connection, callers⟩ : ∃ s, run step init twoWait = some s ∧
      ∃ later, run step s oneReturns = some later ∧ later.client.connection = some 0 ∧
        later.callers = [.getting .returned, .getting (.looping .waiting)] :=
    ⟨_, rfl, _, rfl, rfl, rfl⟩
  have served := notify_serves_one twoWait oneReturns s later ran on (by decide)
  refine ⟨s, later, ran, on, connection, callers, served.2.1 ?_⟩
  cases ran
  decide

-- The `Notify` of `DisableConnectInLoop` goes to a thread in `GetConnection`, which waits again.
example : (run step init
    [.callGet, .go 0, .go 0, .callDisable, .go 1, .go 1, .go 1, .runInLoop (some 0), .go 0, .go 0,
      .go 0]).map (·.callers) =
    some [.getting (.looping .waiting), .disabling .waiting] := rfl

end GetConnection

end Muzi
