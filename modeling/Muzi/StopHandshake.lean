import Muzi.TcpClient

/-!
A thread that is not the loop's in `Connector::StopAndWait` or in
`TcpClient::DisableConnectAndWait`. Both hold `lock_` while they queue their
InLoop function, and then wait on `condition_` without a predicate; the InLoop
function ends with a `Notify` and does not take `lock_`. What else the loop and
the other threads do is the machine of `Connector` or `TcpClient`, whose steps
may notify as well. Where its functors stand in the queue between those of the
caller is left open.
-/

namespace Muzi.StopHandshake

open Execution

universe u v
variable {Machine : Type u} {Step : Type v}

inductive Caller where
  | outside
  -- behind the stores that need no lock
  | locking
  | locked
  -- behind `QueueInLoop`, before `condition_.Wait()`, with the lock
  | queued
  | waiting
  -- released, before it has the lock again
  | woken
  | returned
  deriving DecidableEq

structure Host (Machine : Type u) (Step : Type v) where
  step : Machine → Step → Option Machine
  /-- The caller's stores before it takes `lock_`. -/
  enter : Machine → Machine
  /-- The InLoop function, run as a functor. -/
  inLoop : Machine → Option Machine
  /-- The step calls `condition_.Notify()`. -/
  notifies : Machine → Step → Bool
  /-- The step takes `lock_`. -/
  takesLock : Machine → Step → Bool

structure System (Machine : Type u) where
  machine : Machine
  caller : Caller
  /-- How many calls queued their function so far. -/
  call : Nat
  /-- The calls whose function is in the queue. -/
  functors : List Nat
  /-- The calls whose function was executed, its `Notify` included. -/
  executed : List Nat

inductive Action (Step : Type v) where
  -- the calling thread
  | enter
  | lock
  | queueInLoop
  | wait
  | wakeSpuriously
  | relock
  -- the loop thread
  | runInLoop
  | machine (action : Step)

namespace System

def init (machine : Machine) : System Machine := ⟨machine, .outside, 0, [], []⟩

def locked (s : System Machine) : Bool :=
  match s.caller with
  | .locked | .queued => true
  | _ => false

def notify (s : System Machine) : System Machine :=
  { s with caller := if s.caller = .waiting then .woken else s.caller }

variable (host : Host Machine Step)

def step (s : System Machine) : Action Step → Option (System Machine)
  | .enter =>
      match s.caller with
      | .outside | .returned => some { s with machine := host.enter s.machine, caller := .locking }
      | _ => none
  | .lock => if s.caller = .locking then some { s with caller := .locked } else none
  | .queueInLoop =>
      if s.caller = .locked then
        some { s with
          caller := .queued
          call := s.call + 1
          functors := s.functors ++ [s.call + 1] }
      else none
  | .wait => if s.caller = .queued then some { s with caller := .waiting } else none
  | .wakeSpuriously => if s.caller = .waiting then some { s with caller := .woken } else none
  | .relock => if s.caller = .woken then some { s with caller := .returned } else none
  | .runInLoop =>
      match s.functors with
      | [] => none
      | call :: rest =>
          (host.inLoop s.machine).map fun machine =>
            { s with
              machine := machine
              functors := rest
              executed := s.executed ++ [call] }.notify
  | .machine action =>
      if s.locked && host.takesLock s.machine action then none else
        (host.step s.machine action).map fun machine =>
          let moved : System Machine := { s with machine := machine }
          if host.notifies s.machine action then moved.notify else moved

end System

/-- The call returned only behind its InLoop function, and is not left to wait
for a `Notify` that was made before. -/
structure Handshakes (s : System Machine) : Prop where
  returns : s.caller = .returned → s.call ∈ s.executed
  notified : s.call ∈ s.executed → s.caller ≠ .queued ∧ s.caller ≠ .waiting

/-- The handshake holds, and still does when a released caller gets its lock back next. -/
structure Secure (host : Host Machine Step) (s : System Machine) : Prop where
  handshakes : Handshakes s
  returning : ∀ next, s.step host .relock = some next → Handshakes next

/-- The InLoop function of the call does not run between `QueueInLoop` and `Wait`. While the
caller waits, nothing but this function notifies: no other InLoop function and no other step
of the machine, and the caller does not wake by itself. -/
def Undisturbed (host : Host Machine Step) (s : System Machine) : Action Step → Prop
  | .runInLoop =>
      (s.caller = .queued → s.functors.head? ≠ some s.call) ∧
        (s.caller = .waiting → s.functors.head? = some s.call)
  | .wakeSpuriously => False
  | .machine action => host.notifies s.machine action = true → s.caller ≠ .waiting
  | _ => True

instance (host : Host Machine Step) (s : System Machine) (action : Action Step) :
    Decidable (Undisturbed host s action) :=
  match action with
  | .runInLoop => inferInstanceAs (Decidable (_ ∧ _))
  | .wakeSpuriously => isFalse id
  | .machine _ => inferInstanceAs (Decidable (_ → _))
  | .enter | .lock | .queueInLoop | .wait | .relock => isTrue trivial

/-- The functions of the calls are executed in the order of the calls, each of
them once. -/
def Inv (s : System Machine) : Prop := s.executed ++ s.functors = List.range' 1 s.call

theorem Inv.fresh {s : System Machine} (inv : Inv s) : s.call + 1 ∉ s.executed := by
  intro executed
  have member : s.call + 1 ∈ s.executed ++ s.functors := List.mem_append_left _ executed
  rw [show s.executed ++ s.functors = _ from inv, List.mem_range'_1] at member
  omega

inductive Stepped (host : Host Machine Step) (s : System Machine) :
    Action Step → System Machine → Prop
  | enter (idle : s.caller = .outside ∨ s.caller = .returned) :
      Stepped host s .enter { s with machine := host.enter s.machine, caller := .locking }
  | lock (before : s.caller = .locking) : Stepped host s .lock { s with caller := .locked }
  | queueInLoop (before : s.caller = .locked) :
      Stepped host s .queueInLoop { s with
        caller := .queued, call := s.call + 1, functors := s.functors ++ [s.call + 1] }
  | wait (before : s.caller = .queued) : Stepped host s .wait { s with caller := .waiting }
  | wakeSpuriously (before : s.caller = .waiting) :
      Stepped host s .wakeSpuriously { s with caller := .woken }
  | relock (before : s.caller = .woken) : Stepped host s .relock { s with caller := .returned }
  | runInLoop {call : Nat} {rest : List Nat} {machine : Machine}
      (head : s.functors = call :: rest) (ran : host.inLoop s.machine = some machine) :
      Stepped host s .runInLoop
        { s with machine := machine, functors := rest, executed := s.executed ++ [call] }.notify
  | machine {action : Step} {machine : Machine} (moved : host.step s.machine action = some machine)
      (silent : host.notifies s.machine action = false) :
      Stepped host s (.machine action) { s with machine := machine }
  | notify {action : Step} {machine : Machine} (moved : host.step s.machine action = some machine)
      (notifies : host.notifies s.machine action = true) :
      Stepped host s (.machine action) { s with machine := machine }.notify

section Steps
variable {host : Host Machine Step} {s next : System Machine} {action : Action Step}

theorem step_stepped (stepped : s.step host action = some next) : Stepped host s action next := by
  cases action with
  | enter =>
      simp only [System.step] at stepped
      split at stepped
      · rename_i before
        cases stepped
        exact .enter (.inl before)
      · rename_i before
        cases stepped
        exact .enter (.inr before)
      · cases stepped
  | lock =>
      obtain ⟨before, made⟩ := Option.ite_none_right_eq_some.mp stepped
      cases made
      exact .lock before
  | queueInLoop =>
      obtain ⟨before, made⟩ := Option.ite_none_right_eq_some.mp stepped
      cases made
      exact .queueInLoop before
  | wait =>
      obtain ⟨before, made⟩ := Option.ite_none_right_eq_some.mp stepped
      cases made
      exact .wait before
  | wakeSpuriously =>
      obtain ⟨before, made⟩ := Option.ite_none_right_eq_some.mp stepped
      cases made
      exact .wakeSpuriously before
  | relock =>
      obtain ⟨before, made⟩ := Option.ite_none_right_eq_some.mp stepped
      cases made
      exact .relock before
  | runInLoop =>
      simp only [System.step] at stepped
      split at stepped
      · cases stepped
      · rename_i call rest head
        obtain ⟨machine, ran, rfl⟩ := Option.map_eq_some_iff.mp stepped
        exact .runInLoop head ran
  | machine action =>
      obtain ⟨-, made⟩ := Option.ite_none_left_eq_some.mp stepped
      obtain ⟨machine, moved, rfl⟩ := Option.map_eq_some_iff.mp made
      cases notifies : host.notifies s.machine action with
      | false => exact .machine moved notifies
      | true => exact .notify moved notifies

theorem Inv.stepped (inv : Inv s) (stepped : Stepped host s action next) : Inv next := by
  cases stepped with
  | queueInLoop before =>
      change s.executed ++ (s.functors ++ [s.call + 1]) = List.range' 1 (s.call + 1)
      rw [← List.append_assoc, show s.executed ++ s.functors = _ from inv, List.range'_1_concat,
        Nat.add_comm]
  | @runInLoop call rest machine head ran =>
      change s.executed ++ [call] ++ rest = List.range' 1 s.call
      rw [List.append_assoc, List.singleton_append, ← head]
      exact inv
  | enter | lock | wait | wakeSpuriously | relock | machine | notify => exact inv

theorem secure_iff : Secure host s ↔
    Handshakes s ∧ (s.caller = .woken → s.call ∈ s.executed) := by
  have back (woken : s.caller = .woken) :
      s.step host .relock = some { s with caller := .returned } := by
    simp [System.step, woken]
  constructor
  · intro secure
    exact ⟨secure.handshakes, fun woken => (secure.returning _ (back woken)).returns rfl⟩
  · rintro ⟨fine, executed⟩
    refine ⟨fine, fun next returned => ?_⟩
    cases step_stepped returned with
    | relock woken => exact ⟨fun _ => executed woken, fun _ => by simp⟩

theorem secure_of_away (returned : s.caller ≠ .returned) (woken : s.caller ≠ .woken)
    (fresh : s.call ∈ s.executed → s.caller ≠ .queued ∧ s.caller ≠ .waiting) : Secure host s :=
  secure_iff.mpr ⟨⟨fun at_end => absurd at_end returned, fresh⟩, fun released =>
    absurd released woken⟩

theorem notify_of_waiting (waits : s.caller = .waiting) :
    s.notify = { s with caller := .woken } := by
  simp [System.notify, waits]

theorem notify_of_away (away : s.caller ≠ .waiting) : s.notify = s := by
  simp [System.notify, away]

theorem secure_notify_iff (fine : Handshakes s)
    (released : s.caller = .woken → s.call ∈ s.executed) :
    Secure host s.notify ↔ s.caller ≠ .waiting := by
  rw [secure_iff]
  constructor
  · rintro ⟨-, executed⟩ waits
    rw [notify_of_waiting waits] at executed
    exact (fine.notified (executed rfl)).2 waits
  · intro away
    rw [notify_of_away away]
    exact ⟨fine, released⟩

/-- The InLoop function of the call runs, or that of an earlier call which came back too
early. -/
theorem secure_runInLoop_iff (secure : Secure host s) {call : Nat} {rest : List Nat}
    (machine : Machine) (head : s.functors = call :: rest) :
    Secure host { s with
      machine := machine, functors := rest, executed := s.executed ++ [call] }.notify ↔
      (s.caller = .queued → s.functors.head? ≠ some s.call) ∧
        (s.caller = .waiting → s.functors.head? = some s.call) := by
  obtain ⟨fine, released⟩ := secure_iff.mp secure
  generalize ran : ({ s with
    machine := machine, functors := rest,
    executed := s.executed ++ [call] } : System Machine) = next
  have caller : next.caller = s.caller := by rw [← ran]
  have same : next.call = s.call := by rw [← ran]
  have executed : next.call ∈ next.executed ↔ s.call ∈ s.executed ∨ s.call = call := by
    rw [← ran, List.mem_append, List.mem_singleton]
  rw [head, List.head?_cons, Ne, Option.some.injEq]
  by_cases waits : s.caller = .waiting
  · have fresh : s.call ∉ s.executed := fun before => (fine.notified before).2 waits
    rw [notify_of_waiting (caller.trans waits), secure_iff]
    constructor
    · rintro ⟨-, own⟩
      refine ⟨fun queued => ?_, fun _ => ((executed.mp (own rfl)).resolve_left fresh).symm⟩
      rw [queued] at waits
      cases waits
    · rintro ⟨-, own⟩
      exact ⟨⟨nofun, fun _ => by simp⟩, fun _ => executed.mpr (.inr (own waits).symm)⟩
  · rw [notify_of_away (caller ▸ waits), secure_iff, caller]
    constructor
    · rintro ⟨after, -⟩
      refine ⟨fun queued own => ?_, fun at_wait => absurd at_wait waits⟩
      exact (after.notified (executed.mpr (.inr own.symm))).1 (caller.trans queued)
    · rintro ⟨late, -⟩
      refine ⟨⟨fun returned => ?_, fun ended => ?_⟩,
        fun woken => executed.mpr (.inl (released woken))⟩
      · exact executed.mpr (.inl (fine.returns (caller.symm.trans returned)))
      · rw [caller]
        refine ⟨fun queued => ?_, waits⟩
        rcases executed.mp ended with before | own
        · exact (fine.notified before).1 queued
        · exact late queued own.symm

theorem secure_stepped_iff (inv : Inv s) (secure : Secure host s)
    (stepped : Stepped host s action next) : Secure host next ↔ Undisturbed host s action := by
  obtain ⟨fine, released⟩ := secure_iff.mp secure
  cases stepped with
  | enter idle => exact iff_of_true (secure_of_away nofun nofun fun _ => by simp) trivial
  | lock before => exact iff_of_true (secure_of_away nofun nofun fun _ => by simp) trivial
  | queueInLoop before =>
      refine iff_of_true (secure_of_away nofun nofun fun executed => ?_) trivial
      exact absurd executed inv.fresh
  | wait before =>
      refine iff_of_true (secure_of_away nofun nofun fun executed => ?_) trivial
      exact absurd before (fine.notified executed).1
  | wakeSpuriously before =>
      refine iff_of_false (fun after => ?_) id
      exact (fine.notified ((secure_iff.mp after).2 rfl)).2 before
  | relock before =>
      refine iff_of_true (secure_iff.mpr ⟨secure.returning _ ?_, nofun⟩) trivial
      simp [System.step, before]
  | runInLoop head ran => exact secure_runInLoop_iff secure _ head
  | machine moved silent =>
      refine iff_of_true (secure_iff.mpr ⟨⟨fine.returns, fine.notified⟩, released⟩) ?_
      intro notifies
      cases silent.symm.trans notifies
  | @notify action machine moved notifies =>
      have kept : Handshakes { s with machine := machine } := ⟨fine.returns, fine.notified⟩
      exact (secure_notify_iff kept released).trans
        ⟨fun away _ => away, fun calm => calm notifies⟩

end Steps

/-- The handshake is secure behind every step of a run exactly when nothing disturbs it. -/
theorem secure_iff_undisturbed (host : Host Machine Step) (machine : Machine)
    {actions : List (Action Step)} {final : System Machine}
    (ran : run (System.step host) (System.init machine) actions = some final) :
    Along (System.step host)
        (fun s action => ∀ next, s.step host action = some next → Secure host next)
        (System.init machine) actions ↔
      Along (System.step host) (Undisturbed host) (System.init machine) actions := by
  have any : Along (System.step host) (fun _ _ => True) (System.init machine) actions :=
    along_of_forall (System.step host) (fun _ _ => trivial) _
  have initial : Inv (System.init machine) := rfl
  have start : Secure host (System.init machine) :=
    secure_of_away nofun nofun fun executed => nomatch executed
  apply visited_iff_along Inv (Secure host) _ _ initial start any ran
  · intro s action next inv _ _ stepped _
    exact inv.stepped (step_stepped stepped)
  · intro s action next inv secure _ stepped
    exact secure_stepped_iff inv secure (step_stepped stepped)

/-! The two callers. -/

/-- `Connector::StopAndWait`. Every `StopInLoop` notifies, also that of a `Stop`. -/
def stopAndWait : Host Connector Connector.Action where
  step := Connector.step
  enter c := { c with connect := false }
  inLoop := Connector.stopInLoop
  notifies c action :=
    match action with
    | .stop => true
    | .runFunctor _ => decide (c.functors.head? = some .stopInLoop)
    | _ => false
  takesLock _ _ := false

/-- The connector hands a socket to `NewConnection` in this step. -/
def newConnects (c : TcpClient) : TcpClient.Action → Bool
  | .handleWrite err isSelfConnect =>
      decide (c.connector.state = .kConnecting ∧ err = 0 ∧ isSelfConnect = false)
  | _ => false

/-- `TcpClient::DisableConnectAndWait`. `NewConnection`, `RemoveConnection` and
`DisConnect` take `lock_`, the first notifies with it. -/
def disableConnectAndWait : Host TcpClient TcpClient.Action where
  step := TcpClient.step
  enter c := c
  inLoop c := if c.closing = [] then some c.disableConnectInLoop else none
  notifies c action :=
    match action with
    | .disableConnectInLoop => true
    | action => newConnects c action
  takesLock c action :=
    match action with
    | .disConnect | .callbackReturn _ => true
    | action => newConnects c action

/-- In both classes: the call returns behind its InLoop function whenever it gets its lock back,
and never waits for a `Notify` that was made, exactly when its function comes when the caller
waits and nothing else releases it. -/
theorem stop_handshakes_iff_undisturbed (newConnectionCallback : Bool)
    (stops : List (Action Connector.Action)) (stopped : System Connector)
    (disables : List (Action TcpClient.Action)) (disabled : System TcpClient) :
    (run (System.step stopAndWait) (System.init (.init newConnectionCallback)) stops =
        some stopped →
      (Along (System.step stopAndWait)
          (fun s action => ∀ next, s.step stopAndWait action = some next →
            Secure stopAndWait next)
          (System.init (.init newConnectionCallback)) stops ↔
        Along (System.step stopAndWait) (Undisturbed stopAndWait)
          (System.init (.init newConnectionCallback)) stops)) ∧
    (run (System.step disableConnectAndWait) (System.init .init) disables = some disabled →
      (Along (System.step disableConnectAndWait)
          (fun s action => ∀ next, s.step disableConnectAndWait action = some next →
            Secure disableConnectAndWait next)
          (System.init .init) disables ↔
        Along (System.step disableConnectAndWait) (Undisturbed disableConnectAndWait)
          (System.init .init) disables)) := by
  constructor
  · intro ran
    exact secure_iff_undisturbed stopAndWait _ ran
  · intro ran
    exact secure_iff_undisturbed disableConnectAndWait _ ran

def stopsConnecting : List (Action Connector.Action) :=
  [.machine (.start .eInProgress), .enter, .lock, .queueInLoop, .wait, .runInLoop, .relock]

def disablesBehindNewConnection : List (Action TcpClient.Action) :=
  [.machine (.connect .eInProgress), .machine (.handleWrite 0 false), .enter, .lock, .queueInLoop,
    .wait, .runInLoop, .relock]

theorem waiting_callers_handshake :
    (∃ final, run (System.step stopAndWait) (System.init (.init true)) stopsConnecting =
        some final ∧ final.caller = .returned ∧
      Along (System.step stopAndWait)
        (fun s action => ∀ next, s.step stopAndWait action = some next → Secure stopAndWait next)
        (System.init (.init true)) stopsConnecting) ∧
    ∃ final, run (System.step disableConnectAndWait) (System.init .init)
        disablesBehindNewConnection = some final ∧ final.caller = .returned ∧
      Along (System.step disableConnectAndWait)
        (fun s action => ∀ next, s.step disableConnectAndWait action = some next →
          Secure disableConnectAndWait next)
        (System.init .init) disablesBehindNewConnection := by
  have both := stop_handshakes_iff_undisturbed true stopsConnecting
  refine ⟨⟨_, rfl, rfl, ?_⟩, ⟨_, rfl, rfl, ?_⟩⟩
  · exact ((both _ disablesBehindNewConnection (.init .init)).1 rfl).mpr (by decide)
  · exact ((both (.init (.init true)) disablesBehindNewConnection _).2 rfl).mpr (by decide)

def notifiedTooEarly : List (Action Connector.Action) :=
  [.enter, .lock, .queueInLoop, .runInLoop, .wait]

def releasedByNewConnection : List (Action TcpClient.Action) :=
  [.machine (.connect .eInProgress), .enter, .lock, .queueInLoop, .wait,
    .machine (.handleWrite 0 false), .relock]

theorem wait_misses_notify :
    (∃ final, run (System.step stopAndWait) (System.init (.init true)) notifiedTooEarly =
      some final ∧ final.caller = .waiting ∧ final.call ∈ final.executed ∧
      final.functors = []) ∧
    ∃ final, run (System.step disableConnectAndWait) (System.init .init)
        releasedByNewConnection = some final ∧ final.caller = .returned ∧
      final.call ∉ final.executed := by
  exact ⟨⟨_, rfl, rfl, by decide, rfl⟩, ⟨_, rfl, rfl, by decide⟩⟩

end Muzi.StopHandshake
