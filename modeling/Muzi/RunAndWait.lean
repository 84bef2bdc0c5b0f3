import Muzi.CountdownLatch
import Muzi.EventLoop

/-!
`EventLoop::RunAndWait`: the caller puts a functor into the loop that runs `cb` and
counts down a latch on the caller's stack, and waits for the latch. Calls come from
any threads, and from the loop thread itself, where the functor runs on the spot.
The loop is the one of the functor queue, each call has a latch of its own, and the
functor of a call is four steps of the loop thread: `func()`, and the three of
`CountDown`.
-/

namespace Muzi

open Execution

namespace RunAndWait

inductive Task where
  -- `RunAndNotify` for the call
  | runAndNotify (call : Nat)
  | other
  deriving DecidableEq

inductive Caller where
  | outside
  -- in `RunInLoop`, behind the push of the functor
  | queueing (thread : Nat)
  -- in `Wait`, or behind it
  | waiting
  deriving DecidableEq

structure System where
  loop : EventLoop Task
  latches : Nat → CountdownLatch
  callers : Nat → Caller
  /-- The call whose functor the loop thread is in, and whether `func()` has returned. -/
  current : Option (Nat × Bool)
  /-- How often `cb` of the call was executed. -/
  executed : Nat → Nat

def init : System where
  loop := EventLoop.init
  latches _ := .init 1
  callers _ := .outside
  current := none
  executed _ := 0

inductive Action where
  -- a thread calls `RunAndWait`, up to the push
  | call (call thread : Nat)
  -- the same in the loop thread, as a whole
  | callInLoop (call : Nat)
  -- the call goes on
  | wait (call : Nat)
  | wakeUp (call : Nat)
  -- the loop thread starts the next functor, and goes on in one of ours
  | runNext
  | execute
  | countDown
  | functorReturn
  | loop (action : EventLoop.Action Task)

/-- What the rest of the program does with the loop: it has no functor of a call, and the
loop thread's way through the batch is an action of its own. -/
def Free : EventLoop.Action Task → Bool
  | .push _ task | .loop (.queue task) => task = .other
  | .loop .runNext | .loop .functorReturn => false
  | _ => true

namespace System

def setLatch (s : System) (call : Nat) (latch : CountdownLatch) : System :=
  { s with latches := fun other => if other = call then latch else s.latches other }

def setCaller (s : System) (call : Nat) (caller : Caller) : System :=
  { s with callers := fun other => if other = call then caller else s.callers other }

def note (s : System) (call : Nat) : System :=
  { s with executed := fun other =>
      if other = call then s.executed other + 1 else s.executed other }

/-- `CountDown` and `Wait` in one thread. -/
def alone : List CountdownLatch.Action :=
  [.callCountDown, .countDown 0, .countDown 0, .countDown 0, .callWait, .wait 0, .wait 0, .wait 0]

def step (s : System) : Action → Option System
  | .call call thread =>
      if s.callers call = .outside then
        (s.loop.step (.push thread (.runAndNotify call))).map fun loop =>
          { s.setCaller call (.queueing thread) with loop := loop }
      else none
  | .callInLoop call =>
      if s.callers call = .outside ∧ s.loop.phase.inCallback ∧ !s.loop.queueing then
        (run CountdownLatch.step (s.latches call) alone).map fun latch =>
          ((s.setCaller call .waiting).note call).setLatch call latch
      else none
  | .wait call =>
      match s.callers call with
      | .outside => none
      | .queueing thread =>
          -- `QueueInLoop` has returned.
          if thread ∈ s.loop.waking then none
          else ((s.latches call).step .callWait).map fun latch =>
            (s.setCaller call .waiting).setLatch call latch
      | .waiting => ((s.latches call).step (.wait 0)).map (s.setLatch call)
  | .wakeUp call => ((s.latches call).step (.wakeUp 0)).map (s.setLatch call)
  | .runNext =>
      (s.loop.step (.loop .runNext)).map fun loop =>
        { s with
          loop := loop
          current := match s.loop.curFunctors with
            | .runAndNotify call :: _ => some (call, false)
            | _ => none }
  | .execute =>
      match s.current with
      | some (call, false) => some { s.note call with current := some (call, true) }
      | _ => none
  | .countDown =>
      match s.current with
      | some (call, true) =>
          ((s.latches call).step
            (if (s.latches call).downs = [] then .callCountDown else .countDown 0)).map
            (s.setLatch call)
      | _ => none
  | .functorReturn =>
      match s.current with
      | none => (s.loop.step (.loop .functorReturn)).map ({ s with loop := · })
      | some (call, _) =>
          if (s.latches call).downs = [.done] then
            (s.loop.step (.loop .functorReturn)).map ({ s with loop := ·, current := none })
          else none
  | .loop action =>
      if Free action then (s.loop.step action).map ({ s with loop := · }) else none

def Returned (s : System) (call : Nat) : Prop := .returned ∈ (s.latches call).waiters

end System

inductive Life where
  | unborn
  -- its functor is in the loop
  | queued
  -- the loop thread is in its functor, before and behind `func()`
  | entered
  | ran
  | finished
  deriving DecidableEq

structure Stands (s : System) (call : Nat) (life : Life) : Prop where
  born : s.callers call = .outside ↔ life = .unborn
  queued : s.loop.pending.count (.runAndNotify call) = if life = .queued then 1 else 0
  current : ∀ ran, s.current = some (call, ran) ↔ life = if ran then .ran else .entered
  executed : s.executed call = if life = .ran ∨ life = .finished then 1 else 0
  fresh : life = .unborn → s.latches call = .init 1
  downs : life ≠ .ran → (s.latches call).downs = if life = .finished then [.done] else []
  single : (s.latches call).downs.length ≤ 1
  waiters : (s.latches call).waiters.length = if s.callers call = .waiting then 1 else 0

structure Inv (s : System) : Prop where
  stands : ∀ call, ∃ life, Stands s call life
  latches : ∀ call, CountdownLatch.Inv 1 (s.latches call)
  inFunctor : s.current ≠ none → ∃ rest, s.loop.phase = .inFunctor rest

structure Same (call : Nat) (s next : System) : Prop where
  callers : next.callers call = s.callers call
  queued : next.loop.pending.count (.runAndNotify call) =
    s.loop.pending.count (.runAndNotify call)
  current : ∀ ran, next.current = some (call, ran) ↔ s.current = some (call, ran)
  executed : next.executed call = s.executed call
  latches : next.latches call = s.latches call

theorem Stands.same {call : Nat} {s next : System} {life : Life} (stands : Stands s call life)
    (same : Same call s next) : Stands next call life where
  born := by rw [same.callers, stands.born]
  queued := by rw [same.queued, stands.queued]
  current ran := by rw [same.current, stands.current]
  executed := by rw [same.executed, stands.executed]
  fresh unborn := by rw [same.latches, stands.fresh unborn]
  downs other := by rw [same.latches, stands.downs other]
  single := by rw [same.latches]; exact stands.single
  waiters := by rw [same.latches, same.callers]; exact stands.waiters

theorem init_inv : Inv init := by
  refine ⟨fun call => ⟨.unborn, ?_⟩, fun call => CountdownLatch.init_inv 1,
    fun none => absurd rfl none⟩
  refine ⟨by simp [init], ?_, fun ran => ?_, by simp [init], fun _ => rfl, fun _ => rfl, ?_, rfl⟩
  · simp [init, EventLoop.init, EventLoop.pending, EventLoop.curFunctors]
  · cases ran <;> simp [init]
  · simp [init, CountdownLatch.init]

/-! The steps that change nothing but the loop, or one latch. -/

theorem free_pending {l next : EventLoop Task} {action : EventLoop.Action Task} (call : Nat)
    (free : Free action = true) (stepped : l.step action = some next) :
    next.pending.count (.runAndNotify call) = l.pending.count (.runAndNotify call) := by
  have order := congrArg (List.count (Task.runAndNotify call)) (EventLoop.step_pending stepped)
  have appended : action.appended.count (.runAndNotify call) = 0 := by
    unfold EventLoop.Action.appended
    split
    · have other := of_decide_eq_true free
      simp [other]
    · have other := of_decide_eq_true free
      simp [other]
    · rfl
  have started : EventLoop.started l action = [] := by
    unfold EventLoop.started
    split
    · cases free
    · rfl
  rw [started, List.nil_append, List.count_append, appended] at order
  exact order

theorem inFunctor_stays {l next : EventLoop Task} {action : EventLoop.Action Task}
    {rest : List Task} (inside : l.phase = .inFunctor rest)
    (other : action ≠ .loop .functorReturn) (stepped : l.step action = some next) :
    next.phase = .inFunctor rest := by
  cases EventLoop.step_moves stepped with
  | push | quitIgnored | quit => exact inside
  | pushed | queued | wakeUp => simpa using inside
  | loop _ _ _ moved =>
      cases moved with
      | queue => exact inside
      | handleWakeupRead => exact inside
      | functorReturn => exact absurd rfl other
      | enter phase | leave phase | poll phase | pollReturn phase | beginExecute phase
      | swap phase | runNext _ _ phase | finish phase => cases inside.symm.trans phase

theorem Inv.at_call {s next : System} (inv : Inv s) (call : Nat) (life : Life)
    (stands : Stands next call life) (latch : CountdownLatch.Inv 1 (next.latches call))
    (others : ∀ other, other ≠ call → Same other s next)
    (inFunctor : next.current ≠ none → ∃ rest, next.loop.phase = .inFunctor rest) : Inv next := by
  refine ⟨fun other => ?_, fun other => ?_, inFunctor⟩
  · by_cases same : other = call
    · subst same
      exact ⟨life, stands⟩
    · obtain ⟨life, stands⟩ := inv.stands other
      exact ⟨life, stands.same (others other same)⟩
  · by_cases same : other = call
    · subst same
      exact latch
    · rw [(others other same).latches]
      exact inv.latches other

theorem Inv.at_none {s next : System} (inv : Inv s) (same : ∀ call, Same call s next)
    (inFunctor : next.current ≠ none → ∃ rest, next.loop.phase = .inFunctor rest) : Inv next where
  stands call := by
    obtain ⟨life, stands⟩ := inv.stands call
    exact ⟨life, stands.same (same call)⟩
  latches call := by
    rw [(same call).latches]
    exact inv.latches call
  inFunctor := inFunctor

section Steps
variable {s next : System} {call : Nat} {life : Life}

theorem System.setCaller_self (s : System) (call : Nat) :
    s.setCaller call (s.callers call) = s := by
  have same : (fun other => if other = call then s.callers call else s.callers other) =
      s.callers := by
    funext other
    split
    next equal => rw [equal]
    next => rfl
  rw [System.setCaller, same]

theorem Inv.latched (inv : Inv s) {latch : CountdownLatch} {action : CountdownLatch.Action}
    (caller : Caller) (stands : Stands s call life) (born : life ≠ .unborn)
    (still : caller ≠ .outside) (stepped : (s.latches call).step action = some latch)
    (downs : life ≠ .ran → latch.downs = (s.latches call).downs)
    (single : latch.downs.length ≤ 1)
    (waiters : latch.waiters.length = if caller = .waiting then 1 else 0) :
    Inv ((s.setCaller call caller).setLatch call latch) := by
  have latchHere : ((s.setCaller call caller).setLatch call latch).latches call = latch :=
    if_pos rfl
  have callerHere : ((s.setCaller call caller).setLatch call latch).callers call = caller :=
    if_pos rfl
  refine inv.at_call call life ?_ ?_
    (fun other apart => ⟨if_neg apart, rfl, fun _ => Iff.rfl, rfl, if_neg apart⟩) inv.inFunctor
  · refine ⟨by simp [callerHere, still, born], stands.queued, stands.current, stands.executed,
      fun unborn => absurd unborn born, fun other => ?_, ?_, ?_⟩
    · rw [latchHere, downs other, stands.downs other]
    · rwa [latchHere]
    · rwa [latchHere, callerHere]
  · rw [latchHere]
    exact CountdownLatch.step_inv _ action latch (inv.latches call) stepped

theorem Inv.waits (inv : Inv s) {latch : CountdownLatch} {action : CountdownLatch.Action}
    (born : s.callers call ≠ .outside) (waits : action = .wait 0 ∨ action = .wakeUp 0)
    (stepped : (s.latches call).step action = some latch) : Inv (s.setLatch call latch) := by
  obtain ⟨life, stands⟩ := inv.stands call
  obtain ⟨downs, waiters⟩ := CountdownLatch.waits_keeps waits stepped
  rw [← s.setCaller_self call]
  refine inv.latched (s.callers call) stands (fun unborn => born (stands.born.mpr unborn)) born
    stepped (fun _ => downs) ?_ (waiters.trans stands.waiters)
  rw [downs]
  exact stands.single

theorem wait_inv (inv : Inv s) (stepped : s.step (.wait call) = some next) : Inv next := by
  simp only [System.step] at stepped
  split at stepped
  · cases stepped
  · rename_i thread queueing
    obtain ⟨-, ran⟩ := Option.ite_none_left_eq_some.mp stepped
    obtain ⟨latch, called, rfl⟩ := Option.map_eq_some_iff.mp ran
    obtain ⟨life, stands⟩ := inv.stands call
    have born : life ≠ .unborn := by
      intro unborn
      cases queueing.symm.trans (stands.born.mpr unborn)
    refine inv.latched .waiting stands born Caller.noConfusion called ?_ ?_ ?_ <;> cases called
    · exact fun _ => rfl
    · exact stands.single
    · simp [stands.waiters, queueing]
  · rename_i waiting
    obtain ⟨latch, went, rfl⟩ := Option.map_eq_some_iff.mp stepped
    exact inv.waits (by rw [waiting]; exact Caller.noConfusion) (.inl rfl) went

theorem wakeUp_inv (inv : Inv s) (stepped : s.step (.wakeUp call) = some next) : Inv next := by
  obtain ⟨latch, woke, rfl⟩ := Option.map_eq_some_iff.mp stepped
  refine inv.waits (fun outside => ?_) (.inr rfl) woke
  obtain ⟨life, stands⟩ := inv.stands call
  rw [stands.fresh (stands.born.mp outside)] at woke
  cases woke

theorem count_singleton (call other : Nat) :
    [Task.runAndNotify call].count (.runAndNotify other) = if other = call then 1 else 0 := by
  by_cases same : other = call
  · simp [same]
  · simp [same, Ne.symm same]

theorem call_inv {thread : Nat} (inv : Inv s) (stepped : s.step (.call call thread) = some next) :
    Inv next := by
  obtain ⟨outside, ran⟩ := Option.ite_none_right_eq_some.mp stepped
  obtain ⟨loop, pushed, rfl⟩ := Option.map_eq_some_iff.mp ran
  obtain ⟨life, stands⟩ := inv.stands call
  obtain rfl := stands.born.mp outside
  have counted : ∀ other, loop.pending.count (.runAndNotify other) =
      s.loop.pending.count (.runAndNotify other) + if other = call then 1 else 0 := by
    intro other
    rw [EventLoop.push_pending pushed, List.count_append, count_singleton]
  refine inv.at_call call .queued ?_ (inv.latches call) (fun other apart => ?_)
    (fun inside => ?_)
  · refine ⟨by simp [System.setCaller], ?_, fun ran => ?_, ?_, Life.noConfusion, fun _ => ?_,
      stands.single, ?_⟩
    · change loop.pending.count _ = _
      rw [counted, stands.queued]
      simp
    · exact (stands.current ran).trans (by cases ran <;> simp)
    · exact stands.executed
    · exact stands.downs Life.noConfusion
    · simp [System.setCaller, stands.waiters, outside]
  · refine ⟨if_neg apart, ?_, fun _ => Iff.rfl, rfl, rfl⟩
    change loop.pending.count _ = _
    rw [counted, if_neg apart, Nat.add_zero]
  · obtain ⟨rest, phase⟩ := inv.inFunctor inside
    exact ⟨rest, inFunctor_stays phase (fun equal => by cases equal) pushed⟩

theorem callInLoop_inv (inv : Inv s) (stepped : s.step (.callInLoop call) = some next) :
    Inv next := by
  obtain ⟨⟨outside, -⟩, ran⟩ := Option.ite_none_right_eq_some.mp stepped
  obtain ⟨life, stands⟩ := inv.stands call
  obtain rfl := stands.born.mp outside
  have whole : run CountdownLatch.step (s.latches call) System.alone =
      some ⟨0, false, [.done], [.returned]⟩ := by
    rw [stands.fresh rfl]
    rfl
  have latched := run_invariant (CountdownLatch.Inv 1) CountdownLatch.step_inv
    (inv.latches call) whole
  rw [whole] at ran
  cases ran
  refine inv.at_call call .finished ?_ ?_ (fun other apart => ?_) inv.inFunctor
  · refine ⟨?_, stands.queued, fun ran => ?_, ?_, Life.noConfusion, fun _ => ?_, ?_, ?_⟩
    · simp [System.setLatch, System.note, System.setCaller]
    · exact (stands.current ran).trans (by cases ran <;> simp)
    · simp [System.setLatch, System.note, System.setCaller, stands.executed]
    · simp [System.setLatch]
    · simp [System.setLatch]
    · simp [System.setLatch, System.note, System.setCaller]
  · simpa [System.setLatch] using latched
  · exact ⟨if_neg apart, rfl, fun _ => Iff.rfl, if_neg apart, if_neg apart⟩

theorem Inv.current_none (inv : Inv s) {rest : List Task} (running : s.loop.phase = .running rest) :
    s.current = none := by
  by_contra inside
  obtain ⟨later, phase⟩ := inv.inFunctor inside
  cases running.symm.trans phase

theorem runNext_inv (inv : Inv s) (stepped : s.step .runNext = some next) : Inv next := by
  obtain ⟨loop, moved, rfl⟩ := Option.map_eq_some_iff.mp stepped
  obtain ⟨task, cur⟩ := EventLoop.runNext_cur moved
  obtain ⟨idle, phase⟩ : s.current = none ∧ loop.phase = .inFunctor loop.curFunctors := by
    cases EventLoop.step_moves moved with
    | loop _ _ _ inner =>
        cases inner with
        | runNext _ _ phase => exact ⟨inv.current_none phase, rfl⟩
  have pending : ∀ call, s.loop.pending.count (.runAndNotify call) =
      loop.pending.count (.runAndNotify call) + if task = .runAndNotify call then 1 else 0 := by
    intro call
    rw [EventLoop.runNext_pending cur moved, List.count_cons]
    simp
  rw [cur]
  cases task with
  | runAndNotify call =>
      obtain ⟨life, stands⟩ := inv.stands call
      have here := (pending call).symm.trans stands.queued
      rw [if_pos rfl] at here
      obtain rfl : life = .queued := by
        by_contra other
        rw [if_neg other] at here
        cases here
      refine inv.at_call call .entered ?_ (inv.latches call) (fun other apart => ?_)
        (fun _ => ⟨_, phase⟩)
      · refine ⟨stands.born.trans (by simp), ?_, fun ran => ?_, stands.executed,
          Life.noConfusion, fun _ => stands.downs Life.noConfusion, stands.single, stands.waiters⟩
        · exact Nat.succ.inj here
        · cases ran <;> simp
      · refine ⟨rfl, ?_, fun ran => ?_, rfl, rfl⟩
        · rw [pending, if_neg (by simp [Ne.symm apart]), Nat.add_zero]
        · simp [idle, Ne.symm apart]
  | other =>
      refine inv.at_none (fun call => ⟨rfl, ?_, fun ran => ?_, rfl, rfl⟩) (fun inside => ?_)
      · rw [pending, if_neg Task.noConfusion, Nat.add_zero]
      · rw [idle]
      · exact ⟨_, phase⟩

theorem execute_inv (inv : Inv s) (stepped : s.step .execute = some next) : Inv next := by
  simp only [System.step] at stepped
  split at stepped
  · rename_i call entered
    cases stepped
    obtain ⟨life, stands⟩ := inv.stands call
    obtain rfl := (stands.current false).mp entered
    refine inv.at_call call .ran ?_ (inv.latches call) (fun other apart => ?_) (fun _ => ?_)
    · refine ⟨stands.born.trans (by simp), stands.queued, fun ran => ?_, ?_, Life.noConfusion,
        fun other => absurd rfl other, stands.single, stands.waiters⟩
      · cases ran <;> simp
      · simp [System.note, stands.executed]
    · refine ⟨rfl, rfl, fun ran => ?_, if_neg apart, rfl⟩
      simp [entered, Ne.symm apart]
    · exact inv.inFunctor (by simp [entered])
  · cases stepped

theorem countDown_inv (inv : Inv s) (stepped : s.step .countDown = some next) : Inv next := by
  simp only [System.step] at stepped
  split at stepped
  · rename_i call ran
    obtain ⟨latch, went, rfl⟩ := Option.map_eq_some_iff.mp stepped
    obtain ⟨life, stands⟩ := inv.stands call
    obtain rfl := (stands.current true).mp ran
    obtain ⟨single, waiters⟩ : latch.downs.length ≤ 1 ∧
        latch.waiters.length = (s.latches call).waiters.length := by
      have single := stands.single
      split at went
      next none =>
        cases went
        simp [none]
      next =>
        obtain ⟨downs, waiters⟩ := CountdownLatch.counts_keeps went
        exact ⟨by omega, waiters⟩
    rw [← s.setCaller_self call]
    exact inv.latched (s.callers call) stands Life.noConfusion
      (fun outside => Life.noConfusion (stands.born.mp outside)) went
      (fun other => absurd rfl other) single (waiters.trans stands.waiters)
  · cases stepped

theorem functorReturn_inv (inv : Inv s) (stepped : s.step .functorReturn = some next) :
    Inv next := by
  have pending {loop : EventLoop Task}
      (moved : s.loop.step (.loop .functorReturn) = some loop) : loop.pending = s.loop.pending := by
    simpa [EventLoop.started, EventLoop.Action.appended] using EventLoop.step_pending moved
  simp only [System.step] at stepped
  split at stepped
  · rename_i idle
    obtain ⟨loop, moved, rfl⟩ := Option.map_eq_some_iff.mp stepped
    refine inv.at_none (fun call => ⟨rfl, ?_, fun _ => Iff.rfl, rfl, rfl⟩)
      (fun inside => absurd idle inside)
    rw [pending moved]
  · rename_i call ran inside
    obtain ⟨done, returned⟩ := Option.ite_none_right_eq_some.mp stepped
    obtain ⟨loop, moved, rfl⟩ := Option.map_eq_some_iff.mp returned
    obtain ⟨life, stands⟩ := inv.stands call
    -- `CountDown` comes behind `func()`.
    obtain rfl : ran = true := by
      cases ran with
      | true => rfl
      | false =>
          obtain rfl := (stands.current false).mp inside
          cases done.symm.trans (stands.downs Life.noConfusion)
    obtain rfl := (stands.current true).mp inside
    refine inv.at_call call .finished ?_ (inv.latches call) (fun other apart => ?_)
      (fun none => absurd rfl none)
    · refine ⟨stands.born.trans (by simp), ?_, fun ran => ?_, stands.executed,
        Life.noConfusion, fun _ => done, stands.single, stands.waiters⟩
      · change loop.pending.count _ = _
        rw [pending moved]
        exact stands.queued
      · cases ran <;> simp
    · refine ⟨rfl, ?_, fun ran => ?_, rfl, rfl⟩
      · rw [pending moved]
      · simp [inside, Ne.symm apart]

theorem loop_inv {action : EventLoop.Action Task} (inv : Inv s)
    (stepped : s.step (.loop action) = some next) : Inv next := by
  obtain ⟨free, ran⟩ := Option.ite_none_right_eq_some.mp stepped
  obtain ⟨loop, moved, rfl⟩ := Option.map_eq_some_iff.mp ran
  refine inv.at_none (fun call => ⟨rfl, free_pending call free moved, fun _ => Iff.rfl, rfl, rfl⟩)
    (fun inside => ?_)
  obtain ⟨rest, phase⟩ := inv.inFunctor inside
  refine ⟨rest, inFunctor_stays phase ?_ moved⟩
  rintro rfl
  cases free

end Steps

theorem step_inv (s : System) (action : Action) (next : System) (inv : Inv s)
    (stepped : s.step action = some next) : Inv next := by
  cases action with
  | call => exact call_inv inv stepped
  | callInLoop => exact callInLoop_inv inv stepped
  | wait => exact wait_inv inv stepped
  | wakeUp => exact wakeUp_inv inv stepped
  | runNext => exact runNext_inv inv stepped
  | execute => exact execute_inv inv stepped
  | countDown => exact countDown_inv inv stepped
  | functorReturn => exact functorReturn_inv inv stepped
  | loop => exact loop_inv inv stepped

structure Settled (s : System) (call : Nat) : Prop where
  waiting : s.callers call = .waiting
  executed : s.executed call = 1
  entered : s.current ≠ some (call, false)
  downs : (s.latches call).downs = [.done]
  waiters : (s.latches call).waiters = [.returned]

theorem eq_singleton {α : Type} {a : α} {l : List α} (member : a ∈ l) (most : l.length ≤ 1) :
    l = [a] := by
  obtain ⟨before, after, rfl⟩ := List.append_of_mem member
  rw [List.length_append, List.length_cons] at most
  rw [List.eq_nil_of_length_eq_zero (l := before) (by omega),
    List.eq_nil_of_length_eq_zero (l := after) (by omega), List.nil_append]

theorem Inv.settled {s : System} (inv : Inv s) {call : Nat} (returned : s.Returned call) :
    Settled s call := by
  obtain ⟨life, stands⟩ := inv.stands call
  have waiters : (s.latches call).waiters = [.returned] := by
    have most : (s.latches call).waiters.length ≤ 1 := by
      rw [stands.waiters]
      split <;> omega
    exact eq_singleton returned most
  have downs : (s.latches call).downs = [.done] :=
    eq_singleton ((inv.latches call).done_of_returned returned) stands.single
  have late : life = .ran ∨ life = .finished := by
    by_cases ran : life = .ran
    · exact .inl ran
    · have begun := downs.symm.trans (stands.downs ran)
      split at begun
      next finished => exact .inr finished
      next => cases begun
  refine ⟨?_, ?_, fun entered => ?_, downs, waiters⟩
  · by_contra elsewhere
    have none := stands.waiters
    rw [if_neg elsewhere, waiters] at none
    cases none
  · rw [stands.executed, if_pos late]
  · have before := (stands.current false).mp entered
    subst before
    simp at late

theorem Settled.stuck {s : System} {call : Nat} (settled : Settled s call)
    {action : CountdownLatch.Action}
    (own : action = .wait 0 ∨ action = .wakeUp 0 ∨ action = .countDown 0) :
    (s.latches call).step action = none := by
  rcases own with rfl | rfl | rfl
  · simp only [CountdownLatch.step, settled.waiters]
    rfl
  · simp only [CountdownLatch.step, settled.waiters]
    rfl
  · simp only [CountdownLatch.step, settled.downs]
    rfl

/-- Nobody has a step in the latch of a call that is over, and its `cb` is not run again. -/
theorem step_settled {s next : System} {call : Nat} {action : Action} (settled : Settled s call)
    (stepped : s.step action = some next) :
    next.executed call = s.executed call ∧ next.latches call = s.latches call := by
  cases action with
  | call other thread =>
      obtain ⟨-, ran⟩ := Option.ite_none_right_eq_some.mp stepped
      obtain ⟨loop, -, rfl⟩ := Option.map_eq_some_iff.mp ran
      exact ⟨rfl, rfl⟩
  | callInLoop other =>
      obtain ⟨⟨outside, -⟩, ran⟩ := Option.ite_none_right_eq_some.mp stepped
      obtain ⟨latch, -, rfl⟩ := Option.map_eq_some_iff.mp ran
      have apart : call ≠ other := by
        rintro rfl
        cases settled.waiting.symm.trans outside
      exact ⟨if_neg apart, if_neg apart⟩
  | wait other =>
      simp only [System.step] at stepped
      split at stepped
      · cases stepped
      · rename_i thread queueing
        obtain ⟨-, ran⟩ := Option.ite_none_left_eq_some.mp stepped
        obtain ⟨latch, -, rfl⟩ := Option.map_eq_some_iff.mp ran
        have apart : call ≠ other := by
          rintro rfl
          cases settled.waiting.symm.trans queueing
        exact ⟨rfl, if_neg apart⟩
      · obtain ⟨latch, went, rfl⟩ := Option.map_eq_some_iff.mp stepped
        have apart : call ≠ other := by
          rintro rfl
          cases (settled.stuck (.inl rfl)).symm.trans went
        exact ⟨rfl, if_neg apart⟩
  | wakeUp other =>
      obtain ⟨latch, woke, rfl⟩ := Option.map_eq_some_iff.mp stepped
      have apart : call ≠ other := by
        rintro rfl
        cases (settled.stuck (.inr (.inl rfl))).symm.trans woke
      exact ⟨rfl, if_neg apart⟩
  | runNext =>
      obtain ⟨loop, -, rfl⟩ := Option.map_eq_some_iff.mp stepped
      exact ⟨rfl, rfl⟩
  | execute =>
      simp only [System.step] at stepped
      split at stepped
      · rename_i other entered
        cases stepped
        have apart : call ≠ other := by
          rintro rfl
          exact settled.entered entered
        exact ⟨if_neg apart, rfl⟩
      · cases stepped
  | countDown =>
      simp only [System.step] at stepped
      split at stepped
      · rename_i other ran
        obtain ⟨latch, went, rfl⟩ := Option.map_eq_some_iff.mp stepped
        have apart : call ≠ other := by
          rintro rfl
          rw [if_neg (by simp [settled.downs])] at went
          cases (settled.stuck (.inr (.inr rfl))).symm.trans went
        exact ⟨rfl, if_neg apart⟩
      · cases stepped
  | functorReturn =>
      simp only [System.step] at stepped
      split at stepped
      · obtain ⟨loop, -, rfl⟩ := Option.map_eq_some_iff.mp stepped
        exact ⟨rfl, rfl⟩
      · obtain ⟨-, ran⟩ := Option.ite_none_right_eq_some.mp stepped
        obtain ⟨loop, -, rfl⟩ := Option.map_eq_some_iff.mp ran
        exact ⟨rfl, rfl⟩
  | loop action =>
      obtain ⟨-, ran⟩ := Option.ite_none_right_eq_some.mp stepped
      obtain ⟨loop, -, rfl⟩ := Option.map_eq_some_iff.mp ran
      exact ⟨rfl, rfl⟩

theorem run_settled {s later : System} {call : Nat} {more : List Action} (inv : Inv s)
    (settled : Settled s call) (on : run System.step s more = some later) :
    later.executed call = 1 ∧ later.latches call = s.latches call := by
  have kept := run_invariant
    (fun now => Inv now ∧ now.executed call = 1 ∧ now.latches call = s.latches call)
    (fun now action next known stepped => by
      obtain ⟨inv, executed, latch⟩ := known
      have returned : now.Returned call := by
        rw [System.Returned, latch, settled.waiters]
        exact List.mem_singleton_self _
      obtain ⟨executedNext, latchNext⟩ := step_settled (inv.settled returned) stepped
      exact ⟨step_inv _ _ _ inv stepped, executedNext.trans executed, latchNext.trans latch⟩)
    ⟨inv, settled.executed, rfl⟩ on
  exact kept.2

theorem Inv.returns {s : System} (inv : Inv s) {call : Nat} (executed : s.executed call ≠ 0)
    (left : ∀ ran, s.current ≠ some (call, ran)) (waiting : s.callers call = .waiting)
    (stuck : s.step (.wait call) = none) : s.Returned call := by
  obtain ⟨life, stands⟩ := inv.stands call
  obtain rfl : life = .finished := by
    have late : life = .ran ∨ life = .finished := by
      by_contra early
      exact executed (stands.executed.trans (if_neg early))
    rcases late with rfl | finished
    · exact absurd ((stands.current true).mpr rfl) (left true)
    · exact finished
  have downs := stands.downs Life.noConfusion
  rw [if_pos rfl] at downs
  have one := stands.waiters
  rw [if_pos waiting] at one
  obtain ⟨waiter, waiters⟩ := List.length_eq_one_iff.mp one
  simp only [System.step, waiting, Option.map_eq_none_iff] at stuck
  have quiet : CountdownLatch.Quiet (s.latches call) := by
    intro i
    refine ⟨?_, ?_⟩
    · rw [CountdownLatch.step, downs]
      cases i <;> rfl
    · cases i with
      | zero => exact stuck
      | succ i =>
          rw [CountdownLatch.step, waiters]
          rfl
  have member : waiter ∈ (s.latches call).waiters := by
    rw [waiters]
    exact List.mem_singleton_self _
  have returned := quiet.waiter_eq (inv.latches call) member
  rw [downs, if_pos (by decide)] at returned
  rwa [returned] at member

/-- Calls of `RunAndWait` from any threads, the loop thread too, in any order with anything
else the loop does: a call that has returned had its `cb` run once, and no thread has a step
in the latch on its stack from then on. And once the functor of a call is over, the call is not
left in its `Wait`. -/
theorem runAndWait_waits_for_cb (actions : List Action) (s : System) (call : Nat)
    (ran : run System.step init actions = some s) :
    (s.Returned call → ∀ more later, run System.step s more = some later →
      later.executed call = 1 ∧ later.latches call = s.latches call) ∧
    (s.executed call ≠ 0 → (∀ ran, s.current ≠ some (call, ran)) →
      s.callers call = .waiting → s.step (.wait call) = none → s.Returned call) := by
  have inv := run_invariant Inv step_inv init_inv ran
  exact ⟨fun returned more later on => run_settled inv (inv.settled returned) on,
    fun executed left waiting stuck => inv.returns executed left waiting stuck⟩

/-- A thread calls and sleeps before the loop comes to its functor; it is back while the
loop thread has not left the functor. -/
def sleptThrough : List Action :=
  [.call 0 7, .loop (.pushed 7), .wait 0, .wait 0, .wait 0,
    .loop (.loop .enter), .loop (.loop .poll), .loop (.loop .pollReturn),
    .loop (.loop .handleWakeupRead), .loop (.loop .beginExecute), .loop (.loop .swap),
    .runNext, .execute, .countDown, .countDown, .countDown, .countDown,
    .wait 0, .wait 0, .wait 0, .wait 0]

theorem slept_through_runs_once : ∃ s, run System.step init sleptThrough = some s ∧
    s.current = some (0, true) ∧ s.Returned 0 ∧
      ∃ later, run System.step s [.functorReturn, .loop (.loop .finish)] = some later ∧
        later.executed 0 = 1 ∧ later.latches 0 = s.latches 0 := by
  obtain ⟨s, ran, inside, returned, later, on⟩ : ∃ s, run System.step init sleptThrough = some s ∧
      s.current = some (0, true) ∧ s.Returned 0 ∧
        ∃ later, run System.step s [.functorReturn, .loop (.loop .finish)] = some later :=
    ⟨_, rfl, rfl, List.mem_singleton_self _, _, rfl⟩
  exact ⟨s, ran, inside, returned, later, on,
    (runAndWait_waits_for_cb sleptThrough s 0 ran).1 returned _ later on⟩

end RunAndWait

end Muzi
