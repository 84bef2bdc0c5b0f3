import Mathlib.Data.List.Forall2
import Muzi.Execution

/-!
The functor queue of net/event_loop.cc. The loop thread is a phase machine over
`Loop` and `ExecuteFunctors`; every other thread is between two calls of
`QueueInLoop`, or inside one, after its push and before its `WakeUp`. One action
is one stretch of code that takes the lock at most once. A task stands for a
functor; what it does is left to the systems built on this loop.
-/

namespace Muzi

universe u

/-- Where the loop thread is. In a batch, `rest` are the functors of
`cur_functors` that have not been started. -/
inductive Phase (Task : Type u) where
  -- not in `Loop()`
  | outside
  -- at the test `while (!quit_)`
  | testing
  -- inside `poller_->Poll`
  | polling
  -- inside or between the handlers of the active channels
  | handling
  -- in `ExecuteFunctors`, before the swap
  | swapping
  -- between two functors of the batch
  | running (rest : List Task)
  -- inside a functor of the batch
  | inFunctor (rest : List Task)

def Phase.inCallback {Task : Type u} : Phase Task → Bool
  | .outside | .handling | .inFunctor _ => true
  | _ => false

def Phase.executing {Task : Type u} : Phase Task → Bool
  | .swapping | .running _ | .inFunctor _ => true
  | _ => false

structure EventLoop (Task : Type u) where
  phase : Phase Task
  quit : Bool
  callingFunctors : Bool
  functors : List Task
  /-- The counter of the eventfd. -/
  wakeupFd : Nat
  /-- The loop thread is in `QueueInLoop`, behind its push. -/
  queueing : Bool
  /-- The other threads that are in `QueueInLoop`, behind their push. -/
  waking : List Nat

namespace EventLoop

open Execution

variable {Task : Type u}

inductive LoopAction (Task : Type u) where
  | enter
  | leave
  | poll
  | pollReturn
  | handleWakeupRead
  | beginExecute
  | swap
  | runNext
  | functorReturn
  | finish
  | queue (task : Task)

inductive Action (Task : Type u) where
  -- `thread` pushes in `QueueInLoop`
  | push (thread : Nat) (task : Task)
  -- `thread` goes on to the wakeup of its `QueueInLoop`
  | pushed (thread : Nat)
  -- a `WakeUp` from elsewhere, such as `Quit`
  | wakeUp
  | quit
  | loop (action : LoopAction Task)
  -- the loop thread goes on to the wakeup of its `QueueInLoop`
  | queued

def init : EventLoop Task where
  phase := .outside
  quit := false
  callingFunctors := false
  functors := []
  wakeupFd := 0
  queueing := false
  waking := []

/-- The largest value of an eventfd counter; a write beyond it fails. -/
def maxEventFd : Nat := 0xfffffffffffffffe

def wakeUp (l : EventLoop Task) : EventLoop Task :=
  if l.wakeupFd < maxEventFd then { l with wakeupFd := l.wakeupFd + 1 } else l

def wakeAfterPush (inLoopThread : Bool) (l : EventLoop Task) : EventLoop Task :=
  if !inLoopThread || l.callingFunctors then l.wakeUp else l

def pushBack (l : EventLoop Task) (task : Task) : EventLoop Task :=
  { l with functors := l.functors ++ [task] }

/-- The transitions of the loop thread; user code may call `QueueInLoop`. -/
def loopStep (l : EventLoop Task) (action : LoopAction Task) : Option (EventLoop Task) :=
  match l.phase, action with
  | .outside, .enter => some { l with phase := .testing }
  | .outside, .queue task => some { l.pushBack task with queueing := true }
  | .testing, .leave => if l.quit then some { l with phase := .outside } else none
  | .testing, .poll => if l.quit then none else some { l with phase := .polling }
  | .polling, .pollReturn => some { l with phase := .handling }
  | .handling, .handleWakeupRead => some { l with wakeupFd := 0 }
  | .handling, .queue task => some { l.pushBack task with queueing := true }
  | .handling, .beginExecute => some { l with phase := .swapping, callingFunctors := true }
  | .swapping, .swap => some { l with phase := .running l.functors, functors := [] }
  | .running (_ :: rest), .runNext => some { l with phase := .inFunctor rest }
  | .running [], .finish => some { l with phase := .testing, callingFunctors := false }
  | .inFunctor _, .queue task => some { l.pushBack task with queueing := true }
  | .inFunctor rest, .functorReturn => some { l with phase := .running rest }
  | _, _ => none

def step (l : EventLoop Task) : Action Task → Option (EventLoop Task)
  | .push thread task =>
      if thread ∈ l.waking then none
      else some { l.pushBack task with waking := thread :: l.waking }
  | .pushed thread =>
      if thread ∈ l.waking then
        some { l.wakeAfterPush false with waking := l.waking.erase thread }
      else none
  | .wakeUp => some l.wakeUp
  -- `Quit` does nothing unless the loop is looping.
  | .quit =>
      match l.phase with
      | .outside => some l
      | _ => some { l with quit := true }
  | .loop action => if l.queueing then none else loopStep l action
  | .queued => if l.queueing then some { l.wakeAfterPush true with queueing := false } else none

def curFunctors (l : EventLoop Task) : List Task :=
  match l.phase with
  | .running rest => rest
  | .inFunctor rest => rest
  | _ => []

def pending (l : EventLoop Task) : List Task := l.curFunctors ++ l.functors

def Action.appended : Action Task → List Task
  | .push _ task => [task]
  | .loop (.queue task) => [task]
  | _ => []

def Action.swaps : Action Task → Nat
  | .loop .swap => 1
  | _ => 0

def started (l : EventLoop Task) : Action Task → List Task
  | .loop .runNext => l.curFunctors.take 1
  | _ => []

inductive LoopMoves : EventLoop Task → LoopAction Task → EventLoop Task → Prop where
  | enter (l) (phase : l.phase = .outside) : LoopMoves l .enter { l with phase := .testing }
  | leave (l) (phase : l.phase = .testing) (quit : l.quit = true) :
      LoopMoves l .leave { l with phase := .outside }
  | poll (l) (phase : l.phase = .testing) (stay : l.quit = false) :
      LoopMoves l .poll { l with phase := .polling }
  | pollReturn (l) (phase : l.phase = .polling) :
      LoopMoves l .pollReturn { l with phase := .handling }
  | handleWakeupRead (l) (phase : l.phase = .handling) :
      LoopMoves l .handleWakeupRead { l with wakeupFd := 0 }
  | beginExecute (l) (phase : l.phase = .handling) :
      LoopMoves l .beginExecute { l with phase := .swapping, callingFunctors := true }
  | swap (l) (phase : l.phase = .swapping) :
      LoopMoves l .swap { l with phase := .running l.functors, functors := [] }
  | runNext (l task rest) (phase : l.phase = .running (task :: rest)) :
      LoopMoves l .runNext { l with phase := .inFunctor rest }
  | functorReturn (l rest) (phase : l.phase = .inFunctor rest) :
      LoopMoves l .functorReturn { l with phase := .running rest }
  | finish (l) (phase : l.phase = .running []) :
      LoopMoves l .finish { l with phase := .testing, callingFunctors := false }
  | queue (l task) (phase : l.phase.inCallback = true) :
      LoopMoves l (.queue task) { l.pushBack task with queueing := true }

inductive Moves : EventLoop Task → Action Task → EventLoop Task → Prop where
  | push (l thread task) (free : thread ∉ l.waking) :
      Moves l (.push thread task) { l.pushBack task with waking := thread :: l.waking }
  | pushed (l thread) (behind : thread ∈ l.waking) :
      Moves l (.pushed thread) { l.wakeAfterPush false with waking := l.waking.erase thread }
  | wakeUp (l) : Moves l .wakeUp l.wakeUp
  | quitIgnored (l) (phase : l.phase = .outside) : Moves l .quit l
  | quit (l) : Moves l .quit { l with quit := true }
  | loop (l action next) (free : l.queueing = false) (moved : LoopMoves l action next) :
      Moves l (.loop action) next
  | queued (l) (behind : l.queueing = true) :
      Moves l .queued { l.wakeAfterPush true with queueing := false }

theorem loopStep_moves {l next : EventLoop Task} {action : LoopAction Task}
    (stepped : loopStep l action = some next) : LoopMoves l action next := by
  unfold loopStep at stepped
  split at stepped
  all_goals rename_i phase
  case h_1 => cases stepped; exact .enter l phase
  case h_2 => cases stepped; exact .queue l _ (by rw [phase]; rfl)
  case h_3 =>
    split at stepped
    · cases stepped; exact .leave l phase ‹_›
    · cases stepped
  case h_4 =>
    split at stepped
    · cases stepped
    · cases stepped; exact .poll l phase (Bool.eq_false_iff.mpr ‹_›)
  case h_5 => cases stepped; exact .pollReturn l phase
  case h_6 => cases stepped; exact .handleWakeupRead l phase
  case h_7 => cases stepped; exact .queue l _ (by rw [phase]; rfl)
  case h_8 => cases stepped; exact .beginExecute l phase
  case h_9 => cases stepped; exact .swap l phase
  case h_10 => cases stepped; exact .runNext l _ _ phase
  case h_11 => cases stepped; exact .finish l phase
  case h_12 => cases stepped; exact .queue l _ (by rw [phase]; rfl)
  case h_13 => cases stepped; exact .functorReturn l _ phase
  case h_14 => cases stepped

theorem LoopMoves.loopStep {l next : EventLoop Task} {action : LoopAction Task}
    (moved : LoopMoves l action next) : l.loopStep action = some next := by
  cases moved with
  | leave phase quit => simp [EventLoop.loopStep, phase, quit]
  | poll phase stay => simp [EventLoop.loopStep, phase, stay]
  | queue task phase =>
      cases place : l.phase with
      | outside | handling | inFunctor rest => simp only [EventLoop.loopStep, place]
      | testing | polling | swapping | running rest => simp [place, Phase.inCallback] at phase
  | enter phase | pollReturn phase | handleWakeupRead phase | beginExecute phase | swap phase
  | runNext task rest phase | functorReturn rest phase | finish phase =>
      simp only [EventLoop.loopStep, phase]

theorem step_moves {l next : EventLoop Task} {action : Action Task}
    (stepped : step l action = some next) : Moves l action next := by
  cases action with
  | push thread task =>
      simp only [step] at stepped
      split at stepped
      · cases stepped
      · cases stepped; exact .push l thread task ‹_›
  | pushed thread =>
      simp only [step] at stepped
      split at stepped
      · cases stepped; exact .pushed l thread ‹_›
      · cases stepped
  | wakeUp =>
      cases stepped
      exact .wakeUp l
  | quit =>
      simp only [step] at stepped
      split at stepped
      · cases stepped; exact .quitIgnored l ‹_›
      · cases stepped; exact .quit l
  | loop action =>
      simp only [step] at stepped
      split at stepped
      · cases stepped
      · exact .loop l action next (Bool.eq_false_iff.mpr ‹_›) (loopStep_moves stepped)
  | queued =>
      simp only [step] at stepped
      split at stepped
      · cases stepped; exact .queued l ‹_›
      · cases stepped

@[simp] theorem wakeUp_frame (l : EventLoop Task) :
    l.wakeUp.phase = l.phase ∧ l.wakeUp.functors = l.functors ∧ l.wakeUp.quit = l.quit ∧
      l.wakeUp.callingFunctors = l.callingFunctors ∧ l.wakeUp.queueing = l.queueing ∧
      l.wakeUp.waking = l.waking := by
  unfold wakeUp
  split <;> simp

@[simp] theorem wakeAfterPush_frame (inLoopThread : Bool) (l : EventLoop Task) :
    (l.wakeAfterPush inLoopThread).phase = l.phase ∧
      (l.wakeAfterPush inLoopThread).functors = l.functors ∧
      (l.wakeAfterPush inLoopThread).quit = l.quit ∧
      (l.wakeAfterPush inLoopThread).callingFunctors = l.callingFunctors ∧
      (l.wakeAfterPush inLoopThread).queueing = l.queueing ∧
      (l.wakeAfterPush inLoopThread).waking = l.waking := by
  unfold wakeAfterPush
  split <;> simp

theorem wakeUp_awake (l : EventLoop Task) : l.wakeUp.wakeupFd ≠ 0 := by
  unfold wakeUp
  split
  · exact Nat.succ_ne_zero _
  · rename_i full
    simp only [maxEventFd] at full
    omega

/-- What a step does to the functors: it appends to `functors_`, it swaps them
into an empty batch, or it starts the first functor of the batch. -/
theorem step_functors {l next : EventLoop Task} {action : Action Task}
    (stepped : step l action = some next) :
    (next.curFunctors = l.curFunctors ∧ next.functors = l.functors ++ action.appended ∧
        started l action = [] ∧ action.swaps = 0) ∨
      (action = .loop .swap ∧ l.curFunctors = [] ∧ next.curFunctors = l.functors ∧
        next.functors = []) ∨
      (action = .loop .runNext ∧ next.functors = l.functors ∧
        ∃ task, l.curFunctors = task :: next.curFunctors) := by
  cases step_moves stepped with
  | push thread task free => exact .inl ⟨rfl, rfl, rfl, rfl⟩
  | pushed thread behind | queued behind =>
      exact .inl ⟨by simp [curFunctors], by simp [Action.appended], rfl, rfl⟩
  | wakeUp => exact .inl ⟨by simp [curFunctors], by simp [Action.appended], rfl, rfl⟩
  | quitIgnored phase => exact .inl ⟨rfl, by simp [Action.appended], rfl, rfl⟩
  | quit => exact .inl ⟨rfl, by simp [Action.appended], rfl, rfl⟩
  | loop action _ free moved =>
      cases moved with
      | queue task phase => exact .inl ⟨rfl, rfl, rfl, rfl⟩
      | handleWakeupRead phase => exact .inl ⟨rfl, by simp [Action.appended], rfl, rfl⟩
      | swap phase => exact .inr (.inl ⟨rfl, by simp [curFunctors, phase], rfl, rfl⟩)
      | runNext task rest phase =>
          exact .inr (.inr ⟨rfl, rfl, task, by simp [curFunctors, phase]⟩)
      | enter phase | leave phase | poll phase | pollReturn phase | beginExecute phase
      | functorReturn rest phase | finish phase =>
          exact .inl ⟨by simp [curFunctors, phase], by simp [Action.appended], rfl, rfl⟩

/-- Every step keeps the order: it starts the first pending functor or none,
and appends behind all others. -/
theorem step_pending {l next : EventLoop Task} {action : Action Task}
    (stepped : step l action = some next) :
    started l action ++ next.pending = l.pending ++ action.appended := by
  rcases step_functors stepped with
    ⟨batch, queue, none, -⟩ | ⟨rfl, empty, batch, queue⟩ | ⟨rfl, queue, task, batch⟩
  · simp [pending, batch, queue, none]
  · simp [pending, empty, batch, queue, started, Action.appended]
  · simp [pending, batch, queue, started, Action.appended]

theorem push_pending {l next : EventLoop Task} {thread : Nat} {task : Task}
    (pushed : step l (.push thread task) = some next) : next.pending = l.pending ++ [task] := by
  simpa [started, Action.appended] using step_pending pushed

theorem runNext_cur {l next : EventLoop Task} (moved : step l (.loop .runNext) = some next) :
    ∃ task, l.curFunctors = task :: next.curFunctors := by
  cases step_moves moved with
  | loop _ _ free inner =>
      cases inner with
      | runNext task rest phase => exact ⟨task, by simp [curFunctors, phase]⟩

theorem runNext_pending {l next : EventLoop Task} {task : Task} {rest : List Task}
    (cur : l.curFunctors = task :: rest) (moved : step l (.loop .runNext) = some next) :
    l.pending = task :: next.pending := by
  have order := step_pending moved
  simpa [started, cur, Action.appended] using order.symm

theorem swap_phase {l next : EventLoop Task} (moved : step l (.loop .swap) = some next) :
    l.phase = .swapping := by
  cases step_moves moved with
  | loop _ _ free inner =>
      cases inner with
      | swap phase => exact phase

/-- Only `Quit` sets `quit_`, and only while the loop is looping. -/
theorem step_quit {l next : EventLoop Task} {action : Action Task}
    (stepped : l.step action = some next) :
    next.quit = l.quit ∨ action = .quit ∧ l.phase ≠ .outside ∧ next = { l with quit := true } := by
  cases step_moves stepped with
  | push | quitIgnored => exact .inl rfl
  | pushed | wakeUp | queued => exact .inl (by simp)
  | loop action _ free moved => cases moved <;> exact .inl rfl
  | quit =>
      by_cases outside : l.phase = .outside
      · simp only [step, outside, Option.some.injEq] at stepped
        exact .inl (congrArg EventLoop.quit stepped).symm
      · exact .inr ⟨rfl, outside, rfl⟩

structure WellPhased (l : EventLoop Task) : Prop where
  calling : l.callingFunctors = l.phase.executing
  queueing : l.queueing = true → l.phase.inCallback = true

theorem init_wellPhased : (init : EventLoop Task).WellPhased :=
  ⟨rfl, fun _ => rfl⟩

theorem step_wellPhased (l : EventLoop Task) (action : Action Task) (next : EventLoop Task)
    (well : l.WellPhased) (stepped : step l action = some next) : next.WellPhased := by
  rcases well with ⟨calling, queueing⟩
  cases step_moves stepped with
  | push thread task free => exact ⟨calling, queueing⟩
  | pushed thread behind => exact ⟨by simpa using calling, by simpa using queueing⟩
  | wakeUp => exact ⟨by simpa using calling, by simpa using queueing⟩
  | quitIgnored phase => exact ⟨calling, queueing⟩
  | quit => exact ⟨calling, queueing⟩
  | queued behind => exact ⟨by simpa using calling, by simp⟩
  | loop action _ free moved =>
      -- The loop thread leaves a phase only between two calls of `QueueInLoop`.
      have idle : l.queueing = true → ∀ {fact : Prop}, fact := by simp [free]
      cases moved with
      | queue task phase => exact ⟨calling, fun _ => phase⟩
      | handleWakeupRead phase => exact ⟨calling, queueing⟩
      | runNext task rest phase | enter phase | leave phase | poll phase | pollReturn phase
      | beginExecute phase | swap phase | functorReturn rest phase | finish phase =>
          refine ⟨?_, fun busy => idle busy⟩
          simp [calling, phase, Phase.executing]

/-! The wakeup protocol. -/

/-- The loop's first `Poll` with a queued functor returns at once: the eventfd
is readable, or a thread that pushed has its `WakeUp` before it. -/
def Noticed (l : EventLoop Task) : Prop :=
  l.functors ≠ [] → l.wakeupFd ≠ 0 ∨ l.waking ≠ []

/-- The loop thread does not call `QueueInLoop` before it enters `Loop()`; once
`quit_` is set it never polls again. -/
def NotBeforeLoop (l : EventLoop Task) : Action Task → Prop
  | .loop (.queue _) =>
      match l.phase with
      | .outside => l.quit = true
      | _ => True
  | _ => True

/-- Queued functors are noticed in every phase from which the loop thread can
reach `Poll` without a swap. The thread's own push in a functor counts as
noticed, since its `WakeUp` is still to come. -/
def Guarded (l : EventLoop Task) : Prop :=
  match l.phase with
  | .handling | .swapping => True
  | .outside | .testing => l.quit = true ∨ l.Noticed
  | .polling | .running _ => l.Noticed
  | .inFunctor _ => l.queueing = true ∨ l.Noticed

theorem guarded_of_noticed {l : EventLoop Task} (noticed : l.Noticed) : l.Guarded := by
  unfold Guarded
  cases l.phase with
  | handling | swapping => trivial
  | outside | testing => exact .inr noticed
  | polling | running rest => exact noticed
  | inFunctor rest => exact .inr noticed

theorem loop_guarded {l next : EventLoop Task} {action : LoopAction Task}
    (free : l.queueing = false) (guarded : l.Guarded)
    (late : NotBeforeLoop l (.loop action)) (moved : LoopMoves l action next) :
    next.Guarded := by
  unfold Guarded at guarded
  cases moved with
  | enter phase =>
      rw [phase] at guarded
      exact guarded
  | leave phase quit => exact .inl quit
  | poll phase stay =>
      rw [phase] at guarded
      rcases guarded with quit | noticed
      · rw [stay] at quit
        cases quit
      · exact noticed
  | pollReturn phase => trivial
  | handleWakeupRead phase =>
      rw [Guarded, phase]
      trivial
  | beginExecute phase => trivial
  | swap phase => exact fun some => absurd rfl some
  | runNext task rest phase =>
      rw [phase] at guarded
      exact .inr guarded
  | functorReturn rest phase =>
      rw [phase] at guarded
      rcases guarded with busy | noticed
      · rw [free] at busy
        cases busy
      · exact noticed
  | finish phase =>
      rw [phase] at guarded
      exact .inr guarded
  | queue task phase =>
      simp only [NotBeforeLoop] at late
      simp only [Guarded, pushBack]
      cases place : l.phase with
      | outside =>
          rw [place] at late
          exact .inl late
      | inFunctor rest => exact .inl trivial
      | handling => trivial
      | testing | polling | swapping | running rest =>
          rw [place] at phase
          cases phase

theorem step_guarded {l next : EventLoop Task} {action : Action Task}
    (well : l.WellPhased) (guarded : l.Guarded) (late : NotBeforeLoop l action)
    (stepped : step l action = some next) : next.Guarded := by
  cases step_moves stepped with
  | push thread task free =>
      apply guarded_of_noticed
      exact fun _ => .inr (List.cons_ne_nil _ _)
  | pushed thread behind =>
      apply guarded_of_noticed
      exact fun _ => .inl (wakeUp_awake l)
  | wakeUp =>
      apply guarded_of_noticed
      exact fun _ => .inl (wakeUp_awake l)
  | quitIgnored phase => exact guarded
  | quit =>
      unfold Guarded at guarded ⊢
      cases place : l.phase with
      | outside | testing => exact .inl rfl
      | handling | swapping => trivial
      | polling | running rest | inFunctor rest =>
          rw [place] at guarded
          exact guarded
  | loop action _ free moved => exact loop_guarded free guarded late moved
  | queued behind =>
      cases calling : l.callingFunctors with
      | true =>
          -- Inside a functor the thread's own push is followed by a wakeup.
          apply guarded_of_noticed
          intro _
          rw [wakeAfterPush, calling]
          exact .inl (wakeUp_awake l)
      | false =>
          have unchanged : l.wakeAfterPush true = l := by
            rw [wakeAfterPush, calling]
            rfl
          rw [unchanged]
          unfold Guarded at guarded ⊢
          cases place : l.phase with
          | inFunctor rest =>
              have executing := well.calling
              rw [calling, place] at executing
              cases executing
          | outside | testing | handling | swapping | polling | running rest =>
              rw [place] at guarded
              exact guarded

/-- No lost wakeup: in every run in which the loop thread queues nothing before
it enters `Loop()`, a loop thread in `Poll` with a queued functor has a readable
eventfd, or another thread that pushed is about to write it. -/
theorem poll_notices_functors (actions : List (Action Task)) (final : EventLoop Task)
    (late : Along step NotBeforeLoop init actions)
    (ran : run step init actions = some final) (polling : final.phase = .polling) :
    final.Noticed := by
  have kept : final.WellPhased ∧ final.Guarded := by
    apply run_invariant_along (fun l => l.WellPhased ∧ l.Guarded) _ _ late ran
    · rintro l action next ⟨well, guarded⟩ met stepped
      exact ⟨step_wellPhased l action next well stepped, step_guarded well guarded met stepped⟩
    · exact ⟨init_wellPhased, .inr fun some => absurd rfl some⟩
  have guarded := kept.2
  rw [Guarded, polling] at guarded
  exact guarded

/-- A foreign push, still before its `WakeUp`, while the loop thread polls. -/
theorem poll_notices_foreign_push : ∃ final : EventLoop Unit,
    run step init [.loop .enter, .loop .poll, .push 1 ()] = some final ∧
      final.functors = [()] ∧ final.Noticed :=
  ⟨_, rfl, rfl, poll_notices_functors [.loop .enter, .loop .poll, .push 1 ()] _
    ⟨trivial, fun _ first => by
      cases first
      exact ⟨trivial, fun _ second => by
        cases second
        exact ⟨trivial, fun _ _ => trivial⟩⟩⟩ rfl rfl⟩

/-- The loop's own thread queues a functor and then enters `Loop()`: nothing
wakes the first `Poll`. -/
theorem queue_before_loop_unnoticed : ∃ final : EventLoop Unit,
    run step init [.loop (.queue ()), .queued, .loop .enter, .loop .poll] = some final ∧
      final.phase = .polling ∧ final.functors = [()] ∧ final.wakeupFd = 0 ∧
      final.waking = [] ∧ ¬final.Noticed := by
  refine ⟨_, rfl, rfl, rfl, rfl, rfl, ?_⟩
  intro noticed
  rcases noticed (by decide) with awake | waking
  · exact awake rfl
  · exact waking rfl

/-! The order of functors. A history notes each push and each start of a
functor with the number of swaps before it, which is the number of the batch. -/

structure History (Task : Type u) where
  loop : EventLoop Task
  batches : Nat
  pushed : List (Task × Nat)
  executed : List (Task × Nat)

namespace History

def init : History Task := ⟨EventLoop.init, 0, [], []⟩

def step (h : History Task) (action : Action Task) : Option (History Task) :=
  (h.loop.step action).map fun loop =>
    { loop := loop
      batches := h.batches + action.swaps
      pushed := h.pushed ++ action.appended.map (·, h.batches)
      executed := h.executed ++ (started h.loop action).map (·, h.batches) }

/-- The pushes fall into those executed, each in a batch after its push, those
of the current batch, pushed before its swap, and those still in `functors_`. -/
structure Ordered (h : History Task) (done batch later : List (Task × Nat)) : Prop where
  split : h.pushed = done ++ (batch ++ later)
  ran : List.Forall₂ (fun push start => push.1 = start.1 ∧ push.2 < start.2) done h.executed
  inBatch : batch.map Prod.fst = h.loop.curFunctors
  beforeSwap : ∀ push ∈ batch, push.2 < h.batches
  queued : later.map Prod.fst = h.loop.functors
  upToNow : ∀ push ∈ later, push.2 ≤ h.batches

theorem step_ordered (h : History Task) (action : Action Task) (next : History Task)
    (ordered : ∃ done batch later, h.Ordered done batch later)
    (stepped : h.step action = some next) :
    ∃ done batch later, next.Ordered done batch later := by
  rcases ordered with ⟨done, batch, later, ordered⟩
  rcases Option.map_eq_some_iff.mp stepped with ⟨loop, moved, rfl⟩
  rcases step_functors moved with
    ⟨cur, queue, none, noSwap⟩ | ⟨rfl, empty, cur, queue⟩ | ⟨rfl, queue, task, cur⟩
  · -- The pushes of this step join `functors_` under the current number.
    refine ⟨done, batch, later ++ action.appended.map (·, h.batches), ?_⟩
    constructor
    · simp [ordered.split]
    · simpa [none] using ordered.ran
    · exact ordered.inBatch.trans cur.symm
    · simpa [noSwap] using ordered.beforeSwap
    · simp [ordered.queued, queue, Function.comp_def]
    · intro push member
      rcases List.mem_append.mp member with old | new
      · exact Nat.le_trans (ordered.upToNow push old) (Nat.le_add_right _ _)
      · rcases List.mem_map.mp new with ⟨task, -, rfl⟩
        exact Nat.le_add_right _ _
  · -- At a swap the old batch is used up and the queue becomes the batch.
    have used : batch = [] := List.map_eq_nil_iff.mp (ordered.inBatch.trans empty)
    subst used
    refine ⟨done, later, [], ?_⟩
    constructor
    · simpa [Action.appended] using ordered.split
    · simpa [started] using ordered.ran
    · exact ordered.queued.trans cur.symm
    · intro push member
      exact Nat.lt_succ_of_le (ordered.upToNow push member)
    · exact queue.symm
    · intro push member
      cases member
  · -- The first functor of the batch starts.
    cases batch with
    | nil =>
        have impossible := ordered.inBatch.trans cur
        cases impossible
    | cons first rest =>
        have heads := ordered.inBatch.trans cur
        rw [List.map_cons, List.cons.injEq] at heads
        rcases heads with ⟨same, tails⟩
        refine ⟨done ++ [first], rest, later, ?_⟩
        constructor
        · simp [ordered.split, Action.appended]
        · simp only [started, cur, List.take_succ_cons, List.take_zero]
          apply List.rel_append ordered.ran
          exact .cons ⟨same, ordered.beforeSwap first List.mem_cons_self⟩ .nil
        · exact tails
        · intro push member
          exact ordered.beforeSwap push (List.mem_cons_of_mem _ member)
        · exact ordered.queued.trans queue.symm
        · exact ordered.upToNow

theorem Ordered.names {h : History Task} {done batch later : List (Task × Nat)}
    (ordered : h.Ordered done batch later) :
    done.map Prod.fst = h.executed.map Prod.fst := by
  rw [← List.forall₂_eq_eq_eq, List.forall₂_map_left_iff, List.forall₂_map_right_iff]
  exact ordered.ran.imp fun _ _ related => related.1

/-- The functors executed so far, the rest of the batch and `functors_` are all
functors pushed, in the order of the pushes, and every functor runs in a batch
after the one in which it was pushed. -/
theorem functors_run_in_push_order (actions : List (Action Task)) (final : History Task)
    (ran : run step init actions = some final) :
    final.executed.map Prod.fst ++ final.loop.curFunctors ++ final.loop.functors =
        final.pushed.map Prod.fst ∧
      ∀ (i : Nat) (push start : Task × Nat), final.pushed[i]? = some push →
        final.executed[i]? = some start → push.1 = start.1 ∧ push.2 < start.2 := by
  have ordered : ∃ done batch later, final.Ordered done batch later := by
    apply run_invariant (fun h => ∃ done batch later, h.Ordered done batch later)
      step_ordered _ ran
    exact ⟨[], [], [], rfl, .nil, rfl, by simp, rfl, by simp⟩
  rcases ordered with ⟨done, batch, later, ordered⟩
  constructor
  · rw [ordered.split, ← ordered.inBatch, ← ordered.queued, ← ordered.names]
    simp
  · intro i push start pushed started
    rcases List.getElem?_eq_some_iff.mp started with ⟨inside, rfl⟩
    have doneInside : i < done.length := by
      rw [ordered.ran.length_eq]
      exact inside
    rw [ordered.split, List.getElem?_append_left doneInside] at pushed
    rcases List.getElem?_eq_some_iff.mp pushed with ⟨_, rfl⟩
    exact ordered.ran.get doneInside inside

/-- Functor 1 queues functor 2 while it runs. -/
def nestedPush : List (Action Nat) :=
  [.loop .enter, .loop .poll, .push 7 1, .pushed 7, .loop .pollReturn, .loop .handleWakeupRead,
    .loop .beginExecute, .loop .swap, .loop .runNext, .loop (.queue 2), .queued,
    .loop .functorReturn, .loop .finish, .loop .poll, .loop .pollReturn, .loop .beginExecute,
    .loop .swap, .loop .runNext]

theorem nested_push_runs_later : ∃ final : History Nat,
    run step init nestedPush = some final ∧ final.executed = [(1, 1), (2, 2)] ∧
      final.pushed = [(1, 0), (2, 1)] ∧
      final.executed.map Prod.fst ++ final.loop.curFunctors ++ final.loop.functors =
        final.pushed.map Prod.fst :=
  ⟨_, rfl, rfl, rfl, (functors_run_in_push_order nestedPush _ rfl).1⟩

end History

end EventLoop

end Muzi
