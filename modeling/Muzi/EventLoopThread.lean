import Muzi.Execution
import Muzi.Monitor

/-!
net/event_loop_thread.cc: a thread with an `EventLoop` on its stack, the call of
`StartLoop` that waits for the loop, and the calls of `Stop` that quit it and wait until
the thread has cleared `loop_`. `Stop` has `lock_` while it is in `loop_->Quit()`; every other section
under `lock_` is one action, which waits for `lock_` to be free. Of the loop there are
`looping_`, `quit_` and the handshake of `Quit` with the end of `Loop`.
-/

namespace Muzi

namespace EventLoopThread

inductive Runner where
  | unstarted
  -- before `loop_ = &loop`
  | publishing
  -- in `init_cb_`, or before `looping_ = true`
  | initialising
  | looping
  -- in `Loop()`, behind `looping_ = false`
  | cleared
  -- behind `Loop()`, before `loop_ = nullptr`
  | leaving
  -- behind it, in `~EventLoop`; nobody waits for what follows
  | retired
  | ended
  deriving DecidableEq

inductive Starter where
  | idle
  | locking
  | waiting
  | woken
  | returned
  deriving DecidableEq

inductive Stopper where
  | locking
  -- in `Quit`, at `if (!looping_) return`
  | quitting
  -- in `Quit`, at the exchange of `quit_`
  | passed
  -- in `Quit`, at `while (looping_)`
  | testing
  -- in `Quit`, before `cond_.Wait()` of the loop
  | toWait
  | asleep
  -- behind `Quit`, at `while (loop_ != nullptr)`
  | quitReturned
  | waiting
  | woken
  | returned
  deriving DecidableEq

def Starter.wake : Starter → Starter
  | .waiting => .woken
  | starter => starter

namespace Stopper

def inQuit : Stopper → Bool
  | .quitting | .passed | .testing | .toWait | .asleep => true
  | _ => false

def holds : Stopper → Bool
  | .quitReturned => true
  | stopper => stopper.inQuit

def wake (_ : Bool) : Stopper → Option Stopper
  | .waiting => some .woken
  | _ => none

def wakeQuit (_ : Bool) : Stopper → Option Stopper
  | .asleep => some .testing
  | _ => none

end Stopper

end EventLoopThread

structure EventLoopThread where
  /-- `loop_` is not null. -/
  loop : Bool
  looping : Bool
  quit : Bool
  runner : EventLoopThread.Runner
  starter : EventLoopThread.Starter
  stoppers : List EventLoopThread.Stopper

namespace EventLoopThread

open Execution Monitor

def init : EventLoopThread where
  loop := false
  looping := false
  quit := false
  runner := .unstarted
  starter := .idle
  stoppers := []

inductive Action where
  -- `StartLoop` up to `thread_.Start()`; `pthread_create` may fail
  | start (created : Bool)
  -- `StartLoop` takes the lock and looks at `loop_`
  | look
  | publish (target : Option Nat)
  | enter
  | clear
  | notifyAll
  | retire
  | finish
  -- `Quit` of the loop, from elsewhere
  | quit
  | callStop
  | stop (i : Nat)
  -- a wait ends without a signal
  | wakeStarter
  | wakeStop (i : Nat)
  | wakeQuit (i : Nat)
  deriving DecidableEq

def locked (s : EventLoopThread) : Bool := s.stoppers.any Stopper.holds

/-- `cond_.Notify()`; whom it wakes is not for the caller to choose. -/
def notifyOne (s : EventLoopThread) : Option Nat → Option EventLoopThread
  | none =>
      if s.starter ≠ .waiting ∧ ∀ stopper ∈ s.stoppers, stopper ≠ .waiting then some s else none
  | some 0 => if s.starter = .waiting then some { s with starter := .woken } else none
  | some (i + 1) => (wakeAt Stopper.wake true i s.stoppers).map ({ s with stoppers := · })

def stopNext (s : EventLoopThread) : Stopper → Option Stopper
  | .locking => if s.locked then none else some (if s.loop then .quitting else .returned)
  | .quitting => some (if s.looping then .passed else .quitReturned)
  -- Who finds `quit_` set leaves `Quit`.
  | .passed => some (if s.quit then .quitReturned else .testing)
  | .testing => some (if s.looping then .toWait else .quitReturned)
  | .toWait => some .asleep
  | .quitReturned => some (if s.loop then .waiting else .returned)
  | .woken => if s.locked then none else some (if s.loop then .waiting else .returned)
  | .asleep | .waiting | .returned => none

def step (s : EventLoopThread) : Action → Option EventLoopThread
  | .start created =>
      if s.starter = .idle then
        some { s with
          starter := .locking
          runner := if created then .publishing else .unstarted }
      else none
  | .look =>
      match s.starter with
      | .locking | .woken =>
          if s.locked then none
          else some { s with starter := if s.loop then .returned else .waiting }
      | _ => none
  | .publish target =>
      if s.runner = .publishing ∧ !s.locked then
        notifyOne { s with loop := true, runner := .initialising } target
      else none
  | .enter =>
      if s.runner = .initialising then some { s with looping := true, runner := .looping }
      else none
  | .clear =>
      if s.runner = .looping ∧ s.quit then some { s with looping := false, runner := .cleared }
      else none
  | .notifyAll =>
      if s.runner = .cleared then
        some { s with
          runner := .leaving
          stoppers := Monitor.notifyAll Stopper.wakeQuit s.stoppers }
      else none
  | .retire =>
      if s.runner = .leaving ∧ !s.locked then
        some { s with
          loop := false
          runner := .retired
          starter := s.starter.wake
          stoppers := Monitor.notifyAll Stopper.wake s.stoppers }
      else none
  | .finish => if s.runner = .retired then some { s with runner := .ended } else none
  | .quit => some (if s.looping then { s with quit := true } else s)
  | .callStop => some { s with stoppers := s.stoppers ++ [.locking] }
  | .stop i =>
      s.stoppers[i]?.bind fun stopper => (s.stopNext stopper).map fun after =>
        { s with
          quit := s.quit || stopper = .passed
          stoppers := s.stoppers.set i after }
  | .wakeStarter => if s.starter = .waiting then some { s with starter := .woken } else none
  | .wakeStop i => (wakeAt Stopper.wake false i s.stoppers).map ({ s with stoppers := · })
  | .wakeQuit i => (wakeAt Stopper.wakeQuit false i s.stoppers).map ({ s with stoppers := · })

def Runner.published : Runner → Bool
  | .unstarted | .publishing => false
  | _ => true

def Runner.alive : Runner → Bool
  | .initialising | .looping | .cleared | .leaving => true
  | _ => false

/-- The thread is behind its last look at the object. -/
def Runner.over : Runner → Bool
  | .retired | .ended => true
  | _ => false

theorem Runner.published_of_alive {runner : Runner} (alive : runner.alive = true) :
    runner.published = true := by
  cases runner <;> first | rfl | cases alive

theorem Runner.over_of_dead {runner : Runner} (published : runner.published = true)
    (dead : runner.alive = false) : runner.over = true := by
  cases runner with
  | unstarted | publishing => cases published
  | initialising | looping | cleared | leaving => cases dead
  | retired | ended => rfl

theorem Runner.not_over_of_alive {runner : Runner} (alive : runner.alive = true) :
    runner.over = false := by
  cases runner <;> first | rfl | cases alive

/-- What a call of `Stop` that began behind `StartLoop` finds. -/
def Fits (s : EventLoopThread) : Stopper → Prop
  | .locking | .woken => s.runner.published = true
  | .quitting | .quitReturned | .waiting => s.loop = true
  -- The loop is not left before `quit_` is set.
  | .passed => s.loop = true ∧ (s.quit = true ∨ s.looping = true)
  | .testing | .toWait | .asleep => s.loop = true ∧ s.quit = true
  | .returned => s.runner.over = true

structure Inv (s : EventLoopThread) : Prop where
  loop : s.loop = s.runner.alive
  looping : s.looping = decide (s.runner = .looping)
  quit : s.quit = true → s.runner ≠ .initialising ∧ s.runner.published = true
  idle : s.starter = .idle → s.runner = .unstarted
  waiting : s.starter = .waiting → s.loop = false
  started : s.starter = .returned → s.runner.published = true
  owner : s.stoppers ≠ [] → s.starter = .returned
  stoppers : ∀ stopper ∈ s.stoppers, Fits s stopper
  mutex : s.stoppers.countP Stopper.holds ≤ 1

def Owned (s : EventLoopThread) (action : Action) : Prop :=
  action = .callStop → s.starter = .returned

instance (s : EventLoopThread) (action : Action) : Decidable (Owned s action) :=
  inferInstanceAs (Decidable (_ → _))

theorem init_inv : Inv init where
  loop := rfl
  looping := rfl
  quit set := Bool.noConfusion set
  idle _ := rfl
  waiting _ := rfl
  started := Starter.noConfusion
  owner some := absurd rfl some
  stoppers _ member := absurd member List.not_mem_nil
  mutex := Nat.zero_le 1

section Steps
variable {s next : EventLoopThread}

theorem locked_false : s.locked = false ↔ ∀ stopper ∈ s.stoppers, stopper.holds = false := by
  simp [locked]

theorem Fits.mono {stopper : Stopper} (fits : Fits s stopper)
    (loop : s.loop = true → next.loop = true) (quit : s.quit = true → next.quit = true)
    (looping : s.looping = true → next.quit = true ∨ next.looping = true)
    (published : s.runner.published = true → next.runner.published = true)
    (behind : s.runner.over = true → next.runner.over = true) : Fits next stopper := by
  cases stopper with
  | locking | woken => exact published fits
  | quitting | quitReturned | waiting => exact loop fits
  | passed => exact ⟨loop fits.1, fits.2.elim (fun set => .inl (quit set)) looping⟩
  | testing | toWait | asleep => exact ⟨loop fits.1, quit fits.2⟩
  | returned => exact behind fits

theorem Inv.loop_of_holds (inv : Inv s) {stopper : Stopper} (member : stopper ∈ s.stoppers)
    (holds : stopper.holds = true) : s.loop = true := by
  have fits := inv.stoppers stopper member
  cases stopper with
  | quitting | quitReturned => exact fits
  | passed | testing | toWait | asleep => exact fits.1
  | locking | waiting | woken | returned => cases holds

theorem Inv.no_stoppers (inv : Inv s) (early : s.runner.published = false) : s.stoppers = [] := by
  by_contra some
  have published := inv.started (inv.owner some)
  cases early.symm.trans published

theorem start_inv {created : Bool} (inv : Inv s) (stepped : s.step (.start created) = some next) :
    Inv next := by
  obtain ⟨idle, ran⟩ := Option.ite_none_right_eq_some.mp stepped
  cases ran
  have unstarted := inv.idle idle
  have none := inv.no_stoppers (by rw [unstarted]; rfl)
  have loop := inv.loop
  have looping := inv.looping
  rw [unstarted] at loop looping
  refine ⟨?_, ?_, fun set => ?_, Starter.noConfusion, Starter.noConfusion, Starter.noConfusion,
    fun some => absurd none some, ?_, inv.mutex⟩
  · rw [loop]
    cases created <;> rfl
  · rw [looping]
    cases created <;> rfl
  · have published := (inv.quit set).2
    rw [unstarted] at published
    cases published
  · rw [none]
    exact fun _ member => absurd member List.not_mem_nil

theorem look_cases (stepped : s.step .look = some next) :
    (s.starter = .locking ∨ s.starter = .woken) ∧ s.locked = false ∧
      next = { s with starter := if s.loop then .returned else .waiting } := by
  simp only [step] at stepped
  split at stepped
  · rename_i locking
    obtain ⟨free, ran⟩ := Option.ite_none_left_eq_some.mp stepped
    exact ⟨.inl locking, by simpa using free, (Option.some.inj ran).symm⟩
  · rename_i woken
    obtain ⟨free, ran⟩ := Option.ite_none_left_eq_some.mp stepped
    exact ⟨.inr woken, by simpa using free, (Option.some.inj ran).symm⟩
  · cases stepped

theorem look_inv (inv : Inv s) (stepped : s.step .look = some next) : Inv next := by
  obtain ⟨before, -, rfl⟩ := look_cases stepped
  have none : s.stoppers = [] := by
    by_contra some
    have returned := inv.owner some
    rcases before with locking | woken
    · cases locking.symm.trans returned
    · cases woken.symm.trans returned
  have alive := inv.loop
  refine ⟨alive, inv.looping, inv.quit, ?_, ?_, ?_, fun some => absurd none some, inv.stoppers,
    inv.mutex⟩
  all_goals cases loop : s.loop
  · exact Starter.noConfusion
  · exact Starter.noConfusion
  · exact fun _ => rfl
  · exact Starter.noConfusion
  · exact Starter.noConfusion
  · exact fun _ => Runner.published_of_alive (alive.symm.trans loop)

theorem notifyOne_cases {target : Option Nat} (none : s.stoppers = [])
    (notified : s.notifyOne target = some next) :
    next = { s with starter := s.starter.wake } := by
  cases target with
  | none =>
      obtain ⟨⟨awake, -⟩, ran⟩ := Option.ite_none_right_eq_some.mp notified
      cases ran
      have same : s.starter.wake = s.starter := by
        cases starter : s.starter <;> first | rfl | exact absurd starter awake
      rw [same]
  | some i =>
      cases i with
      | zero =>
          obtain ⟨waiting, ran⟩ := Option.ite_none_right_eq_some.mp notified
          cases ran
          rw [waiting]
          rfl
      | succ i =>
          obtain ⟨stoppers, woke, -⟩ := Option.map_eq_some_iff.mp notified
          obtain ⟨stopper, -, found, -⟩ := wakeAt_some.mp woke
          rw [none] at found
          cases found

theorem Starter.wake_eq {starter after : Starter} (other : after ≠ .woken)
    (awake : after ≠ .waiting) : starter.wake = after ↔ starter = after := by
  cases starter <;> simp [Starter.wake, Ne.symm other, Ne.symm awake]

theorem Starter.wake_ne_waiting (starter : Starter) : starter.wake ≠ .waiting := by
  cases starter <;> exact Starter.noConfusion

theorem publish_inv {target : Option Nat} (inv : Inv s)
    (stepped : s.step (.publish target) = some next) : Inv next := by
  obtain ⟨⟨publishing, -⟩, ran⟩ := Option.ite_none_right_eq_some.mp stepped
  have none := inv.no_stoppers (by rw [publishing]; rfl)
  obtain rfl := notifyOne_cases (s := { s with loop := true, runner := .initialising }) none ran
  have looping := inv.looping
  rw [publishing] at looping
  refine ⟨rfl, looping, fun set => ?_, ?_, ?_, ?_, fun some => absurd none some, ?_, inv.mutex⟩
  · have published := (inv.quit set).2
    rw [publishing] at published
    cases published
  · intro idle
    have unstarted := inv.idle ((Starter.wake_eq Starter.noConfusion Starter.noConfusion).mp idle)
    cases publishing.symm.trans unstarted
  · exact fun waiting => absurd waiting (Starter.wake_ne_waiting _)
  · exact fun _ => rfl
  · intro stopper member
    rw [none] at member
    exact absurd member List.not_mem_nil

theorem Inv.runs (inv : Inv s) (runner : Runner) (before : s.runner.alive = true)
    (after : runner.alive = true) (late : runner ≠ .initialising)
    (looping : s.looping = true → s.quit = true ∨ runner = .looping) :
    Inv { s with looping := decide (runner = .looping), runner := runner } := by
  have published := Runner.published_of_alive after
  refine ⟨?_, rfl, fun _ => ⟨late, published⟩, fun idle => ?_, inv.waiting, fun _ => published,
    inv.owner, fun stopper member => ?_, inv.mutex⟩
  · exact (inv.loop.trans before).trans after.symm
  · rw [inv.idle idle] at before
    cases before
  · refine (inv.stoppers stopper member).mono id id ?_ (fun _ => published) (fun behind => ?_)
    · exact fun on => (looping on).imp id (fun runs => decide_eq_true runs)
    · cases behind.symm.trans (Runner.not_over_of_alive before)

theorem enter_inv (inv : Inv s) (stepped : s.step .enter = some next) : Inv next := by
  obtain ⟨initialising, ran⟩ := Option.ite_none_right_eq_some.mp stepped
  cases ran
  exact inv.runs .looping (by rw [initialising]; rfl) rfl Runner.noConfusion (fun _ => .inr rfl)

theorem clear_inv (inv : Inv s) (stepped : s.step .clear = some next) : Inv next := by
  obtain ⟨⟨looping, quit⟩, ran⟩ := Option.ite_none_right_eq_some.mp stepped
  cases ran
  exact inv.runs .cleared (by rw [looping]; rfl) rfl Runner.noConfusion (fun _ => .inl quit)

theorem Inv.moves (inv : Inv s) {quit : Bool} {stoppers : List Stopper}
    (inLoop : quit = true → s.quit = true ∨ s.looping = true)
    (owner : stoppers ≠ [] → s.starter = .returned)
    (fits : ∀ stopper ∈ stoppers, Fits { s with quit := quit } stopper)
    (mutex : stoppers.countP Stopper.holds ≤ 1) :
    Inv { s with quit := quit, stoppers := stoppers } := by
  refine ⟨inv.loop, inv.looping, fun now => ?_, inv.idle, inv.waiting, inv.started, owner,
    fun stopper member => ?_, mutex⟩
  · rcases inLoop now with before | looping
    · exact inv.quit before
    · have runs := of_decide_eq_true (inv.looping.symm.trans looping)
      change s.runner ≠ _ ∧ s.runner.published = true
      rw [runs]
      exact ⟨Runner.noConfusion, rfl⟩
  · exact (fits stopper member).mono id id .inr id id

theorem wakeQuit_fits {stopper : Stopper} (fits : Fits s stopper) :
    Fits s ((Stopper.wakeQuit true stopper).getD stopper) := by
  cases stopper <;> exact fits

theorem notifyAll_inv (inv : Inv s) (stepped : s.step .notifyAll = some next) : Inv next := by
  obtain ⟨cleared, ran⟩ := Option.ite_none_right_eq_some.mp stepped
  cases ran
  have looping := inv.looping
  rw [cleared] at looping
  have left := inv.runs .leaving (by rw [cleared]; rfl) rfl Runner.noConfusion
    (fun on => Bool.noConfusion (looping.symm.trans on))
  rw [show decide (Runner.leaving = .looping) = s.looping from looping.symm] at left
  refine left.moves .inl (fun some => ?_) (fun stopper member => ?_) ?_
  · refine inv.owner (fun none => some ?_)
    rw [none]
    rfl
  · obtain ⟨before, found, rfl⟩ := List.mem_map.mp member
    exact wakeQuit_fits (left.stoppers before found)
  · rw [notifyAll_countP_same]
    · exact inv.mutex
    · intro stopper
      cases stopper <;> rfl

theorem retire_inv (inv : Inv s) (stepped : s.step .retire = some next) : Inv next := by
  obtain ⟨⟨leaving, unlocked⟩, ran⟩ := Option.ite_none_right_eq_some.mp stepped
  cases ran
  have free := locked_false.mp (by simpa using unlocked)
  have looping := inv.looping
  rw [leaving] at looping
  refine ⟨rfl, looping, fun _ => ⟨Runner.noConfusion, rfl⟩, fun idle => ?_,
    fun waiting => absurd waiting (Starter.wake_ne_waiting _), fun _ => rfl, fun some => ?_,
    fun stopper member => ?_, ?_⟩
  · have unstarted := inv.idle ((Starter.wake_eq Starter.noConfusion Starter.noConfusion).mp idle)
    cases leaving.symm.trans unstarted
  · refine (Starter.wake_eq Starter.noConfusion Starter.noConfusion).mpr (inv.owner ?_)
    intro none
    apply some
    rw [none]
    rfl
  · obtain ⟨before, found, rfl⟩ := List.mem_map.mp member
    have unheld := free before found
    cases before with
    | locking | woken | waiting => exact rfl
    | returned => exact rfl
    | quitting | passed | testing | toWait | asleep | quitReturned => cases unheld
  · rw [notifyAll_countP_same]
    · exact inv.mutex
    · intro stopper
      cases stopper <;> rfl

theorem finish_inv (inv : Inv s) (stepped : s.step .finish = some next) : Inv next := by
  obtain ⟨retired, ran⟩ := Option.ite_none_right_eq_some.mp stepped
  cases ran
  have loop := inv.loop
  have looping := inv.looping
  rw [retired] at loop looping
  refine ⟨loop, looping, fun _ => ⟨Runner.noConfusion, rfl⟩, fun idle => ?_, inv.waiting,
    fun _ => rfl, inv.owner, fun stopper member => ?_, inv.mutex⟩
  · cases retired.symm.trans (inv.idle idle)
  · exact (inv.stoppers stopper member).mono id id .inr (fun _ => rfl) (fun _ => rfl)

theorem quit_inv (inv : Inv s) (stepped : s.step .quit = some next) : Inv next := by
  cases stepped
  by_cases looping : s.looping = true
  · rw [if_pos looping]
    exact inv.moves (fun _ => .inr looping) inv.owner
      (fun stopper member => (inv.stoppers stopper member).mono id (fun _ => rfl) .inr id id)
      inv.mutex
  · rwa [if_neg looping]

theorem callStop_inv (inv : Inv s) (owned : s.starter = .returned)
    (stepped : s.step .callStop = some next) : Inv next := by
  cases stepped
  refine inv.moves .inl (fun _ => owned) (fun stopper member => ?_) ?_
  · rcases List.mem_append.mp member with before | new
    · exact inv.stoppers stopper before
    · rw [List.mem_singleton.mp new]
      exact inv.started owned
  · simpa [List.countP_append, Stopper.holds, Stopper.inQuit] using inv.mutex

theorem Inv.sets (inv : Inv s) {quit : Bool} {i : Nat} {before after : Stopper}
    (found : s.stoppers[i]? = some before) (set : s.quit = true → quit = true)
    (inLoop : quit = true → s.quit = true ∨ s.looping = true)
    (fits : Fits { s with quit := quit } after)
    (holds : after.holds = true → before.holds = true ∨ s.locked = false) :
    Inv { s with quit := quit, stoppers := s.stoppers.set i after } := by
  refine inv.moves inLoop
    (fun _ => inv.owner (List.ne_nil_of_mem (List.mem_of_getElem? found)))
    (fun stopper member => ?_) ?_
  · rcases List.mem_or_eq_of_mem_set member with other | rfl
    · exact (inv.stoppers stopper other).mono id set .inr id id
    · exact fits
  · have counted := countP_set_add found Stopper.holds after
    have most := inv.mutex
    cases now : after.holds with
    | false =>
        rw [now] at counted
        simp only [Bool.toNat_false] at counted
        omega
    | true =>
        rcases holds now with held | free
        · rw [now, held] at counted
          omega
        · have none : s.stoppers.countP Stopper.holds = 0 := by
            rw [List.countP_eq_zero]
            intro stopper member
            rw [locked_false.mp free stopper member]
            exact Bool.noConfusion
          rw [now, none] at counted
          simp only [Bool.toNat_true] at counted
          omega

theorem stopNext_fits {before after : Stopper} (inv : Inv s) (fits : Fits s before)
    (moved : s.stopNext before = some after) :
    Fits { s with quit := s.quit || before = .passed } after ∧
      (after.holds = true → before.holds = true ∨ s.locked = false) := by
  have behind (published : s.runner.published = true) (gone : ¬s.loop = true) :
      s.runner.over = true :=
    Runner.over_of_dead published (inv.loop.symm.trans (by simpa using gone))
  cases before with
  | locking =>
      obtain ⟨free, ran⟩ := Option.ite_none_left_eq_some.mp moved
      cases ran
      refine ⟨?_, fun _ => .inr (by simpa using free)⟩
      split
      next loop => exact loop
      next gone => exact behind fits gone
  | quitting =>
      cases moved
      refine ⟨?_, fun _ => .inl rfl⟩
      split
      next looping => exact ⟨fits, .inr looping⟩
      next => exact fits
  | passed =>
      cases moved
      refine ⟨?_, fun _ => .inl rfl⟩
      split
      next => exact fits.1
      next => exact ⟨fits.1, Bool.or_true _⟩
  | testing =>
      cases moved
      refine ⟨?_, fun _ => .inl rfl⟩
      split
      next => exact ⟨fits.1, Bool.or_eq_true_iff.mpr (.inl fits.2)⟩
      next => exact fits.1
  | toWait =>
      cases moved
      exact ⟨⟨fits.1, Bool.or_eq_true_iff.mpr (.inl fits.2)⟩, fun _ => .inl rfl⟩
  | quitReturned =>
      cases moved
      refine ⟨?_, fun _ => .inl rfl⟩
      split
      next loop => exact loop
      next gone => exact absurd fits gone
  | woken =>
      obtain ⟨free, ran⟩ := Option.ite_none_left_eq_some.mp moved
      cases ran
      refine ⟨?_, fun _ => .inr (by simpa using free)⟩
      split
      next loop => exact loop
      next gone => exact behind fits gone
  | asleep | waiting | returned => cases moved

theorem stop_inv {i : Nat} (inv : Inv s) (stepped : s.step (.stop i) = some next) : Inv next := by
  obtain ⟨before, found, went⟩ := Option.bind_eq_some_iff.mp stepped
  obtain ⟨after, moved, rfl⟩ := Option.map_eq_some_iff.mp went
  have fits := inv.stoppers before (List.mem_of_getElem? found)
  obtain ⟨fitsAfter, holds⟩ := stopNext_fits inv fits moved
  refine inv.sets found (fun set => by rw [set, Bool.true_or]) (fun set => ?_) fitsAfter holds
  rcases Bool.or_eq_true_iff.mp set with already | passed
  · exact .inl already
  · obtain rfl := of_decide_eq_true passed
    exact fits.2

theorem wakeStarter_inv (inv : Inv s) (stepped : s.step .wakeStarter = some next) : Inv next := by
  obtain ⟨waiting, ran⟩ := Option.ite_none_right_eq_some.mp stepped
  cases ran
  refine ⟨inv.loop, inv.looping, inv.quit, Starter.noConfusion, Starter.noConfusion,
    Starter.noConfusion, fun some => ?_, inv.stoppers, inv.mutex⟩
  cases waiting.symm.trans (inv.owner some)

theorem wakes_inv {wake : Bool → Stopper → Option Stopper} {i : Nat} {stoppers : List Stopper}
    (inv : Inv s) (fits : ∀ before after, wake false before = some after → Fits s before →
      Fits s after ∧ after.holds = before.holds)
    (woke : wakeAt wake false i s.stoppers = some stoppers) :
    Inv { s with stoppers := stoppers } := by
  obtain ⟨before, after, found, wakes, rfl⟩ := wakeAt_some.mp woke
  obtain ⟨fitsAfter, holds⟩ :=
    fits before after wakes (inv.stoppers before (List.mem_of_getElem? found))
  exact inv.sets found id .inl fitsAfter (fun held => .inl (holds.symm.trans held))

theorem wakeStop_inv {i : Nat} (inv : Inv s) (stepped : s.step (.wakeStop i) = some next) :
    Inv next := by
  obtain ⟨stoppers, woke, rfl⟩ := Option.map_eq_some_iff.mp stepped
  refine wakes_inv inv (fun before after wakes fits => ?_) woke
  cases before <;> cases wakes
  exact ⟨Runner.published_of_alive (inv.loop.symm.trans fits), rfl⟩

theorem wakeQuit_inv {i : Nat} (inv : Inv s) (stepped : s.step (.wakeQuit i) = some next) :
    Inv next := by
  obtain ⟨stoppers, woke, rfl⟩ := Option.map_eq_some_iff.mp stepped
  refine wakes_inv inv (fun before after wakes fits => ?_) woke
  cases before <;> cases wakes
  exact ⟨fits, rfl⟩

end Steps

theorem step_inv (s : EventLoopThread) (action : Action) (next : EventLoopThread) (inv : Inv s)
    (owned : Owned s action) (stepped : s.step action = some next) : Inv next := by
  cases action with
  | start => exact start_inv inv stepped
  | look => exact look_inv inv stepped
  | publish => exact publish_inv inv stepped
  | enter => exact enter_inv inv stepped
  | clear => exact clear_inv inv stepped
  | notifyAll => exact notifyAll_inv inv stepped
  | retire => exact retire_inv inv stepped
  | finish => exact finish_inv inv stepped
  | quit => exact quit_inv inv stepped
  | callStop => exact callStop_inv inv (owned rfl) stepped
  | stop => exact stop_inv inv stepped
  | wakeStarter => exact wakeStarter_inv inv stepped
  | wakeStop => exact wakeStop_inv inv stepped
  | wakeQuit => exact wakeQuit_inv inv stepped

theorem reached_inv {actions : List Action} {s : EventLoopThread}
    (ran : run step init actions = some s) (owned : Along step Owned init actions) : Inv s :=
  run_invariant_along Inv step_inv init_inv owned ran

/-- With `Stop` called behind `StartLoop`, and any number of times: `StartLoop` returns a loop
that has been there, `Stop` is never in `Quit` of a loop that is gone, and when a `Stop` has
returned the thread is behind its last look at the object, where `~EventLoop` may still run. -/
theorem stop_returns_behind_loop (actions : List Action) (s : EventLoopThread)
    (ran : run step init actions = some s) (owned : Along step Owned init actions) :
    (s.starter = .returned → s.runner.published = true) ∧
      (∀ stopper ∈ s.stoppers, stopper.inQuit = true → s.runner.alive = true) ∧
        (.returned ∈ s.stoppers → s.runner = .retired ∨ s.runner = .ended) := by
  have inv := reached_inv ran owned
  refine ⟨inv.started, fun stopper member inside => ?_, fun member => ?_⟩
  · have holds : stopper.holds = true := by
      cases stopper <;> first | exact inside | rfl
    exact inv.loop.symm.trans (inv.loop_of_holds member holds)
  · have behind : s.runner.over = true := inv.stoppers _ member
    cases runner : s.runner with
    | retired => exact .inl rfl
    | ended => exact .inr rfl
    | unstarted | publishing | initialising | looping | cleared | leaving =>
        rw [runner] at behind
        cases behind

/-- `StartLoop` waits for the thread, a `Stop` quits the loop and sleeps through its end. -/
def startedAndStopped : List Action :=
  [.start true, .look, .publish (some 0), .look, .enter, .callStop, .stop 0, .stop 0, .stop 0,
    .stop 0, .stop 0, .clear, .notifyAll, .stop 0, .stop 0, .retire, .stop 0]

theorem started_and_stopped_returns : ∃ s, run step init startedAndStopped = some s ∧
    .returned ∈ s.stoppers ∧ (s.runner = .retired ∨ s.runner = .ended) ∧
      s.runner ≠ .ended := by
  obtain ⟨s, ran, returned, unfinished⟩ : ∃ s, run step init startedAndStopped = some s ∧
      .returned ∈ s.stoppers ∧ s.runner ≠ .ended :=
    ⟨_, rfl, List.mem_singleton_self _, Runner.noConfusion⟩
  exact ⟨s, ran, returned,
    (stop_returns_behind_loop startedAndStopped s ran (by decide +kernel)).2.2 returned, unfinished⟩

/-- The threads can do no more by themselves: no timer, descriptor or other thread quits the
loop, and no wait ends without a signal. -/
def Action.own : Action → Bool
  | .start _ | .quit | .callStop | .wakeStarter | .wakeStop _ | .wakeQuit _ => false
  | _ => true

def Quiet (s : EventLoopThread) : Prop := ∀ action, action.own = true → s.step action = none

section Quiet
variable {s : EventLoopThread}

theorem Quiet.stopNext (quiet : Quiet s) {stopper : Stopper} (member : stopper ∈ s.stoppers) :
    s.stopNext stopper = none := by
  obtain ⟨i, found⟩ := List.getElem?_of_mem member
  have stuck := quiet (.stop i) rfl
  rw [step, found, Option.bind_some] at stuck
  exact Option.map_eq_none_iff.mp stuck

theorem Quiet.holder (quiet : Quiet s) {stopper : Stopper} (member : stopper ∈ s.stoppers)
    (holds : stopper.holds = true) : stopper = .asleep := by
  have stuck := quiet.stopNext member
  cases stopper with
  | asleep => rfl
  | quitting | passed | testing | toWait | quitReturned => cases stuck
  | locking | waiting | woken | returned => cases holds

theorem Quiet.stopper_cases (quiet : Quiet s) (free : s.locked = false) {stopper : Stopper}
    (member : stopper ∈ s.stoppers) : stopper = .waiting ∨ stopper = .returned := by
  have stuck := quiet.stopNext member
  have unheld := locked_false.mp free stopper member
  cases stopper with
  | locking | woken =>
      rw [EventLoopThread.stopNext, free] at stuck
      cases stuck
  | waiting => exact .inl rfl
  | returned => exact .inr rfl
  | quitting | passed | testing | toWait | asleep | quitReturned => cases unheld

theorem Quiet.free (quiet : Quiet s) (awake : ∀ stopper ∈ s.stoppers, stopper ≠ .asleep) :
    s.locked = false := by
  refine locked_false.mpr fun stopper member => ?_
  by_contra held
  have holds : stopper.holds = true := by simpa using held
  exact awake stopper member (quiet.holder member holds)

theorem Quiet.starter_cases (quiet : Quiet s) (inv : Inv s) :
    s.starter = .idle ∨ s.starter = .returned ∨
      s.starter = .waiting ∧ (s.runner = .unstarted ∨ s.runner = .ended) := by
  by_cases returned : s.starter = .returned
  · exact .inr (.inl returned)
  · have none : s.stoppers = [] := by
      by_contra some
      exact returned (inv.owner some)
    have free : s.locked = false := by
      rw [locked, none]
      rfl
    have look := quiet .look rfl
    cases starter : s.starter with
    | idle => exact .inl rfl
    | locking | woken =>
        rw [step, starter, free] at look
        cases look
    | returned => exact absurd starter returned
    | waiting =>
        refine .inr (.inr ⟨rfl, ?_⟩)
        have dead := inv.loop.symm.trans (inv.waiting starter)
        cases runner : s.runner with
        | unstarted => exact .inl rfl
        | ended => exact .inr rfl
        | publishing =>
            have publish := quiet (.publish (some 0)) rfl
            rw [step, if_pos ⟨runner, by rw [free]; rfl⟩, notifyOne, if_pos starter] at publish
            cases publish
        | retired =>
            have finish := quiet .finish rfl
            rw [step, if_pos runner] at finish
            cases finish
        | initialising | looping | cleared | leaving =>
            rw [runner] at dead
            cases dead

theorem Quiet.waiting (quiet : Quiet s) (inv : Inv s) (looping : s.runner = .looping)
    (unset : s.quit = false) : ∀ stopper ∈ s.stoppers, stopper = .waiting := by
  have free : s.locked = false := by
    refine quiet.free fun stopper member asleep => ?_
    have fits := inv.stoppers stopper member
    rw [asleep] at fits
    exact Bool.noConfusion (unset.symm.trans fits.2)
  intro stopper member
  rcases quiet.stopper_cases free member with waiting | rfl
  · exact waiting
  · have behind : s.runner.over = true := inv.stoppers _ member
    rw [looping] at behind
    cases behind

theorem Quiet.returned (quiet : Quiet s) (inv : Inv s) (ended : s.runner = .ended) :
    ∀ stopper ∈ s.stoppers, stopper = .returned := by
  have gone : s.loop = false := by
    rw [inv.loop, ended]
    rfl
  have free : s.locked = false := by
    refine locked_false.mpr fun stopper member => ?_
    by_contra held
    exact Bool.noConfusion (gone.symm.trans (inv.loop_of_holds member (by simpa using held)))
  intro stopper member
  rcases quiet.stopper_cases free member with rfl | returned
  · exact Bool.noConfusion (gone.symm.trans (inv.stoppers _ member))
  · exact returned

end Quiet

/-- `Stop` comes before the thread has entered `Loop()`, and its `Quit` is ignored. -/
def stoppedEarly : List Action :=
  [.start true, .publish none, .look, .callStop, .stop 0, .stop 0]

def Stopper.ignored : Stopper → Bool
  | .quitReturned | .waiting | .woken => true
  | _ => false

structure Runs (s : EventLoopThread) : Prop where
  loop : s.loop = true
  unset : s.quit = false
  runner : s.runner = .initialising ∨ s.runner = .looping
  ignored : ∀ stopper ∈ s.stoppers, stopper.ignored = true

/-- Nobody else quits the loop, and there is no further `Stop`. -/
def Action.leaves : Action → Bool
  | .quit | .callStop => false
  | _ => true

theorem Runs.sets {s : EventLoopThread} (runs : Runs s) {i : Nat} {after : Stopper}
    (ignored : after.ignored = true) :
    Runs { s with stoppers := s.stoppers.set i after } := by
  refine ⟨runs.loop, runs.unset, runs.runner, fun stopper member => ?_⟩
  rcases List.mem_or_eq_of_mem_set member with other | rfl
  · exact runs.ignored stopper other
  · exact ignored

theorem stop_runs {s next : EventLoopThread} {i : Nat} (runs : Runs s)
    (stepped : s.step (.stop i) = some next) : Runs next := by
  obtain ⟨before, found, went⟩ := Option.bind_eq_some_iff.mp stepped
  obtain ⟨after, moved, rfl⟩ := Option.map_eq_some_iff.mp went
  have ignored := runs.ignored before (List.mem_of_getElem? found)
  have unset : (s.quit || decide (before = .passed)) = s.quit := by
    cases before <;> first | exact Bool.or_false _ | cases ignored
  rw [unset]
  apply runs.sets
  cases before with
  | quitReturned =>
      cases moved
      rw [if_pos runs.loop]
      rfl
  | woken =>
      obtain ⟨-, ran⟩ := Option.ite_none_left_eq_some.mp moved
      cases ran
      rw [if_pos runs.loop]
      rfl
  | waiting => cases moved
  | locking | quitting | passed | testing | toWait | asleep | returned => cases ignored

theorem step_runs {s next : EventLoopThread} {action : Action} (inv : Inv s) (runs : Runs s)
    (leaves : action.leaves = true) (stepped : s.step action = some next) : Runs next := by
  have other {runner : Runner} (is : s.runner = runner) :
      runner = .initialising ∨ runner = .looping := is ▸ runs.runner
  cases action with
  | start created =>
      obtain ⟨idle, -⟩ := Option.ite_none_right_eq_some.mp stepped
      rcases other (inv.idle idle) with wrong | wrong <;> cases wrong
  | look =>
      obtain ⟨-, -, rfl⟩ := look_cases stepped
      exact ⟨runs.loop, runs.unset, runs.runner, runs.ignored⟩
  | publish target =>
      obtain ⟨⟨publishing, -⟩, -⟩ := Option.ite_none_right_eq_some.mp stepped
      rcases other publishing with wrong | wrong <;> cases wrong
  | enter =>
      obtain ⟨-, ran⟩ := Option.ite_none_right_eq_some.mp stepped
      cases ran
      exact ⟨runs.loop, runs.unset, .inr rfl, runs.ignored⟩
  | clear =>
      obtain ⟨⟨-, quit⟩, -⟩ := Option.ite_none_right_eq_some.mp stepped
      exact Bool.noConfusion (runs.unset.symm.trans quit)
  | notifyAll =>
      obtain ⟨cleared, -⟩ := Option.ite_none_right_eq_some.mp stepped
      rcases other cleared with wrong | wrong <;> cases wrong
  | retire =>
      obtain ⟨⟨leaving, -⟩, -⟩ := Option.ite_none_right_eq_some.mp stepped
      rcases other leaving with wrong | wrong <;> cases wrong
  | finish =>
      obtain ⟨retired, -⟩ := Option.ite_none_right_eq_some.mp stepped
      rcases other retired with wrong | wrong <;> cases wrong
  | quit => cases leaves
  | callStop => cases leaves
  | stop i => exact stop_runs runs stepped
  | wakeStarter =>
      obtain ⟨-, ran⟩ := Option.ite_none_right_eq_some.mp stepped
      cases ran
      exact ⟨runs.loop, runs.unset, runs.runner, runs.ignored⟩
  | wakeStop i =>
      obtain ⟨stoppers, woke, rfl⟩ := Option.map_eq_some_iff.mp stepped
      obtain ⟨before, after, -, wakes, rfl⟩ := wakeAt_some.mp woke
      cases before <;> cases wakes
      exact runs.sets rfl
  | wakeQuit i =>
      obtain ⟨stoppers, woke, rfl⟩ := Option.map_eq_some_iff.mp stepped
      obtain ⟨before, after, found, wakes, rfl⟩ := wakeAt_some.mp woke
      have ignored := runs.ignored before (List.mem_of_getElem? found)
      cases before <;> cases wakes
      cases ignored

/-- A `Stop` whose `Quit` comes before the thread has entered `Loop()` does not return, whatever
the threads do from then on, unless somebody else quits the loop or calls `Stop` again. -/
theorem early_stop_never_returns (before more : List Action) (s later : EventLoopThread)
    (ran : run step init before = some s) (owned : Along step Owned init before)
    (early : s.runner = .initialising) (ignored : s.stoppers = [.quitReturned])
    (leaves : ∀ action ∈ more, action.leaves = true) (on : run step s more = some later) :
    .returned ∉ later.stoppers ∧ later.runner.alive = true ∧ later.quit = false := by
  have inv := reached_inv ran owned
  have unset : s.quit = false := by
    by_contra set
    exact (inv.quit (by simpa using set)).1 early
  have runs : Runs s := by
    refine ⟨by rw [inv.loop, early]; rfl, unset, .inl early, ?_⟩
    rw [ignored]
    intro stopper member
    rw [List.mem_singleton.mp member]
    rfl
  obtain ⟨-, still⟩ := run_invariant_along (fun now => Inv now ∧ Runs now)
    (fun now action next known leaves stepped => by
      have owned : Owned now action := by
        rintro rfl
        cases leaves
      exact ⟨step_inv now action next known.1 owned stepped,
        step_runs known.1 known.2 leaves stepped⟩)
    ⟨inv, runs⟩ (along_of_forall step leaves s) on
  refine ⟨fun member => Bool.noConfusion (still.ignored _ member), ?_, still.unset⟩
  rcases still.runner with runner | runner <;> rw [runner] <;> rfl

theorem stopped_early_never_returns : ∃ s later,
    run step init stoppedEarly = some s ∧
      run step s [.stop 0, .enter, .wakeStop 0, .stop 0] = some later ∧
        .returned ∉ later.stoppers ∧ later.runner.alive = true ∧ later.quit = false := by
  obtain ⟨s, ran, early, ignored, later, on⟩ : ∃ s, run step init stoppedEarly = some s ∧
      s.runner = .initialising ∧ s.stoppers = [.quitReturned] ∧
        ∃ later, run step s [.stop 0, .enter, .wakeStop 0, .stop 0] = some later :=
    ⟨_, rfl, rfl, rfl, _, rfl⟩
  exact ⟨s, later, ran, on, early_stop_never_returns stoppedEarly _ s later ran
    (by decide +kernel) early ignored (by decide +kernel) on⟩

end EventLoopThread

end Muzi
