import Muzi.EventLoop

/-!
`Quit` from another thread against the loop thread, statement by statement.
`looping_` and the broadcast at the end of `Loop` are written without `lock_`,
which guards the waiter's test. The loop itself is the one of `EventLoop`; here
its thread also has the statements around the `while`, and the quitting thread
those of `Quit`. Both read and write `looping_` in one order that all agree on.
-/

namespace Muzi.QuitHandshake

open Execution

universe u
variable {Task : Type u}

inductive Place where
  | before
  | within
  -- behind the `while`, before `looping_ = false`
  | leaving
  -- before `cond_.NotifyAll()`
  | cleared
  | left
  deriving DecidableEq

inductive Quitter where
  | idle
  -- behind `if (!looping_) return`
  | passed
  -- behind the exchange of `quit_`
  | exchanged
  -- behind `WakeUp()`, before the lock
  | locking
  -- at `while (looping_)`, with the lock
  | testing
  -- before `cond_.Wait()`, with the lock
  | toWait
  | waiting
  -- notified, before it has the lock again
  | woken
  | returned
  deriving DecidableEq

structure System (Task : Type u) where
  loop : EventLoop Task
  looping : Bool
  place : Place
  quitter : Quitter

inductive Action (Task : Type u) where
  -- the loop, and all its other callers
  | machine (action : EventLoop.Action Task)
  -- the loop thread at the end of `Loop()`
  | clearLooping
  | notifyAll
  -- the quitting thread
  | readLooping
  | exchange
  | wakeUp
  | lock
  | test
  | wait
  | wakeSpuriously
  | relock

namespace System

def init : System Task := ⟨EventLoop.init, false, .before, .idle⟩

def locked (s : System Task) : Bool :=
  match s.quitter with
  | .testing | .toWait => true
  | _ => false

def takesLock : EventLoop.Action Task → Bool
  | .push _ _ | .loop (.queue _) | .loop .swap => true
  | _ => false

/-- A step of the machine. The loop thread is in the machine while it is not at
the end of `Loop()`, and it enters `Loop()` once. -/
def machine (s : System Task) (action : EventLoop.Action Task) : Option (System Task) :=
  if takesLock action && s.locked then none else
    match action, s.place with
    -- `Quit` is the other thread here.
    | .quit, _ => none
    | .loop .enter, .before =>
        (s.loop.step action).map fun loop =>
          { s with loop := loop, looping := true, place := .within }
    | .loop .enter, _ => none
    | .loop .leave, _ =>
        (s.loop.step action).map fun loop => { s with loop := loop, place := .leaving }
    | .loop _, .leaving | .loop _, .cleared => none
    | _, _ => (s.loop.step action).map fun loop => { s with loop := loop }

def step (s : System Task) : Action Task → Option (System Task)
  | .machine action => s.machine action
  | .clearLooping =>
      if s.place = .leaving then some { s with looping := false, place := .cleared } else none
  | .notifyAll =>
      if s.place = .cleared then
        some { s with
          place := .left
          quitter := if s.quitter = .waiting then .woken else s.quitter }
      else none
  | .readLooping =>
      if s.quitter = .idle then
        some { s with quitter := if s.looping then .passed else .returned }
      else none
  | .exchange =>
      if s.quitter = .passed then
        some (if s.loop.quit then { s with quitter := .returned }
          else { s with loop := { s.loop with quit := true }, quitter := .exchanged })
      else none
  | .wakeUp =>
      if s.quitter = .exchanged then some { s with loop := s.loop.wakeUp, quitter := .locking }
      else none
  | .lock => if s.quitter = .locking then some { s with quitter := .testing } else none
  | .test =>
      if s.quitter = .testing then
        some { s with quitter := if s.looping then .toWait else .returned }
      else none
  | .wait => if s.quitter = .toWait then some { s with quitter := .waiting } else none
  | .wakeSpuriously => if s.quitter = .waiting then some { s with quitter := .woken } else none
  | .relock => if s.quitter = .woken then some { s with quitter := .testing } else none

def StartsIteration (s : System Task) : Prop :=
  ∃ next, s.step (.machine (.loop .poll)) = some next

/-- The loop thread has sent its notification, and the quitting thread waits for
one. -/
def Forgotten (s : System Task) : Prop := s.place = .left ∧ s.quitter = .waiting

/-- `Quit` finds the loop looping, and the loop thread does not notify between
the quitting thread's test of `looping_` and its wait. -/
def Timely (s : System Task) : Action Task → Prop
  | .readLooping => s.looping = true
  | .notifyAll => s.quitter ≠ .toWait
  | _ => True

instance (s : System Task) (action : Action Task) : Decidable (s.Timely action) :=
  match action with
  | .readLooping => inferInstanceAs (Decidable (s.looping = true))
  | .notifyAll => inferInstanceAs (Decidable (s.quitter ≠ .toWait))
  | .machine _ | .clearLooping | .exchange | .wakeUp | .lock | .test | .wait | .wakeSpuriously
  | .relock => isTrue trivial

structure Sound (s : System Task) : Prop where
  /-- Behind its exchange the quitting thread has set `quit_`, or found it set. -/
  quits : s.quitter ≠ .idle → s.quitter ≠ .passed → s.loop.quit = true
  looping : s.looping = true → s.place = .within ∨ s.place = .leaving
  awake : s.place = .left → s.quitter ≠ .toWait ∧ s.quitter ≠ .waiting

theorem init_sound : (init : System Task).Sound where
  quits idle := absurd rfl idle
  looping := nofun
  awake := nofun

theorem machine_frame {s next : System Task} {action : EventLoop.Action Task}
    (stepped : s.machine action = some next) :
    next.quitter = s.quitter ∧ next.loop.quit = s.loop.quit ∧
      (next.looping = s.looping ∧ next.place = s.place ∨ next.place = .within ∨
        next.place = .leaving) := by
  have quit : ∀ {inner : EventLoop.Action Task} {loop : EventLoop Task},
      s.loop.step inner = some loop → inner ≠ .quit → loop.quit = s.loop.quit := by
    intro inner loop moved other
    rcases EventLoop.step_quit moved with same | ⟨quits, -⟩
    · exact same
    · exact absurd quits other
  unfold machine at stepped
  split at stepped
  · cases stepped
  · split at stepped
    · cases stepped
    · rcases Option.map_eq_some_iff.mp stepped with ⟨loop, moved, rfl⟩
      exact ⟨rfl, quit moved nofun, .inr (.inl rfl)⟩
    · cases stepped
    · rcases Option.map_eq_some_iff.mp stepped with ⟨loop, moved, rfl⟩
      exact ⟨rfl, quit moved nofun, .inr (.inr rfl)⟩
    · cases stepped
    · cases stepped
    · rcases Option.map_eq_some_iff.mp stepped with ⟨loop, moved, rfl⟩
      exact ⟨rfl, quit moved (by assumption), .inl ⟨rfl, rfl⟩⟩

theorem machine_sound {s next : System Task} {action : EventLoop.Action Task} (sound : s.Sound)
    (stepped : s.machine action = some next) : next.Sound := by
  rcases machine_frame stepped with ⟨quitter, quit, where_⟩
  refine ⟨?_, ?_, ?_⟩
  · rw [quitter, quit]
    exact sound.quits
  · intro looping
    rcases where_ with ⟨same, place⟩ | within | leaving
    · rw [place]
      exact sound.looping (same ▸ looping)
    · exact .inl within
    · exact .inr leaving
  · intro left
    rw [quitter]
    rcases where_ with ⟨-, place⟩ | within | leaving
    · exact sound.awake (place ▸ left)
    · cases within.symm.trans left
    · cases leaving.symm.trans left

theorem Sound.goes_on {s : System Task} (sound : s.Sound) {quitter : Quitter}
    (began : s.quitter ≠ .idle ∧ s.quitter ≠ .passed)
    (awake : s.place = .left → quitter ≠ .toWait ∧ quitter ≠ .waiting) :
    ({ s with quitter := quitter } : System Task).Sound :=
  ⟨fun _ _ => sound.quits began.1 began.2, sound.looping, awake⟩

theorem Sound.not_looping {s : System Task} (sound : s.Sound)
    (beyond : s.place ≠ .within ∧ s.place ≠ .leaving) : s.looping ≠ true := by
  intro looping
  rcases sound.looping looping with place | place
  · exact beyond.1 place
  · exact beyond.2 place

theorem step_sound {s next : System Task} {action : Action Task} (sound : s.Sound)
    (timely : s.Timely action) (stepped : s.step action = some next) : next.Sound := by
  cases action with
  | machine action => exact machine_sound sound stepped
  | clearLooping =>
      rcases Option.ite_none_right_eq_some.mp stepped with ⟨leaving, made⟩
      cases made
      exact ⟨sound.quits, nofun, nofun⟩
  | notifyAll =>
      rcases Option.ite_none_right_eq_some.mp stepped with ⟨cleared, made⟩
      cases made
      have off : s.looping ≠ true := sound.not_looping (by simp [cleared])
      by_cases waits : s.quitter = .waiting
      · refine ⟨fun _ _ => sound.quits (by simp [waits]) (by simp [waits]), ?_, by simp [waits]⟩
        exact fun looping => absurd looping off
      · have apart : s.quitter ≠ .toWait := timely
        refine ⟨by simpa [waits] using sound.quits, ?_, by simp [waits, apart]⟩
        exact fun looping => absurd looping off
  | readLooping =>
      rcases Option.ite_none_right_eq_some.mp stepped with ⟨idle, made⟩
      cases made
      have passes : s.looping = true := timely
      refine ⟨by simp [passes], sound.looping, ?_⟩
      simp [passes]
  | exchange =>
      rcases Option.ite_none_right_eq_some.mp stepped with ⟨passed, made⟩
      cases made
      split
      · rename_i set
        exact ⟨fun _ _ => set, sound.looping, by simp⟩
      · exact ⟨fun _ _ => rfl, sound.looping, by simp⟩
  | wakeUp =>
      rcases Option.ite_none_right_eq_some.mp stepped with ⟨exchanged, made⟩
      cases made
      have set := sound.quits (by simp [exchanged]) (by simp [exchanged])
      exact ⟨by simp [set], sound.looping, by simp⟩
  | lock =>
      rcases Option.ite_none_right_eq_some.mp stepped with ⟨locking, made⟩
      cases made
      exact sound.goes_on (by simp [locking]) (by simp)
  | test =>
      rcases Option.ite_none_right_eq_some.mp stepped with ⟨testing, made⟩
      cases made
      apply sound.goes_on (by simp [testing])
      -- Behind the loop's end the thread does not go to wait.
      intro left
      have off : s.looping ≠ true := sound.not_looping (by simp [left])
      simp [off]
  | wait =>
      rcases Option.ite_none_right_eq_some.mp stepped with ⟨toWait, made⟩
      cases made
      exact sound.goes_on (by simp [toWait]) fun left => absurd toWait (sound.awake left).1
  | wakeSpuriously =>
      rcases Option.ite_none_right_eq_some.mp stepped with ⟨waiting, made⟩
      cases made
      exact sound.goes_on (by simp [waiting]) (by simp)
  | relock =>
      rcases Option.ite_none_right_eq_some.mp stepped with ⟨woken, made⟩
      cases made
      exact sound.goes_on (by simp [woken]) (by simp)

theorem no_iteration {s : System Task} (quit : s.loop.quit = true) : ¬s.StartsIteration := by
  rintro ⟨next, stepped⟩
  have stuck : s.loop.step (.loop .poll) = none := by
    simp only [EventLoop.step, EventLoop.loopStep]
    cases s.loop.queueing <;> cases s.loop.phase <;> simp [quit]
  simp only [step, machine, takesLock, Bool.false_and, Bool.false_eq_true, if_false,
    stuck] at stepped
  split at stepped <;> simp_all

/-- When `Quit` finds the loop looping and the loop thread's notification does
not fall between the quitting thread's test of `looping_` and its wait: behind
`Quit` no iteration starts, and nobody waits for a notification that was sent. -/
theorem quit_completes_when_timely (actions : List (Action Task)) (final : System Task)
    (timely : Along step Timely init actions) (ran : run step init actions = some final) :
    (final.quitter = .returned → ¬final.StartsIteration) ∧ ¬final.Forgotten := by
  have sound : final.Sound :=
    run_invariant_along Sound (fun _ _ _ sound met stepped => step_sound sound met stepped)
      init_sound timely ran
  constructor
  · intro returned
    exact no_iteration (sound.quits (by simp [returned]) (by simp [returned]))
  · rintro ⟨left, waits⟩
    exact (sound.awake left).2 waits

def quitWhileLooping : List (Action Unit) :=
  [.machine (.loop .enter), .machine (.loop .poll), .readLooping, .exchange, .wakeUp, .lock,
    .test, .wait, .machine (.loop .pollReturn), .machine (.loop .handleWakeupRead),
    .machine (.loop .beginExecute), .machine (.loop .swap), .machine (.loop .finish),
    .machine (.loop .leave), .clearLooping, .notifyAll, .relock, .test]

theorem quit_while_looping_completes : ∃ final,
    run step init quitWhileLooping = some final ∧ final.quitter = .returned ∧
      final.place = .left ∧ ¬final.StartsIteration ∧ ¬final.Forgotten := by
  refine ⟨_, rfl, rfl, rfl, ?_⟩
  have both := quit_completes_when_timely quitWhileLooping _ (by decide) rfl
  exact ⟨both.1 rfl, both.2⟩

def quitBeforeLoop : List (Action Unit) := [.readLooping, .machine (.loop .enter)]

/-- The loop thread ends between the test of `looping_` and the wait. -/
def endBeforeWait : List (Action Unit) :=
  [.machine (.loop .enter), .machine (.loop .poll), .readLooping, .exchange, .wakeUp,
    .machine (.loop .pollReturn), .machine (.loop .handleWakeupRead),
    .machine (.loop .beginExecute), .machine (.loop .swap), .machine (.loop .finish),
    .machine (.loop .leave), .lock, .test, .clearLooping, .notifyAll, .wait]

theorem quit_ignored_or_forgotten :
    (∃ final, run step init quitBeforeLoop = some final ∧ final.quitter = .returned ∧
      final.StartsIteration) ∧
    ∃ final, run step init endBeforeWait = some final ∧ final.place = .left ∧
      final.quitter = .waiting ∧ final.Forgotten :=
  ⟨⟨_, rfl, rfl, _, rfl⟩, ⟨_, rfl, rfl, rfl, rfl, rfl⟩⟩

end System

end Muzi.QuitHandshake
