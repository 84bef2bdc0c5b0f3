import Muzi.EventLoop

/-!
What `Quit` leaves behind. `Loop` tests `quit_` right after `ExecuteFunctors`,
which swaps the queue once, so a functor pushed between the swap and the test is
run only if another iteration follows. A history counts the pushes that had
completed when `quit_` was set.
-/

namespace Muzi

universe u

def Phase.beforeSwap {Task : Type u} : Phase Task → Bool
  | .polling | .handling | .swapping => true
  | _ => false

def Phase.beforeTest {Task : Type u} : Phase Task → Bool
  | .testing | .running _ | .inFunctor _ => true
  | _ => false

theorem Phase.beforeSwap_iff {Task : Type u} {phase : Phase Task} (inside : phase ≠ .outside) :
    phase.beforeSwap = true ↔ phase.beforeTest = false := by
  cases phase with
  | outside => exact absurd rfl inside
  | testing | polling | handling | swapping | running | inFunctor =>
      simp [beforeSwap, beforeTest]

def Phase.looping {Task : Type u} : Phase Task → Bool
  | .outside => false
  | _ => true

namespace EventLoop

open Execution

variable {Task : Type u}

def ahead (l : EventLoop Task) : List Task :=
  l.curFunctors ++ if l.phase.beforeSwap || !l.quit then l.functors else []

def Done (l : EventLoop Task) : Prop := l.phase.looping = false ∧ l.quit = true

theorem Done.curFunctors {l : EventLoop Task} (done : l.Done) : l.curFunctors = [] := by
  have out := done.1
  unfold EventLoop.curFunctors
  cases phase : l.phase with
  | outside | testing | polling | handling | swapping => rfl
  | running rest | inFunctor rest => simp [phase, Phase.looping] at out

theorem Done.step {l next : EventLoop Task} {action : Action Task} (done : l.Done)
    (stepped : l.step action = some next) (other : action ≠ .loop .enter) : next.Done := by
  obtain ⟨out, quit⟩ := done
  cases step_moves stepped with
  | push thread task free => exact ⟨out, quit⟩
  | pushed thread behind | wakeUp | queued behind =>
      simp [Done, out, quit]
  | quitIgnored phase => exact ⟨out, quit⟩
  | quit => exact ⟨out, rfl⟩
  | loop action _ free moved =>
      cases moved with
      | enter phase => exact absurd rfl other
      | queue task phase => exact ⟨out, quit⟩
      | leave phase | poll phase | pollReturn phase | handleWakeupRead phase
      | beginExecute phase | swap phase | runNext task rest phase | functorReturn rest phase
      | finish phase => simp [phase, Phase.looping] at out

theorem mem_ahead {l : EventLoop Task} {task : Task} :
    task ∈ l.ahead ↔ task ∈ l.curFunctors ∨
      (l.phase.beforeSwap = true ∨ l.quit = false) ∧ task ∈ l.functors := by
  unfold ahead
  split <;> simp_all

theorem push_ahead {l next : EventLoop Task} {pushed task : Task} (member : task ∈ next.ahead)
    (phase : next.phase = l.phase) (quit : next.quit = l.quit)
    (functors : next.functors = l.functors ++ [pushed]) : task ∈ l.ahead ∨ task ∈ [pushed] := by
  have cur : next.curFunctors = l.curFunctors := by simp [curFunctors, phase]
  simp only [mem_ahead, cur, phase, quit, functors, List.mem_append] at member ⊢
  rcases member with batch | ⟨comes, queued | new⟩
  · exact .inl (.inl batch)
  · exact .inl (.inr ⟨comes, queued⟩)
  · exact .inr new

theorem step_ahead {l next : EventLoop Task} {action : Action Task}
    (stepped : l.step action = some next) {task : Task} (member : task ∈ next.ahead) :
    task ∈ l.ahead ∨ task ∈ action.appended := by
  cases step_moves stepped with
  | push thread pushed free => exact push_ahead member rfl rfl rfl
  | pushed thread behind | wakeUp | queued behind =>
      left
      simpa [ahead, curFunctors] using member
  | quitIgnored phase => exact .inl member
  | quit =>
      left
      rcases mem_ahead.mp member with batch | ⟨swaps | stays, queued⟩
      · exact mem_ahead.mpr (.inl batch)
      · exact mem_ahead.mpr (.inr ⟨.inl swaps, queued⟩)
      · cases stays
  | loop action _ free moved =>
      cases moved with
      | queue pushed phase => exact push_ahead member rfl rfl rfl
      | handleWakeupRead phase => exact .inl member
      | runNext first rest phase =>
          left
          rcases mem_ahead.mp member with batch | later
          · exact mem_ahead.mpr (.inl (by simp [curFunctors, phase, show task ∈ rest from batch]))
          · exact mem_ahead.mpr (.inr (by simpa [phase, Phase.beforeSwap] using later))
      | swap phase | enter phase | leave phase | poll phase | pollReturn phase
      | beginExecute phase | functorReturn rest phase | finish phase =>
          left
          simp_all [mem_ahead, curFunctors, Phase.beforeSwap]

structure QuitHistory (Task : Type u) where
  history : History Task
  /-- The number of pushes before `quit_` was set. -/
  accepted : Option Nat

/-- `quit_` is not set while functors wait behind the last swap. -/
def QuitsInTime (l : EventLoop Task) : Action Task → Prop
  | .quit => l.quit = true ∨ l.functors = [] ∨ l.phase.beforeTest = false
  | _ => True

def History.taken (h : History Task) : Nat := h.executed.length + h.loop.curFunctors.length

/-- Every push is executed, in the batch or in `functors_`. -/
def History.Counted (h : History Task) : Prop :=
  h.pushed.length = h.taken + h.loop.functors.length

theorem History.Counted.all_taken_iff {h : History Task} (counted : h.Counted) :
    h.pushed.length ≤ h.taken ↔ h.loop.functors = [] := by
  rw [counted]
  constructor
  · intro short
    exact List.eq_nil_of_length_eq_zero (by omega)
  · intro empty
    simp [empty]

theorem History.init_counted : (History.init : History Task).Counted := rfl

theorem History.step_counted {h next : History Task} {action : Action Task}
    (counted : h.Counted) (stepped : h.step action = some next) : next.Counted := by
  rcases Option.map_eq_some_iff.mp stepped with ⟨loop, moved, rfl⟩
  have order := congrArg List.length (step_pending moved)
  unfold Counted taken at counted ⊢
  simp only [pending, List.length_append, List.length_map] at order ⊢
  omega

/-- Once `quit_` is set, only the swap takes the loop thread from one side of the
test to the other. -/
theorem step_beforeSwap {l next : EventLoop Task} {action : Action Task}
    (quit : l.quit = true) (stepped : l.step action = some next) (other : action ≠ .loop .swap) :
    next.phase.beforeSwap = l.phase.beforeSwap := by
  cases step_moves stepped with
  | push | quitIgnored | quit => rfl
  | pushed | wakeUp | queued => simp
  | loop action _ free moved =>
      cases moved with
      | poll phase stay =>
          rw [quit] at stay
          cases stay
      | swap phase => exact absurd rfl other
      | queue task phase => rfl
      | handleWakeupRead phase => rfl
      | enter phase | leave phase | pollReturn phase | beginExecute phase
      | runNext task rest phase | functorReturn rest phase | finish phase =>
          simp [phase, Phase.beforeSwap]

theorem History.step_taken {h next : History Task} {action : Action Task} {n : Nat}
    (quit : h.loop.quit = true) (counted : h.Counted) (bounded : n ≤ h.pushed.length)
    (stepped : h.step action = some next) :
    (next.loop.phase.beforeSwap = true ∨ n ≤ next.taken) ↔
      (h.loop.phase.beforeSwap = true ∨ n ≤ h.taken) := by
  rcases Option.map_eq_some_iff.mp stepped with ⟨loop, moved, rfl⟩
  rcases step_functors moved with
    ⟨cur, -, none, noSwap⟩ | ⟨rfl, empty, cur, -⟩ | ⟨rfl, -, task, cur⟩
  · have other : action ≠ .loop .swap := by
      rintro rfl
      cases noSwap
    simp [step_beforeSwap quit moved other, taken, cur, none]
  · -- The swap takes everything that was pushed.
    have before : h.loop.phase.beforeSwap = true := by
      rw [swap_phase moved]
      rfl
    have all : n ≤ h.executed.length + loop.curFunctors.length := by
      rw [cur]
      rw [counted, taken, empty] at bounded
      simpa using bounded
    simp only [before, true_or, iff_true]
    right
    simpa [taken, started] using all
  · have same : loop.phase.beforeSwap = h.loop.phase.beforeSwap := by
      apply step_beforeSwap quit moved
      intro swaps
      cases swaps
    have length : h.loop.curFunctors.length = loop.curFunctors.length + 1 := by simp [cur]
    simp only [same, taken, started, cur, List.length_append, List.length_map,
      List.take_succ_cons, List.take_zero, List.length_cons, List.length_nil]
    rw [Nat.add_assoc, Nat.add_comm 1]

namespace QuitHistory

def init : QuitHistory Task := ⟨History.init, none⟩

def step (q : QuitHistory Task) (action : Action Task) : Option (QuitHistory Task) :=
  (q.history.step action).map fun history =>
    { history := history
      accepted :=
        if history.loop.quit && !q.history.loop.quit then some q.history.pushed.length
        else q.accepted }

/-- All functors accepted before the quit are started, in the batch, or before
the next swap. -/
def Kept (q : QuitHistory Task) : Prop :=
  ∀ n, q.accepted = some n → q.history.loop.phase.beforeSwap = true ∨ n ≤ q.history.taken

structure Inv (q : QuitHistory Task) : Prop where
  ordered : ∃ done batch later, q.history.Ordered done batch later
  counted : q.history.Counted
  known : q.history.loop.quit = q.accepted.isSome
  bounded : ∀ n, q.accepted = some n → n ≤ q.history.pushed.length

theorem init_inv : (init : QuitHistory Task).Inv where
  ordered := ⟨[], [], [], rfl, .nil, rfl, by simp, rfl, by simp⟩
  counted := History.init_counted
  known := rfl
  bounded := nofun

theorem step_inv {q next : QuitHistory Task} {action : Action Task} (inv : q.Inv)
    (stepped : q.step action = some next) : next.Inv := by
  rcases Option.map_eq_some_iff.mp stepped with ⟨history, moved, rfl⟩
  have ordered := History.step_ordered q.history action history inv.ordered moved
  have counted := History.step_counted inv.counted moved
  have longer : q.history.pushed.length ≤ history.pushed.length := by
    rcases Option.map_eq_some_iff.mp moved with ⟨loop, -, rfl⟩
    simp
  refine ⟨ordered, counted, ?_, ?_⟩
  · rcases Option.map_eq_some_iff.mp moved with ⟨loop, inner, rfl⟩
    have known := inv.known
    dsimp only
    rcases step_quit inner with same | ⟨-, -, rfl⟩
    · cases set : q.history.loop.quit <;> simp_all
    · cases set : q.history.loop.quit <;> simp_all
  · intro n accepted
    dsimp only at accepted
    split at accepted
    · cases accepted
      exact longer
    · exact Nat.le_trans (inv.bounded n accepted) longer

theorem quitsInTime_of_unset {l next : EventLoop Task} {action : Action Task}
    (stepped : l.step action = some next) (still : next.quit = false) : QuitsInTime l action := by
  cases action with
  | quit =>
      cases step_moves stepped with
      | quitIgnored phase => exact .inr (.inr (by rw [phase]; rfl))
      | quit => cases still
  | push | pushed | wakeUp | loop | queued => trivial

/-- A step loses an accepted functor exactly by setting `quit_` behind the last
swap, while functors wait. -/
theorem step_kept {q next : QuitHistory Task} {action : Action Task} (inv : q.Inv)
    (stepped : q.step action = some next) :
    next.Kept ↔ q.Kept ∧ QuitsInTime q.history.loop action := by
  rcases Option.map_eq_some_iff.mp stepped with ⟨history, moved, rfl⟩
  rcases Option.map_eq_some_iff.mp moved with ⟨loop, inner, made⟩
  have loopEq : history.loop = loop := by rw [← made]
  cases set : q.history.loop.quit with
  | true =>
      have stays : QuitsInTime q.history.loop action := by
        cases action with
        | quit => exact .inl set
        | push | pushed | wakeUp | loop | queued => trivial
      simp only [Kept, Bool.not_true, Bool.and_false, Bool.false_eq_true, if_false, stays,
        and_true]
      apply forall_congr'
      intro n
      apply imp_congr_right
      intro accepted
      exact History.step_taken set inv.counted (inv.bounded n accepted) moved
  | false =>
      have none : q.accepted = none := by
        have known := inv.known
        rw [set] at known
        exact Option.not_isSome_iff_eq_none.mp (by simp [← known])
      have before : q.Kept := by
        intro n accepted
        rw [none] at accepted
        cases accepted
      rcases step_quit inner with same | ⟨rfl, inside, rfl⟩
      · have unset : loop.quit = false := same.trans set
        simp [Kept, loopEq, unset, none, quitsInTime_of_unset inner unset]
      · have taken : history.taken = q.history.taken := by
          simp [← made, History.taken, started, curFunctors]
        rw [and_iff_right before]
        simp only [Kept, loopEq, Bool.not_false, Bool.and_true, if_true, Option.some.injEq,
          forall_eq', taken, inv.counted.all_taken_iff, Phase.beforeSwap_iff inside, QuitsInTime,
          set, Bool.false_eq_true, false_or]
        exact or_comm

def Executed (q : QuitHistory Task) (n : Nat) : Prop :=
  (q.history.pushed.take n).map Prod.fst = (q.history.executed.take n).map Prod.fst

theorem Inv.executed_iff {q : QuitHistory Task} (inv : q.Inv) {n : Nat}
    (accepted : q.accepted = some n) : q.Executed n ↔ n ≤ q.history.executed.length := by
  have bounded := inv.bounded n accepted
  constructor
  · intro same
    have lengths := congrArg List.length same
    simp only [List.length_map, List.length_take] at lengths
    omega
  · intro enough
    rcases inv.ordered with ⟨done, batch, later, ordered⟩
    have inside : n ≤ done.length := by
      rw [ordered.ran.length_eq]
      exact enough
    rw [Executed, ordered.split, List.take_append_of_le_length inside, List.map_take,
      ordered.names, List.map_take]

/-- When `Loop()` has returned after a `Quit`, the functors whose push completed
before `quit_` was set have all been executed, so that every `RunAndWait` among
them got its latch, exactly when `quit_` was not set between the last swap and
the test of `quit_` while functors were waiting. -/
theorem accepted_executed_iff_quit_in_time (actions : List (Action Task))
    (final : QuitHistory Task) (ran : run step init actions = some final) (n : Nat)
    (accepted : final.accepted = some n) (returned : final.history.loop.phase = .outside) :
    final.Executed n ↔
      Along step (fun q action => QuitsInTime q.history.loop action) init actions := by
  have inv : final.Inv := run_invariant Inv (fun _ _ _ inv stepped => step_inv inv stepped)
    init_inv ran
  have kept : final.Kept ↔ (init : QuitHistory Task).Kept ∧
      Along step (fun q action => QuitsInTime q.history.loop action) init actions :=
    good_iff_along (fun _ _ _ inv stepped => step_inv inv stepped)
      (fun _ _ _ inv stepped => step_kept inv stepped) init_inv ran
  have none : (init : QuitHistory Task).Kept := nofun
  rw [and_iff_right none] at kept
  rw [← kept, inv.executed_iff accepted]
  simp [Kept, accepted, returned, Phase.beforeSwap, History.taken, curFunctors]

def quitWhilePolling : List (Action Nat) :=
  [.loop .enter, .loop .poll, .push 7 1, .pushed 7, .quit, .wakeUp, .loop .pollReturn,
    .loop .handleWakeupRead, .loop .beginExecute, .loop .swap, .loop .runNext,
    .loop .functorReturn, .loop .finish, .loop .leave]

theorem quit_while_polling_executes : ∃ final : QuitHistory Nat,
    run step init quitWhilePolling = some final ∧ final.accepted = some 1 ∧
      final.history.loop.phase = .outside ∧ final.Executed 1 ∧
      Along step (fun q action => QuitsInTime q.history.loop action) init quitWhilePolling :=
  ⟨_, rfl, rfl, rfl, rfl,
    (accepted_executed_iff_quit_in_time quitWhilePolling _ rfl 1 rfl rfl).mp rfl⟩

/-- A functor is pushed behind the swap, and `Quit` is called before the loop
tests `quit_`. -/
def quitBehindSwap : List (Action Nat) :=
  [.loop .enter, .loop .poll, .loop .pollReturn, .loop .beginExecute, .loop .swap, .push 7 1,
    .pushed 7, .quit, .wakeUp, .loop .finish, .loop .leave]

theorem quit_behind_swap_strands : ∃ final : QuitHistory Nat,
    run step init quitBehindSwap = some final ∧ final.accepted = some 1 ∧
      final.history.loop.phase = .outside ∧ final.history.loop.functors = [1] ∧
      final.history.executed = [] ∧ ¬final.Executed 1 := by
  refine ⟨_, rfl, rfl, rfl, rfl, rfl, ?_⟩
  intro executed
  cases executed

end QuitHistory

end EventLoop

end Muzi
