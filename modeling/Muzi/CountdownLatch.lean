import Muzi.Execution
import Muzi.Monitor

/-!
base/countdown_latch.cc. Any number of threads call `CountDown` and `Wait` on one
latch. A step is what a thread does between two points at which another can see it:
it takes `mutex_`, does what it does inside, or gives it back. A waiting thread may
wake by itself, and a broadcast wakes all of them.
-/

namespace Muzi

namespace CountdownLatch

inductive Down where
  | locking
  | locked
  -- behind `--count_` and the broadcast
  | counted
  | done
  deriving DecidableEq

inductive Waiter where
  | looping (phase : Monitor.Phase)
  -- behind the loop, with the mutex
  | leaving
  | returned
  deriving DecidableEq

namespace Down

def holds : Down → Bool
  | .locked | .counted => true
  | .locking | .done => false

def performed : Down → Bool
  | .counted | .done => true
  | .locking | .locked => false

def isDone : Down → Bool
  | .done => true
  | _ => false

end Down

namespace Waiter

def holds : Waiter → Bool
  | .looping phase => phase.holds
  | .leaving => true
  | .returned => false

def isWaiting : Waiter → Bool
  | .looping phase => phase.isWaiting
  | _ => false

def passed : Waiter → Bool
  | .leaving | .returned => true
  | .looping _ => false

def wake (signalled : Bool) : Waiter → Option Waiter
  | .looping .waiting => some (.looping (.woken signalled))
  | _ => none

end Waiter

end CountdownLatch

structure CountdownLatch where
  -- an `int` in the source; it does not wrap around here
  count : Int
  -- `mutex_` is held
  lock : Bool
  downs : List CountdownLatch.Down
  waiters : List CountdownLatch.Waiter

namespace CountdownLatch

open Execution Monitor

def init (count : Int) : CountdownLatch := ⟨count, false, [], []⟩

inductive Action where
  -- a thread calls `CountDown` or `Wait`
  | callCountDown
  | callWait
  -- the call goes on
  | countDown (i : Nat)
  | wait (i : Nat)
  | wakeUp (i : Nat)

def downStep (i : Nat) (s : CountdownLatch) : Down → Option CountdownLatch
  | .locking =>
      if s.lock then none else some { s with lock := true, downs := s.downs.set i .locked }
  | .locked =>
      let count := s.count - 1
      some { s with
        count := count
        downs := s.downs.set i .counted
        waiters := if count = 0 then notifyAll Waiter.wake s.waiters else s.waiters }
  | .counted => some { s with lock := false, downs := s.downs.set i .done }
  | .done => none

def waitStep (i : Nat) (s : CountdownLatch) : Waiter → Option CountdownLatch
  | .looping phase =>
      -- There is no second condition in this loop.
      match phase.step s.lock true (decide (s.count ≤ 0)) with
      | some (.goes next) =>
          some { s with lock := next.holds, waiters := s.waiters.set i (.looping next) }
      | some .acts => some { s with waiters := s.waiters.set i .leaving }
      | _ => none
  | .leaving => some { s with lock := false, waiters := s.waiters.set i .returned }
  | .returned => none

def step (s : CountdownLatch) : Action → Option CountdownLatch
  | .callCountDown => some { s with downs := s.downs ++ [.locking] }
  | .callWait => some { s with waiters := s.waiters ++ [.looping .locking] }
  | .countDown i => s.downs[i]?.bind (s.downStep i)
  | .wait i => s.waiters[i]?.bind (s.waitStep i)
  | .wakeUp i => (wakeAt Waiter.wake false i s.waiters).map ({ s with waiters := · })

def holders (s : CountdownLatch) : Nat :=
  s.downs.countP Down.holds + s.waiters.countP Waiter.holds

/-- `mutex_` has one owner at most, `count_` is what is left, nobody waits at an open latch,
and who went through it found all counts done. -/
structure Inv (count : Int) (s : CountdownLatch) : Prop where
  mutex : s.holders = s.lock.toNat
  left : s.count = count - s.downs.countP Down.performed
  waiting : 0 < s.waiters.countP Waiter.isWaiting → 0 < s.count
  passed : 0 < s.waiters.countP Waiter.passed → count ≤ s.downs.countP Down.isDone

theorem init_inv (count : Int) : Inv count (init count) :=
  ⟨rfl, by simp [init], by simp [init], by simp [init]⟩

section Step
variable {count : Int} {s next : CountdownLatch} {i : Nat}

theorem performed_le (downs : List Down) :
    downs.countP Down.performed ≤ downs.countP Down.isDone + downs.countP Down.holds := by
  induction downs with
  | nil => simp
  | cons down rest ih =>
      simp only [List.countP_cons]
      cases down <;> simp [Down.performed, Down.isDone, Down.holds] <;> omega

theorem Inv.locked (inv : Inv count s) (some : 0 < s.holders) :
    s.lock = true ∧ s.holders = 1 := by
  have mutex := inv.mutex
  cases lock : s.lock with
  | false =>
      rw [mutex, lock] at some
      cases some
  | true =>
      rw [mutex, lock]
      exact ⟨rfl, rfl⟩

theorem notifyAll_none_waiting (waiters : List Waiter) :
    (notifyAll Waiter.wake waiters).countP Waiter.isWaiting = 0 := by
  rw [notifyAll, List.countP_map, List.countP_eq_zero]
  rintro (⟨_ | _ | _ | _ | _ | _⟩ | _ | _) - <;>
    simp [Waiter.wake, Waiter.isWaiting, Monitor.Phase.isWaiting]

theorem notifyAll_holds (waiters : List Waiter) :
    (notifyAll Waiter.wake waiters).countP Waiter.holds = waiters.countP Waiter.holds := by
  apply notifyAll_countP_same
  rintro (⟨_ | _ | _ | _ | _ | _⟩ | _ | _) <;> rfl

theorem notifyAll_passed (waiters : List Waiter) :
    (notifyAll Waiter.wake waiters).countP Waiter.passed = waiters.countP Waiter.passed := by
  apply notifyAll_countP_same
  rintro (⟨_ | _ | _ | _ | _ | _⟩ | _ | _) <;> rfl

theorem downStep_inv {down : Down} (inv : Inv count s) (found : s.downs[i]? = some down)
    (stepped : s.downStep i down = some next) : Inv count next := by
  have mutex := inv.mutex
  have left := inv.left
  have passed := inv.passed
  have held := fun after => countP_set_add found Down.holds after
  have performed := fun after => countP_set_add found Down.performed after
  have finished := fun after => countP_set_add found Down.isDone after
  cases down with
  | locking =>
      obtain ⟨free, made⟩ := Option.ite_none_left_eq_some.mp stepped
      cases made
      have held := held .locked
      have performed := performed .locked
      have finished := finished .locked
      simp only [Down.holds, Down.performed, Down.isDone, Bool.toNat_false, Bool.toNat_true,
        Nat.add_zero] at held performed finished
      rw [Bool.not_eq_true] at free
      refine ⟨?_, by dsimp only; rw [performed, left], inv.waiting, by dsimp only; rwa [finished]⟩
      rw [free] at mutex
      simp only [holders, Bool.toNat_false, Bool.toNat_true] at mutex ⊢
      omega
  | locked =>
      cases stepped
      have held := held .counted
      have performed := performed .counted
      have finished := finished .counted
      simp only [Down.holds, Down.performed, Down.isDone, Bool.toNat_false, Bool.toNat_true,
        Nat.add_zero, Nat.add_right_cancel_iff] at held performed finished
      refine ⟨?_, by dsimp only; rw [performed, left]; push_cast; omega, ?_, ?_⟩
      · simp only [holders] at mutex ⊢
        rw [held]
        split
        · rw [notifyAll_holds, mutex]
        · exact mutex
      · dsimp only
        split
        · rw [notifyAll_none_waiting]
          intro none
          cases none
        · intro waiting
          have positive := inv.waiting waiting
          omega
      · dsimp only
        rw [finished]
        split
        · rwa [notifyAll_passed]
        · exact passed
  | counted =>
      cases stepped
      have held := held .done
      have performed := performed .done
      have finished := finished .done
      simp only [Down.holds, Down.performed, Down.isDone, Bool.toNat_false, Bool.toNat_true,
        Nat.add_zero, Nat.add_right_cancel_iff] at held performed finished
      have positive := countP_pos_of_getElem? found (p := Down.holds) rfl
      obtain ⟨-, alone⟩ := inv.locked (by unfold holders; omega)
      refine ⟨?_, by dsimp only; rw [performed, left], inv.waiting, ?_⟩
      · simp only [holders, Bool.toNat_false] at alone ⊢
        omega
      · dsimp only
        intro through
        have enough := passed through
        rw [finished]
        push_cast
        omega
  | done => cases stepped

theorem goes_inv {phase after : Monitor.Phase} (inv : Inv count s)
    (found : s.waiters[i]? = some (.looping phase))
    (goes : Goes s.lock true (decide (s.count ≤ 0)) phase after) :
    Inv count { s with lock := after.holds, waiters := s.waiters.set i (.looping after) } := by
  have mutex := inv.mutex
  have held := countP_set_add found Waiter.holds (.looping after)
  have waits := countP_set_add found Waiter.isWaiting (.looping after)
  have through := countP_set_add found Waiter.passed (.looping after)
  simp only [Waiter.holds, Waiter.isWaiting, Waiter.passed, Bool.toNat_false, Nat.add_zero]
    at held waits through
  have locked : s.lock = phase.holds := goes.lock_eq fun holds =>
    (inv.locked (Nat.add_pos_right _ (countP_pos_of_getElem? found (p := Waiter.holds) holds))).1
  refine ⟨?_, inv.left, ?_, by dsimp only; rw [through]; exact inv.passed⟩
  · rw [locked] at mutex
    simp only [holders] at mutex ⊢
    omega
  · dsimp only
    intro some
    by_cases already : 0 < s.waiters.countP Waiter.isWaiting
    · exact inv.waiting already
    · cases goes with
      | waits _ _ unready =>
          rw [decide_eq_false_iff_not] at unready
          omega
      | locks | relocks | rechecks =>
          simp only [Monitor.Phase.isWaiting, Bool.toNat_false, Nat.add_zero] at waits
          omega

theorem acts_inv {phase : Monitor.Phase} (inv : Inv count s)
    (found : s.waiters[i]? = some (.looping phase)) (inside : phase.inside = true)
    (opened : s.count ≤ 0) :
    Inv count { s with waiters := s.waiters.set i .leaving } := by
  have mutex := inv.mutex
  have left := inv.left
  have held := countP_set_add found Waiter.holds .leaving
  have waits := countP_set_add found Waiter.isWaiting .leaving
  have holds : phase.holds = true := inside_holds inside
  simp only [Waiter.holds, holds, Nat.add_right_cancel_iff] at held
  have positive := countP_pos_of_getElem? found (p := Waiter.holds) holds
  obtain ⟨-, alone⟩ := inv.locked (Nat.add_pos_right _ positive)
  refine ⟨?_, left, ?_, fun _ => ?_⟩
  · simp only [holders] at mutex ⊢
    rw [held, mutex]
  · dsimp only
    intro some
    refine inv.waiting ?_
    simp only [Waiter.isWaiting, Bool.toNat_false, Nat.add_zero] at waits
    omega
  · have most := performed_le s.downs
    unfold holders at alone
    dsimp only
    omega

theorem waitStep_inv {waiter : Waiter} (inv : Inv count s)
    (found : s.waiters[i]? = some waiter) (stepped : s.waitStep i waiter = some next) :
    Inv count next := by
  cases waiter with
  | looping phase =>
      simp only [waitStep] at stepped
      split at stepped
      · rename_i after went
        cases stepped
        exact goes_inv inv found (step_goes went)
      · rename_i acted
        cases stepped
        obtain ⟨inside, ready⟩ := step_acts acted
        exact acts_inv inv found inside (of_decide_eq_true ready)
      · cases stepped
  | leaving =>
      cases stepped
      have held := countP_set_add found Waiter.holds .returned
      have waits := countP_set_add found Waiter.isWaiting .returned
      have through := countP_set_add found Waiter.passed .returned
      simp only [Waiter.holds, Waiter.isWaiting, Waiter.passed, Bool.toNat_false, Nat.add_zero,
        Nat.add_right_cancel_iff] at held waits through
      have positive := countP_pos_of_getElem? found (p := Waiter.holds) rfl
      obtain ⟨-, alone⟩ := inv.locked (Nat.add_pos_right _ positive)
      refine ⟨?_, inv.left, by dsimp only; rw [waits]; exact inv.waiting,
        by dsimp only; rw [through]; exact inv.passed⟩
      simp only [holders, Bool.toNat_true, Bool.toNat_false] at alone held ⊢
      omega
  | returned => cases stepped

theorem wakeUp_inv {waiters : List Waiter} (inv : Inv count s)
    (woke : wakeAt Waiter.wake false i s.waiters = some waiters) :
    Inv count { s with waiters := waiters } := by
  obtain ⟨waiter, woken, found, wakes, rfl⟩ := wakeAt_some.mp woke
  have held := countP_set_add found Waiter.holds woken
  have waits := countP_set_add found Waiter.isWaiting woken
  have through := countP_set_add found Waiter.passed woken
  have same : woken.holds = waiter.holds ∧ woken.isWaiting = false ∧
      woken.passed = waiter.passed := by
    rcases waiter with ⟨_ | _ | _ | _ | _ | _⟩ | _ | _ <;> cases wakes
    exact ⟨rfl, rfl, rfl⟩
  rw [same.1, Nat.add_right_cancel_iff] at held
  rw [same.2.1, Bool.toNat_false, Nat.add_zero] at waits
  rw [same.2.2, Nat.add_right_cancel_iff] at through
  refine ⟨?_, inv.left, ?_, by dsimp only; rw [through]; exact inv.passed⟩
  · have mutex := inv.mutex
    simp only [holders] at mutex ⊢
    rw [held, mutex]
  · dsimp only
    intro some
    exact inv.waiting (by omega)

end Step

theorem step_inv {count : Int} (s : CountdownLatch) (action : Action) (next : CountdownLatch)
    (inv : Inv count s) (stepped : s.step action = some next) : Inv count next := by
  cases action with
  | callCountDown =>
      cases stepped
      have mutex := inv.mutex
      refine ⟨?_, ?_, inv.waiting, ?_⟩
      · simpa [holders, Down.holds] using mutex
      · simpa [Down.performed] using inv.left
      · simpa [Down.isDone] using inv.passed
  | callWait =>
      cases stepped
      have mutex := inv.mutex
      refine ⟨?_, inv.left, ?_, ?_⟩
      · simpa [holders, Waiter.holds, Monitor.Phase.holds] using mutex
      · simpa [Waiter.isWaiting, Monitor.Phase.isWaiting] using inv.waiting
      · simpa [Waiter.passed] using inv.passed
  | countDown i =>
      obtain ⟨down, found, went⟩ := Option.bind_eq_some_iff.mp stepped
      exact downStep_inv inv found went
  | wait i =>
      obtain ⟨waiter, found, went⟩ := Option.bind_eq_some_iff.mp stepped
      exact waitStep_inv inv found went
  | wakeUp i =>
      obtain ⟨waiters, woke, rfl⟩ := Option.map_eq_some_iff.mp stepped
      exact wakeUp_inv inv woke

theorem Inv.done_of_returned {s : CountdownLatch} (inv : Inv 1 s)
    (returned : .returned ∈ s.waiters) : .done ∈ s.downs := by
  have enough := inv.passed (List.countP_pos_iff.mpr ⟨_, returned, rfl⟩)
  obtain ⟨down, member, isDone⟩ := List.countP_pos_iff.mp
    (by omega : 0 < s.downs.countP Down.isDone)
  cases down with
  | done => exact member
  | locking | locked | counted => cases isDone

theorem waits_keeps {l after : CountdownLatch} {action : Action}
    (waits : action = .wait 0 ∨ action = .wakeUp 0) (stepped : l.step action = some after) :
    after.downs = l.downs ∧ after.waiters.length = l.waiters.length := by
  rcases waits with rfl | rfl
  · obtain ⟨waiter, -, went⟩ := Option.bind_eq_some_iff.mp stepped
    cases waiter with
    | looping phase =>
        simp only [waitStep] at went
        split at went <;> cases went <;> exact ⟨rfl, List.length_set⟩
    | leaving =>
        cases went
        exact ⟨rfl, List.length_set⟩
    | returned => cases went
  · obtain ⟨waiters, woke, rfl⟩ := Option.map_eq_some_iff.mp stepped
    obtain ⟨-, -, -, -, rfl⟩ := wakeAt_some.mp woke
    exact ⟨rfl, List.length_set⟩

theorem counts_keeps {l after : CountdownLatch} (stepped : l.step (.countDown 0) = some after) :
    after.downs.length = l.downs.length ∧ after.waiters.length = l.waiters.length := by
  obtain ⟨down, -, counted⟩ := Option.bind_eq_some_iff.mp stepped
  cases down with
  | locking =>
      obtain ⟨-, ran⟩ := Option.ite_none_left_eq_some.mp counted
      cases ran
      exact ⟨List.length_set, rfl⟩
  | locked =>
      cases counted
      refine ⟨List.length_set, ?_⟩
      split
      · exact List.length_map _
      · rfl
  | counted =>
      cases counted
      exact ⟨List.length_set, rfl⟩
  | done => cases counted

theorem wake_some {signalled : Bool} {waiter woken : Waiter}
    (wakes : waiter.wake signalled = some woken) : waiter ≠ .returned ∧ woken ≠ .returned := by
  rcases waiter with ⟨_ | _ | _ | _ | _ | _⟩ | _ | _ <;> cases wakes
  exact ⟨Waiter.noConfusion, Waiter.noConfusion⟩

theorem wakeUp_returned {s after : CountdownLatch} {i : Nat}
    (stepped : s.step (.wakeUp i) = some after) :
    .returned ∈ after.waiters ↔ .returned ∈ s.waiters := by
  obtain ⟨waiters, woke, rfl⟩ := Option.map_eq_some_iff.mp stepped
  obtain ⟨waiter, woken, found, wakes, rfl⟩ := wakeAt_some.mp woke
  obtain ⟨before, behind⟩ := wake_some wakes
  have counts := countP_set_add found (· == .returned) woken
  rw [beq_false_of_ne before, beq_false_of_ne behind] at counts
  rw [← List.count_pos_iff, ← List.count_pos_iff]
  exact Eq.to_iff (congrArg (0 < ·) counts)

theorem countDown_returned {s after : CountdownLatch} {i : Nat}
    (stepped : s.step (.countDown i) = some after) :
    .returned ∈ after.waiters ↔ .returned ∈ s.waiters := by
  obtain ⟨down, -, counted⟩ := Option.bind_eq_some_iff.mp stepped
  cases down with
  | locking =>
      obtain ⟨-, ran⟩ := Option.ite_none_left_eq_some.mp counted
      cases ran
      exact Iff.rfl
  | locked =>
      cases counted
      dsimp only
      split
      · rw [← List.count_pos_iff, ← List.count_pos_iff, List.count, notifyAll_countP_same]
        rintro (⟨_ | _ | _ | _ | _ | _⟩ | _ | _) <;> rfl
      · exact Iff.rfl
  | counted =>
      cases counted
      exact Iff.rfl
  | done => cases counted

def Quiet (s : CountdownLatch) : Prop :=
  ∀ i, s.step (.countDown i) = none ∧ s.step (.wait i) = none

section Quiet
variable {count : Int} {s : CountdownLatch}

theorem Quiet.downStep (quiet : Quiet s) {i : Nat} {down : Down}
    (found : s.downs[i]? = some down) : s.downStep i down = none := by
  have stuck := (quiet i).1
  rwa [step, found, Option.bind_some] at stuck

theorem Quiet.waitStep (quiet : Quiet s) {i : Nat} {waiter : Waiter}
    (found : s.waiters[i]? = some waiter) : s.waitStep i waiter = none := by
  have stuck := (quiet i).2
  rwa [step, found, Option.bind_some] at stuck

theorem Quiet.free (quiet : Quiet s) (inv : Inv count s) : s.lock = false := by
  rw [Bool.eq_false_iff]
  intro locked
  have one := inv.mutex
  rw [locked, Bool.toNat_true, holders] at one
  by_cases down : 0 < s.downs.countP Down.holds
  · obtain ⟨i, down, found, holds⟩ := exists_of_countP_pos down
    have stuck := quiet.downStep found
    cases down with
    | locking | done => cases holds
    | locked | counted => cases stuck
  · obtain ⟨i, waiter, found, holds⟩ := exists_of_countP_pos (by omega :
      0 < s.waiters.countP Waiter.holds)
    have stuck := quiet.waitStep found
    cases waiter with
    | looping phase =>
        rcases holds_cases holds with inside | ⟨signalled, rfl⟩
        · cases opened : decide (s.count ≤ 0) with
          | true =>
              rw [CountdownLatch.waitStep, opened, acts_of_inside inside] at stuck
              cases stuck
          | false =>
              rw [CountdownLatch.waitStep, opened, waits_of_inside inside] at stuck
              cases stuck
        · cases stuck
    | leaving => cases stuck
    | returned => cases holds

theorem Quiet.downs_done (quiet : Quiet s) (inv : Inv count s) :
    ∀ down ∈ s.downs, down = .done := by
  intro down member
  obtain ⟨i, found⟩ := List.getElem?_of_mem member
  have stuck := quiet.downStep found
  cases down with
  | locking =>
      rw [CountdownLatch.downStep, quiet.free inv] at stuck
      cases stuck
  | locked => cases stuck
  | counted => cases stuck
  | done => rfl

theorem Quiet.waiter_cases (quiet : Quiet s) (inv : Inv count s) {waiter : Waiter}
    (member : waiter ∈ s.waiters) : waiter = .looping .waiting ∨ waiter = .returned := by
  obtain ⟨i, found⟩ := List.getElem?_of_mem member
  have stuck := quiet.waitStep found
  have free := quiet.free inv
  cases waiter with
  | looping phase =>
      by_cases holds : phase.holds = true
      · have positive := countP_pos_of_getElem? found (p := Waiter.holds) holds
        have locked := (inv.locked (Nat.add_pos_right _ positive)).1
        exact Bool.noConfusion (free.symm.trans locked)
      · cases phase with
        | waiting => exact .inl rfl
        | locking | woken =>
            rw [CountdownLatch.waitStep, free] at stuck
            cases stuck
        | locked | relocked | rechecked => exact absurd rfl holds
  | leaving => cases stuck
  | returned => exact .inr rfl

theorem Quiet.waiter_eq (quiet : Quiet s) (inv : Inv count s) {waiter : Waiter}
    (member : waiter ∈ s.waiters) :
    waiter = if count ≤ s.downs.length then .returned else .looping .waiting := by
  have performed : s.downs.countP Down.performed = s.downs.length :=
    List.countP_eq_length.mpr fun down member => by rw [quiet.downs_done inv down member]; rfl
  have left := inv.left
  rcases quiet.waiter_cases inv member with rfl | rfl
  · have closed := inv.waiting (List.countP_pos_iff.mpr ⟨_, member, rfl⟩)
    rw [if_neg (by omega)]
  · have enough := inv.passed (List.countP_pos_iff.mpr ⟨_, member, rfl⟩)
    have most : s.downs.countP Down.isDone ≤ s.downs.length := List.countP_le_length
    rw [if_pos (by omega)]

end Quiet

/-- Any threads, in any order, with spurious wakeups: a `Wait` returns only when as many
`CountDown` calls as the latch was made for have counted and have given the mutex back, so
that the latch may be destroyed. And when nothing can go on any more, every `CountDown` is
done, and the `Wait` calls have all returned when there were enough of them, or wait all. -/
theorem latch_opens_at_zero (count : Int) (actions : List Action) (s : CountdownLatch)
    (ran : run step (init count) actions = some s) :
    ((∃ waiter ∈ s.waiters, waiter = .returned) → count ≤ s.downs.countP Down.isDone) ∧
      (Quiet s → (∀ down ∈ s.downs, down = .done) ∧ ∀ waiter ∈ s.waiters,
        waiter = if count ≤ s.downs.length then .returned else .looping .waiting) := by
  have inv := run_invariant (Inv count) step_inv (init_inv count) ran
  constructor
  · rintro ⟨waiter, member, rfl⟩
    exact inv.passed (List.countP_pos_iff.mpr ⟨_, member, rfl⟩)
  · intro quiet
    exact ⟨quiet.downs_done inv, fun waiter member => quiet.waiter_eq inv member⟩

def opened : List Action :=
  [.callWait, .wait 0, .wait 0, .callCountDown, .countDown 0, .countDown 0, .countDown 0,
    .wait 0, .wait 0, .wait 0, .wait 0]

theorem opened_latch : ∃ s, run step (init 1) opened = some s ∧
    ((∃ waiter ∈ s.waiters, waiter = .returned) → (1 : Int) ≤ s.downs.countP Down.isDone) ∧
      (Quiet s → (∀ down ∈ s.downs, down = .done) ∧ ∀ waiter ∈ s.waiters,
        waiter = if (1 : Int) ≤ s.downs.length then .returned else .looping .waiting) :=
  ⟨⟨0, false, [.done], [.returned]⟩, rfl, latch_opens_at_zero 1 opened _ rfl⟩

end CountdownLatch

end Muzi
