import Muzi.CountdownLatch

/-!
base/thread.cc. `Start` makes a thread and waits on `latch_` until the new thread has stored
its id. The new thread has a copy of the function, but only the addresses of `tid_` and
`latch_`, and the Thread may be destroyed as soon as `Start` is over, joined or not.
-/

namespace Muzi

namespace Thread

inductive Owner where
  -- in no member function
  | outside
  -- in `Start`, behind `pthread_create` and in `latch_.Wait()`
  | created
  | waiting
  | destroyed
  deriving DecidableEq

inductive Runner where
  | unborn
  | begun
  -- behind the store to `tid_`
  | stored
  -- in `latch_->CountDown()`
  | counting
  -- in `func_()`
  | running
  | ended
  deriving DecidableEq

def Runner.detached : Runner → Bool
  | .running | .ended => true
  | .unborn | .begun | .stored | .counting => false

end Thread

structure Thread where
  started : Bool
  joined : Bool
  -- not initialised before the new thread stores it
  tid : Option Nat
  latch : CountdownLatch
  owner : Thread.Owner
  runner : Thread.Runner
  /-- `current_thread::tid()` in the new thread. -/
  currentTid : Option Nat
  /-- The new thread used a member behind the destructor. -/
  dangling : Bool

namespace Thread

open Execution

def new : Thread := ⟨false, false, none, .init 1, .outside, .unborn, none, false⟩

inductive Action where
  -- `Start` up to `latch_.Wait()`, with the id of the thread if one was created
  | start (created : Option Nat)
  | wait
  | wakeUp
  | join
  | destroy
  -- the new thread, up to `func_()`
  | run
  | funcReturn

def use (t : Thread) : Thread := { t with dangling := t.dangling || t.owner == .destroyed }

def step (t : Thread) : Action → Option Thread
  | .start created =>
      if t.owner = .outside ∧ t.started = false then
        match created with
        | some tid => some { t with
            started := true
            owner := .created
            runner := .begun
            currentTid := some tid }
        | none => some t
      else none
  | .wait =>
      match t.owner with
      | .created => (t.latch.step .callWait).map fun latch =>
          { t with latch := latch, owner := .waiting }
      | .waiting => (t.latch.step (.wait 0)).map fun latch =>
          { t with
            latch := latch
            owner := if .returned ∈ latch.waiters then .outside else .waiting }
      | .outside | .destroyed => none
  | .wakeUp =>
      if t.owner = .waiting then
        (t.latch.step (.wakeUp 0)).map fun latch => { t with latch := latch }
      else none
  | .join =>
      if t.owner = .outside ∧ t.started = true ∧ t.joined = false ∧ t.runner = .ended then
        some { t with joined := true }
      else none
  | .destroy => if t.owner = .outside then some { t with owner := .destroyed } else none
  | .run =>
      match t.runner with
      | .begun => some { t.use with tid := t.currentTid, runner := .stored }
      | .stored => (t.latch.step .callCountDown).map fun latch =>
          { t.use with latch := latch, runner := .counting }
      | .counting => (t.latch.step (.countDown 0)).map fun latch =>
          { t.use with
            latch := latch
            runner := if .done ∈ latch.downs then .running else .counting }
      | .unborn | .running | .ended => none
  | .funcReturn => if t.runner = .running then some { t with runner := .ended } else none

/-- How far the two threads are, each as the latch has it. -/
structure Inv (t : Thread) : Prop where
  latch : CountdownLatch.Inv 1 t.latch
  started : t.started = true ↔ t.runner ≠ .unborn
  owner : t.started = false → t.owner = .outside ∨ t.owner = .destroyed
  waiters : t.latch.waiters.length = if t.started = false ∨ t.owner = .created then 0 else 1
  returned : .returned ∈ t.latch.waiters ↔
    t.started = true ∧ (t.owner = .outside ∨ t.owner = .destroyed)
  downs : t.latch.downs.length = if t.runner = .counting ∨ t.runner.detached = true then 1 else 0
  done : .done ∈ t.latch.downs ↔ t.runner.detached = true
  tid : t.runner ≠ .unborn → t.runner ≠ .begun → t.tid = t.currentTid
  current : t.started = true → t.currentTid.isSome = true
  joined : t.joined = true → t.runner = .ended
  safe : t.dangling = false

theorem new_inv : Inv new where
  latch := CountdownLatch.init_inv 1
  started := by simp [new]
  owner := by simp [new]
  waiters := by simp [new, CountdownLatch.init]
  returned := by simp [new, CountdownLatch.init]
  downs := by simp [new, CountdownLatch.init, Runner.detached]
  done := by simp [new, CountdownLatch.init, Runner.detached]
  tid := by simp [new]
  current := by simp [new]
  joined := by simp [new]
  safe := rfl

section Step
variable {t next : Thread}

theorem Inv.detached (inv : Inv t) (started : t.started = true)
    (outside : t.owner = .outside ∨ t.owner = .destroyed) : t.runner.detached = true :=
  inv.done.mp (inv.latch.done_of_returned (inv.returned.mpr ⟨started, outside⟩))

theorem Inv.use_safe (inv : Inv t) (attached : t.runner.detached = false)
    (born : t.runner ≠ .unborn) : t.use = t := by
  have there : t.owner ≠ .destroyed := by
    intro destroyed
    have detached := inv.detached (inv.started.mpr born) (.inr destroyed)
    rw [attached] at detached
    cases detached
  have same : (t.dangling || t.owner == .destroyed) = t.dangling := by simp [there]
  rw [use, same]

theorem start_inv {created : Option Nat} (inv : Inv t)
    (stepped : t.step (.start created) = some next) : Inv next := by
  obtain ⟨⟨outside, idle⟩, ran⟩ := Option.ite_none_right_eq_some.mp stepped
  cases created with
  | none =>
      cases ran
      exact inv
  | some tid =>
      cases ran
      have unborn : t.runner = .unborn := by
        by_contra born
        rw [inv.started.mpr born] at idle
        cases idle
      have waiters := inv.waiters
      have downs := inv.downs
      rw [if_pos (.inl idle)] at waiters
      rw [unborn, if_neg (by decide)] at downs
      exact {
        latch := inv.latch
        started := by simp
        owner := by simp
        waiters := by simpa using waiters
        returned := by simp [List.eq_nil_of_length_eq_zero waiters]
        downs := by simpa [Runner.detached] using downs
        done := by simp [List.eq_nil_of_length_eq_zero downs, Runner.detached]
        tid := by simp
        current := by simp
        joined := fun joined => by
          have ended := inv.joined joined
          rw [unborn] at ended
          cases ended
        safe := inv.safe }

theorem wait_inv (inv : Inv t) (stepped : t.step .wait = some next) : Inv next := by
  have begun (inside : ¬(t.owner = .outside ∨ t.owner = .destroyed)) : t.started = true := by
    by_contra idle
    exact inside (inv.owner (by simpa using idle))
  simp only [step] at stepped
  split at stepped
  · rename_i created
    have started := begun (by simp [created])
    have waiters := inv.waiters
    rw [if_pos (.inr created)] at waiters
    cases stepped
    exact { inv with
      latch := CountdownLatch.step_inv _ .callWait _ inv.latch rfl
      owner := fun idle => by simp [started] at idle
      waiters := by simp [waiters, started]
      returned := by simp [List.eq_nil_of_length_eq_zero waiters] }
  · rename_i waiting
    have started := begun (by simp [waiting])
    obtain ⟨latch, went, rfl⟩ := Option.map_eq_some_iff.mp stepped
    obtain ⟨downs, waiters⟩ := CountdownLatch.waits_keeps (.inl rfl) went
    exact { inv with
      latch := CountdownLatch.step_inv _ (.wait 0) latch inv.latch went
      owner := fun idle => by simp [started] at idle
      waiters := by
        have one := inv.waiters
        rw [if_neg (by simp [started, waiting]), ← waiters] at one
        dsimp only
        rw [one, if_neg]
        split <;> simp [started]
      returned := by
        dsimp only
        split <;> simp_all
      downs := by
        dsimp only
        rw [downs]
        exact inv.downs
      done := by
        dsimp only
        rw [downs]
        exact inv.done }
  · cases stepped
  · cases stepped

theorem wakeUp_inv (inv : Inv t) (stepped : t.step .wakeUp = some next) : Inv next := by
  obtain ⟨waiting, ran⟩ := Option.ite_none_right_eq_some.mp stepped
  obtain ⟨latch, woke, rfl⟩ := Option.map_eq_some_iff.mp ran
  obtain ⟨downs, waiters⟩ := CountdownLatch.waits_keeps (.inr rfl) woke
  exact { inv with
    latch := CountdownLatch.step_inv _ (.wakeUp 0) latch inv.latch woke
    waiters := waiters.trans inv.waiters
    returned := (CountdownLatch.wakeUp_returned woke).trans inv.returned
    downs := by
      dsimp only
      rw [downs]
      exact inv.downs
    done := by
      dsimp only
      rw [downs]
      exact inv.done }

theorem destroy_inv (inv : Inv t) (stepped : t.step .destroy = some next) : Inv next := by
  obtain ⟨outside, ran⟩ := Option.ite_none_right_eq_some.mp stepped
  cases ran
  have waiters := inv.waiters
  have returned := inv.returned
  rw [outside] at waiters returned
  exact { inv with
    owner := fun _ => .inr rfl
    waiters := by simpa using waiters
    returned := by simpa using returned }

theorem run_inv (inv : Inv t) (stepped : t.step .run = some next) : Inv next := by
  simp only [step] at stepped
  split at stepped
  · rename_i begun
    rw [inv.use_safe (by rw [begun]; rfl) (by rw [begun]; decide)] at stepped
    cases stepped
    have started := inv.started.mpr (by rw [begun]; decide)
    have downs := inv.downs
    have done := inv.done
    rw [begun] at downs done
    exact { inv with
      started := by simp [started]
      downs := by simpa [Runner.detached] using downs
      done := by simpa [Runner.detached] using done
      tid := fun _ _ => rfl
      joined := fun joined => by
        have ended := inv.joined joined
        rw [begun] at ended
        cases ended }
  · rename_i stored
    rw [inv.use_safe (by rw [stored]; rfl) (by rw [stored]; decide)] at stepped
    cases stepped
    have started := inv.started.mpr (by rw [stored]; decide)
    have downs := inv.downs
    have tid := inv.tid (by rw [stored]; decide) (by rw [stored]; decide)
    rw [stored, if_neg (by decide)] at downs
    exact { inv with
      latch := CountdownLatch.step_inv _ .callCountDown _ inv.latch rfl
      started := by simp [started]
      downs := by simp [downs]
      done := by simp [List.eq_nil_of_length_eq_zero downs, Runner.detached]
      tid := fun _ _ => tid
      joined := fun joined => by
        have ended := inv.joined joined
        rw [stored] at ended
        cases ended }
  · rename_i counting
    rw [inv.use_safe (by rw [counting]; rfl) (by rw [counting]; decide)] at stepped
    obtain ⟨latch, went, rfl⟩ := Option.map_eq_some_iff.mp stepped
    obtain ⟨downs, waiters⟩ := CountdownLatch.counts_keeps went
    have started := inv.started.mpr (by rw [counting]; decide)
    have tid := inv.tid (by rw [counting]; decide) (by rw [counting]; decide)
    have one := inv.downs
    rw [counting, if_pos (.inl rfl), ← downs] at one
    exact { inv with
      latch := CountdownLatch.step_inv _ (.countDown 0) latch inv.latch went
      started := by
        dsimp only
        split <;> simp [started]
      waiters := waiters.trans inv.waiters
      returned := (CountdownLatch.countDown_returned went).trans inv.returned
      downs := by
        dsimp only
        rw [one, if_pos]
        split <;> simp [Runner.detached]
      done := by
        dsimp only
        split <;> simp_all [Runner.detached]
      tid := fun _ _ => tid
      joined := fun joined => by
        have ended := inv.joined joined
        rw [counting] at ended
        cases ended }
  · cases stepped
  · cases stepped
  · cases stepped

theorem funcReturn_inv (inv : Inv t) (stepped : t.step .funcReturn = some next) : Inv next := by
  obtain ⟨running, ran⟩ := Option.ite_none_right_eq_some.mp stepped
  cases ran
  have started := inv.started.mpr (by rw [running]; decide)
  have downs := inv.downs
  have done := inv.done
  have tid := inv.tid (by rw [running]; decide) (by rw [running]; decide)
  rw [running] at downs done
  exact { inv with
    started := by simp [started]
    downs := downs
    done := done
    tid := fun _ _ => tid
    joined := fun _ => rfl }

end Step

theorem step_inv (t : Thread) (action : Action) (next : Thread) (inv : Inv t)
    (stepped : t.step action = some next) : Inv next := by
  cases action with
  | start => exact start_inv inv stepped
  | wait => exact wait_inv inv stepped
  | wakeUp => exact wakeUp_inv inv stepped
  | join =>
      obtain ⟨⟨-, -, -, ended⟩, ran⟩ := Option.ite_none_right_eq_some.mp stepped
      cases ran
      exact { inv with joined := fun _ => ended }
  | destroy => exact destroy_inv inv stepped
  | run => exact run_inv inv stepped
  | funcReturn => exact funcReturn_inv inv stepped

def Quiet (t : Thread) : Prop := t.step .wait = none ∧ t.step .run = none

section Quiet
variable {t : Thread}

theorem Quiet.latch (quiet : Quiet t) (inv : Inv t) (waiting : t.owner = .waiting)
    (counting : t.runner = .counting ∨ t.runner.detached = true) : t.latch.Quiet := by
  have one := inv.downs
  rw [if_pos counting] at one
  obtain ⟨down, downs⟩ := List.length_eq_one_iff.mp one
  obtain ⟨stuck, run⟩ := quiet
  simp only [step, waiting, Option.map_eq_none_iff] at stuck
  intro i
  cases i with
  | zero =>
      refine ⟨?_, stuck⟩
      rcases counting with counting | detached
      · simpa only [step, counting, Option.map_eq_none_iff] using run
      · have done := inv.done.mpr detached
        rw [downs, List.mem_singleton] at done
        rw [CountdownLatch.step, downs, ← done]
        rfl
  | succ i =>
      have most : t.latch.waiters.length ≤ 1 := by
        rw [inv.waiters]
        split <;> omega
      rw [CountdownLatch.step, CountdownLatch.step, downs,
        List.getElem?_eq_none (by omega : t.latch.waiters.length ≤ i + 1)]
      exact ⟨rfl, rfl⟩

theorem Quiet.runner (quiet : Quiet t) (inv : Inv t) :
    t.runner = .unborn ∨ t.runner.detached = true := by
  have run := quiet.2
  cases runner : t.runner with
  | unborn => exact .inl rfl
  | running | ended => exact .inr rfl
  | begun | stored =>
      simp only [step, runner] at run
      cases run
  | counting =>
      have attached : t.runner.detached = false := by rw [runner]; rfl
      have started := inv.started.mpr (by rw [runner]; decide)
      exfalso
      cases owner : t.owner with
      | created =>
          have stuck := quiet.1
          simp only [step, owner] at stuck
          cases stuck
      | waiting =>
          obtain ⟨down, member⟩ := List.exists_mem_of_length_eq_add_one
            (inv.downs.trans (if_pos (.inl runner)))
          have done := (quiet.latch inv owner (.inl runner)).downs_done inv.latch down member
          rw [done] at member
          exact Bool.noConfusion (attached.symm.trans (inv.done.mp member))
      | outside =>
          exact Bool.noConfusion (attached.symm.trans (inv.detached started (.inl owner)))
      | destroyed =>
          exact Bool.noConfusion (attached.symm.trans (inv.detached started (.inr owner)))

theorem Quiet.owner (quiet : Quiet t) (inv : Inv t) :
    t.owner = .outside ∨ t.owner = .destroyed := by
  have stuck := quiet.1
  cases owner : t.owner with
  | outside => exact .inl rfl
  | destroyed => exact .inr rfl
  | created =>
      simp only [step, owner] at stuck
      cases stuck
  | waiting =>
      rcases quiet.runner inv with unborn | detached
      · have idle : t.started = false := by
          rw [Bool.eq_false_iff]
          exact fun started => inv.started.mp started unborn
        rw [← owner]
        exact inv.owner idle
      · have started := inv.started.mpr fun unborn => by rw [unborn] at detached; cases detached
        have one := inv.waiters
        rw [if_neg (by simp [started, owner])] at one
        obtain ⟨waiter, member⟩ := List.exists_mem_of_length_eq_add_one one
        have returned := (quiet.latch inv owner (.inr detached)).waiter_eq inv.latch member
        have enough : (1 : Int) ≤ t.latch.downs.length := by
          rw [inv.downs, if_pos (Or.inr detached)]
          decide
        rw [if_pos enough] at returned
        rw [returned] at member
        rw [← owner]
        exact (inv.returned.mp member).2

end Quiet

/-- In every order of the two threads, with spurious wakeups, and whenever the Thread is destroyed
behind `Start`: the new thread uses no member of a destroyed Thread; when `Start` has returned
`tid_` is the id of the new thread, which is in its function then; `Join` returns behind the
function only; and neither `Start` nor the new thread is ever stuck at the latch. -/
theorem start_waits_for_tid (actions : List Action) (t : Thread)
    (ran : run step new actions = some t) :
    t.dangling = false ∧
      (t.started = true → t.owner = .outside →
        t.runner.detached = true ∧ ∃ tid, t.tid = some tid ∧ t.currentTid = some tid) ∧
      (t.joined = true → t.runner = .ended) ∧
      (Quiet t → (t.owner = .outside ∨ t.owner = .destroyed) ∧
        (t.runner = .unborn ∨ t.runner.detached = true)) := by
  have inv := run_invariant Inv step_inv new_inv ran
  refine ⟨inv.safe, fun started outside => ?_, inv.joined,
    fun quiet => ⟨quiet.owner inv, quiet.runner inv⟩⟩
  have detached := inv.detached started (.inl outside)
  obtain ⟨tid, current⟩ := Option.isSome_iff_exists.mp (inv.current started)
  have stored : t.tid = t.currentTid := by
    apply inv.tid
    all_goals
      intro early
      rw [early] at detached
      cases detached
  exact ⟨detached, tid, stored.trans current, current⟩

/-- `Start` sleeps until the new thread has counted down; the Thread is destroyed while the new
thread is in its function. -/
def startedAndDropped : List Action :=
  [.start none, .start (some 7), .wait, .wait, .wait, .run, .run, .run, .run, .run, .wait, .wait,
    .wait, .wait, .destroy]

theorem dropped_thread_unused : ∃ t, run step new startedAndDropped = some t ∧
    t.owner = .destroyed ∧ t.runner = .running ∧ t.dangling = false := by
  obtain ⟨t, ran, destroyed, running⟩ : ∃ t, run step new startedAndDropped = some t ∧
      t.owner = .destroyed ∧ t.runner = .running := ⟨_, rfl, rfl, rfl⟩
  exact ⟨t, ran, destroyed, running, (start_waits_for_tid startedAndDropped t ran).1⟩

end Thread

end Muzi
