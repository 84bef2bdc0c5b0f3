import Muzi.Execution

/-!
base/mutex.h and base/condition.h. `holder_` is a plain `pid_t` beside the pthread
mutex: `Lock` and `Unlock` set it inside the mutex, and `Condition::Wait` clears it
for the time in which pthread_cond_wait may give the mutex away. A step is one call
into pthread or one assignment of `holder_`; what the threads do with the mutex, how
many they are and in which order they run is free.
-/

namespace Muzi

inductive Place where
  | outside
  -- in pthread_mutex_lock
  | locking
  -- has the mutex, before `AssignHolder`
  | assigning
  -- in the guarded section
  | guarded
  -- in `Unlock`, behind `UnassignHolder`
  | unlocking
  -- in `Condition::Wait`, behind `UnassignHolder`
  | yielding
  -- in pthread_cond_wait, without the mutex
  | waiting
  -- out of the condition variable, before it has the mutex again
  | woken
  deriving DecidableEq

def Place.owns : Place → Bool
  | .assigning | .guarded | .unlocking | .yielding => true
  | .outside | .locking | .waiting | .woken => false

/-- The thread is between its `AssignHolder` and its `UnassignHolder`. -/
def Place.inside : Place → Bool
  | .guarded => true
  | _ => false

/-- `gettid` of the threads: different threads have different ids, and none has the 0
that `holder_` starts with. -/
structure Tids where
  tid : Nat → Nat
  distinct : ∀ t u, tid t = tid u → t = u
  real : ∀ t, tid t ≠ 0

structure MutexLock where
  /-- The thread that has the pthread mutex. -/
  mutex : Option Nat
  holder : Nat
  places : Nat → Place

namespace MutexLock

open Execution

def init : MutexLock := ⟨none, 0, fun _ => .outside⟩

inductive Action where
  | lock
  | acquire
  | assignHolder
  -- `UnassignHolder` of `Unlock`
  | unassignHolder
  | release
  -- `UnassignHolder` of `Condition::Wait` and `WaitForSeconds`
  | beginWait
  | sleep
  -- pthread_cond_timedwait refuses its deadline and keeps the mutex
  | refuse
  -- a signal, the deadline, or a spurious wakeup
  | wake
  | reacquire
  deriving DecidableEq

namespace Action

def place : Action → Place → Option Place
  | .lock, .outside => some .locking
  | .acquire, .locking => some .assigning
  | .assignHolder, .assigning => some .guarded
  | .unassignHolder, .guarded => some .unlocking
  | .release, .unlocking => some .outside
  | .beginWait, .guarded => some .yielding
  | .sleep, .yielding => some .waiting
  | .refuse, .yielding => some .assigning
  | .wake, .waiting => some .woken
  | .reacquire, .woken => some .assigning
  | _, _ => none

def takes : Action → Bool
  | .acquire | .reacquire => true
  | _ => false

def gives : Action → Bool
  | .release | .sleep => true
  | _ => false

def clears : Action → Bool
  | .unassignHolder | .beginWait => true
  | _ => false

end Action

def step (ids : Tids) (m : MutexLock) : Nat × Action → Option MutexLock
  | (t, action) => do
      let place ← action.place (m.places t)
      if action.takes ∧ m.mutex ≠ none then none
      else some {
        mutex := if action.takes then some t else if action.gives then none else m.mutex
        holder := if action = .assignHolder then ids.tid t
          else if action.clears then 0 else m.holder
        places := fun u => if u = t then place else m.places u }

def isLockedBy (ids : Tids) (m : MutexLock) (t : Nat) : Bool := m.holder == ids.tid t

/-- How the actions go with the places: who takes the mutex had it not, and only the owner
gives it away or touches `holder_`. -/
theorem place_owns {action : Action} {before after : Place}
    (goes : action.place before = some after) :
    (action.takes = true → before.owns = false ∧ after.owns = true) ∧
      (action.gives = true → before.owns = true ∧ after.owns = false) ∧
      (action.takes = false → action.gives = false → after.owns = before.owns) := by
  cases action <;> cases before <;> cases goes <;> decide

theorem place_inside {action : Action} {before after : Place}
    (goes : action.place before = some after) :
    (action = .assignHolder → before.owns = true ∧ after.inside = true) ∧
      (action.clears = true → before.inside = true ∧ after.inside = false) ∧
      (action ≠ .assignHolder → action.clears = false → after.inside = before.inside) := by
  cases action <;> cases before <;> cases goes <;> decide

theorem owns_of_inside {place : Place} (inside : place.inside = true) : place.owns = true := by
  cases place <;> first | rfl | cases inside

/-- The mutex has at most one owner, and `holder_` is its id exactly while it is inside. -/
structure Guards (ids : Tids) (m : MutexLock) : Prop where
  owner : ∀ t, (m.places t).owns = true ↔ m.mutex = some t
  holder : ∀ t, (m.places t).inside = true ↔ m.holder = ids.tid t
  free : (∀ t, (m.places t).inside = false) → m.holder = 0

structure Stepped (ids : Tids) (m : MutexLock) (t : Nat) (action : Action) (place : Place)
    (next : MutexLock) : Prop where
  goes : action.place (m.places t) = some place
  waits : action.takes = true → m.mutex = none
  mutex : next.mutex = if action.takes then some t else if action.gives then none else m.mutex
  holder : next.holder = if action = .assignHolder then ids.tid t
    else if action.clears then 0 else m.holder
  here : next.places t = place
  elsewhere : ∀ u, u ≠ t → next.places u = m.places u

theorem step_stepped {ids : Tids} {m next : MutexLock} {t : Nat} {action : Action}
    (stepped : m.step ids (t, action) = some next) :
    ∃ place, Stepped ids m t action place next := by
  obtain ⟨place, goes, ran⟩ := Option.bind_eq_some_iff.mp stepped
  obtain ⟨free, made⟩ := Option.ite_none_left_eq_some.mp ran
  cases made
  refine ⟨place, goes, fun takes => ?_, rfl, rfl, if_pos rfl, fun u other => if_neg other⟩
  by_contra taken
  exact free ⟨takes, taken⟩

section Step
variable {ids : Tids} {m next : MutexLock} {t : Nat} {action : Action} {place : Place}

theorem Stepped.owner (done : Stepped ids m t action place next) (guards : Guards ids m)
    (u : Nat) : (next.places u).owns = true ↔ next.mutex = some u := by
  obtain ⟨takes, gives, keeps⟩ := place_owns done.goes
  have before := guards.owner u
  rw [done.mutex]
  by_cases taking : action.takes = true
  · rw [if_pos taking]
    by_cases same : u = t
    · subst same
      simp [done.here, takes taking]
    · rw [done.elsewhere u same, before, done.waits taking]
      simp [Ne.symm same]
  · rw [if_neg taking]
    by_cases giving : action.gives = true
    · have held := (guards.owner t).mp (gives giving).1
      rw [if_pos giving]
      by_cases same : u = t
      · subst same
        simp [done.here, gives giving]
      · rw [done.elsewhere u same, before, held]
        simp [Ne.symm same]
    · rw [if_neg giving]
      by_cases same : u = t
      · subst same
        rw [done.here, keeps (by simpa using taking) (by simpa using giving), before]
      · rw [done.elsewhere u same, before]

theorem Guards.alone (guards : Guards ids m) (owns : (m.places t).owns = true) {u : Nat}
    (other : u ≠ t) : (m.places u).inside = false := by
  rw [Bool.eq_false_iff]
  intro inside
  have mine := (guards.owner t).mp owns
  rw [(guards.owner u).mp (owns_of_inside inside)] at mine
  exact other (Option.some.inj mine)

theorem Stepped.holder_iff (done : Stepped ids m t action place next) (guards : Guards ids m)
    (u : Nat) : (next.places u).inside = true ↔ next.holder = ids.tid u := by
  obtain ⟨assigns, clears, keeps⟩ := place_inside done.goes
  rw [done.holder]
  by_cases assigning : action = .assignHolder
  · rw [if_pos assigning]
    by_cases same : u = t
    · subst same
      simp [done.here, assigns assigning]
    · rw [done.elsewhere u same, guards.alone (assigns assigning).1 same]
      exact ⟨Bool.noConfusion, fun named => absurd (ids.distinct _ _ named).symm same⟩
  · rw [if_neg assigning]
    by_cases clearing : action.clears = true
    · rw [if_pos clearing]
      have none : (0 : Nat) ≠ ids.tid u := (ids.real u).symm
      by_cases same : u = t
      · subst same
        simp [done.here, clears clearing, none]
      · rw [done.elsewhere u same, guards.alone (owns_of_inside (clears clearing).1) same]
        simp [none]
    · rw [if_neg clearing]
      by_cases same : u = t
      · subst same
        rw [done.here, keeps assigning (by simpa using clearing), guards.holder]
      · rw [done.elsewhere u same, guards.holder]

theorem Stepped.free (done : Stepped ids m t action place next) (guards : Guards ids m)
    (empty : ∀ u, (next.places u).inside = false) : next.holder = 0 := by
  obtain ⟨assigns, clears, keeps⟩ := place_inside done.goes
  have out := empty t
  rw [done.here] at out
  have assigning : action ≠ .assignHolder := by
    intro assigning
    exact Bool.noConfusion (out.symm.trans (assigns assigning).2)
  rw [done.holder, if_neg assigning]
  by_cases clearing : action.clears = true
  · rw [if_pos clearing]
  · rw [if_neg clearing]
    refine guards.free fun u => ?_
    by_cases same : u = t
    · subst same
      rw [← keeps assigning (by simpa using clearing), out]
    · rw [← done.elsewhere u same]
      exact empty u

end Step

theorem step_guards {ids : Tids} (m : MutexLock) (action : Nat × Action) (next : MutexLock)
    (guards : Guards ids m) (stepped : m.step ids action = some next) : Guards ids next := by
  obtain ⟨place, done⟩ := step_stepped stepped
  exact ⟨done.owner guards, done.holder_iff guards, done.free guards⟩

theorem init_guards (ids : Tids) : Guards ids init where
  owner _ := by simp [init, Place.owns]
  holder t := by simp [init, Place.inside, (ids.real t).symm]
  free _ := rfl

/-- For any threads and any order of their steps, `IsLockedByThisThread` is right: it holds
in a thread exactly when the thread is in a guarded section, also while another thread is
anywhere in `Lock`, `Unlock` or `Condition::Wait`. No two threads are in guarded sections at
a time, and `holder_` is 0 whenever the mutex is free, as the destructor asserts. -/
theorem holder_names_guard (ids : Tids) (actions : List (Nat × Action)) (m : MutexLock)
    (ran : run (step ids) init actions = some m) :
    (∀ t, m.isLockedBy ids t = true ↔ (m.places t).inside = true) ∧
      (∀ t u, (m.places t).inside = true → (m.places u).inside = true → t = u) ∧
      (m.mutex = none → m.holder = 0) := by
  have guards := run_invariant (Guards ids) step_guards (init_guards ids) ran
  refine ⟨fun t => ?_, fun t u inside other => ?_, fun free => ?_⟩
  · rw [isLockedBy, beq_iff_eq, guards.holder]
  · by_contra apart
    have alone := guards.alone (owns_of_inside inside) (Ne.symm apart)
    exact Bool.noConfusion (alone.symm.trans other)
  · refine guards.free fun t => ?_
    rw [Bool.eq_false_iff]
    intro inside
    rw [(guards.owner t).mp (owns_of_inside inside)] at free
    cases free

def counted : Tids := ⟨fun t => t + 1, fun _ _ same => Nat.succ.inj same, Nat.succ_ne_zero⟩

def handedOver : List (Nat × Action) :=
  [(0, .lock), (0, .acquire), (0, .assignHolder), (0, .beginWait), (1, .lock), (0, .sleep),
    (1, .acquire), (1, .assignHolder)]

theorem handed_over_named : ∃ m, run (step counted) init handedOver = some m ∧
    (∀ t, m.isLockedBy counted t = true ↔ (m.places t).inside = true) ∧
      (∀ t u, (m.places t).inside = true → (m.places u).inside = true → t = u) ∧
      (m.mutex = none → m.holder = 0) :=
  ⟨_, rfl, holder_names_guard counted handedOver _ rfl⟩

end MutexLock

end Muzi
