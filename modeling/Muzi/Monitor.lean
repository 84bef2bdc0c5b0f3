import Mathlib.Data.List.Basic

/-!
Threads that wait on a condition variable of a mutex, as POSIX has it: a signal
releases one waiting thread, if there is one, and is lost otherwise; a waiting
thread may also wake by itself; a released thread needs the mutex again before
it goes on. A waiting thread here is in
`lock; while (!ready) { wait; if (!running) return; } act; unlock`, where
`running` is not protected by the mutex. Threads are the places of a list, and
all facts are about how many of them are where.
-/

namespace Muzi.Monitor

inductive Phase where
  | locking
  | locked
  | waiting
  -- out of the condition variable; `signalled` by a signal
  | woken (signalled : Bool)
  -- at the test of `running`
  | relocked (signalled : Bool)
  | rechecked (signalled : Bool)
  deriving DecidableEq

inductive Outcome where
  | goes (phase : Phase)
  | returns
  | acts

namespace Phase

def holds : Phase → Bool
  | .locked | .relocked _ | .rechecked _ => true
  | .locking | .waiting | .woken _ => false

def inside : Phase → Bool
  | .locked | .rechecked _ => true
  | _ => false

/-- The thread comes to look at `ready`, whatever `running` becomes. -/
def entering : Phase → Bool
  | .locking | .locked | .rechecked _ => true
  | _ => false

def isWaiting : Phase → Bool
  | .waiting => true
  | _ => false

/-- A signal released the thread, and it did not look at `ready` since. -/
def signalled : Phase → Bool
  | .woken signalled | .relocked signalled | .rechecked signalled => signalled
  | _ => false

def step (lock running ready : Bool) : Phase → Option Outcome
  | .locking => if lock then none else some (.goes .locked)
  | .locked | .rechecked _ => some (if ready then .acts else .goes .waiting)
  | .waiting => none
  | .woken signalled => if lock then none else some (.goes (.relocked signalled))
  | .relocked signalled => some (if running then .goes (.rechecked signalled) else .returns)

end Phase

section Steps
variable {lock running ready : Bool} {phase next : Phase}

theorem inside_holds (inside : phase.inside = true) : phase.holds = true := by
  cases phase <;> first | rfl | cases inside

theorem inside_entering (inside : phase.inside = true) : phase.entering = true := by
  cases phase <;> first | rfl | cases inside

theorem acts_of_inside (inside : phase.inside = true) :
    phase.step lock running true = some .acts := by
  cases phase <;> first | rfl | cases inside

theorem waits_of_inside (inside : phase.inside = true) :
    phase.step lock running false = some (.goes .waiting) := by
  cases phase <;> first | rfl | cases inside

theorem holds_cases (holds : phase.holds = true) :
    phase.inside = true ∨ ∃ signalled, phase = .relocked signalled := by
  cases phase with
  | locked => exact .inl rfl
  | relocked signalled => exact .inr ⟨signalled, rfl⟩
  | rechecked signalled => exact .inl rfl
  | locking => cases holds
  | waiting => cases holds
  | woken signalled => cases holds

theorem step_acts (stepped : phase.step lock running ready = some .acts) :
    phase.inside = true ∧ ready = true := by
  cases phase <;> cases lock <;> cases running <;> cases ready <;>
    simp_all [Phase.step, Phase.inside]

theorem step_returns (stepped : phase.step lock running ready = some .returns) :
    (∃ signalled, phase = .relocked signalled) ∧ running = false := by
  cases phase <;> cases lock <;> cases running <;> cases ready <;> simp_all [Phase.step]

/-- A thread that stays takes the mutex, tests `running`, or begins to wait. -/
inductive Goes (lock running ready : Bool) : Phase → Phase → Prop
  | locks (free : lock = false) : Goes lock running ready .locking .locked
  | relocks (signalled : Bool) (free : lock = false) :
      Goes lock running ready (.woken signalled) (.relocked signalled)
  | rechecks (signalled : Bool) (on : running = true) :
      Goes lock running ready (.relocked signalled) (.rechecked signalled)
  | waits (phase : Phase) (inside : phase.inside = true) (unready : ready = false) :
      Goes lock running ready phase .waiting

theorem step_goes (stepped : phase.step lock running ready = some (.goes next)) :
    Goes lock running ready phase next := by
  cases phase with
  | locking =>
      obtain ⟨free, made⟩ := Option.ite_none_left_eq_some.mp stepped
      cases made
      exact .locks (by simpa using free)
  | locked =>
      cases ready with
      | false =>
          cases stepped
          exact .waits _ rfl rfl
      | true => cases stepped
  | waiting => cases stepped
  | woken signalled =>
      obtain ⟨free, made⟩ := Option.ite_none_left_eq_some.mp stepped
      cases made
      exact .relocks signalled (by simpa using free)
  | relocked signalled =>
      cases running with
      | false => cases stepped
      | true =>
          cases stepped
          exact .rechecks signalled rfl
  | rechecked signalled =>
      cases ready with
      | false =>
          cases stepped
          exact .waits _ rfl rfl
      | true => cases stepped

theorem Goes.lock_eq (goes : Goes lock running ready phase next)
    (held : phase.holds = true → lock = true) : lock = phase.holds := by
  cases goes with
  | locks free => exact free
  | relocks signalled free => exact free
  | rechecks signalled on => exact held rfl
  | waits phase inside unready =>
      have holds := inside_holds inside
      rw [holds, held holds]

theorem Goes.served (goes : Goes lock running ready phase next) :
    ready = false ∨ next.isWaiting = phase.isWaiting ∧ next.signalled = phase.signalled := by
  cases goes with
  | locks free => exact .inr ⟨rfl, rfl⟩
  | relocks signalled free => exact .inr ⟨rfl, rfl⟩
  | rechecks signalled on => exact .inr ⟨rfl, rfl⟩
  | waits phase inside unready => exact .inl unready

end Steps

/-! Lists of threads. -/

universe u
variable {Pc : Type u}

theorem countP_set_add {threads : List Pc} {i : Nat} {before : Pc}
    (found : threads[i]? = some before) (p : Pc → Bool) (after : Pc) :
    (threads.set i after).countP p + (p before).toNat = threads.countP p + (p after).toNat := by
  induction threads generalizing i with
  | nil => simp at found
  | cons pc rest ih =>
      cases i with
      | zero =>
          have same : pc = before := by simpa using found
          subst same
          rw [List.set_cons_zero, List.countP_cons, List.countP_cons]
          cases p pc <;> cases p after <;> simp
      | succ i =>
          have deeper := ih (i := i) (by simpa using found)
          simp only [List.set_cons_succ, List.countP_cons]
          omega

theorem getElem?_set_found {threads : List Pc} {i : Nat} {before : Pc}
    (found : threads[i]? = some before) (after : Pc) : (threads.set i after)[i]? = some after := by
  obtain ⟨bound, -⟩ := List.getElem?_eq_some_iff.mp found
  exact List.getElem?_set_self bound

theorem countP_pos_of_getElem? {threads : List Pc} {i : Nat} {pc : Pc} {p : Pc → Bool}
    (found : threads[i]? = some pc) (holds : p pc = true) : 0 < threads.countP p :=
  List.countP_pos_iff.mpr ⟨pc, List.mem_of_getElem? found, holds⟩

theorem exists_of_countP_pos {threads : List Pc} {p : Pc → Bool} (pos : 0 < threads.countP p) :
    ∃ (i : Nat) (pc : Pc), threads[i]? = some pc ∧ p pc = true := by
  obtain ⟨pc, member, holds⟩ := List.countP_pos_iff.mp pos
  obtain ⟨i, found⟩ := List.getElem?_of_mem member
  exact ⟨i, pc, found, holds⟩

section Signals
variable (wake : Bool → Pc → Option Pc)

def wakeAt (signalled : Bool) (i : Nat) (threads : List Pc) : Option (List Pc) :=
  (threads[i]?.bind (wake signalled)).map (threads.set i)

/-- `pthread_cond_signal`; the thread it releases is not for the caller to choose. -/
def notify (target : Option Nat) (threads : List Pc) : Option (List Pc) :=
  match target with
  | some i => wakeAt wake true i threads
  | none => if threads.all fun pc => (wake true pc).isNone then some threads else none

def notifyAll (threads : List Pc) : List Pc := threads.map fun pc => (wake true pc).getD pc

variable {wake}

theorem wakeAt_some {signalled : Bool} {i : Nat} {threads after : List Pc} :
    wakeAt wake signalled i threads = some after ↔
      ∃ pc woken, threads[i]? = some pc ∧ wake signalled pc = some woken ∧
        threads.set i woken = after := by
  simp only [wakeAt, Option.map_eq_some_iff, Option.bind_eq_some_iff]
  constructor
  · rintro ⟨woken, ⟨pc, found, wakes⟩, made⟩
    exact ⟨pc, woken, found, wakes, made⟩
  · rintro ⟨pc, woken, found, wakes, made⟩
    exact ⟨woken, ⟨pc, found, wakes⟩, made⟩

theorem notify_some {target : Option Nat} {threads after : List Pc}
    (notified : notify wake target threads = some after) :
    (∃ (i : Nat) (pc woken : Pc), threads[i]? = some pc ∧ wake true pc = some woken ∧
        after = threads.set i woken) ∨
      (∀ pc ∈ threads, wake true pc = none) ∧ after = threads := by
  cases target with
  | some i =>
      obtain ⟨pc, woken, found, wakes, made⟩ := wakeAt_some.mp notified
      exact .inl ⟨i, pc, woken, found, wakes, made.symm⟩
  | none =>
      obtain ⟨all, made⟩ := Option.ite_none_right_eq_some.mp notified
      cases made
      refine .inr ⟨fun pc member => ?_, rfl⟩
      simpa using List.all_eq_true.mp all pc member

theorem notify_possible (wake : Bool → Pc → Option Pc) (threads : List Pc) :
    ∃ target after, notify wake target threads = some after := by
  by_cases idle : (threads.all fun pc => (wake true pc).isNone) = true
  · exact ⟨none, threads, if_pos idle⟩
  · obtain ⟨pc, member, waits⟩ : ∃ pc ∈ threads, ¬wake true pc = none := by simpa using idle
    obtain ⟨i, found⟩ := List.getElem?_of_mem member
    obtain ⟨woken, wakes⟩ := Option.ne_none_iff_exists'.mp waits
    exact ⟨some i, _, wakeAt_some.mpr ⟨pc, woken, found, wakes, rfl⟩⟩

theorem notifyAll_countP_same {p : Pc → Bool} (threads : List Pc)
    (same : ∀ pc, p ((wake true pc).getD pc) = p pc) :
    (notifyAll wake threads).countP p = threads.countP p := by
  rw [notifyAll, List.countP_map]
  exact List.countP_congr fun pc _ => by simp [same pc]

end Signals

end Muzi.Monitor
