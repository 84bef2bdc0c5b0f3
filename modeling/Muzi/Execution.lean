import Mathlib.Data.List.Basic
import Mathlib.Data.Option.Basic

/-!
Finite runs of a partial step function. An action carries every choice of the
environment, so a run is a list of actions and a disabled action ends it in
`none`. Properties of all reachable states are proved once for a step and
lifted here; a monitored run also records that every step met a condition on
the state it started from.
-/

namespace Muzi.Execution

universe u v w
variable {State : Type u} {Action : Type v} {Abstract : Type w}

def run (step : State → Action → Option State) : State → List Action → Option State
  | state, [] => some state
  | state, action :: rest => (step state action).bind fun next => run step next rest

theorem run_cons_some {step : State → Action → Option State} {state final : State}
    {action : Action} {rest : List Action} :
    run step state (action :: rest) = some final ↔
      ∃ next, step state action = some next ∧ run step next rest = some final := by
  simp [run, Option.bind_eq_some_iff]

theorem run_append {step : State → Action → Option State} {state middle final : State}
    {first later : List Action} (ran : run step state first = some middle)
    (ranLater : run step middle later = some final) :
    run step state (first ++ later) = some final := by
  induction first generalizing state with
  | nil =>
      cases ran
      exact ranLater
  | cons action rest ih =>
      obtain ⟨next, stepped, further⟩ := run_cons_some.mp ran
      exact run_cons_some.mpr ⟨next, stepped, ih further⟩

theorem run_total {step : State → Action → Option State}
    (total : ∀ state action, ∃ next, step state action = some next) (state : State)
    (actions : List Action) : ∃ final, run step state actions = some final := by
  induction actions generalizing state with
  | nil => exact ⟨state, rfl⟩
  | cons action rest ih =>
      obtain ⟨next, stepped⟩ := total state action
      obtain ⟨final, ran⟩ := ih next
      exact ⟨final, run_cons_some.mpr ⟨next, stepped, ran⟩⟩

/-- Every step of the run meets `cond` in the state it starts from. -/
def Along (step : State → Action → Option State) (cond : State → Action → Prop) :
    State → List Action → Prop
  | _, [] => True
  | state, action :: rest =>
      cond state action ∧ ∀ next, step state action = some next → Along step cond next rest

/-- Conditions that can be tested can be tested along a run. -/
instance decidableAlong (step : State → Action → Option State) (cond : State → Action → Prop)
    [∀ state action, Decidable (cond state action)] :
    ∀ (actions : List Action) (state : State), Decidable (Along step cond state actions)
  | [], _ => isTrue trivial
  | action :: rest, state =>
      match stepped : step state action with
      | none => decidable_of_iff (cond state action) (by simp [Along, stepped])
      | some next =>
          have := decidableAlong step cond rest next
          decidable_of_iff (cond state action ∧ Along step cond next rest)
            (by simp [Along, stepped])

theorem along_of_forall (step : State → Action → Option State) {cond : Action → Prop}
    {actions : List Action} (all : ∀ action ∈ actions, cond action) (state : State) :
    Along step (fun _ action => cond action) state actions := by
  induction actions generalizing state with
  | nil => trivial
  | cons action rest ih =>
      refine ⟨all action List.mem_cons_self, ?_⟩
      intro next _
      exact ih (fun later member => all later (List.mem_cons_of_mem action member)) next

theorem along_congr {step : State → Action → Option State} {cond other : State → Action → Prop}
    (inv : State → Prop)
    (keeps : ∀ state action next, inv state → other state action →
      step state action = some next → inv next)
    (same : ∀ state action, inv state → (cond state action ↔ other state action))
    {state : State} (start : inv state) (actions : List Action) :
    Along step cond state actions ↔ Along step other state actions := by
  induction actions generalizing state with
  | nil => exact Iff.rfl
  | cons action rest ih =>
      simp only [Along]
      rw [same state action start]
      refine and_congr_right fun met => forall_congr' fun next => ?_
      exact forall_congr' fun stepped => ih (keeps state action next start met stepped)

theorem along_iff_along {step : State → Action → Option State}
    {good cond : State → Action → Prop} (inv : State → Prop)
    (same : ∀ state action next, inv state → step state action = some next →
      (good state action ↔ cond state action))
    (keeps : ∀ state action next, inv state → cond state action →
      step state action = some next → inv next)
    {state final : State} {actions : List Action} (start : inv state)
    (ran : run step state actions = some final) :
    Along step good state actions ↔ Along step cond state actions := by
  induction actions generalizing state with
  | nil => exact Iff.rfl
  | cons action rest ih =>
      obtain ⟨next, stepped, later⟩ := run_cons_some.mp ran
      simp only [Along, stepped, Option.some.injEq, forall_eq']
      rw [same state action next start stepped]
      exact and_congr_right fun met => ih (keeps state action next start met stepped) later

theorem along_of_invariant {step : State → Action → Option State}
    {cond : State → Action → Prop} (inv : State → Prop)
    (keeps : ∀ state action next, inv state → step state action = some next → inv next)
    (meets : ∀ state action, inv state → cond state action)
    {state : State} (start : inv state) (actions : List Action) :
    Along step cond state actions := by
  induction actions generalizing state with
  | nil => trivial
  | cons action rest ih =>
      exact ⟨meets state action start,
        fun next stepped => ih (keeps state action next start stepped)⟩

theorem run_invariant_along {step : State → Action → Option State}
    {cond : State → Action → Prop} (inv : State → Prop)
    (keeps : ∀ state action next, inv state → cond state action →
      step state action = some next → inv next)
    {state final : State} {actions : List Action} (start : inv state)
    (met : Along step cond state actions)
    (ran : run step state actions = some final) : inv final := by
  induction actions generalizing state with
  | nil =>
      cases ran
      exact start
  | cons action rest ih =>
      obtain ⟨next, stepped, later⟩ := run_cons_some.mp ran
      exact ih (keeps state action next start met.1 stepped) (met.2 next stepped) later

theorem run_invariant {step : State → Action → Option State} (inv : State → Prop)
    (keeps : ∀ state action next, inv state → step state action = some next → inv next)
    {state final : State} {actions : List Action} (start : inv state)
    (ran : run step state actions = some final) : inv final := by
  have free : Along step (fun _ _ => True) state actions :=
    along_of_forall step (fun _ _ => trivial) state
  exact run_invariant_along inv (fun state action next inv _ => keeps state action next inv)
    start free ran

/-- When a step spoils `good` exactly by breaking `cond`, a run from a good
state ends in a good state exactly when all its steps met `cond`. -/
theorem good_iff_along {step : State → Action → Option State}
    {cond : State → Action → Prop} {inv good : State → Prop}
    (keeps : ∀ state action next, inv state → step state action = some next → inv next)
    (exact_step : ∀ state action next, inv state → step state action = some next →
      (good next ↔ good state ∧ cond state action))
    {state final : State} {actions : List Action} (start : inv state)
    (ran : run step state actions = some final) :
    good final ↔ good state ∧ Along step cond state actions := by
  induction actions generalizing state with
  | nil =>
      cases ran
      simp [Along]
  | cons action rest ih =>
      obtain ⟨next, stepped, later⟩ := run_cons_some.mp ran
      rw [ih (keeps state action next start stepped) later,
        exact_step state action next start stepped]
      simp only [Along, stepped, Option.some.injEq, forall_eq', and_assoc]

/-- When a step from a good state leads to a good state exactly by meeting
`cond`, a run that obeys `rule` visits good states only exactly when all its
steps met `cond`. -/
theorem visited_iff_along {step : State → Action → Option State}
    {rule cond : State → Action → Prop} (inv good : State → Prop)
    (keeps : ∀ state action next, inv state → good state → rule state action →
      step state action = some next → good next → inv next)
    (exact_step : ∀ state action next, inv state → good state → rule state action →
      step state action = some next → (good next ↔ cond state action))
    {state final : State} {actions : List Action} (start : inv state) (fine : good state)
    (met : Along step rule state actions) (ran : run step state actions = some final) :
    Along step (fun state action => ∀ next, step state action = some next → good next)
        state actions ↔
      Along step cond state actions := by
  induction actions generalizing state with
  | nil => exact Iff.rfl
  | cons action rest ih =>
      obtain ⟨next, stepped, later⟩ := run_cons_some.mp ran
      have exactly := exact_step state action next start fine met.1 stepped
      have tails : good next →
          (Along step (fun state action => ∀ next, step state action = some next → good next)
            next rest ↔ Along step cond next rest) := fun still =>
        ih (keeps state action next start fine met.1 stepped still) still
          (met.2 next stepped) later
      simp only [Along, stepped, Option.some.injEq, forall_eq']
      constructor
      · rintro ⟨still, visited⟩
        exact ⟨exactly.mp still, (tails still).mp visited⟩
      · rintro ⟨meets, along⟩
        exact ⟨exactly.mpr meets, (tails (exactly.mpr meets)).mpr along⟩

/-- When a safe state is left exactly by breaking `cond`, which leads into a trap that no
`good` step leaves, the steps of a run that ends outside the trap are all good exactly when
they all met `cond`. -/
theorem along_iff_of_trap {step : State → Action → Option State}
    {good cond : State → Action → Prop} (safe trap : State → Prop)
    (leads : ∀ state action next, safe state → step state action = some next →
      good state action ∧ (cond state action ∧ safe next ∨ ¬cond state action ∧ trap next))
    (stays : ∀ state action next, trap state → good state action →
      step state action = some next → trap next)
    {state final : State} {actions : List Action} (start : safe state) (free : ¬trap final)
    (ran : run step state actions = some final) :
    Along step good state actions ↔ Along step cond state actions := by
  induction actions generalizing state with
  | nil => exact Iff.rfl
  | cons action rest ih =>
      obtain ⟨next, stepped, later⟩ := run_cons_some.mp ran
      obtain ⟨fine, ⟨met, still⟩ | ⟨broken, trapped⟩⟩ := leads state action next start stepped
      · simp only [Along, stepped, Option.some.injEq, forall_eq', fine, met, true_and]
        exact ih still later
      · refine iff_of_false (fun along => free ?_) (fun along => broken along.1)
        exact run_invariant_along trap stays trapped (along.2 next stepped) later

/-- Some run from here takes a step that meets `target`. -/
inductive Reaches (step : State → Action → Option State) (target : State → Action → Prop) :
    State → Prop
  | here {state next : State} {action : Action} (stepped : step state action = some next)
      (met : target state action) : Reaches step target state
  | later {state next : State} {action : Action} (stepped : step state action = some next)
      (ahead : Reaches step target next) : Reaches step target state

theorem not_reaches_iff {step : State → Action → Option State} {target : State → Action → Prop}
    {state : State} :
    ¬Reaches step target state ↔
      ∀ actions final, run step state actions = some final →
        Along step (fun state action => ¬target state action) state actions := by
  constructor
  · intro never actions
    induction actions generalizing state with
    | nil =>
        intro final ran
        trivial
    | cons action rest ih =>
        intro final ran
        obtain ⟨next, stepped, later⟩ := run_cons_some.mp ran
        refine ⟨fun met => never (.here stepped met), fun after moved => ?_⟩
        cases stepped.symm.trans moved
        exact ih (fun ahead => never (.later stepped ahead)) final later
  · intro safe reached
    induction reached with
    | here stepped met =>
        exact (safe [_] _ (run_cons_some.mpr ⟨_, stepped, rfl⟩)).1 met
    | later stepped _ ih =>
        apply ih
        intro actions final ran
        exact (safe (_ :: actions) final (run_cons_some.mpr ⟨_, stepped, ran⟩)).2 _ stepped

theorem not_reaches_of_invariant {step : State → Action → Option State}
    {target : State → Action → Prop} (inv : State → Prop)
    (keeps : ∀ state action next, inv state → step state action = some next →
      ¬target state action ∧ inv next)
    {state : State} (start : inv state) : ¬Reaches step target state := by
  intro reached
  induction reached with
  | here stepped met => exact (keeps _ _ _ start stepped).1 met
  | later stepped _ ih => exact ih (keeps _ _ _ start stepped).2

/-- A system that answers every action within `cond`, and stays related to a total
one, answers every run within `cond`. -/
theorem run_related_along {step : State → Action → Option State}
    {cond : State → Action → Prop} (abstractStep : Abstract → Action → Abstract)
    (related : State → Abstract → Prop)
    (answers : ∀ state abstract action, related state abstract → cond state action →
      ∃ next, step state action = some next ∧ related next (abstractStep abstract action))
    {state : State} (abstract : Abstract) (start : related state abstract)
    {actions : List Action} (met : Along step cond state actions) :
    ∃ final, run step state actions = some final ∧
      related final (actions.foldl abstractStep abstract) := by
  induction actions generalizing state abstract with
  | nil => exact ⟨state, rfl, start⟩
  | cons action rest ih =>
      obtain ⟨next, stepped, still⟩ := answers state abstract action start met.1
      obtain ⟨final, ran, last⟩ := ih _ still (met.2 next stepped)
      exact ⟨final, run_cons_some.mpr ⟨next, stepped, ran⟩, last⟩

/-- Two systems that answer every action alike, from related states, answer
whole runs alike: both stop, or both end in related states. -/
theorem run_lockstep {step : State → Action → Option State}
    {abstractStep : Abstract → Action → Option Abstract} {related : State → Abstract → Prop}
    (together : ∀ state abstract action, related state abstract →
      Option.Rel related (step state action) (abstractStep abstract action))
    {state : State} {abstract : Abstract} (start : related state abstract)
    (actions : List Action) :
    Option.Rel related (run step state actions) (run abstractStep abstract actions) := by
  induction actions generalizing state abstract with
  | nil => exact .some start
  | cons action rest ih =>
      have paired := together state abstract action start
      simp only [run]
      cases left : step state action with
      | none =>
          rw [left] at paired
          generalize abstractStep abstract action = right at paired ⊢
          cases paired
          exact .none
      | some next =>
          rw [left] at paired
          generalize abstractStep abstract action = right at paired ⊢
          cases paired with
          | some still => exact ih still

end Muzi.Execution
