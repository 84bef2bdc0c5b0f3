import Mathlib.Data.Option.Basic

/-!
Loops whose body may send them round again, end them with a result, or have no
outcome at all. A loop is followed for any number of turns, so that one which
goes on for ever is told apart from one that fails.
-/

namespace Muzi.Loop

universe u v
variable {State : Type u} {Result : Type v}

inductive Turn (State : Type u) (Result : Type v) where
  | again (state : State)
  | returned (result : Result)

def turns (body : State → Option (Turn State Result)) :
    Nat → Turn State Result → Option (Turn State Result)
  | 0, turn => some turn
  | _ + 1, .returned result => some (.returned result)
  | more + 1, .again state => (body state).bind (turns body more)

def Returns (body : State → Option (Turn State Result)) (start : State) (result : Result) : Prop :=
  ∃ count, turns body count (.again start) = some (.returned result)

def Diverges (body : State → Option (Turn State Result)) (start : State) : Prop :=
  ∀ count, ∃ state, turns body count (.again start) = some (.again state)

variable {body : State → Option (Turn State Result)}

theorem turns_returned (count : Nat) (result : Result) :
    turns body count (.returned result) = some (.returned result) := by
  cases count <;> rfl

theorem returns_of_body {start : State} {result : Result}
    (ran : body start = some (.returned result)) : Returns body start result :=
  ⟨1, by simp [turns, ran]⟩

theorem returns_of_again {start next : State} {result : Result}
    (ran : body start = some (.again next)) (later : Returns body next result) :
    Returns body start result := by
  obtain ⟨count, done⟩ := later
  exact ⟨count + 1, by simp [turns, ran, done]⟩

theorem body_of_returns {start : State} {result : Result} (ends : Returns body start result) :
    ∃ turn, body start = some turn := by
  obtain ⟨count, ran⟩ := ends
  cases count with
  | zero => cases ran
  | succ count =>
      obtain ⟨turn, once, -⟩ := Option.bind_eq_some_iff.mp ran
      exact ⟨turn, once⟩

theorem returns_unique {start : State} {left right : Result} (first : Returns body start left)
    (second : Returns body start right) : left = right := by
  obtain ⟨count, ran⟩ := first
  induction count generalizing start with
  | zero => cases ran
  | succ count ih =>
      obtain ⟨others, ranToo⟩ := second
      cases others with
      | zero => cases ranToo
      | succ others =>
          simp only [turns] at ran ranToo
          obtain ⟨turn, once, rest⟩ := Option.bind_eq_some_iff.mp ran
          rw [once, Option.bind_some] at ranToo
          cases turn with
          | returned result =>
              rw [turns_returned] at rest ranToo
              cases rest
              cases ranToo
              rfl
          | again next => exact ih ⟨others, ranToo⟩ rest

theorem diverges_of_invariant {inv : State → Prop}
    (progress : ∀ state, inv state → ∃ next, body state = some (.again next) ∧ inv next)
    {start : State} (holds : inv start) : Diverges body start := by
  intro count
  induction count generalizing start with
  | zero => exact ⟨start, rfl⟩
  | succ count ih =>
      obtain ⟨next, ran, still⟩ := progress start holds
      obtain ⟨state, done⟩ := ih still
      exact ⟨state, by simp [turns, ran, done]⟩

theorem turns_invariant {inv : State → Prop}
    (keeps : ∀ state next, inv state → body state = some (.again next) → inv next)
    {start state : State} (holds : inv start) {count : Nat}
    (ran : turns body count (.again start) = some (.again state)) : inv state := by
  induction count generalizing start with
  | zero =>
      cases ran
      exact holds
  | succ count ih =>
      obtain ⟨turn, once, rest⟩ := Option.bind_eq_some_iff.mp ran
      cases turn with
      | returned result =>
          rw [turns_returned] at rest
          cases rest
      | again next => exact ih (keeps start next holds once) rest

/-- A loop that comes nearer to its end with every turn ends. -/
theorem returns_of_measure {inv : State → Prop} {post : Result → Prop} (measure : State → Nat)
    (progress : ∀ state, inv state →
      (∃ result, body state = some (.returned result) ∧ post result) ∨
        ∃ next, body state = some (.again next) ∧ inv next ∧ measure next < measure state)
    {start : State} (holds : inv start) : ∃ result, Returns body start result ∧ post result := by
  induction size : measure start using Nat.strongRecOn generalizing start with
  | ind size' ih =>
      subst size
      rcases progress start holds with ⟨result, ran, good⟩ | ⟨next, ran, still, nearer⟩
      · exact ⟨result, returns_of_body ran, good⟩
      · obtain ⟨result, later, good⟩ := ih _ nearer still rfl
        exact ⟨result, returns_of_again ran later, good⟩

theorem not_returns_of_invariant {inv : State → Prop}
    (onward : ∀ state turn, inv state → body state = some turn →
      ∃ next, turn = .again next ∧ inv next)
    {start : State} (holds : inv start) (result : Result) : ¬ Returns body start result := by
  rintro ⟨count, ran⟩
  induction count generalizing start with
  | zero => cases ran
  | succ count ih =>
      obtain ⟨turn, once, rest⟩ := Option.bind_eq_some_iff.mp ran
      obtain ⟨next, rfl, still⟩ := onward start turn holds once
      exact ih still rest

theorem not_returns_of_diverges {start : State} (forever : Diverges body start) (result : Result) :
    ¬ Returns body start result := by
  rintro ⟨count, ran⟩
  obtain ⟨state, running⟩ := forever count
  rw [ran] at running
  cases running

end Muzi.Loop
