import Muzi.AsyncOutputer

/-!
The pointers that go round between the front ends and the backend of the
asynchronous logger. `next_buffer_` is empty only after a buffer was pushed, so a
batch that `Run` takes then has two buffers, and the second one replaces
`new_buffer2`. No condition on when the front ends run is needed for this.
-/

namespace Muzi.AsyncOutputer

open Execution

def SwapsCleared (o : AsyncOutputer) : Prop :=
  Cleared o.newBuffer1 ∧ (o.nextBuffer = none → Cleared o.newBuffer2)

/-- `back` is called on vectors that have a last element, for the second time when
`new_buffer2` is to be replaced. -/
def BackExists (o : AsyncOutputer) (buffersToWrite : List LargeBuffer) : Prop :=
  (kept buffersToWrite).take 2 ≠ [] ∧
    (o.newBuffer2 = none → ((kept buffersToWrite).take 2).dropLast ≠ [])

def NeverDry (o : AsyncOutputer) : Action → Prop
  | .output msg => (∃ b, o.currentBuffer = some b) ∧ ∃ next, o.output msg = some next
  | .flush => (∃ b, o.currentBuffer = some b) ∧ ∃ next, o.flush = some next
  | .start | .stop => True
  | .backend =>
      match o.pc with
      | .locking _ => (∃ b, o.currentBuffer = some b) ∧
          (o.buffers ≠ [] → SwapsCleared o) ∧ ∃ next, o.backend = some next
      | .waiting _ => (∃ b, o.currentBuffer = some b) ∧ SwapsCleared o ∧
          ∃ next, o.backend = some next
      | .writing _ buffersToWrite => BackExists o buffersToWrite ∧ ∃ next, o.backend = some next
      | .unstarted | .starting | .testing _ | .sampling | .finished => True

def Spares (o : AsyncOutputer) : Prop :=
  match o.pc with
  | .unstarted | .starting => True
  | .writing _ batch => batch ≠ [] ∧
      (Cleared o.newBuffer2 ∨ o.newBuffer2 = none ∧ 2 ≤ batch.length)
  | .testing _ | .sampling | .locking _ | .waiting _ | .finished =>
      Cleared o.newBuffer1 ∧ Cleared o.newBuffer2

structure Rotating (o : AsyncOutputer) : Prop extends Stocked o where
  spares : Spares o

theorem init_rotating : Rotating init := ⟨init_sound.toStocked, trivial⟩

section Steps
variable {o next : AsyncOutputer}

theorem Front.rotating {msg : List Storage.Byte} (front : Front o next msg) (rotating : Rotating o)
    (messages : List (List Storage.Byte)) : Rotating { next with messages := messages } := by
  refine ⟨⟨front.current, front.spare⟩, ?_⟩
  rw [front.rest]
  exact rotating.spares

theorem taken_rotating {lastWrite : Bool} {current : LargeBuffer} (rotating : Rotating o)
    (first : Cleared o.newBuffer1) (second : Cleared o.newBuffer2) :
    Rotating (o.taken lastWrite current) := by
  rcases first with ⟨spare, held, -⟩
  rcases rotating.next with ⟨next, there, clear⟩ | ⟨absent, pushed⟩
  · refine ⟨⟨⟨spare, held⟩, .inl ⟨next, by simp [taken, there], clear⟩⟩, by simp, .inl ?_⟩
    simpa [taken, there] using second
  · refine ⟨⟨⟨spare, held⟩, .inl (by simpa [taken, absent] using second)⟩, by simp, .inr ?_⟩
    have one := List.length_pos_iff.mpr pushed
    refine ⟨by simp [taken, absent], ?_⟩
    rw [List.length_append, List.length_singleton]
    omega

theorem take_rotating {lastWrite : Bool} (rotating : Rotating o) (first : Cleared o.newBuffer1)
    (second : Cleared o.newBuffer2) : ∃ next, o.take lastWrite = some next ∧ Rotating next := by
  rcases rotating.current with ⟨current, found⟩
  exact ⟨o.taken lastWrite current, by rw [take, found]; rfl, taken_rotating rotating first second⟩

theorem backExists_of_spares {batch : List LargeBuffer} (some : batch ≠ [])
    (spare : Cleared o.newBuffer2 ∨ o.newBuffer2 = none ∧ 2 ≤ batch.length) :
    BackExists o batch := by
  refine ⟨kept_length.1 some, fun absent => ?_⟩
  rcases spare with ⟨second, held, -⟩ | ⟨-, two⟩
  · cases held.symm.trans absent
  · exact kept_length.2 two

theorem write_rotating {lastWrite : Bool} {batch : List LargeBuffer} (rotating : Rotating o)
    (some : batch ≠ [])
    (spare : Cleared o.newBuffer2 ∨ o.newBuffer2 = none ∧ 2 ≤ batch.length) :
    ∃ next, o.write lastWrite batch = .some next ∧ Rotating next := by
  rcases write_spec some spare with ⟨first, second, clear, also, wrote⟩
  exact ⟨_, wrote, ⟨rotating.current, rotating.next⟩, ⟨first, rfl, clear⟩, ⟨second, rfl, also⟩⟩

theorem backend_rotating (rotating : Rotating o) (started : o.pc ≠ .unstarted)
    (working : o.pc ≠ .finished) : ∃ next, o.backend = some next ∧ Rotating next := by
  have spares := rotating.spares
  unfold AsyncOutputer.backend
  unfold Spares at spares
  cases pc : o.pc with
  | unstarted => exact absurd pc started
  | finished => exact absurd pc working
  | starting =>
      exact ⟨_, rfl, ⟨rotating.current, rotating.next⟩, newBuffer_cleared, newBuffer_cleared⟩
  | testing lastWrite =>
      rw [pc] at spares
      refine ⟨_, rfl, ⟨rotating.current, rotating.next⟩, ?_⟩
      cases o.running || lastWrite with
      | true => exact spares
      | false => exact spares
  | sampling =>
      rw [pc] at spares
      exact ⟨_, rfl, ⟨rotating.current, rotating.next⟩, spares⟩
  | locking lastWrite =>
      rw [pc] at spares
      dsimp only
      split
      · exact ⟨_, rfl, ⟨rotating.current, rotating.next⟩, spares⟩
      · exact take_rotating rotating spares.1 spares.2
  | waiting lastWrite =>
      rw [pc] at spares
      exact take_rotating rotating spares.1 spares.2
  | writing lastWrite batch =>
      rw [pc] at spares
      exact write_rotating rotating spares.1 spares.2

theorem step_rotating {action : Action} (rotating : Rotating o)
    (stepped : o.step action = some next) : Rotating next := by
  cases action with
  | output msg =>
      rcases output_front rotating.toStocked msg with ⟨after, wrote, front⟩
      rw [step, wrote] at stepped
      cases stepped
      exact front.rotating rotating _
  | flush =>
      rcases flush_front rotating.toStocked with ⟨after, flushed, front⟩
      cases flushed.symm.trans stepped
      exact front.rotating rotating next.messages
  | start =>
      simp only [step, start] at stepped
      split at stepped
      · cases stepped
        exact ⟨⟨rotating.current, rotating.next⟩, trivial⟩
      · cases stepped
  | stop =>
      simp only [step, stop] at stepped
      split at stepped
      · cases stepped
      · cases stepped
        exact ⟨⟨rotating.current, rotating.next⟩, rotating.spares⟩
  | backend =>
      have started : o.pc ≠ .unstarted := fun pc => by
        simp [step, AsyncOutputer.backend, pc] at stepped
      have working : o.pc ≠ .finished := fun pc => by
        simp [step, AsyncOutputer.backend, pc] at stepped
      rcases backend_rotating rotating started working with ⟨after, ran, still⟩
      cases ran.symm.trans stepped
      exact still

theorem neverDry_of_rotating (rotating : Rotating o) (action : Action) : o.NeverDry action := by
  have spares := rotating.spares
  cases action with
  | output msg =>
      rcases output_front rotating.toStocked msg with ⟨after, wrote, -⟩
      exact ⟨rotating.current, after, wrote⟩
  | flush =>
      rcases flush_front rotating.toStocked with ⟨after, flushed, -⟩
      exact ⟨rotating.current, after, flushed⟩
  | start => trivial
  | stop => trivial
  | backend =>
      have goes (started : o.pc ≠ .unstarted) (working : o.pc ≠ .finished) :
          ∃ next, o.backend = some next := by
        rcases backend_rotating rotating started working with ⟨after, ran, -⟩
        exact ⟨after, ran⟩
      unfold NeverDry
      unfold Spares at spares
      cases pc : o.pc with
      | unstarted => trivial
      | starting => trivial
      | testing lastWrite => trivial
      | sampling => trivial
      | finished => trivial
      | locking lastWrite =>
          rw [pc] at spares goes
          exact ⟨rotating.current, fun _ => ⟨spares.1, fun _ => spares.2⟩, goes (by simp) (by simp)⟩
      | waiting lastWrite =>
          rw [pc] at spares goes
          exact ⟨rotating.current, ⟨spares.1, fun _ => spares.2⟩, goes (by simp) (by simp)⟩
      | writing lastWrite batch =>
          rw [pc] at spares goes
          exact ⟨backExists_of_spares spares.1 spares.2, goes (by simp) (by simp)⟩

end Steps

/-- Whatever the front ends and the backend do, in whatever order, no pointer is used that
was moved from, and every buffer that goes back to the front ends is empty. -/
theorem rotation_never_dry (actions : List Action) : Along step NeverDry init actions :=
  along_of_invariant Rotating (fun _ _ _ => step_rotating)
    (fun _ action rotating => neverDry_of_rotating rotating action) init_rotating actions

end Muzi.AsyncOutputer
