import Muzi.ChainOperations
import Muzi.Execution

/-!
A family of chained buffers used side by side, against the same calls on plain
byte queues. A buffer may be appended to another one of the family, never to
itself. The queue side states what each call means; both sides refuse a call
that breaks its asserted bound, and only then.
-/

namespace Muzi.ByteQueue

open Storage ChainBuffer Execution

inductive Op where
  | append (data : List Byte)
  | appendBuffer (source : Nat)
  | retrive (len : Nat)
  | retriveAll
  | peekAsString (len : Nat)
  | peekAllAsString
  | retriveAsString (len : Nat)
  | retriveAllAsString
  | shrink (reserve : Nat)
  deriving DecidableEq

structure Call where
  target : Nat
  op : Op

structure Session (Content : Type) where
  contents : Nat → Content
  returned : List (Option (List Byte))

def Session.commit {Content : Type} (session : Session Content) (target : Nat)
    (outcome : Content × Option (List Byte)) : Session Content where
  contents := Function.update session.contents target outcome.1
  returned := session.returned ++ [outcome.2]

def perform (buffers : Nat → ChainBuffer) (target : Nat) :
    Op → Option (ChainBuffer × Option (List Byte))
  | .append data => ((buffers target).append data).map (·, none)
  | .appendBuffer source =>
      if source = target then none
      else ((buffers target).appendBuffer (buffers source)).map (·, none)
  | .retrive len => ((buffers target).retrive len).map (·, none)
  | .retriveAll => (buffers target).retriveAll.map (·, none)
  | .peekAsString len =>
      ((buffers target).peekAsString len).map fun text => (buffers target, some text)
  | .peekAllAsString =>
      (buffers target).peekAllAsString.map fun text => (buffers target, some text)
  | .retriveAsString len =>
      ((buffers target).retriveAsString len).map fun result => (result.1, some result.2)
  | .retriveAllAsString =>
      (buffers target).retriveAllAsString.map fun result => (result.1, some result.2)
  | .shrink reserve => ((buffers target).shrink reserve).map (·, none)

/-- The meaning of a call on first-in first-out byte queues. -/
def specify (queues : Nat → List Byte) (target : Nat) :
    Op → Option (List Byte × Option (List Byte))
  | .append data => some (queues target ++ data, none)
  | .appendBuffer source =>
      if source = target then none else some (queues target ++ queues source, none)
  | .retrive len =>
      if len ≤ (queues target).length then some ((queues target).drop len, none) else none
  | .retriveAll => some ([], none)
  | .peekAsString len =>
      if len ≤ (queues target).length then
        some (queues target, some ((queues target).take len))
      else none
  | .peekAllAsString => some (queues target, some (queues target))
  | .retriveAsString len =>
      if len ≤ (queues target).length then
        some ((queues target).drop len, some ((queues target).take len))
      else none
  | .retriveAllAsString => some ([], some (queues target))
  | .shrink _ => some (queues target, none)

def bufferStep (session : Session ChainBuffer) (call : Call) : Option (Session ChainBuffer) :=
  (perform session.contents call.target call.op).map (session.commit call.target)

def queueStep (session : Session (List Byte)) (call : Call) : Option (Session (List Byte)) :=
  (specify session.contents call.target call.op).map (session.commit call.target)

def freshBuffers : Session ChainBuffer := ⟨fun _ => init, []⟩

def emptyQueues : Session (List Byte) := ⟨fun _ => [], []⟩

def Agrees (outcome : ChainBuffer × Option (List Byte))
    (expected : List Byte × Option (List Byte)) : Prop :=
  Represents outcome.1 expected.1 ∧ outcome.2 = expected.2

theorem represents_length {b : ChainBuffer} {bytes : List Byte} (rep : Represents b bytes) :
    b.readableBytes = bytes.length := by
  rcases rep with ⟨front, tail, spare, layout, same, count⟩
  exact count

theorem refused_beyond {b : ChainBuffer} {bytes : List Byte} (rep : Represents b bytes)
    {len : Nat} (beyond : ¬ len ≤ bytes.length) :
    b.retrive len = none ∧ b.peekAsString len = none := by
  rw [← represents_length rep] at beyond
  constructor
  · rw [ChainBuffer.retrive, if_neg beyond]
  · rw [ChainBuffer.peekAsString, if_neg beyond]

theorem perform_agrees (buffers : Nat → ChainBuffer) (queues : Nat → List Byte)
    (reps : ∀ i, Represents (buffers i) (queues i)) (target : Nat) (op : Op) :
    Option.Rel Agrees (perform buffers target op) (specify queues target op) := by
  have rep := reps target
  cases op with
  | append data =>
      rcases append_represents rep data with ⟨after, ran, grown⟩
      simp only [perform, specify, ran, Option.map_some]
      exact .some ⟨grown, rfl⟩
  | appendBuffer source =>
      by_cases own : source = target
      · simp only [perform, specify, own, ↓reduceIte]
        exact .none
      · rcases appendBuffer_represents rep (reps source) with ⟨after, ran, grown⟩
        simp only [perform, specify, own, ran, ↓reduceIte, Option.map_some]
        exact .some ⟨grown, rfl⟩
  | retrive len =>
      by_cases available : len ≤ (queues target).length
      · rcases retrive_represents rep len available with ⟨after, ran, dropped⟩
        simp only [perform, specify, available, ran, ↓reduceIte, Option.map_some]
        exact .some ⟨dropped, rfl⟩
      · simp only [perform, specify, available, (refused_beyond rep available).1, ↓reduceIte,
          Option.map_none]
        exact .none
  | retriveAll =>
      rcases retriveAll_represents rep with ⟨after, ran, emptied⟩
      simp only [perform, specify, ran, Option.map_some]
      exact .some ⟨emptied, rfl⟩
  | peekAsString len =>
      by_cases available : len ≤ (queues target).length
      · simp only [perform, specify, available, peekAsString_represents rep len available,
          ↓reduceIte, Option.map_some]
        exact .some ⟨rep, rfl⟩
      · simp only [perform, specify, available, (refused_beyond rep available).2, ↓reduceIte,
          Option.map_none]
        exact .none
  | peekAllAsString =>
      simp only [perform, specify, peekAllAsString_represents rep, Option.map_some]
      exact .some ⟨rep, rfl⟩
  | retriveAsString len =>
      by_cases available : len ≤ (queues target).length
      · rcases retrive_represents rep len available with ⟨after, ran, dropped⟩
        simp only [perform, specify, available, retriveAsString, ran,
          peekAsString_represents rep len available, ↓reduceIte, Option.bind_eq_bind,
          Option.bind_some, Option.map_some]
        exact .some ⟨dropped, rfl⟩
      · simp only [perform, specify, available, retriveAsString, (refused_beyond rep available).2,
          ↓reduceIte, Option.bind_eq_bind, Option.bind_none, Option.map_none]
        exact .none
  | retriveAllAsString =>
      rcases retriveAll_represents rep with ⟨after, ran, emptied⟩
      simp only [perform, specify, retriveAllAsString, peekAllAsString_represents rep, ran,
        Option.bind_eq_bind, Option.bind_some, Option.map_some]
      exact .some ⟨emptied, rfl⟩
  | shrink reserve =>
      rcases shrink_represents rep reserve with ⟨after, ran, kept⟩
      simp only [perform, specify, ran, Option.map_some]
      exact .some ⟨kept, rfl⟩

def Related (session : Session ChainBuffer) (queues : Session (List Byte)) : Prop :=
  (∀ i, Represents (session.contents i) (queues.contents i)) ∧ session.returned = queues.returned

theorem step_related (session : Session ChainBuffer) (queues : Session (List Byte)) (call : Call)
    (related : Related session queues) :
    Option.Rel Related (bufferStep session call) (queueStep queues call) := by
  rcases related with ⟨reps, sameReturned⟩
  have agreed := perform_agrees session.contents queues.contents reps call.target call.op
  unfold bufferStep queueStep
  generalize perform session.contents call.target call.op = outcome at agreed ⊢
  generalize specify queues.contents call.target call.op = expected at agreed ⊢
  cases agreed with
  | none => exact .none
  | some agrees =>
      apply Option.Rel.some
      constructor
      · intro i
        by_cases same : i = call.target
        · subst same
          simpa [Session.commit] using agrees.1
        · simpa [Session.commit, same] using reps i
      · simp [Session.commit, sameReturned, agrees.2]

/-- Both sides refuse the calls, or both accept them, hand back the same
strings, and leave every buffer holding its queue. -/
def Observed (session : Session ChainBuffer) (queues : Session (List Byte)) : Prop :=
  session.returned = queues.returned ∧
    ∀ i, (session.contents i).peekAllAsString = some (queues.contents i) ∧
      (session.contents i).readableBytes = (queues.contents i).length

theorem related_observed {session : Session ChainBuffer} {queues : Session (List Byte)}
    (start : Related session queues) (calls : List Call) :
    Option.Rel Observed (run bufferStep session calls) (run queueStep queues calls) := by
  have paired := run_lockstep step_related start calls
  generalize run bufferStep session calls = reached at paired ⊢
  generalize run queueStep queues calls = expected at paired ⊢
  cases paired with
  | none => exact .none
  | some related =>
      apply Option.Rel.some
      constructor
      · exact related.2
      · intro i
        exact ⟨peekAllAsString_represents (related.1 i), represents_length (related.1 i)⟩

theorem chain_buffer_refines_queue (calls : List Call) :
    Option.Rel Observed (run bufferStep freshBuffers calls) (run queueStep emptyQueues calls) := by
  have start : Related freshBuffers emptyQueues := ⟨fun _ => init_represents, rfl⟩
  exact related_observed start calls

end Muzi.ByteQueue
