import Mathlib.Data.List.Flatten
import Muzi.AsyncOutputer

/-!
What the asynchronous logger loses when the backend finds more than 25 buffers. A
message is never spread over two buffers, so the buffers that are thrown away take whole
messages with them.
-/

namespace Muzi.AsyncOutputer

open Execution
open Storage (Byte)

def filled (o : AsyncOutputer) : List LargeBuffer :=
  o.batches.flatten ++ o.buffers ++ o.currentBuffer.toList

structure Whole (buffers : List LargeBuffer) (messages : List (List Byte))
    (groups : List (List (List Byte))) : Prop where
  buffers : buffers.map FixedBuffer.data = groups.map List.flatten
  messages : messages = groups.flatten

theorem Whole.next {buffers : List LargeBuffer} {messages : List (List Byte)}
    {groups : List (List (List Byte))} (whole : Whole buffers messages groups) {b : LargeBuffer}
    {group : List (List Byte)} (data : b.data = group.flatten) :
    Whole (buffers ++ [b]) (messages ++ group) (groups ++ [group]) where
  buffers := by simp [whole.buffers, data]
  messages := by simp [whole.messages]

theorem Whole.grow {buffers : List LargeBuffer} {b after : LargeBuffer} {msg : List Byte}
    {messages : List (List Byte)} {groups : List (List (List Byte))}
    (whole : Whole (buffers ++ [b]) messages groups) (data : after.data = b.data ++ msg) :
    ∃ grown, Whole (buffers ++ [after]) (messages ++ [msg]) grown := by
  have split := whole.buffers
  rw [List.map_append] at split
  obtain ⟨before, last, rfl, first, second⟩ := List.map_eq_append_iff.mp split.symm
  obtain ⟨group, rfl, own⟩ := List.map_eq_singleton_iff.mp second
  refine ⟨before ++ [group ++ [msg]], ?_, ?_⟩
  · simp [first, data, ← own]
  · simp [whole.messages]

theorem Whole.chosen {buffers left : List LargeBuffer} {messages : List (List Byte)}
    {groups : List (List (List Byte))} (whole : Whole buffers messages groups)
    (sub : left.Sublist buffers) : ∃ chosen : List (List (List Byte)),
      chosen.flatten.Sublist messages ∧ left.map FixedBuffer.data = chosen.map List.flatten := by
  have mapped := sub.map FixedBuffer.data
  rw [whole.buffers] at mapped
  obtain ⟨chosen, some, equal⟩ := List.sublist_map_iff.mp mapped
  exact ⟨chosen, whole.messages ▸ some.flatten, equal⟩

theorem Whole.sublist {buffers left : List LargeBuffer} {messages : List (List Byte)}
    {groups : List (List (List Byte))} (whole : Whole buffers messages groups)
    (sub : left.Sublist buffers) :
    ∃ given : List (List Byte), given.Sublist messages ∧ contents left = given.flatten := by
  obtain ⟨chosen, some, equal⟩ := whole.chosen sub
  refine ⟨chosen.flatten, some, ?_⟩
  rw [contents, List.flatMap_def, equal, List.flatten_flatten]

theorem kept_sublist (batches : List (List LargeBuffer)) :
    (batches.flatMap kept).Sublist batches.flatten := by
  rw [← List.flatMap_id]
  refine List.Sublist.flatMap_right batches fun batch _ => ?_
  unfold kept
  split
  · exact List.take_sublist 2 batch
  · exact List.Sublist.refl _

def Grouped (o : AsyncOutputer) : Prop := ∃ groups, Whole o.filled o.messages groups

theorem Grouped.next {o next : AsyncOutputer} (grouped : Grouped o) {b : LargeBuffer}
    {group : List (List Byte)} (data : b.data = group.flatten)
    (filled : next.filled = o.filled ++ [b]) (messages : next.messages = o.messages ++ group) :
    Grouped next := by
  obtain ⟨groups, whole⟩ := grouped
  have opened := whole.next data
  rw [← filled, ← messages] at opened
  exact ⟨_, opened⟩

theorem Grouped.same {o next : AsyncOutputer} (grouped : Grouped o)
    (filled : next.filled = o.filled) (messages : next.messages = o.messages) : Grouped next := by
  rw [Grouped, filled, messages]
  exact grouped

theorem filled_some {o : AsyncOutputer} {b : LargeBuffer} (current : o.currentBuffer = some b) :
    o.filled = o.batches.flatten ++ o.buffers ++ [b] := by
  rw [filled, current]
  rfl

theorem output_grouped {o next : AsyncOutputer} {msg : SmallBuffer} (grouped : Grouped o)
    (sound : Sound o) (stepped : o.step (.output msg) = some next) : Grouped next := by
  obtain ⟨current, fresh, rotated, found, turned, empty, rfl⟩ := rotate_spec sound.toStocked
  by_cases full : msg.data.length > current.getAvail
  · have data : (fresh.append msg.data).data = [msg.data].flatten := by
      rw [FixedBuffer.append_data (small_fits msg empty), empty]
      simp
    have wrote : o.output msg = some { o with
        buffers := o.buffers ++ [current]
        currentBuffer := some (fresh.append msg.data)
        nextBuffer := none } := by
      simp [output, found, turned, full]
    rw [step, wrote] at stepped
    cases stepped
    refine grouped.next data ?_ rfl
    rw [filled_some found, filled_some rfl]
    simp
  · have data := FixedBuffer.append_data (Nat.le_of_not_gt full)
    have wrote : o.output msg =
        some { o with currentBuffer := some (current.append msg.data) } := by
      simp [output, found, full]
    rw [step, wrote] at stepped
    cases stepped
    obtain ⟨groups, whole⟩ := grouped
    rw [filled_some found] at whole
    exact whole.grow data

theorem flush_grouped {o next : AsyncOutputer} (grouped : Grouped o) (sound : Sound o)
    (flushed : o.flush = some next) : Grouped next := by
  obtain ⟨current, fresh, rotated, found, turned, empty, rfl⟩ := rotate_spec sound.toStocked
  rw [flush, turned] at flushed
  cases flushed
  refine grouped.next (show fresh.data = [].flatten from empty) ?_ (List.append_nil _).symm
  rw [filled_some found, filled_some rfl]
  simp

theorem take_grouped {o next : AsyncOutputer} {lastWrite : Bool} (grouped : Grouped o)
    (spare : Cleared o.newBuffer1) (took : o.take lastWrite = some next) : Grouped next := by
  obtain ⟨current, found, rfl⟩ := Option.map_eq_some_iff.mp took
  obtain ⟨b, held, empty⟩ := spare
  refine grouped.next (show b.data = [].flatten from empty) ?_ (List.append_nil _).symm
  rw [filled_some found, filled_some (b := b) held]
  simp [taken]

theorem backend_grouped {o next : AsyncOutputer} (grouped : Grouped o) (sound : Sound o)
    (moved : o.backend = some next) : Grouped next := by
  have backend := sound.backend
  unfold AsyncOutputer.backend at moved
  cases pc : o.pc with
  | unstarted | finished =>
      rw [pc] at moved
      cases moved
  | starting | testing | sampling =>
      rw [pc] at moved
      cases moved
      exact grouped.same rfl rfl
  | locking lastWrite =>
      simp only [Backend, pc] at backend
      simp only [pc] at moved
      split at moved
      · cases moved
        exact grouped.same rfl rfl
      · exact take_grouped grouped backend.1 moved
  | waiting lastWrite =>
      simp only [Backend, pc] at backend
      simp only [pc] at moved
      exact take_grouped grouped backend.1 moved
  | writing lastWrite batch =>
      simp only [Backend, pc] at backend
      simp only [pc] at moved
      obtain ⟨done, batches, appended, some, spare⟩ := backend
      obtain ⟨first, second, -, -, wrote⟩ := @write_spec o lastWrite batch some spare
      cases wrote.symm.trans moved
      exact grouped.same rfl rfl

theorem step_grouped {o next : AsyncOutputer} {action : Action} (grouped : Grouped o)
    (sound : Sound o) (stepped : o.step action = some next) : Grouped next := by
  cases action with
  | output msg => exact output_grouped grouped sound stepped
  | flush => exact flush_grouped grouped sound stepped
  | start =>
      simp only [step, AsyncOutputer.start] at stepped
      split at stepped
      · cases stepped
        exact grouped.same rfl rfl
      · cases stepped
  | stop =>
      simp only [step, AsyncOutputer.stop] at stepped
      split at stepped
      · cases stepped
      · cases stepped
        exact grouped.same rfl rfl
  | backend => exact backend_grouped grouped sound stepped

theorem Sound.appended_sublist {o : AsyncOutputer} (sound : Sound o) :
    ∃ left, List.Sublist left o.filled ∧ o.appended = left.map FixedBuffer.data := by
  have prefixes : ∀ done rest, o.batches = done ++ rest →
      ((done.flatMap kept).Sublist o.filled) := by
    intro done rest batches
    refine (kept_sublist done).trans ?_
    rw [filled, batches, List.flatten_append, List.append_assoc, List.append_assoc]
    exact List.sublist_append_left _ _
  have whole := prefixes o.batches [] (List.append_nil _).symm
  have backend := sound.backend
  unfold Backend at backend
  cases pc : o.pc with
  | unstarted | starting =>
      rw [pc] at backend
      exact ⟨[], List.nil_sublist _, backend.2⟩
  | writing lastWrite batch =>
      rw [pc] at backend
      obtain ⟨done, batches, appended, -⟩ := backend
      exact ⟨_, prefixes done _ batches, appended⟩
  | testing | sampling | locking | waiting | finished =>
      rw [pc] at backend
      exact ⟨_, whole, backend.2.2⟩

/-- However many buffers the backend had to throw away, and whether or not messages come behind
`Stop`: the bytes given to the file are those of whole messages, in the order in which they were
logged. -/
theorem overload_drops_whole_messages (actions : List Action) (o : AsyncOutputer)
    (ran : run step init actions = some o) :
    ∃ given : List (List Byte), given.Sublist o.messages ∧ o.appended.flatten = given.flatten := by
  have begun : Sound init ∧ Grouped init := ⟨init_sound, [[]], rfl, rfl⟩
  obtain ⟨sound, groups, whole⟩ := run_invariant (fun now => Sound now ∧ Grouped now)
    (fun now action next known stepped =>
      ⟨step_sound known.1 stepped, step_grouped known.2 known.1 stepped⟩) begun ran
  obtain ⟨left, sub, appended⟩ := sound.appended_sublist
  obtain ⟨given, some, bytes⟩ := whole.sublist sub
  refine ⟨given, some, ?_⟩
  rw [appended, ← List.flatMap_def]
  exact bytes

def overloaded : List Action :=
  [.start, .backend, .backend, .backend] ++
    (List.replicate 26 [.output ⟨[7], by decide⟩, .flush]).flatten ++
    [.backend, .backend]

theorem overloaded_keeps_two : ∃ o, run step init overloaded = some o ∧
    o.messages.length = 26 ∧ o.appended.flatten = [7, 7] ∧
      ∃ given : List (List Byte), given.Sublist o.messages ∧ given.flatten = [7, 7] := by
  obtain ⟨o, ran, messages, appended⟩ : ∃ o, run step init overloaded = some o ∧
      o.messages.length = 26 ∧ o.appended.flatten = [7, 7] := ⟨_, rfl, rfl, rfl⟩
  obtain ⟨given, sub, bytes⟩ := overload_drops_whole_messages overloaded o ran
  exact ⟨o, ran, messages, appended, given, sub, bytes.symm.trans appended⟩

end Muzi.AsyncOutputer
