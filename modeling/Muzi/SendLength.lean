import Mathlib.Data.List.Perm.Basic
import Muzi.EventLoop
import Muzi.TcpConnection

/-!
The length of a message on its way from `Send(const void *, size_t)` to
`SendInLoop`. `StringProxy` takes it as an `int` and keeps it as a `size_t`; the
loop thread goes on with that, any other thread makes a string of it first and
leaves the string to the loop. Each `Send` that found the connection in
`kConnected` has a number, and is behind its test, in the queue of the loop or in
the list of `SendInLoop` calls.
-/

namespace Muzi.SendLength

open Execution Storage Integers

/-- The arguments of `Send`, with the memory they point into. -/
structure Message where
  memory : Memory
  start : Nat
  len : Nat
  sized : len < 0x10000000000000000

namespace Message

def bytes (m : Message) : List Byte := read m.memory m.start m.len

def proxy (m : Message) : StringProxy := .ofSize m.start m.len

/-- `max_size()` of a `std::string`. -/
def maxSize : Nat := 0x7ffffffffffffffe

/-- `StringProxy::ToString`; `none` is the exception `std::length_error`. -/
def toString (m : Message) : Option (List Byte) :=
  if m.proxy.length ≤ maxSize then some (read m.memory m.proxy.ptr m.proxy.length) else none

end Message

inductive Task where
  -- `SendInLoop(const StringProxy &)` with the string that is bound to it
  | sendInLoop (number : Nat) (str : List Byte)
  | other

abbrev Entry := Nat × List Byte

def Task.entry : Task → Option Entry
  | .sendInLoop number str => some (number, str)
  | .other => none

structure Sender where
  thread : Nat
  number : Nat
  message : Message

def Sender.entry (sender : Sender) : Entry := (sender.number, sender.message.bytes)

structure System where
  loop : EventLoop Task
  state : ConnectionState
  senders : List Sender
  /-- The bytes of each `Send` that found `kConnected`. -/
  sends : List Entry
  /-- The bytes of each `SendInLoop`. -/
  calls : List Entry

inductive Action where
  -- `Send` of another thread up to its test of `state_`, and the rest of it
  | checkSend (thread : Nat) (message : Message)
  | pushSend (place : Nat)
  -- `Send` of the loop thread
  | send (message : Message)
  -- the next functor of the batch, whose string lies somewhere in memory
  | runFunctor (memory : Memory) (address : Nat)
  | setState (state : ConnectionState)
  -- the loop, and all that is not about `Send`
  | machine (action : EventLoop.Action Task)

namespace System

def init : System where
  loop := .init
  state := .kConnecting
  senders := []
  sends := []
  calls := []

def called (s : System) (number : Nat) (memory : Memory) (first len : Nat) : System :=
  { s with calls := s.calls ++ [(number, read memory first len)] }

def begun (s : System) (m : Message) : System :=
  { s with sends := s.sends ++ [(s.sends.length, m.bytes)] }

/-- The copy of the message, and the push of `QueueInLoop`; the exception leaves `Send`. -/
def push (s : System) (sender : Sender) (rest : List Sender) : Option System :=
  sender.message.toString.elim (some { s with senders := rest }) fun str =>
    (s.loop.step (.push sender.thread (.sendInLoop sender.number str))).map fun loop =>
      { s with loop := loop, senders := rest }

/-- The functor makes a `StringProxy` of its string. -/
def runTask (s : System) (memory : Memory) (address : Nat) : Task → System
  | .sendInLoop number str => s.called number (store memory address str) address str.length
  | .other => s

def aside : EventLoop.Action Task → Bool
  | .push _ (.sendInLoop _ _) | .loop (.queue (.sendInLoop _ _)) | .loop .runNext => false
  | _ => true

def step (s : System) : Action → Option System
  | .checkSend thread m =>
      if s.senders.any (·.thread = thread) ∨ thread ∈ s.loop.waking then none
      else if s.state = .kConnected then
        some { s.begun m with senders := s.senders ++ [⟨thread, s.sends.length, m⟩] }
      else some s
  | .pushSend place =>
      s.senders[place]?.bind fun sender => s.push sender (s.senders.eraseIdx place)
  | .send m =>
      if s.loop.queueing = true ∨ s.loop.phase.inCallback = false then none
      else if s.state = .kConnected then
        some ((s.begun m).called s.sends.length m.memory m.proxy.ptr m.proxy.length)
      else some s
  | .runFunctor memory address =>
      match s.loop.curFunctors with
      | task :: _ =>
          (s.loop.step (.loop .runNext)).map fun loop =>
            { s.runTask memory address task with loop := loop }
      | [] => none
  | .setState state => some { s with state := state }
  | .machine action =>
      if aside action then
        (s.loop.step action).map fun loop => { s with loop := loop }
      else none

def entries (s : System) : List Entry :=
  s.senders.map Sender.entry ++ (s.loop.pending.filterMap Task.entry ++ s.calls)

structure Delivered (s : System) : Prop where
  numbered : s.sends.map Prod.fst = List.range s.sends.length
  exactly : s.entries.Perm s.sends

def Keeps (s : System) : Action → Prop
  | .pushSend place => ∀ sender ∈ s.senders[place]?, sender.message.len < 0x80000000
  | .send m => s.state = .kConnected → m.len < 0x80000000 ∨ 0xffffffff80000000 ≤ m.len
  | _ => True

instance (s : System) (action : Action) : Decidable (s.Keeps action) := by
  cases action <;> simp only [Keeps] <;> infer_instance

end System

/-! The length. -/

theorem length_proxy (m : Message) :
    m.proxy.length = m.len ↔ m.len < 0x80000000 ∨ 0xffffffff80000000 ≤ m.len := by
  have sized := m.sized
  simp only [Message.proxy, StringProxy.ofSize, IntType.pattern, IntType.convert,
    IntType.signed, IntType.size, radix, ↓reduceIte, Int.bmod_def]
  omega

theorem read_len {memory : Memory} {start first second : Nat}
    (same : read memory start first = read memory start second) : first = second := by
  have lengths := congrArg List.length same
  rwa [length_read, length_read] at lengths

theorem forwarded_bytes (m : Message) :
    read m.memory m.proxy.ptr m.proxy.length = m.bytes ↔
      m.len < 0x80000000 ∨ 0xffffffff80000000 ≤ m.len := by
  rw [← length_proxy]
  constructor
  · intro same
    exact read_len same
  · intro same
    rw [same]
    rfl

theorem proxy_long {m : Message} (long : 0xffffffff80000000 ≤ m.len) :
    ¬m.proxy.length ≤ Message.maxSize := by
  rw [(length_proxy m).mpr (.inr long), Message.maxSize]
  omega

theorem toString_iff (m : Message) : m.toString = some m.bytes ↔ m.len < 0x80000000 := by
  constructor
  · intro copied
    obtain ⟨short, same⟩ := Option.ite_none_right_eq_some.mp copied
    rcases (forwarded_bytes m).mp (Option.some.inj same) with small | long
    · exact small
    · exact absurd short (proxy_long long)
  · intro small
    have kept := (length_proxy m).mpr (.inl small)
    have short : m.proxy.length ≤ Message.maxSize := by
      rw [kept, Message.maxSize]
      omega
    rw [Message.toString, if_pos short, (forwarded_bytes m).mpr (.inl small)]

/-! One step. -/

namespace System

variable {s next : System}

theorem init_delivered : Delivered init := ⟨rfl, .refl _⟩

theorem Delivered.moved (delivered : Delivered s) (same : next.sends = s.sends)
    (entries : next.entries.Perm s.entries) : Delivered next where
  numbered := by
    rw [same]
    exact delivered.numbered
  exactly := by
    rw [same]
    exact entries.trans delivered.exactly

theorem Delivered.grown (delivered : Delivered s) {bytes found : List Byte}
    (more : next.sends = s.sends ++ [(s.sends.length, bytes)])
    (entries : next.entries.Perm (s.entries ++ [(s.sends.length, found)])) :
    Delivered next ↔ found = bytes := by
  have numbered : next.sends.map Prod.fst = List.range next.sends.length := by
    rw [more, List.map_append, delivered.numbered, List.length_append, List.length_singleton,
      List.range_succ]
    rfl
  have front : (s.entries ++ [(s.sends.length, found)]).Perm
      (s.sends ++ [(s.sends.length, found)]) := delivered.exactly.append_right _
  have exactly : next.entries.Perm next.sends ↔ found = bytes := by
    rw [more]
    constructor
    · intro perm
      have both := (front.symm.trans entries.symm).trans perm
      have last := (List.perm_append_left_iff s.sends).mp both
      simpa using last
    · rintro rfl
      exact entries.trans front
  constructor
  · intro after
    exact exactly.mp after.exactly
  · intro same
    exact ⟨numbered, exactly.mpr same⟩

theorem Delivered.passed (delivered : Delivered s) {entry : Entry} (found : Option Entry)
    {rest : List Entry} (same : next.sends = s.sends)
    (before : s.entries.Perm (entry :: rest))
    (after : next.entries.Perm (found.toList ++ rest)) :
    Delivered next ↔ found = some entry := by
  constructor
  · intro still
    have perm : (found.toList ++ rest).Perm ([entry] ++ rest) := by
      have total := after.symm.trans still.exactly
      rw [same] at total
      exact total.trans (delivered.exactly.symm.trans before)
    have single := (List.perm_append_right_iff rest).mp perm
    cases found with
    | none => simp at single
    | some value => simpa using single
  · rintro rfl
    exact delivered.moved same (after.trans before.symm)

theorem pending_entries {l next : EventLoop Task} {action : EventLoop.Action Task}
    (stepped : l.step action = some next) :
    (EventLoop.started l action).filterMap Task.entry ++ next.pending.filterMap Task.entry =
      l.pending.filterMap Task.entry ++ action.appended.filterMap Task.entry := by
  rw [← List.filterMap_append, EventLoop.step_pending stepped, List.filterMap_append]

theorem aside_entries {l : EventLoop Task} {action : EventLoop.Action Task}
    (apart : aside action = true) :
    (EventLoop.started l action).filterMap Task.entry = [] ∧
      action.appended.filterMap Task.entry = [] := by
  unfold aside at apart
  split at apart
  case h_4 push queue runs =>
    constructor
    · unfold EventLoop.started
      split
      · exact absurd rfl runs
      · rfl
    · unfold EventLoop.Action.appended
      split
      · rename_i task
        cases task with
        | sendInLoop number str => exact absurd rfl (push _ number str)
        | other => rfl
      · rename_i task
        cases task with
        | sendInLoop number str => exact absurd rfl (queue number str)
        | other => rfl
      · rfl
  all_goals cases apart

theorem checkSend_delivered {thread : Nat} {m : Message} (delivered : Delivered s)
    (stepped : s.step (.checkSend thread m) = some next) : Delivered next := by
  simp only [step] at stepped
  split at stepped
  · cases stepped
  · split at stepped
    · cases stepped
      refine (delivered.grown rfl ?_).mpr rfl
      simp only [entries, begun, List.map_append, List.append_assoc]
      rw [← List.append_assoc _ s.calls]
      exact List.perm_append_comm.append_left _
    · cases stepped
      exact delivered

theorem pushSend_delivered {place : Nat} (delivered : Delivered s)
    (stepped : s.step (.pushSend place) = some next) :
    Delivered next ↔ s.Keeps (.pushSend place) := by
  simp only [step] at stepped
  obtain ⟨sender, found, pushed⟩ := Option.bind_eq_some_iff.mp stepped
  have only : s.Keeps (.pushSend place) ↔ sender.message.len < 0x80000000 := by
    constructor
    · intro keeps
      exact keeps sender found
    · intro small other member
      cases found.symm.trans member
      exact small
  have before : s.entries.Perm (sender.entry :: ((s.senders.eraseIdx place).map Sender.entry ++
      (s.loop.pending.filterMap Task.entry ++ s.calls))) := by
    obtain ⟨inside, value⟩ := List.getElem?_eq_some_iff.mp found
    have front := (List.getElem_cons_eraseIdx_perm inside).symm.map Sender.entry
    rw [value] at front
    exact front.append_right _
  rw [only, ← toString_iff]
  cases copied : sender.message.toString with
  | none =>
      rw [push, copied, Option.elim] at pushed
      cases pushed
      exact Iff.trans (delivered.passed none rfl before (.refl _))
        (iff_of_false (Option.some_ne_none _).symm (Option.some_ne_none _).symm)
  | some str =>
      rw [push, copied, Option.elim] at pushed
      obtain ⟨loop, moved, rfl⟩ := Option.map_eq_some_iff.mp pushed
      have queue := EventLoop.push_pending moved
      refine Iff.trans (delivered.passed (some (sender.number, str)) rfl before ?_) ?_
      · simp only [entries, queue, List.filterMap_append, List.append_assoc]
        rw [← List.append_assoc, ← List.append_assoc ((s.senders.eraseIdx place).map _)]
        exact List.perm_middle
      · simp only [Sender.entry, Option.some.injEq, Prod.mk.injEq, true_and]

theorem send_delivered {m : Message} (delivered : Delivered s)
    (stepped : s.step (.send m) = some next) : Delivered next ↔ s.Keeps (.send m) := by
  simp only [step] at stepped
  split at stepped
  · cases stepped
  · split at stepped
    · rename_i connected
      cases stepped
      have last : ((s.begun m).called s.sends.length m.memory m.proxy.ptr
          m.proxy.length).entries.Perm
          (s.entries ++ [(s.sends.length, read m.memory m.proxy.ptr m.proxy.length)]) := by
        simp [entries, called, begun]
      rw [delivered.grown rfl last, forwarded_bytes, Keeps, forall_prop_of_true connected]
    · rename_i other
      cases stepped
      exact iff_of_true delivered fun connected => absurd connected other

theorem runTask_entries (s : System) (memory : Memory) (address : Nat) (task : Task) :
    (s.runTask memory address task).calls = s.calls ++ [task].filterMap Task.entry := by
  cases task with
  | other => exact (List.append_nil _).symm
  | sendInLoop number str =>
      have whole : read (store memory address str) address str.length = str := by
        have inside := read_store_inside memory address str (Nat.le_of_eq (Nat.zero_add str.length))
        rwa [Nat.add_zero, List.drop_zero, List.take_length] at inside
      simp [runTask, called, whole, Task.entry]

theorem runFunctor_delivered {memory : Memory} {address : Nat} (delivered : Delivered s)
    (stepped : s.step (.runFunctor memory address) = some next) : Delivered next := by
  simp only [step] at stepped
  split at stepped
  · rename_i task rest cur
    obtain ⟨loop, moved, rfl⟩ := Option.map_eq_some_iff.mp stepped
    have queue := EventLoop.runNext_pending cur moved
    have calls := runTask_entries s memory address task
    have kept : (s.runTask memory address task).sends = s.sends ∧
        (s.runTask memory address task).senders = s.senders := by cases task <;> exact ⟨rfl, rfl⟩
    refine delivered.moved kept.1 ?_
    have order : s.loop.pending.filterMap Task.entry =
        [task].filterMap Task.entry ++ loop.pending.filterMap Task.entry := by
      rw [queue, ← List.filterMap_append, List.singleton_append]
    simp only [entries, calls, kept.2, order]
    apply List.Perm.append_left
    rw [← List.append_assoc]
    exact List.perm_append_comm.trans (by rw [List.append_assoc])
  · cases stepped

theorem machine_delivered {action : EventLoop.Action Task} (delivered : Delivered s)
    (stepped : s.step (.machine action) = some next) : Delivered next := by
  simp only [step] at stepped
  split at stepped
  · rename_i apart
    obtain ⟨loop, moved, rfl⟩ := Option.map_eq_some_iff.mp stepped
    obtain ⟨none, nothing⟩ := aside_entries apart
    have queue := pending_entries moved
    rw [none, nothing, List.nil_append, List.append_nil] at queue
    refine delivered.moved rfl ?_
    simp only [entries, queue]
    exact .refl _
  · cases stepped

theorem step_delivered {action : Action} (delivered : Delivered s)
    (stepped : s.step action = some next) : Delivered next ↔ s.Keeps action := by
  cases action with
  | checkSend thread m => exact iff_of_true (checkSend_delivered delivered stepped) trivial
  | pushSend place => exact pushSend_delivered delivered stepped
  | send m => exact send_delivered delivered stepped
  | runFunctor memory address =>
      exact iff_of_true (runFunctor_delivered delivered stepped) trivial
  | setState state =>
      cases stepped
      exact iff_of_true ⟨delivered.numbered, delivered.exactly⟩ trivial
  | machine action => exact iff_of_true (machine_delivered delivered stepped) trivial

theorem Delivered.calls (delivered : Delivered s) (idle : s.senders = [])
    (empty : s.loop.pending.filterMap Task.entry = []) : s.calls.Perm s.sends := by
  have exactly := delivered.exactly
  rwa [entries, idle, empty, List.map_nil, List.nil_append, List.nil_append] at exactly

/-- In any interleaving every `Send` reaches `SendInLoop` with its bytes exactly when the
lengths survive: below 2^31, and on the loop thread also in the last 2^31 values. -/
theorem forwarded_iff {actions : List Action} {final : System}
    (ran : run step init actions = some final) :
    Along step (fun s action => ∀ next, s.step action = some next → next.Delivered)
        init actions ↔
      Along step Keeps init actions :=
  visited_iff_along (fun _ => True) Delivered (fun _ _ _ _ _ _ _ _ => trivial)
    (fun _ _ _ _ delivered _ stepped => step_delivered delivered stepped) trivial init_delivered
    (along_of_forall step (fun _ _ => trivial) init) ran

/-- Three bytes from the loop thread and two from another one. -/
theorem forwarded_both : ∃ final,
    run step init [.setState .kConnected, .send ⟨fun _ => 7, 0, 3, by decide⟩,
      .checkSend 1 ⟨fun _ => 8, 0, 2, by decide⟩, .pushSend 0] = some final ∧
    Along step (fun s action => ∀ next, s.step action = some next → next.Delivered) init
      [.setState .kConnected, .send ⟨fun _ => 7, 0, 3, by decide⟩,
        .checkSend 1 ⟨fun _ => 8, 0, 2, by decide⟩, .pushSend 0] :=
  ⟨_, rfl, (forwarded_iff rfl).mpr (by decide)⟩

theorem pushSend_thrown {place : Nat} {sender : Sender} (found : s.senders[place]? = some sender)
    (thrown : sender.message.toString = none) :
    s.step (.pushSend place) = some { s with senders := s.senders.eraseIdx place } := by
  rw [step, found, Option.bind_some, push, thrown, Option.elim]

def gigabytes : Message := ⟨fun _ => 7, 0, 0x80000000, by decide⟩

def underway : System :=
  { init with
    state := .kConnected
    senders := [⟨1, 0, gigabytes⟩]
    sends := [(0, gigabytes.bytes)] }

/-- Of 2^32 + 3 bytes the loop thread forwards three; for 2^31 bytes another thread ends with
an exception, and nothing is forwarded. -/
theorem length_lost :
    (∃ final, run step init [.setState .kConnected,
        .send ⟨fun _ => 7, 0, 0x100000003, by decide⟩] = some final ∧
      final.calls = [(0, [7, 7, 7])] ∧ ¬final.Delivered) ∧
    ∃ final, run step init [.setState .kConnected, .checkSend 1 gigabytes, .pushSend 0] =
        some final ∧
      final.sends = [(0, gigabytes.bytes)] ∧ final.entries = [] ∧ ¬final.Delivered := by
  have start : Delivered { init with state := .kConnected } := ⟨rfl, .refl _⟩
  constructor
  · refine ⟨_, rfl, by decide +kernel, ?_⟩
    rw [send_delivered start rfl]
    decide
  · have tested : step { init with state := .kConnected } (.checkSend 1 gigabytes) =
        some underway := rfl
    have thrown : gigabytes.toString = none := if_neg (by decide +kernel)
    have pushed : step underway (.pushSend 0) = some { underway with senders := [] } :=
      pushSend_thrown rfl thrown
    refine ⟨_, run_cons_some.mpr ⟨_, rfl, run_cons_some.mpr ⟨_, tested, run_cons_some.mpr
      ⟨_, pushed, rfl⟩⟩⟩, rfl, rfl, ?_⟩
    rw [pushSend_delivered (checkSend_delivered start tested) pushed]
    decide

end System

end Muzi.SendLength
