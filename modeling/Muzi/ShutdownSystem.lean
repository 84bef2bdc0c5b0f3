import Muzi.EventLoop
import Muzi.OutputStream

/-!
`Send` followed by `ShutDown`, from any thread. The loop of `EventLoop` carries
the functors of one connection, other threads are between the atomic accesses
of `Send` and `ShutDown`, and the loop thread keeps a stack of calls that wait
for a user callback. A `Send` that found the connection in `kConnected` gets a
number; the history of that number says where its bytes lie in the output
stream and whether the kernel had them all when `SHUT_WR` was issued.
`HandleClose` does not occur in these runs.
-/

namespace Muzi.GracefulShutdown

open Storage TcpConnection Execution
open OutputStream (Message Payload Source)

structure Call where
  -- `none` is the loop thread
  thread : Option Nat
  bytes : List Byte
  -- the part of the output stream behind which nothing of the call is missing
  place : Option (Nat × Nat)
  late : Bool

def Call.Handed (call : Call) (accepted : List Byte) : Prop :=
  match call.place with
  | none => False
  | some (first, last) =>
      last ≤ accepted.length ∧ call.bytes.Sublist ((accepted.take last).drop first)

instance (call : Call) (accepted : List Byte) : Decidable (call.Handed accepted) :=
  match place : call.place with
  | none => isFalse (by simp [Call.Handed, place])
  | some (first, last) =>
      decidable_of_iff
        (last ≤ accepted.length ∧ call.bytes.Sublist ((accepted.take last).drop first))
        (by simp [Call.Handed, place])

def Call.atShutDown (accepted : List Byte) (call : Call) : Call :=
  { call with late := call.late || !decide (call.Handed accepted) }

/-- The functors of the connection. Another thread than the loop's copies what
it sends into a string, so its messages are blocks. -/
inductive Task where
  | sendInLoop (call : Nat) (message : Message)
  | shutDownInLoop (thread : Nat)
  | other

/-- A thread other than the loop's. -/
inductive Pc where
  -- outside `Send` and `ShutDown`, or in `QueueInLoop` behind the push
  | idle
  -- in `Send`, behind the test of `state_`
  | sending (call : Nat) (message : Message)
  -- in `ShutDown`, behind the exchange of `state_`
  | shutting

/-- A call of the loop thread that waits for a user callback. -/
inductive Frame where
  -- `SendInLoop` in the high-water callback; `first` is where its bytes start
  | appending (call first : Nat) (source : Source)
  -- `HandleWrite` between the drain and its test of `state_`
  | finishing

structure System where
  loop : EventLoop Task
  conn : TcpConnection
  threads : Nat → Pc
  frames : List Frame
  calls : List Call

def written (c : TcpConnection) : Nat := c.socket.accepted.length + c.ouputBuffer.readableBytes

namespace System

def issue (s : System) (conn : TcpConnection) : System :=
  { s with
    conn := conn
    calls := if conn.socket.shutWr && !s.conn.socket.shutWr then
        s.calls.map (Call.atShutDown conn.socket.accepted)
      else s.calls }

/-- `SendInLoop` is through: the bytes of the call end where the stream ends. -/
def settle (s : System) (call first : Nat) : System :=
  { s with calls := s.calls.modify call fun c => { c with place := some (first, written s.conn) } }

def append (s : System) (call first : Nat) (source : Source) : Option System :=
  (s.conn.growOutput source.grow).map fun conn => { s with conn := conn }.settle call first

/-- The end of `SendInLoop`: the high-water callback, if it is due, then the
append. -/
def queue (s : System) (call first added : Nat) (source : Source) : Option System :=
  if s.conn.reachesHighWater added then
    some { s with frames := .appending call first source :: s.frames }
  else s.append call first source

def sendInLoop (s : System) (call : Nat) (payload : Payload) (result : IoResult) :
    Option System :=
  if s.conn.state = .kDisConnected then some s else
    match payload with
    | .block m => do
        let (conn, sent, remaining) ← s.conn.directWrite m.memory m.start m.len result
        let after : System := { s with conn := conn }
        if remaining > 0 then
          after.queue call (written s.conn) remaining
            (.bytes (read m.memory (m.start + sent) m.len))
        else some (after.settle call (written s.conn))
    | .buffer buf => s.queue call (written s.conn) buf.buffer.readableBytes (.buffer buf)

def userCode (s : System) : Bool :=
  !s.loop.queueing &&
    match s.frames with
    | [] => s.loop.phase.inCallback
    | .appending _ _ _ :: _ => true
    | .finishing :: _ => s.conn.writeCompleteCallback

end System

inductive Action where
  -- other threads, one atomic access each
  | checkSend (thread : Nat) (message : Message)
  | pushSend (thread : Nat)
  | exchangeShutDown (thread : Nat)
  | pushShutDown (thread : Nat)
  -- the loop, and all that has nothing to do with this connection
  | machine (action : EventLoop.Action Task)
  -- the loop thread
  | runFunctor (result : IoResult)
  | handleWrite (result : IoResult)
  | callbackReturn
  | send (payload : Payload) (result : IoResult)
  | shutDown

def newCall (thread : Option Nat) (bytes : List Byte) : Call := ⟨thread, bytes, none, false⟩

namespace System

def call (s : System) (thread : Option Nat) (bytes : List Byte) : System :=
  { s with calls := s.calls ++ [newCall thread bytes] }

def free (s : System) (thread : Nat) : Bool :=
  match s.threads thread with
  | .idle => !decide (thread ∈ s.loop.waking)
  | _ => false

def setThread (s : System) (thread : Nat) (pc : Pc) : System :=
  { s with threads := fun other => if other = thread then pc else s.threads other }

/-- Steps of the loop that neither queue nor run functors of the connection.
The loop thread goes on only when no callback is open. -/
def machineMay (s : System) : EventLoop.Action Task → Bool
  | .push thread .other => s.free thread
  | .push _ _ => false
  | .pushed _ | .wakeUp | .quit | .queued => true
  | .loop (.queue .other) => true
  | .loop (.queue _) | .loop .runNext => false
  | .loop _ => s.frames.isEmpty

def step (s : System) : Action → Option System
  | .checkSend thread message =>
      if s.free thread then
        some (if s.conn.state = .kConnected then
          (s.call (some thread) message.bytes).setThread thread (.sending s.calls.length message)
        else s)
      else none
  | .pushSend thread =>
      match s.threads thread with
      | .sending call message =>
          (s.loop.step (.push thread (.sendInLoop call message))).map fun loop =>
            { s.setThread thread .idle with loop := loop }
      | _ => none
  | .exchangeShutDown thread =>
      if s.free thread then
        some (if s.conn.state = .kConnected then
          { s.setThread thread .shutting with conn := { s.conn with state := .kDisConnecting } }
        else s)
      else none
  | .pushShutDown thread =>
      match s.threads thread with
      | .shutting =>
          (s.loop.step (.push thread (.shutDownInLoop thread))).map fun loop =>
            { s.setThread thread .idle with loop := loop }
      | _ => none
  | .machine action =>
      if s.machineMay action then
        (s.loop.step action).map fun loop => { s with loop := loop }
      else none
  | .runFunctor result =>
      if s.frames.isEmpty then do
        let loop ← s.loop.step (.loop .runNext)
        let after : System := { s with loop := loop }
        match s.loop.curFunctors with
        | .sendInLoop call message :: _ => after.sendInLoop call (.block message) result
        | .shutDownInLoop _ :: _ => some (after.issue s.conn.shutDownInLoop)
        | _ => some after
      else none
  | .handleWrite result =>
      match s.loop.phase, s.frames with
      | .handling, [] =>
          if s.loop.queueing then none
          else if s.conn.channel.isWritting then do
            let (conn, drained) ← s.conn.drainOutput result
            some { s with conn := conn, frames := if drained then [.finishing] else [] }
          else some s
      | _, _ => none
  | .callbackReturn =>
      if s.loop.queueing then none else
        match s.frames with
        | .appending call first source :: rest =>
            ({ s with frames := rest } : System).append call first source
        | .finishing :: rest => some (({ s with frames := rest } : System).issue s.conn.finishWrite)
        | [] => none
  | .send payload result =>
      if s.userCode then
        if s.conn.state = .kConnected then
          (s.call none payload.bytes).sendInLoop s.calls.length payload result
        else some s
      else none
  | .shutDown =>
      if s.userCode then
        some (if s.conn.state = .kConnected then
          s.issue ({ s.conn with state := .kDisConnecting }.shutDownInLoop)
        else s)
      else none

/-! What the history says about one call. -/

/-- The thread that made the call, and its message. -/
def givenOf (s : System) (k : Nat) : Option (Option Nat × List Byte) :=
  s.calls[k]?.map fun call => (call.thread, call.bytes)

def placeOf (s : System) (k : Nat) : Option (Nat × Nat) := s.calls[k]?.bind Call.place

def lateOf (s : System) (k : Nat) : Bool := s.calls[k]?.any Call.late

def Waiting (s : System) (k : Nat) : Prop := k < s.calls.length ∧ s.placeOf k = none

theorem settle_call (s : System) (j first k : Nat) :
    (s.settle j first).calls[k]? =
      s.calls[k]?.map fun c =>
        if j = k then { c with place := some (first, written s.conn) } else c := by
  simp only [settle, List.getElem?_modify]
  rfl

@[simp] theorem settle_given (s : System) (j first k : Nat) :
    (s.settle j first).givenOf k = s.givenOf k := by
  simp only [givenOf, settle_call]
  cases s.calls[k]? with
  | none => rfl
  | some call => by_cases same : j = k <;> simp [same]

@[simp] theorem settle_late (s : System) (j first k : Nat) :
    (s.settle j first).lateOf k = s.lateOf k := by
  simp only [lateOf, settle_call]
  cases s.calls[k]? with
  | none => rfl
  | some call => by_cases same : j = k <;> simp [same]

theorem settle_place (s : System) (j first k : Nat) :
    (s.settle j first).placeOf k =
      if j = k ∧ k < s.calls.length then some (first, written s.conn) else s.placeOf k := by
  simp only [placeOf, settle_call]
  cases found : s.calls[k]? with
  | none =>
      have outside := List.getElem?_eq_none_iff.mp found
      have absent : ¬(j = k ∧ k < s.calls.length) := by omega
      rw [if_neg absent]
      rfl
  | some call =>
      have inside : k < s.calls.length := (List.getElem?_eq_some_iff.mp found).1
      by_cases same : j = k <;> simp [same, inside]

theorem settle_waiting (s : System) (j first k : Nat) :
    (s.settle j first).Waiting k ↔ s.Waiting k ∧ j ≠ k := by
  have length : (s.settle j first).calls.length = s.calls.length := by simp [settle]
  unfold Waiting
  rw [length, settle_place]
  by_cases same : j = k
  · by_cases inside : k < s.calls.length <;> simp [same, inside]
  · simp [same]

theorem issue_call (s : System) (conn : TcpConnection) (k : Nat) :
    (s.issue conn).calls[k]? = s.calls[k]?.map fun c =>
      if conn.socket.shutWr && !s.conn.socket.shutWr then c.atShutDown conn.socket.accepted
      else c := by
  simp only [issue]
  split
  · rw [List.getElem?_map]
  · simp

@[simp] theorem issue_given (s : System) (conn : TcpConnection) (k : Nat) :
    (s.issue conn).givenOf k = s.givenOf k := by
  simp only [givenOf, issue_call]
  split <;> cases s.calls[k]? <;> rfl

@[simp] theorem issue_place (s : System) (conn : TcpConnection) (k : Nat) :
    (s.issue conn).placeOf k = s.placeOf k := by
  simp only [placeOf, issue_call]
  split <;> cases s.calls[k]? <;> rfl

@[simp] theorem issue_waiting (s : System) (conn : TcpConnection) (k : Nat) :
    (s.issue conn).Waiting k ↔ s.Waiting k := by
  have length : (s.issue conn).calls.length = s.calls.length := by
    simp only [issue]
    split <;> simp
  rw [Waiting, Waiting, length, issue_place]

theorem call_getElem (s : System) (thread : Option Nat) (bytes : List Byte) (k : Nat) :
    (s.call thread bytes).calls[k]? =
      if k = s.calls.length then some (newCall thread bytes) else s.calls[k]? := by
  unfold call
  rcases Nat.lt_trichotomy k s.calls.length with below | same | above
  · rw [List.getElem?_append_left below, if_neg (Nat.ne_of_lt below)]
  · simp [same]
  · rw [if_neg (Nat.ne_of_gt above), List.getElem?_eq_none_iff.mpr (Nat.le_of_lt above)]
    apply List.getElem?_eq_none_iff.mpr
    rw [List.length_append, List.length_singleton]
    exact above

theorem call_given (s : System) (thread : Option Nat) (bytes : List Byte) (k : Nat) :
    (s.call thread bytes).givenOf k =
      if k = s.calls.length then some (thread, bytes) else s.givenOf k := by
  rw [givenOf, call_getElem]
  split <;> rfl

@[simp] theorem call_place (s : System) (thread : Option Nat) (bytes : List Byte) (k : Nat) :
    (s.call thread bytes).placeOf k = s.placeOf k := by
  rw [placeOf, call_getElem]
  split
  · rename_i new
    rw [placeOf, new, List.getElem?_eq_none_iff.mpr (Nat.le_refl _)]
    rfl
  · rfl

@[simp] theorem call_late (s : System) (thread : Option Nat) (bytes : List Byte) (k : Nat) :
    (s.call thread bytes).lateOf k = s.lateOf k := by
  rw [lateOf, call_getElem]
  split
  · rename_i new
    rw [lateOf, new, List.getElem?_eq_none_iff.mpr (Nat.le_refl _)]
    rfl
  · rfl

theorem given_inside {s : System} {k : Nat} {given : Option Nat × List Byte}
    (known : s.givenOf k = some given) : k < s.calls.length := by
  rcases Option.map_eq_some_iff.mp known with ⟨call, found, -⟩
  exact (List.getElem?_eq_some_iff.mp found).1

theorem call_given_old {s : System} {k : Nat} {given : Option Nat × List Byte}
    (known : s.givenOf k = some given) (thread : Option Nat) (bytes : List Byte) :
    (s.call thread bytes).givenOf k = some given := by
  rw [call_given, if_neg (Nat.ne_of_lt (given_inside known))]
  exact known

end System

end Muzi.GracefulShutdown
