import Muzi.ChainReading
import Muzi.OutputStream

/-!
Both directions of one connection over whole runs. `HandleRead` fills
`input_buffer_` and calls the user, who takes bytes from it and sends, and
`HandleWrite` drains `ouput_buffer_`. The kernel's answers, the order of the
events and what the user does with a message or a close are free; the other
callbacks leave the output alone.
-/

namespace Muzi.Relay

open Storage TcpConnection Execution
open OutputStream (Message QuietCallbacks Filled Holds)

structure Link where
  conn : TcpConnection
  inputBuffer : ChainBuffer
  /-- What `readv` delivered. -/
  received : List Byte
  /-- What the user retrieved from the input buffer. -/
  consumed : List Byte
  /-- What the user passed to `Send` while connected. -/
  sent : List Byte

/-- What user code does in a callback. -/
inductive Command where
  -- `Send(Buffer &)`, with the input buffer or with one of the user's own
  | sendInput
  | sendBuffer (other : Filled)
  -- `Send(StringProxy)`, with the answer to a direct write
  | sendMessage (message : Message) (result : IoResult)
  | retrive (len : Nat)
  | retriveAll
  | shutDown
  | forceClose

/-- The callbacks of one event. Those for a complete write and for the high water mark leave the
output alone. -/
structure User where
  callbacks : QuietCallbacks
  onMessage : List Command
  onDisconnect : List Command

inductive Event where
  | handleRead (result : ReadResult)
  | handleWrite (result : IoResult)
  -- the two halves of a `ShutDown` in another thread
  | exchangeState
  | shutDownInLoop
  | forceCloseInLoop
  | destroyConnection
  | startReadInLoop
  | stopReadInLoop

def bytesRead : ReadResult → List Byte
  | .error _ => []
  | .bytes data => data

/-- The exchange of `state_` in `ShutDown`. -/
def exchangeState (c : TcpConnection) : TcpConnection :=
  if c.state = .kConnected then { c with state := .kDisConnecting } else c

def shutDown (c : TcpConnection) : TcpConnection :=
  if c.state = .kConnected then { c with state := .kDisConnecting }.shutDownInLoop else c

def Open (c : TcpConnection) : Prop := c.state = .kConnected ∨ c.state = .kDisConnecting

instance (c : TcpConnection) : Decidable (Open c) := inferInstanceAs (Decidable (_ ∨ _))

def forceClose (c : TcpConnection) : TcpConnection := if Open c then c.disconnect else c

namespace Link

def sendInput (cb : Callbacks) (l : Link) : Option Link :=
  if l.conn.state = .kConnected then do
    let text ← l.inputBuffer.peekAllAsString
    let conn ← l.conn.sendBufferInLoop cb l.inputBuffer
    some { l with conn := conn, sent := l.sent ++ text }
  else some l

def sendBuffer (cb : Callbacks) (other : Filled) (l : Link) : Option Link :=
  if l.conn.state = .kConnected then do
    let conn ← l.conn.sendBufferInLoop cb other.buffer
    some { l with conn := conn, sent := l.sent ++ other.bytes }
  else some l

def sendMessage (cb : Callbacks) (message : Message) (result : IoResult) (l : Link) :
    Option Link :=
  if l.conn.state = .kConnected then do
    let conn ← l.conn.sendInLoop cb message.memory message.start message.len result
    some { l with conn := conn, sent := l.sent ++ message.bytes }
  else some l

def retrive (len : Nat) (l : Link) : Option Link := do
  let (input, text) ← l.inputBuffer.retriveAsString len
  some { l with inputBuffer := input, consumed := l.consumed ++ text }

def retriveAll (l : Link) : Option Link := do
  let (input, text) ← l.inputBuffer.retriveAllAsString
  some { l with inputBuffer := input, consumed := l.consumed ++ text }

def perform (cb : Callbacks) (l : Link) : Command → Option Link
  | .sendInput => l.sendInput cb
  | .sendBuffer other => l.sendBuffer cb other
  | .sendMessage message result => l.sendMessage cb message result
  | .retrive len => l.retrive len
  | .retriveAll => l.retriveAll
  | .shutDown => some { l with conn := Relay.shutDown l.conn }
  | .forceClose => some { l with conn := Relay.forceClose l.conn }

/-- `HandleClose`. A `ForceClose` inside the user's callback is a command of its own. -/
def handleClose (user : User) (l : Link) : Option Link :=
  run (perform user.callbacks.toCallbacks) { l with conn := l.conn.disconnect } user.onDisconnect

def delivered (user : User) (l : Link) : ReadResult → Option Link
  | .error _ => some l
  | .bytes [] => l.handleClose user
  | .bytes (_ :: _) =>
      if l.conn.messageCallback then run (perform user.callbacks.toCallbacks) l user.onMessage
      else some l

def handleRead (user : User) (result : ReadResult) (l : Link) : Option Link := do
  let input ← l.inputBuffer.readFd result
  { l with inputBuffer := input, received := l.received ++ bytesRead result }.delivered user result

def handle (l : Link) (event : Event) (user : User) : Option Link :=
  match event with
  | .handleRead result => l.handleRead user result
  | .handleWrite result =>
      (l.conn.handleWrite user.callbacks.toCallbacks result).map ({ l with conn := · })
  | .exchangeState => some { l with conn := Relay.exchangeState l.conn }
  -- The functor runs behind the exchange of `state_`.
  | .shutDownInLoop =>
      if l.conn.state = .kConnected then none else some { l with conn := l.conn.shutDownInLoop }
  | .forceCloseInLoop => if Open l.conn then l.handleClose user else some l
  | .destroyConnection => some { l with conn := l.conn.destroyConnection }
  | .startReadInLoop => some { l with conn := l.conn.startReadInLoop }
  | .stopReadInLoop => some { l with conn := l.conn.stopReadInLoop }

/-- The user may do something else at every event. -/
def step (l : Link) (action : Event × User) : Option Link := l.handle action.1 action.2

end Link

/-! Every event is made of four kinds of moves: a command of the user, a `ReadFd`,
a `HandleWrite`, and a change of the state and the interest. -/

structure SameOutput (c next : TcpConnection) : Prop where
  output : next.ouputBuffer = c.ouputBuffer
  accepted : next.socket.accepted = c.socket.accepted

theorem SameOutput.holds {c next : TcpConnection} {stream : List Byte}
    (same : SameOutput c next) (holds : Holds c stream) : Holds next stream := by
  obtain ⟨bytes, rep, whole⟩ := holds
  exact ⟨bytes, same.output ▸ rep, by rw [same.accepted, whole]⟩

/-- A change of the state and the interest. It leads away from the connected state and
into the closed one, and the write interest goes with the close only. -/
structure Change (c next : TcpConnection) : Prop extends SameOutput c next where
  callback : next.messageCallback = c.messageCallback
  connected : next.state = .kConnected → c.state = .kConnected
  closed : c.state = .kDisConnected → next.state = .kDisConnected
  writing : (c.channel.isWritting = true → c.state ≠ .kDisConnected) →
    (next.channel.isWritting = true ↔
      c.channel.isWritting = true ∧ next.state ≠ .kDisConnected)

section Change
variable {c next : TcpConnection}

theorem Change.idle (change : Change c next) (idle : c.channel.isWritting = false) :
    next.channel.isWritting = false := by
  have writing := change.writing (fun busy => Bool.noConfusion (idle.symm.trans busy))
  rw [Bool.eq_false_iff]
  intro busy
  exact Bool.noConfusion (idle.symm.trans (writing.mp busy).1)

theorem Change.of_state (same : SameOutput c next)
    (callback : next.messageCallback = c.messageCallback) (state : next.state = c.state)
    (writing : next.channel.isWritting = c.channel.isWritting) : Change c next := by
  refine ⟨same, callback, state.symm.trans, state.trans, fun opened => ?_⟩
  rw [writing, state]
  exact ⟨fun busy => ⟨busy, opened busy⟩, And.left⟩

theorem Change.refl (c : TcpConnection) : Change c c := .of_state ⟨rfl, rfl⟩ rfl rfl rfl

theorem disconnect_change (c : TcpConnection) : Change c c.disconnect :=
  ⟨⟨rfl, rfl⟩, rfl, ConnectionState.noConfusion, fun _ => rfl, by simp [TcpConnection.disconnect]⟩

theorem shutDownInLoop_change (c : TcpConnection) : Change c c.shutDownInLoop := by
  obtain ⟨state, channel, output, accepted, -⟩ := shutDownInLoop_frame c
  refine .of_state ⟨output, accepted⟩ ?_ state (by rw [channel])
  unfold shutDownInLoop
  split <;> rfl

theorem destroyConnection_change (c : TcpConnection) : Change c c.destroyConnection := by
  unfold destroyConnection
  split
  · have gone := disconnect_change c
    exact ⟨⟨rfl, rfl⟩, rfl, ConnectionState.noConfusion, fun _ => rfl, by simpa using gone.writing⟩
  · exact .of_state ⟨rfl, rfl⟩ rfl rfl (by simp)

theorem startReadInLoop_change (c : TcpConnection) : Change c c.startReadInLoop := by
  unfold startReadInLoop
  split
  · exact .of_state ⟨rfl, rfl⟩ rfl rfl (by simp)
  · exact .refl c

theorem stopReadInLoop_change (c : TcpConnection) : Change c c.stopReadInLoop := by
  unfold stopReadInLoop
  split
  · exact .of_state ⟨rfl, rfl⟩ rfl rfl (by simp)
  · exact .refl c

theorem exchangeState_change (c : TcpConnection) : Change c (exchangeState c) := by
  unfold exchangeState
  split
  · rename_i connected
    exact ⟨⟨rfl, rfl⟩, rfl, fun _ => connected,
      fun closed => ConnectionState.noConfusion (connected.symm.trans closed), by simp⟩
  · exact .refl c

theorem shutDown_change (c : TcpConnection) : Change c (shutDown c) := by
  unfold shutDown
  split
  · rename_i connected
    have shut := shutDownInLoop_change { c with state := .kDisConnecting }
    exact ⟨⟨shut.output, shut.accepted⟩, shut.callback, fun _ => connected,
      fun closed => ConnectionState.noConfusion (connected.symm.trans closed),
      fun _ => shut.writing (fun _ => ConnectionState.noConfusion)⟩
  · exact .refl c

theorem forceClose_change (c : TcpConnection) : Change c (forceClose c) := by
  unfold forceClose
  split
  · exact disconnect_change c
  · exact .refl c

end Change

theorem handle_cases {user : User} {l after : Link} {event : Event}
    (handled : l.handle event user = some after) :
    (∃ result, l.handleRead user result = some after) ∨
      (∃ result conn, l.conn.handleWrite user.callbacks.toCallbacks result = some conn ∧
        after = { l with conn := conn }) ∨
      l.handleClose user = some after ∨
      ∃ conn, Change l.conn conn ∧ after = { l with conn := conn } := by
  cases event with
  | handleRead result => exact .inl ⟨result, handled⟩
  | handleWrite result =>
      obtain ⟨conn, wrote, rfl⟩ := Option.map_eq_some_iff.mp handled
      exact .inr (.inl ⟨result, conn, wrote, rfl⟩)
  | exchangeState =>
      cases handled
      exact .inr (.inr (.inr ⟨_, exchangeState_change _, rfl⟩))
  | shutDownInLoop =>
      simp only [Link.handle] at handled
      split at handled
      · cases handled
      · cases handled
        exact .inr (.inr (.inr ⟨_, shutDownInLoop_change _, rfl⟩))
  | forceCloseInLoop =>
      simp only [Link.handle] at handled
      split at handled
      · exact .inr (.inr (.inl handled))
      · cases handled
        exact .inr (.inr (.inr ⟨_, .refl _, rfl⟩))
  | destroyConnection =>
      cases handled
      exact .inr (.inr (.inr ⟨_, destroyConnection_change _, rfl⟩))
  | startReadInLoop =>
      cases handled
      exact .inr (.inr (.inr ⟨_, startReadInLoop_change _, rfl⟩))
  | stopReadInLoop =>
      cases handled
      exact .inr (.inr (.inr ⟨_, stopReadInLoop_change _, rfl⟩))

/-- What each kind of move keeps is kept by every event. -/
theorem handle_keeps {kept : Link → Prop} {user : User}
    (command : ∀ l command after, command ∈ user.onMessage ++ user.onDisconnect → kept l →
      l.perform user.callbacks.toCallbacks command = some after → kept after)
    (read : ∀ l result input, kept l → l.inputBuffer.readFd result = some input →
      kept { l with inputBuffer := input, received := l.received ++ bytesRead result })
    (write : ∀ l result conn, kept l →
      l.conn.handleWrite user.callbacks.toCallbacks result = some conn →
      kept { l with conn := conn })
    (change : ∀ l conn, kept l → Change l.conn conn → kept { l with conn := conn })
    {l after : Link} {event : Event} (start : kept l)
    (handled : l.handle event user = some after) : kept after := by
  have commands : ∀ todo l after,
      (∀ command ∈ todo, command ∈ user.onMessage ++ user.onDisconnect) → kept l →
        run (Link.perform user.callbacks.toCallbacks) l todo = some after → kept after := by
    intro todo
    induction todo with
    | nil =>
        intro l after _ start ran
        cases ran
        exact start
    | cons first rest ih =>
        intro l after known start ran
        obtain ⟨next, performed, later⟩ := run_cons_some.mp ran
        exact ih next after (fun other member => known other (List.mem_cons_of_mem _ member))
          (command l first next (known first List.mem_cons_self) start performed) later
  have close : ∀ l after, kept l → l.handleClose user = some after → kept after :=
    fun l after start ran => commands _ _ after
      (fun _ member => List.mem_append_right _ member) (change l _ start (disconnect_change _)) ran
  rcases handle_cases handled with ⟨result, ran⟩ | ⟨result, conn, wrote, rfl⟩ | ran |
    ⟨conn, changed, rfl⟩
  · obtain ⟨input, filled, ran⟩ := Option.bind_eq_some_iff.mp ran
    have begun := read l result input start filled
    match result with
    | .error _ =>
        cases ran
        exact begun
    | .bytes [] => exact close _ after begun ran
    | .bytes (_ :: _) =>
        rw [Link.delivered] at ran
        split at ran
        · exact commands _ _ after (fun _ member => List.mem_append_left _ member) begun ran
        · cases ran
          exact begun
  · exact write l result conn start wrote
  · exact close l after start ran
  · exact change l conn start changed

/-! Input: nothing is lost, doubled or reordered between `readv` and the user. -/

/-- The user has taken a front part of what was received, and the input buffer
holds the rest. -/
def Buffered (l : Link) : Prop :=
  ∃ rest, l.inputBuffer.Represents rest ∧ l.consumed ++ rest = l.received

structure SameInput (l after : Link) : Prop where
  input : after.inputBuffer = l.inputBuffer
  received : after.received = l.received
  consumed : after.consumed = l.consumed

theorem SameInput.buffered {l after : Link} (same : SameInput l after) (buffered : Buffered l) :
    Buffered after := by
  obtain ⟨rest, rep, whole⟩ := buffered
  exact ⟨rest, same.input ▸ rep, by rw [same.consumed, same.received, whole]⟩

theorem sendInput_sameInput {cb : Callbacks} {l after : Link} (ran : l.sendInput cb = some after) :
    SameInput l after := by
  unfold Link.sendInput at ran
  split at ran
  · obtain ⟨text, -, ran⟩ := Option.bind_eq_some_iff.mp ran
    obtain ⟨conn, -, made⟩ := Option.bind_eq_some_iff.mp ran
    cases made
    exact ⟨rfl, rfl, rfl⟩
  · cases ran
    exact ⟨rfl, rfl, rfl⟩

theorem sendBuffer_sameInput {cb : Callbacks} {other : Filled} {l after : Link}
    (ran : l.sendBuffer cb other = some after) : SameInput l after := by
  unfold Link.sendBuffer at ran
  split at ran
  · obtain ⟨conn, -, made⟩ := Option.bind_eq_some_iff.mp ran
    cases made
    exact ⟨rfl, rfl, rfl⟩
  · cases ran
    exact ⟨rfl, rfl, rfl⟩

theorem sendMessage_sameInput {cb : Callbacks} {message : Message} {result : IoResult}
    {l after : Link} (ran : l.sendMessage cb message result = some after) : SameInput l after := by
  unfold Link.sendMessage at ran
  split at ran
  · obtain ⟨conn, -, made⟩ := Option.bind_eq_some_iff.mp ran
    cases made
    exact ⟨rfl, rfl, rfl⟩
  · cases ran
    exact ⟨rfl, rfl, rfl⟩

theorem retrive_buffered {len : Nat} {l after : Link} (buffered : Buffered l)
    (ran : l.retrive len = some after) : Buffered after := by
  obtain ⟨rest, rep, whole⟩ := buffered
  obtain ⟨⟨input, text⟩, taken, made⟩ := Option.bind_eq_some_iff.mp ran
  cases made
  obtain ⟨peeked, seen, taken⟩ := Option.bind_eq_some_iff.mp taken
  obtain ⟨dropped, removed, made⟩ := Option.bind_eq_some_iff.mp taken
  cases made
  have available : len ≤ rest.length := by
    by_contra beyond
    rw [ByteQueue.represents_length rep |>.symm] at beyond
    simp [ChainBuffer.retrive, beyond] at removed
  obtain ⟨shorter, ran, shorterRep⟩ := ChainBuffer.retrive_represents rep len available
  cases ran.symm.trans removed
  cases (ChainBuffer.peekAsString_represents rep len available).symm.trans seen
  refine ⟨rest.drop len, shorterRep, ?_⟩
  rw [List.append_assoc, List.take_append_drop, whole]

theorem retriveAll_spec {l : Link} {rest : List Byte} (rep : l.inputBuffer.Represents rest) :
    ∃ input, input.Represents [] ∧
      l.retriveAll = some { l with inputBuffer := input, consumed := l.consumed ++ rest } := by
  obtain ⟨input, emptied, inputRep⟩ := ChainBuffer.retriveAll_represents rep
  refine ⟨input, inputRep, ?_⟩
  simp only [Link.retriveAll, ChainBuffer.retriveAllAsString,
    ChainBuffer.peekAllAsString_represents rep, emptied, Option.bind_eq_bind, Option.bind_some]

theorem perform_buffered (cb : Callbacks) (l : Link) (command : Command) (after : Link)
    (buffered : Buffered l) (ran : l.perform cb command = some after) : Buffered after := by
  cases command with
  | sendInput => exact (sendInput_sameInput ran).buffered buffered
  | sendBuffer other => exact (sendBuffer_sameInput ran).buffered buffered
  | sendMessage message result => exact (sendMessage_sameInput ran).buffered buffered
  | retrive len => exact retrive_buffered buffered ran
  | retriveAll =>
      obtain ⟨rest, rep, whole⟩ := buffered
      obtain ⟨input, inputRep, emptied⟩ := retriveAll_spec rep
      cases emptied.symm.trans ran
      exact ⟨[], inputRep, by rw [List.append_nil, whole]⟩
  | shutDown | forceClose =>
      cases ran
      exact SameInput.buffered ⟨rfl, rfl, rfl⟩ buffered

theorem readFd_received {b input : ChainBuffer} {rest : List Byte} {result : ReadResult}
    (rep : b.Represents rest) (read : b.readFd result = some input) :
    input.Represents (rest ++ bytesRead result) := by
  obtain ⟨room, -, failed, took, beyond⟩ := ChainBuffer.readFd_represents rep
  cases result with
  | error errno =>
      cases (failed errno).symm.trans read
      rwa [bytesRead, List.append_nil]
  | bytes data =>
      by_cases fits : data.length ≤ room
      · obtain ⟨after, ran, grown⟩ := took data fits
        cases ran.symm.trans read
        exact grown
      · rw [beyond data (Nat.lt_of_not_le fits)] at read
        cases read

theorem step_buffered (l : Link) (action : Event × User) (after : Link) (buffered : Buffered l)
    (stepped : l.step action = some after) : Buffered after := by
  refine handle_keeps ?_ ?_ ?_ ?_ buffered stepped
  · exact fun l command after _ => perform_buffered _ l command after
  · rintro l result input ⟨rest, rep, whole⟩ read
    exact ⟨_, readFd_received rep read, by rw [← whole, List.append_assoc]⟩
  · exact fun l _ _ buffered _ => SameInput.buffered ⟨rfl, rfl, rfl⟩ buffered
  · exact fun l _ buffered _ => SameInput.buffered ⟨rfl, rfl, rfl⟩ buffered

def Event.delivery : Event → List Byte
  | .handleRead result => bytesRead result
  | _ => []

theorem perform_received {cb : Callbacks} {l after : Link} {command : Command}
    (ran : l.perform cb command = some after) : after.received = l.received := by
  cases command with
  | sendInput => exact (sendInput_sameInput ran).received
  | sendBuffer other => exact (sendBuffer_sameInput ran).received
  | sendMessage message result => exact (sendMessage_sameInput ran).received
  | retrive len | retriveAll =>
      obtain ⟨⟨input, text⟩, -, made⟩ := Option.bind_eq_some_iff.mp ran
      cases made
      rfl
  | shutDown | forceClose =>
      cases ran
      rfl

theorem commands_received {cb : Callbacks} {l after : Link} {commands : List Command}
    (ran : run (Link.perform cb) l commands = some after) : after.received = l.received :=
  run_invariant (fun next => next.received = l.received)
    (fun _ _ _ same performed => (perform_received performed).trans same) rfl ran

theorem handle_received {user : User} {l after : Link} {event : Event}
    (handled : l.handle event user = some after) :
    after.received = l.received ++ event.delivery := by
  cases event with
  | handleRead result =>
      obtain ⟨input, -, ran⟩ := Option.bind_eq_some_iff.mp handled
      match result with
      | .error _ =>
          cases ran
          rfl
      | .bytes [] =>
          exact commands_received (l := { l with
            conn := l.conn.disconnect, inputBuffer := input, received := l.received ++ [] }) ran
      | .bytes (_ :: _) =>
          rw [Link.delivered] at ran
          split at ran
          · exact commands_received ran
          · cases ran
            rfl
  | handleWrite result =>
      obtain ⟨conn, -, rfl⟩ := Option.map_eq_some_iff.mp handled
      exact (List.append_nil _).symm
  | shutDownInLoop =>
      simp only [Link.handle] at handled
      split at handled
      · cases handled
      · cases handled
        exact (List.append_nil _).symm
  | forceCloseInLoop =>
      simp only [Link.handle] at handled
      refine Eq.trans ?_ (List.append_nil _).symm
      split at handled
      · exact commands_received (l := { l with conn := l.conn.disconnect }) handled
      · cases handled
        rfl
  | exchangeState | destroyConnection | startReadInLoop | stopReadInLoop =>
      cases handled
      exact (List.append_nil _).symm

/-! Output: a user who sends buffers only, and no blocks of memory, never writes
past the queue, so that its stream stays intact whatever `writev` takes. -/

/-- The command is no `Send` of a block of memory. -/
def Command.Queued : Command → Prop
  | .sendMessage _ _ => False
  | _ => True

/-- The user sends through the output buffer only. -/
def BuffersOnly (_ : Link) (action : Event × User) : Prop :=
  (∀ command ∈ action.2.onMessage, command.Queued) ∧
    ∀ command ∈ action.2.onDisconnect, command.Queued

theorem sendInput_spec (cb : QuietCallbacks) {l after : Link} {rest stream : List Byte}
    (rep : l.inputBuffer.Represents rest) (connected : l.conn.state = .kConnected)
    (holds : Holds l.conn stream) (ran : l.sendInput cb.toCallbacks = some after) :
    Holds after.conn (stream ++ rest) ∧ after.sent = l.sent ++ rest ∧
      l.conn.sendBufferInLoop cb.toCallbacks l.inputBuffer = some after.conn := by
  simp only [Link.sendInput, if_pos connected, ChainBuffer.peekAllAsString_represents rep,
    Option.bind_eq_bind, Option.bind_some, Option.bind_eq_some_iff] at ran
  obtain ⟨conn, queued, made⟩ := ran
  cases made
  refine ⟨?_, rfl, queued⟩
  exact OutputStream.sendBufferInLoop_holds cb ⟨l.inputBuffer, rest, rep⟩ l.conn conn stream
    (by rw [connected]; decide) holds queued

structure Balanced (l : Link) : Prop where
  input : Buffered l
  output : Holds l.conn l.sent

theorem perform_balanced (cb : QuietCallbacks) (l : Link) (command : Command) (after : Link)
    (balanced : Balanced l) (queued : command.Queued)
    (ran : l.perform cb.toCallbacks command = some after) : Balanced after := by
  refine ⟨perform_buffered _ l command after balanced.input ran, ?_⟩
  cases command with
  | sendInput =>
      obtain ⟨rest, rep, -⟩ := balanced.input
      by_cases connected : l.conn.state = .kConnected
      · obtain ⟨holds, sent, -⟩ := sendInput_spec cb rep connected balanced.output ran
        rwa [sent]
      · simp only [Link.perform, Link.sendInput, if_neg connected] at ran
        cases ran
        exact balanced.output
  | sendBuffer other =>
      simp only [Link.perform, Link.sendBuffer] at ran
      split at ran
      · rename_i connected
        obtain ⟨conn, queued, made⟩ := Option.bind_eq_some_iff.mp ran
        cases made
        exact OutputStream.sendBufferInLoop_holds cb other l.conn conn _
          (by rw [connected]; decide) balanced.output queued
      · cases ran
        exact balanced.output
  | sendMessage message result => exact queued.elim
  | retrive len =>
      obtain ⟨⟨input, text⟩, -, made⟩ := Option.bind_eq_some_iff.mp ran
      cases made
      exact balanced.output
  | retriveAll =>
      obtain ⟨⟨input, text⟩, -, made⟩ := Option.bind_eq_some_iff.mp ran
      cases made
      exact balanced.output
  | shutDown =>
      cases ran
      exact (shutDown_change _).holds balanced.output
  | forceClose =>
      cases ran
      exact (forceClose_change _).holds balanced.output

theorem step_balanced (l : Link) (action : Event × User) (after : Link) (balanced : Balanced l)
    (queued : BuffersOnly l action) (stepped : l.step action = some after) : Balanced after := by
  refine handle_keeps ?_ ?_ ?_ ?_ balanced stepped
  · intro l command after member balanced performed
    refine perform_balanced _ l command after balanced ?_ performed
    exact (List.mem_append.mp member).elim (queued.1 command) (queued.2 command)
  · rintro l result input ⟨⟨rest, rep, whole⟩, output⟩ read
    exact ⟨⟨_, readFd_received rep read, by rw [← whole, List.append_assoc]⟩, output⟩
  · intro l result conn balanced wrote
    exact ⟨SameInput.buffered ⟨rfl, rfl, rfl⟩ balanced.input,
      OutputStream.handleWrite_holds _ result l.conn conn _ balanced.output wrote⟩
  · intro l conn balanced same
    exact ⟨SameInput.buffered ⟨rfl, rfl, rfl⟩ balanced.input, same.holds balanced.output⟩

structure Fresh extends OutputStream.Opened where
  connected : conn.state = .kConnected
  idle : conn.channel.isWritting = false
  callback : conn.messageCallback = true

def Fresh.link (fresh : Fresh) : Link := ⟨fresh.conn, ChainBuffer.init, [], [], []⟩

theorem Fresh.balanced (fresh : Fresh) : Balanced fresh.link :=
  ⟨⟨[], ChainBuffer.init_represents, rfl⟩, fresh.holds⟩

theorem established_connected : OutputStream.established.conn.state = .kConnected := rfl

def newConnection : Fresh where
  toOpened := OutputStream.established
  connected := established_connected
  idle := by decide
  callback := rfl

def partlyTaken : List (Event × User) :=
  [(.handleRead (.bytes [7, 8]), ⟨OutputStream.silent, [.retrive 1], []⟩)]

structure Ended (c : TcpConnection) (l : Link) : Prop where
  same : SameOutput c l.conn
  state : l.conn.state = .kDisConnected
  idle : l.conn.channel.isWritting = false

theorem Ended.change {c next : TcpConnection} {l : Link} (ended : Ended c l)
    (changed : Change l.conn next) : Ended c { l with conn := next } :=
  ⟨⟨changed.output.trans ended.same.output, changed.accepted.trans ended.same.accepted⟩,
    changed.closed ended.state, changed.idle ended.idle⟩

theorem perform_ended (cb : Callbacks) (c : TcpConnection) (l : Link) (command : Command)
    (after : Link) (ended : Ended c l) (ran : l.perform cb command = some after) :
    Ended c after := by
  have refused : l.conn.state ≠ .kConnected := by rw [ended.state]; decide
  cases command with
  | sendInput =>
      simp only [Link.perform, Link.sendInput, if_neg refused] at ran
      cases ran
      exact ended
  | sendBuffer other =>
      simp only [Link.perform, Link.sendBuffer, if_neg refused] at ran
      cases ran
      exact ended
  | sendMessage message result =>
      simp only [Link.perform, Link.sendMessage, if_neg refused] at ran
      cases ran
      exact ended
  | retrive len =>
      obtain ⟨⟨input, text⟩, -, made⟩ := Option.bind_eq_some_iff.mp ran
      cases made
      exact ⟨ended.same, ended.state, ended.idle⟩
  | retriveAll =>
      obtain ⟨⟨input, text⟩, -, made⟩ := Option.bind_eq_some_iff.mp ran
      cases made
      exact ⟨ended.same, ended.state, ended.idle⟩
  | shutDown =>
      cases ran
      exact ended.change (shutDown_change _)
  | forceClose =>
      cases ran
      exact ended.change (forceClose_change _)

/-- Nothing is sent on a closed connection, whatever happens and whatever the user does. -/
theorem handle_ended {c : TcpConnection} {user : User} {l after : Link} {event : Event}
    (ended : Ended c l) (handled : l.handle event user = some after) : Ended c after := by
  refine handle_keeps ?_ ?_ ?_ ?_ ended handled
  · exact fun l command after _ => perform_ended _ c l command after
  · exact fun l _ _ ended _ => ⟨ended.same, ended.state, ended.idle⟩
  · intro l result conn ended wrote
    rw [handleWrite, if_neg (by rw [ended.idle]; decide)] at wrote
    cases wrote
    exact ended
  · exact fun l conn ended changed => ended.change changed

end Muzi.Relay
