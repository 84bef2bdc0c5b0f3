import Mathlib.Data.List.Rotate
import Muzi.EchoServer

/-!
The ping-pong programs of examples/pingpong. The client sends one message when it is
connected, and from then on client and server both send back what they receive. The
two connections are joined by the kernel: what it took from one end and has not
delivered to the other is under way. However the kernel cuts the bytes into reads and
writes, the message goes round, and the position it has reached is `bytesRead_`.
-/

namespace Muzi.PingPong

open Storage TcpConnection Execution Relay
open OutputStream (Message WholeWrite)

/-- `Session` of the client, without its owner. The counters are `int64_t` in the source, and do not
wrap around here. -/
structure Session where
  link : Link
  bytesRead : Nat
  messagesRead : Nat
  messageWrittten : Nat

/-- `Session::onConnection` on a new connection. -/
def Session.onConnection (cb : SteadyCallbacks) (message : Message) (result : IoResult)
    (link : Link) : Option Session :=
  (link.sendMessage cb.toCallbacks message result).map (⟨·, 0, 0, 0⟩)

def Session.count (s : Session) : Event → Option Session
  | .handleRead (.bytes (first :: rest)) =>
      if s.link.conn.messageCallback then do
        let input ← s.link.inputBuffer.readFd (.bytes (first :: rest))
        some { s with
          bytesRead := s.bytesRead + input.readableBytes
          messagesRead := s.messagesRead + 1
          messageWrittten := s.messageWrittten + 1 }
      else some s
  | _ => some s

def Session.handle (cb : SteadyCallbacks) (s : Session) (event : Event) : Option Session := do
  let counted ← s.count event
  let link ← EchoServer.step cb s.link event
  some { counted with link := link }

structure Ring where
  client : Session
  server : Link

inductive Side where
  | client
  | server

/-- What the kernel took from `source` and has not delivered to `target`. -/
def underway (source target : Link) : List Byte :=
  source.conn.socket.accepted.drop target.received.length

/-- The kernel delivers what is under way, in order, and the end of the stream behind it. -/
def Delivers (source target : Link) : Event → Bool
  | .handleRead (.bytes []) => (underway source target).isEmpty &&
      (source.conn.socket.shutWr || decide (source.conn.state = .kDisConnected))
  | .handleRead (.bytes (first :: rest)) => (first :: rest).isPrefixOf (underway source target)
  | _ => true

def Ring.step (clientCb serverCb : SteadyCallbacks) (r : Ring) : Side × Event → Option Ring
  | (.client, event) =>
      if Delivers r.server r.client.link event then
        (r.client.handle clientCb event).map ({ r with client := · })
      else none
  | (.server, event) =>
      if Delivers r.client.link r.server event then
        (EchoServer.step serverCb r.server event).map ({ r with server := · })
      else none

/-! Going round. -/

/-- When `turned` can pass from the front of a list to its end, the list has been rotated. -/
theorem eq_rotate_of_append_eq {α : Type} (turned : List α) {line next : List α}
    (same : line ++ turned = turned ++ next) : next = line.rotate turned.length := by
  by_cases empty : line = []
  · subst empty
    rw [List.nil_append, List.self_eq_append_right] at same
    rw [same, List.rotate_nil]
  have positive : 0 < line.length := List.length_pos_iff.mpr empty
  -- A list longer than the ring has gone round at least once.
  induction size : turned.length using Nat.strongRecOn generalizing turned with
  | ind _ ih =>
      subst size
      have whole : turned <+: line ++ turned := ⟨next, same.symm⟩
      by_cases short : turned.length ≤ line.length
      · obtain ⟨rest, rfl⟩ :=
          List.prefix_of_prefix_length_le whole (List.prefix_append line turned) short
        rw [List.append_assoc, List.append_cancel_left_eq] at same
        rw [List.rotate_append_length_eq, same]
      · obtain ⟨rest, rfl⟩ :=
          List.prefix_of_prefix_length_le (List.prefix_append line turned) whole (by omega)
        rw [List.append_assoc, List.append_cancel_left_eq] at same
        rw [List.length_append, ← List.rotate_rotate, List.rotate_length]
        exact ih rest.length (by rw [List.length_append]; omega) rest same rfl

/-! The first message. -/

section First
variable {cb : SteadyCallbacks} {c next : TcpConnection}

theorem directWrite_callback {memory : Memory} {start len : Nat} {result : IoResult}
    {written remaining : Nat}
    (wrote : c.directWrite memory start len result = some (next, written, remaining)) :
    next.messageCallback = c.messageCallback := by
  unfold directWrite at wrote
  split at wrote
  · obtain ⟨answer, -, made⟩ := Option.bind_eq_some_iff.mp wrote
    split at made <;> cases made <;> rfl
  · cases wrote
    rfl

theorem sendInLoop_writing {message : Message} {result : IoResult}
    (connected : c.state ≠ .kDisConnected) (idle : c.channel.isWritting = false)
    (empty : c.ouputBuffer.Represents [])
    (sent : c.sendInLoop cb.toCallbacks message.memory message.start message.len result =
      some next) :
    next.state = c.state ∧ next.messageCallback = c.messageCallback ∧
      (next.channel.isWritting = true ↔ next.ouputBuffer.readableBytes ≠ 0) := by
  rw [sendInLoop, if_neg connected] at sent
  obtain ⟨⟨middle, written, remaining⟩, wrote, finished⟩ := Option.bind_eq_some_iff.mp sent
  obtain ⟨state, channel, output, -⟩ := directWrite_frame wrote
  have callback := directWrite_callback wrote
  dsimp only at finished
  generalize told : (if written > 0 ∧ remaining = 0 ∧ middle.writeCompleteCallback = true
    then cb.writeComplete middle else middle) = notified at finished
  have changed : Change middle notified := by
    rw [← told]
    split
    · exact writeComplete_change cb middle
    · exact .refl middle
  have sameState : notified.state = middle.state := by
    rw [← told]
    split
    · exact (cb.writeComplete_steady middle).1
    · rfl
  have notifiedEmpty : notified.ouputBuffer.Represents [] := by
    rw [changed.output, output]
    exact empty
  by_cases rest : remaining > 0
  · rw [if_pos rest] at finished
    have queued := queueOutput_queued notifiedEmpty
      (fun b bytes rep => ChainBuffer.append_represents rep _) finished
    refine ⟨(queued.state.trans sameState).trans state,
      (queued.callback.trans changed.callback).trans callback, ?_⟩
    obtain ⟨-, -, -, -, left, -⟩ := OutputStream.directWrite_holds message.memory message.start
      message.len result c middle written remaining _ ⟨[], empty, rfl⟩ wrote
    rw [queued.writing, ByteQueue.represents_length queued.output, List.nil_append, length_read]
    simp only [true_iff]
    omega
  · rw [if_neg rest] at finished
    cases finished
    refine ⟨sameState.trans state, changed.callback.trans callback, ?_⟩
    have quiet := changed.idle (by rw [channel, idle])
    rw [quiet, ByteQueue.represents_length notifiedEmpty]
    simp

/-- After the first message the client echoes behind `stream`, which is the message exactly
when its direct write was not cut short. -/
theorem onConnection_echoing {fresh : Fresh} {message : Message} {result : IoResult}
    {session : Session} (begun : Session.onConnection cb message result fresh.link = some session) :
    ∃ stream pending, Echoing stream session.link pending [] ∧ session.link.received = [] ∧
      session.bytesRead = 0 ∧ message.len ≤ stream.length ∧
      (stream = message.bytes ↔ WholeWrite fresh.conn message.len result) := by
  obtain ⟨link, sent, rfl⟩ := Option.map_eq_some_iff.mp begun
  have connected : fresh.conn.state ≠ .kDisConnected := by
    rw [fresh.connected]
    decide
  have up : fresh.link.conn.state = .kConnected := fresh.connected
  rw [Link.sendMessage, if_pos up] at sent
  obtain ⟨conn, direct, made⟩ := Option.bind_eq_some_iff.mp sent
  cases made
  obtain ⟨stream, ⟨pending, rep, accepted⟩, whole⟩ := OutputStream.sendInLoop_holds
    cb.toQuietCallbacks message.memory message.start message.len result fresh.conn conn []
    connected fresh.holds direct
  obtain ⟨state, callback, writing⟩ :=
    sendInLoop_writing connected fresh.idle fresh.echoing.output direct
  rw [ByteQueue.represents_length rep] at writing
  refine ⟨stream, pending, ⟨callback.trans fresh.callback, ChainBuffer.init_represents, rep, ?_,
    fun _ => rfl, ?_⟩, rfl, rfl, ?_, ?_⟩
  · change conn.socket.accepted ++ pending ++ [] = stream ++ []
    rw [accepted, List.nil_append]
  · change conn.channel.isWritting = true ↔ conn.state ≠ .kDisConnected ∧ _
    rw [writing, state, fresh.connected]
    simp
  · rcases whole with ⟨-, same⟩ | ⟨-, longer⟩
    · rw [same, length_read]
    · exact Nat.le_of_lt longer
  · rcases whole with ⟨whole, same⟩ | ⟨short, longer⟩
    · exact ⟨fun _ => whole, fun _ => same⟩
    · refine ⟨fun same => ?_, fun whole => absurd whole short⟩
      rw [same, Message.bytes, length_read] at longer
      exact absurd longer (Nat.lt_irrefl _)

end First

/-! The ring. -/

structure Circulates (stream : List Byte) (r : Ring) : Prop where
  client : ∃ pending missed, Echoing stream r.client.link pending missed
  server : ∃ pending missed, Echoing [] r.server pending missed
  toServer : r.server.received <+: r.client.link.conn.socket.accepted
  toClient : r.client.link.received <+: r.server.conn.socket.accepted
  counted : r.client.bytesRead = r.client.link.received.length

theorem delivers_prefix {source target : Link} {event : Event}
    (delivers : Delivers source target event = true)
    (taken : target.received <+: source.conn.socket.accepted) :
    target.received ++ event.delivery <+: source.conn.socket.accepted := by
  obtain ⟨rest, same⟩ := taken
  have left : underway source target = rest := by rw [underway, ← same, List.drop_left]
  rw [← same, List.prefix_append_right_inj]
  match event with
  | .handleRead (.bytes (first :: others)) =>
      rw [Delivers, left] at delivers
      exact List.isPrefixOf_iff_prefix.mp delivers
  | .handleRead (.bytes []) | .handleRead (.error _) => exact List.nil_prefix
  | .handleWrite _ | .exchangeState | .shutDownInLoop | .forceCloseInLoop | .destroyConnection
  | .startReadInLoop | .stopReadInLoop => exact List.nil_prefix

/-- `bytesRead_` counts what the kernel delivers, since the input buffer was empty. -/
theorem count_counts {s counted : Session} {event : Event} {initial pending missed : List Byte}
    (echoing : Echoing initial s.link pending missed) (ran : s.count event = some counted) :
    counted.link = s.link ∧ counted.bytesRead = s.bytesRead + event.delivery.length := by
  match event with
  | .handleRead (.bytes (first :: others)) =>
      rw [Session.count, if_pos echoing.callback] at ran
      obtain ⟨input, read, made⟩ := Option.bind_eq_some_iff.mp ran
      cases made
      have rep := readFd_received echoing.input read
      rw [ByteQueue.represents_length rep]
      exact ⟨rfl, rfl⟩
  | .handleRead (.bytes []) | .handleRead (.error _) =>
      cases ran
      exact ⟨rfl, rfl⟩
  | .handleWrite _ | .exchangeState | .shutDownInLoop | .forceCloseInLoop | .destroyConnection
  | .startReadInLoop | .stopReadInLoop =>
      cases ran
      exact ⟨rfl, rfl⟩

section Ring
variable {clientCb serverCb : SteadyCallbacks} {stream : List Byte}

theorem step_circulates (r : Ring) (action : Side × Event) (next : Ring)
    (circulates : Circulates stream r)
    (stepped : r.step clientCb serverCb action = some next) : Circulates stream next := by
  obtain ⟨side, event⟩ := action
  obtain ⟨pending, missed, client⟩ := circulates.client
  obtain ⟨serverPending, serverMissed, server⟩ := circulates.server
  cases side with
  | client =>
      obtain ⟨delivers, ran⟩ := Option.ite_none_right_eq_some.mp stepped
      obtain ⟨session, handled, rfl⟩ := Option.map_eq_some_iff.mp ran
      obtain ⟨counted, counts, handled⟩ := Option.bind_eq_some_iff.mp handled
      obtain ⟨link, echoed, made⟩ := Option.bind_eq_some_iff.mp handled
      cases made
      obtain ⟨-, bytes⟩ := count_counts client counts
      have received := handle_received echoed
      refine ⟨step_echoing client echoed, circulates.server,
        circulates.toServer.trans (step_accepted echoed), ?_, ?_⟩
      · change link.received <+: _
        rw [received]
        exact delivers_prefix delivers circulates.toClient
      · change counted.bytesRead = link.received.length
        rw [bytes, received, List.length_append, circulates.counted]
  | server =>
      obtain ⟨delivers, ran⟩ := Option.ite_none_right_eq_some.mp stepped
      obtain ⟨link, echoed, rfl⟩ := Option.map_eq_some_iff.mp ran
      refine ⟨circulates.client, step_echoing server echoed, ?_,
        circulates.toClient.trans (step_accepted echoed), circulates.counted⟩
      change link.received <+: _
      rw [handle_received echoed]
      exact delivers_prefix delivers circulates.toServer

theorem Circulates.rotated {r : Ring} (circulates : Circulates stream r) :
    ∃ clientPending clientMissed serverPending serverMissed,
      Echoing stream r.client.link clientPending clientMissed ∧
      Echoing [] r.server serverPending serverMissed ∧
      underway r.server r.client.link ++ serverPending ++ serverMissed ++
        underway r.client.link r.server ++ clientPending ++ clientMissed =
          stream.rotate r.client.bytesRead := by
  obtain ⟨clientPending, clientMissed, client⟩ := circulates.client
  obtain ⟨serverPending, serverMissed, server⟩ := circulates.server
  refine ⟨clientPending, clientMissed, serverPending, serverMissed, client, server, ?_⟩
  rw [circulates.counted]
  apply eq_rotate_of_append_eq
  obtain ⟨toServer, clientTook⟩ := circulates.toServer
  obtain ⟨toClient, serverTook⟩ := circulates.toClient
  have forth : underway r.client.link r.server = toServer := by
    rw [underway, ← clientTook, List.drop_left]
  have back : underway r.server r.client.link = toClient := by
    rw [underway, ← serverTook, List.drop_left]
  have clientStream := client.stream
  have serverStream := server.stream
  rw [← clientTook] at clientStream
  rw [← serverTook, List.nil_append] at serverStream
  rw [forth, back, ← clientStream, ← serverStream]
  simp only [List.append_assoc]

end Ring

def start (session : Session) (server : Fresh) : Ring := ⟨session, server.link⟩

theorem start_circulates {cb : SteadyCallbacks} {client : Fresh} {message : Message}
    {result : IoResult} {session : Session} (server : Fresh)
    (begun : Session.onConnection cb message result client.link = some session) :
    ∃ stream, Circulates stream (start session server) ∧ message.len ≤ stream.length ∧
      (stream = message.bytes ↔ WholeWrite client.conn message.len result) := by
  obtain ⟨stream, pending, echoing, received, counted, length, whole⟩ := onConnection_echoing begun
  refine ⟨stream, ⟨⟨pending, [], echoing⟩, ⟨[], [], server.echoing⟩, List.nil_prefix, ?_, ?_⟩,
    length, whole⟩
  · change session.link.received <+: _
    rw [received]
    exact List.nil_prefix
  · change session.bytesRead = session.link.received.length
    rw [received, counted]
    rfl

/-- In every run of client and server, however the kernel cuts reads and writes, the bytes
under way, queued and missed at the two ends are one fixed sequence, turned by as many places
as `bytesRead_` says. What an end missed is the rest of what it received, and nothing is missed at
an end that is connected. The sequence is the client's message exactly when the direct write of
the message was not cut short. -/
theorem message_goes_round (clientCb serverCb : SteadyCallbacks) (client server : Fresh)
    (message : Message) (result : IoResult) (session : Session)
    (begun : Session.onConnection clientCb message result client.link = some session) :
    ∃ stream, (stream = message.bytes ↔ WholeWrite client.conn message.len result) ∧
      ∀ actions final,
        run (Ring.step clientCb serverCb) (start session server) actions = some final →
        ∃ clientPending clientMissed serverPending serverMissed,
          final.client.link.conn.ouputBuffer.peekAllAsString = some clientPending ∧
          final.server.conn.ouputBuffer.peekAllAsString = some serverPending ∧
          (final.client.link.conn.state = .kConnected → clientMissed = []) ∧
          (final.server.conn.state = .kConnected → serverMissed = []) ∧
          final.client.link.conn.socket.accepted ++ clientPending ++ clientMissed =
            stream ++ final.client.link.received ∧
          final.server.conn.socket.accepted ++ serverPending ++ serverMissed =
            final.server.received ∧
          underway final.server final.client.link ++ serverPending ++ serverMissed ++
            underway final.client.link final.server ++ clientPending ++ clientMissed =
              stream.rotate final.client.bytesRead := by
  obtain ⟨stream, circulates, -, whole⟩ := start_circulates server begun
  refine ⟨stream, whole, fun actions final ran => ?_⟩
  have reached := run_invariant (Circulates stream) step_circulates circulates ran
  obtain ⟨clientPending, clientMissed, serverPending, serverMissed, client, server, turned⟩ :=
    reached.rotated
  exact ⟨clientPending, clientMissed, serverPending, serverMissed,
    ChainBuffer.peekAllAsString_represents client.output,
    ChainBuffer.peekAllAsString_represents server.output, client.connected, server.connected,
    client.stream, server.stream, turned⟩

def refusedSession : Option Session :=
  Session.onConnection silent ⟨OutputStream.counting, 0, 2⟩ (.error 11) newConnection.link

theorem refused_message_goes_round : ∃ session, refusedSession = some session ∧
    ∃ stream, (stream = [1, 2] ↔ WholeWrite newConnection.conn 2 (.error 11)) ∧
      ∀ actions final,
        run (Ring.step silent silent) (start session newConnection) actions = some final →
        ∃ clientPending clientMissed serverPending serverMissed,
          final.client.link.conn.ouputBuffer.peekAllAsString = some clientPending ∧
          final.server.conn.ouputBuffer.peekAllAsString = some serverPending ∧
          (final.client.link.conn.state = .kConnected → clientMissed = []) ∧
          (final.server.conn.state = .kConnected → serverMissed = []) ∧
          final.client.link.conn.socket.accepted ++ clientPending ++ clientMissed =
            stream ++ final.client.link.received ∧
          final.server.conn.socket.accepted ++ serverPending ++ serverMissed =
            final.server.received ∧
          underway final.server final.client.link ++ serverPending ++ serverMissed ++
            underway final.client.link final.server ++ clientPending ++ clientMissed =
              stream.rotate final.client.bytesRead := by
  obtain ⟨session, begun⟩ : ∃ session, refusedSession = some session := ⟨_, rfl⟩
  exact ⟨session, begun, message_goes_round silent silent newConnection newConnection
    ⟨OutputStream.counting, 0, 2⟩ (.error 11) session begun⟩

/-! The ring never stalls. -/

def traffic (l : Link) : Nat := l.conn.socket.accepted.length + l.received.length

def Watches (l : Link) : Event → Prop
  | .handleRead _ => l.conn.channel.isReading = true
  | .handleWrite _ => l.conn.channel.isWritting = true
  | _ => False

def Ring.link (r : Ring) : Side → Link
  | .client => r.client.link
  | .server => r.server

def Ring.Moves (clientCb serverCb : SteadyCallbacks) (r : Ring) : Prop :=
  ∃ side event next, Watches (r.link side) event ∧
    r.step clientCb serverCb (side, event) = some next ∧
    traffic r.client.link + traffic r.server < traffic next.client.link + traffic next.server

section Progress
variable {initial pending missed : List Byte} {l : Link}

theorem read_moves (cb : SteadyCallbacks) (echoing : Echoing initial l pending missed)
    (byte : Byte) :
    ∃ input after, l.inputBuffer.readFd (.bytes [byte]) = some input ∧
      EchoServer.step cb l (.handleRead (.bytes [byte])) = some after ∧
      traffic l < traffic after := by
  obtain ⟨input, after, read, stepped⟩ := read_possible cb echoing byte
  refine ⟨input, after, read, stepped, ?_⟩
  have accepted := (step_accepted stepped).length_le
  have received := congrArg List.length (handle_received stepped)
  rw [List.length_append] at received
  simp only [Event.delivery, bytesRead, List.length_singleton] at received
  unfold traffic
  omega

theorem write_moves (cb : SteadyCallbacks) (echoing : Echoing initial l pending missed)
    (opened : l.conn.state ≠ .kDisConnected) (real : pending ≠ []) :
    ∃ after, EchoServer.step cb l (.handleWrite (.count 1)) = some after ∧
      traffic l < traffic after := by
  obtain ⟨after, stepped, grown⟩ := write_possible cb echoing opened real
  refine ⟨after, stepped, ?_⟩
  have received := congrArg List.length (handle_received stepped)
  have positive := List.length_pos_iff.mpr real
  rw [List.length_append] at received
  simp only [Event.delivery, List.length_nil] at received
  rw [traffic, traffic, grown, List.length_append, List.length_take]
  omega

end Progress

theorem delivers_first {source target : Link} (some : underway source target ≠ []) :
    ∃ byte, Delivers source target (.handleRead (.bytes [byte])) = true := by
  obtain ⟨byte, rest, left⟩ := List.exists_cons_of_ne_nil some
  refine ⟨byte, ?_⟩
  rw [Delivers, left]
  simp

section Moves
variable {clientCb serverCb : SteadyCallbacks} {initial pending missed : List Byte} {r : Ring}

theorem client_reads (echoing : Echoing initial r.client.link pending missed)
    (reading : r.client.link.conn.channel.isReading = true)
    (left : underway r.server r.client.link ≠ []) : r.Moves clientCb serverCb := by
  obtain ⟨byte, delivers⟩ := delivers_first left
  obtain ⟨input, after, read, stepped, more⟩ := read_moves clientCb echoing byte
  refine ⟨.client, .handleRead (.bytes [byte]),
    ⟨⟨after, r.client.bytesRead + input.readableBytes, r.client.messagesRead + 1,
      r.client.messageWrittten + 1⟩, r.server⟩, reading, ?_, Nat.add_lt_add_right more _⟩
  simp only [Ring.step, delivers, ↓reduceIte, Session.handle, Session.count, echoing.callback,
    read, stepped, Option.bind_eq_bind, Option.bind_some, Option.map_some]

theorem client_writes (echoing : Echoing initial r.client.link pending missed)
    (up : r.client.link.conn.state = .kConnected) (real : pending ≠ []) :
    r.Moves clientCb serverCb := by
  have opened : r.client.link.conn.state ≠ .kDisConnected := by rw [up]; decide
  obtain ⟨after, stepped, more⟩ := write_moves clientCb echoing opened real
  refine ⟨.client, .handleWrite (.count 1), ⟨{ r.client with link := after }, r.server⟩,
    echoing.writing.mpr ⟨opened, real⟩, ?_, Nat.add_lt_add_right more _⟩
  simp only [Ring.step, Delivers, ↓reduceIte, Session.handle, Session.count, stepped,
    Option.bind_eq_bind, Option.bind_some, Option.map_some]

theorem server_reads (echoing : Echoing initial r.server pending missed)
    (reading : r.server.conn.channel.isReading = true)
    (left : underway r.client.link r.server ≠ []) : r.Moves clientCb serverCb := by
  obtain ⟨byte, delivers⟩ := delivers_first left
  obtain ⟨-, after, -, stepped, more⟩ := read_moves serverCb echoing byte
  refine ⟨.server, .handleRead (.bytes [byte]), { r with server := after }, reading, ?_,
    Nat.add_lt_add_left more _⟩
  simp only [Ring.step, delivers, ↓reduceIte, stepped, Option.map_some]

theorem server_writes (echoing : Echoing initial r.server pending missed)
    (up : r.server.conn.state = .kConnected) (real : pending ≠ []) :
    r.Moves clientCb serverCb := by
  have opened : r.server.conn.state ≠ .kDisConnected := by rw [up]; decide
  obtain ⟨after, stepped, more⟩ := write_moves serverCb echoing opened real
  refine ⟨.server, .handleWrite (.count 1), { r with server := after },
    echoing.writing.mpr ⟨opened, real⟩, ?_, Nat.add_lt_add_left more _⟩
  simp only [Ring.step, Delivers, ↓reduceIte, stepped, Option.map_some]

end Moves

/-- As long as both ends are connected and read, no run leads to a state in which no byte can
move: one end has a byte queued and waits for writability, or one is under way to it. -/
theorem ring_never_stalls (clientCb serverCb : SteadyCallbacks) (client server : Fresh)
    (message : Message) (result : IoResult) (session : Session) (nonempty : message.len ≠ 0)
    (begun : Session.onConnection clientCb message result client.link = some session)
    (actions : List (Side × Event)) (r : Ring)
    (ran : run (Ring.step clientCb serverCb) (start session server) actions = some r)
    (up : ∀ side, (r.link side).conn.state = .kConnected)
    (reading : ∀ side, (r.link side).conn.channel.isReading = true) :
    r.Moves clientCb serverCb := by
  obtain ⟨stream, begins, length, -⟩ := start_circulates server begun
  have circulates := run_invariant (Circulates stream) step_circulates begins ran
  obtain ⟨clientPending, clientMissed, serverPending, serverMissed, client, server, turned⟩ :=
    circulates.rotated
  by_contra stuck
  have none : ∀ {bytes : List Byte}, (bytes ≠ [] → r.Moves clientCb serverCb) → bytes = [] :=
    fun moves => by_contra fun real => stuck (moves real)
  rw [none (client_reads client (reading .client)), none (server_reads server (reading .server)),
    none (client_writes client (up .client)), none (server_writes server (up .server)),
    client.connected (up .client), server.connected (up .server)] at turned
  have empty := congrArg List.length turned
  rw [List.length_rotate] at empty
  simp only [List.append_nil, List.length_nil] at empty
  omega

theorem refused_message_moves : ∃ session, refusedSession = some session ∧
    (start session newConnection).Moves silent silent := by
  obtain ⟨session, begun⟩ : ∃ session, refusedSession = some session := ⟨_, rfl⟩
  have up : ∀ side, ((start session newConnection).link side).conn.state = .kConnected := by
    cases begun
    rintro (_ | _) <;> rfl
  have reading : ∀ side,
      ((start session newConnection).link side).conn.channel.isReading = true := by
    cases begun
    rintro (_ | _) <;> decide
  exact ⟨session, begun, ring_never_stalls silent silent newConnection newConnection
    ⟨OutputStream.counting, 0, 2⟩ (.error 11) session (by decide) begun [] _ rfl up reading⟩

end Muzi.PingPong
