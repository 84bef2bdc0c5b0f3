import Muzi.Relay

/-!
The echo server of muzi/examples/echo_server.cc, whose message callback is also the
one of the ping-pong server: it sends the input buffer and empties it. The bytes
that came in are followed through the connection, over any answers of the kernel,
until the end of the stream.
-/

namespace Muzi.Relay

open Storage TcpConnection Execution
open OutputStream (QuietCallbacks)

structure SteadyCallbacks extends QuietCallbacks where
  writeComplete_steady : ∀ c, (writeComplete c).state = c.state ∧
    (writeComplete c).channel.isWritting = c.channel.isWritting ∧
    (writeComplete c).messageCallback = c.messageCallback
  highWater_steady : ∀ c n, (highWater c n).state = c.state ∧
    (highWater c n).channel.isWritting = c.channel.isWritting ∧
    (highWater c n).messageCallback = c.messageCallback

namespace EchoServer

/-- `EchoServer::OnMessage`, which is also the `onMessage` of the ping-pong server. -/
def onMessage : List Command := [.sendInput, .retriveAll]

def user (cb : SteadyCallbacks) : User := ⟨cb.toQuietCallbacks, onMessage, []⟩

def step (cb : SteadyCallbacks) (l : Link) (event : Event) : Option Link := l.handle event (user cb)

end EchoServer

/-- What came in, behind what was sent before, has gone out, is pending in
`ouput_buffer_`, or was missed because the connection did not take it any more. -/
structure Echoing (initial : List Byte) (l : Link) (pending missed : List Byte) : Prop where
  callback : l.conn.messageCallback = true
  input : l.inputBuffer.Represents []
  output : l.conn.ouputBuffer.Represents pending
  stream : l.conn.socket.accepted ++ pending ++ missed = initial ++ l.received
  connected : l.conn.state = .kConnected → missed = []
  writing : l.conn.channel.isWritting = true ↔ l.conn.state ≠ .kDisConnected ∧ pending ≠ []

section Echo
variable {cb : SteadyCallbacks} {initial pending missed : List Byte} {l after : Link}
  {c next : TcpConnection}

theorem Echoing.change (echoing : Echoing initial l pending missed)
    (changed : Change l.conn next) : Echoing initial { l with conn := next } pending missed where
  callback := changed.callback.trans echoing.callback
  input := echoing.input
  output := changed.output ▸ echoing.output
  stream := by
    change next.socket.accepted ++ pending ++ missed = _
    rw [changed.accepted]
    exact echoing.stream
  connected now := echoing.connected (changed.connected now)
  writing := by
    rw [changed.writing (fun busy => (echoing.writing.mp busy).1), echoing.writing]
    constructor
    · rintro ⟨⟨-, real⟩, opened⟩
      exact ⟨opened, real⟩
    · rintro ⟨opened, real⟩
      exact ⟨⟨fun closed => opened (changed.closed closed), real⟩, opened⟩

theorem growOutput_callback {grow : ChainBuffer → Option ChainBuffer}
    (grown : c.growOutput grow = some next) : next.messageCallback = c.messageCallback := by
  obtain ⟨output, -, made⟩ := Option.bind_eq_some_iff.mp grown
  dsimp only at made
  split at made <;> cases made <;> rfl

structure Queued (c next : TcpConnection) (pending data : List Byte) : Prop where
  output : next.ouputBuffer.Represents (pending ++ data)
  accepted : next.socket.accepted = c.socket.accepted
  state : next.state = c.state
  writing : next.channel.isWritting = true
  callback : next.messageCallback = c.messageCallback

theorem queueOutput_queued {added : Nat} {grow : ChainBuffer → Option ChainBuffer}
    {data : List Byte} (output : c.ouputBuffer.Represents pending)
    (grows : ∀ b bytes, b.Represents bytes →
      ∃ after, grow b = some after ∧ after.Represents (bytes ++ data))
    (queued : c.queueOutput cb.toCallbacks added grow = some next) :
    Queued c next pending data := by
  rw [queueOutput] at queued
  generalize told : (if c.reachesHighWater added = true then
    cb.highWater c (c.ouputBuffer.readableBytes + added) else c) = middle at queued
  have steady : middle.ouputBuffer = c.ouputBuffer ∧
      middle.socket.accepted = c.socket.accepted ∧ middle.state = c.state ∧
      middle.messageCallback = c.messageCallback := by
    rw [← told]
    split
    · have quiet := cb.highWater_quiet c (c.ouputBuffer.readableBytes + added)
      have steady := cb.highWater_steady c (c.ouputBuffer.readableBytes + added)
      exact ⟨quiet.1, quiet.2, steady.1, steady.2.2⟩
    · exact ⟨rfl, rfl, rfl, rfl⟩
  obtain ⟨state, writing, socket⟩ := growOutput_frame queued
  have callback := growOutput_callback queued
  obtain ⟨grown, appended, made⟩ := Option.bind_eq_some_iff.mp queued
  obtain ⟨expected, ran, expectedRep⟩ := grows _ _ (steady.1 ▸ output)
  cases ran.symm.trans appended
  refine ⟨?_, by rw [socket, steady.2.1], state.trans steady.2.2.1, writing,
    callback.trans steady.2.2.2⟩
  dsimp only at made
  split at made <;> cases made <;> exact expectedRep

theorem onMessage_echoing {data : List Byte} {input : ChainBuffer}
    (echoing : Echoing initial l pending missed) (rep : input.Represents data)
    (real : data ≠ [])
    (ran : run (Link.perform cb.toCallbacks)
      { l with inputBuffer := input, received := l.received ++ data } EchoServer.onMessage =
        some after) :
    ∃ pending missed, Echoing initial after pending missed := by
  obtain ⟨middle, sent, ran⟩ := run_cons_some.mp ran
  obtain ⟨last, emptied, ran⟩ := run_cons_some.mp ran
  cases ran
  have sameInput := sendInput_sameInput sent
  have middleRep : middle.inputBuffer.Represents data := sameInput.input ▸ rep
  obtain ⟨rest, restRep, emptiedTo⟩ := retriveAll_spec middleRep
  cases emptiedTo.symm.trans emptied
  have stream := echoing.stream
  simp only [Link.perform, Link.sendInput] at sent
  by_cases connected : l.conn.state = .kConnected
  · rw [if_pos connected] at sent
    obtain ⟨text, -, sent⟩ := Option.bind_eq_some_iff.mp sent
    obtain ⟨conn, queued, made⟩ := Option.bind_eq_some_iff.mp sent
    cases made
    rw [sendBufferInLoop, if_neg (by rw [connected]; decide)] at queued
    have done := queueOutput_queued echoing.output
      (fun b bytes bRep => ChainBuffer.appendBuffer_represents bRep rep) queued
    rw [echoing.connected connected, List.append_nil] at stream
    refine ⟨pending ++ data, [], done.callback.trans echoing.callback, restRep, done.output, ?_,
      fun _ => rfl, ?_⟩
    · change conn.socket.accepted ++ (pending ++ data) ++ [] = initial ++ (l.received ++ data)
      rw [done.accepted, List.append_nil, ← List.append_assoc, stream, List.append_assoc]
    · change conn.channel.isWritting = true ↔ conn.state ≠ .kDisConnected ∧ _
      simp [done.writing, done.state, connected, real]
  · rw [if_neg connected] at sent
    cases sent
    refine ⟨pending, missed ++ data, echoing.callback, restRep, echoing.output, ?_,
      fun now => absurd now connected, echoing.writing⟩
    change l.conn.socket.accepted ++ pending ++ (missed ++ data) = initial ++ (l.received ++ data)
    rw [← List.append_assoc, stream, List.append_assoc]

structure Drained (c next : TcpConnection) (pending : List Byte) (n : Nat) (drained : Bool) :
    Prop where
  output : next.ouputBuffer.Represents (pending.drop n)
  accepted : next.socket.accepted = c.socket.accepted ++ pending.take n
  state : next.state = c.state
  callback : next.messageCallback = c.messageCallback
  whole : drained = true → pending.drop n = [] ∧ next.channel.isWritting = false
  part : drained = false → next.channel = c.channel ∧ (pending ≠ [] → pending.drop n ≠ [])

theorem drainOutput_drained {result : IoResult} {drained : Bool}
    (output : c.ouputBuffer.Represents pending)
    (wrote : c.drainOutput result = some (next, drained)) :
    ∃ n, Drained c next pending n drained := by
  obtain ⟨vec, -, -, failed, took, refused⟩ := ChainBuffer.writeFd_represents output
  cases result with
  | error errno =>
      simp only [drainOutput, failed, Option.bind_eq_bind, Option.bind_some] at wrote
      cases wrote
      exact ⟨0, output, by simp, rfl, rfl, Bool.noConfusion, fun _ => ⟨rfl, id⟩⟩
  | count n =>
      by_cases within : n ≤ vec.flatten.length
      · obtain ⟨rest, ran, restRep⟩ := took n within
        have length := ByteQueue.represents_length restRep
        simp only [drainOutput, ran, Option.bind_eq_bind, Option.bind_some] at wrote
        refine ⟨n, ?_⟩
        by_cases empty : rest.readableBytes = 0
        · rw [if_pos empty] at wrote
          cases wrote
          rw [length, List.length_eq_zero_iff] at empty
          exact ⟨restRep, rfl, rfl, rfl, fun _ => ⟨empty, Channel.isWritting_disableWritting _⟩,
            Bool.noConfusion⟩
        · rw [if_neg empty] at wrote
          cases wrote
          rw [length, List.length_eq_zero_iff] at empty
          exact ⟨restRep, rfl, rfl, rfl, Bool.noConfusion, fun _ => ⟨rfl, fun _ => empty⟩⟩
      · simp [drainOutput, refused n (by omega)] at wrote

theorem drainOutput_echoing {result : IoResult} {drained : Bool}
    (echoing : Echoing initial l pending missed) (writing : l.conn.channel.isWritting = true)
    (ran : l.conn.drainOutput result = some (next, drained)) :
    ∃ pending, Echoing initial { l with conn := next } pending missed := by
  obtain ⟨n, done⟩ := drainOutput_drained echoing.output ran
  have filled := echoing.writing.mp writing
  refine ⟨pending.drop n, done.callback.trans echoing.callback, echoing.input, done.output, ?_,
    fun now => echoing.connected (done.state.symm.trans now), ?_⟩
  · change next.socket.accepted ++ pending.drop n ++ missed = _
    rw [done.accepted, List.append_assoc _ (pending.take n), List.take_append_drop,
      echoing.stream]
  · change next.channel.isWritting = true ↔ next.state ≠ .kDisConnected ∧ _
    cases drained with
    | true => simp [done.whole rfl]
    | false =>
        obtain ⟨channel, left⟩ := done.part rfl
        simp [channel, writing, done.state, filled.1, left filled.2]

theorem writeComplete_change (cb : SteadyCallbacks) (c : TcpConnection) :
    Change c (cb.writeComplete c) := by
  have quiet := cb.writeComplete_quiet c
  obtain ⟨state, writing, callback⟩ := cb.writeComplete_steady c
  exact .of_state ⟨quiet.1, quiet.2⟩ callback state writing

theorem finishWrite_change (c : TcpConnection) : Change c c.finishWrite := by
  unfold finishWrite
  split
  · exact shutDownInLoop_change c
  · exact .refl c

theorem handleWrite_echoing {result : IoResult} (echoing : Echoing initial l pending missed)
    (wrote : l.conn.handleWrite cb.toCallbacks result = some next) :
    ∃ pending, Echoing initial { l with conn := next } pending missed := by
  unfold handleWrite at wrote
  by_cases writing : l.conn.channel.isWritting = true
  · rw [if_pos writing] at wrote
    obtain ⟨⟨middle, drained⟩, ran, finished⟩ := Option.bind_eq_some_iff.mp wrote
    obtain ⟨left, drainedTo⟩ := drainOutput_echoing echoing writing ran
    cases drained with
    | false =>
        cases finished
        exact ⟨left, drainedTo⟩
    | true =>
        cases finished
        refine ⟨left, ?_⟩
        split
        · exact (drainedTo.change (writeComplete_change cb _)).change (finishWrite_change _)
        · exact drainedTo.change (finishWrite_change _)
  · rw [if_neg writing] at wrote
    cases wrote
    exact ⟨pending, echoing⟩

theorem handleRead_echoing {result : ReadResult} (echoing : Echoing initial l pending missed)
    (ran : l.handleRead (EchoServer.user cb) result = some after) :
    ∃ pending missed, Echoing initial after pending missed := by
  obtain ⟨input, read, ran⟩ := Option.bind_eq_some_iff.mp ran
  have rep := readFd_received echoing.input read
  rw [List.nil_append] at rep
  match result with
  | .error _ =>
      cases ran
      refine ⟨pending, missed, echoing.callback, rep, echoing.output, ?_, echoing.connected,
        echoing.writing⟩
      rw [bytesRead, List.append_nil]
      exact echoing.stream
  | .bytes [] =>
      cases ran
      have closed := echoing.change (disconnect_change _)
      refine ⟨pending, missed, closed.callback, rep, closed.output, ?_, closed.connected,
        closed.writing⟩
      rw [bytesRead, List.append_nil]
      exact closed.stream
  | .bytes (first :: rest) =>
      rw [Link.delivered, if_pos echoing.callback] at ran
      exact onMessage_echoing echoing rep (List.cons_ne_nil first rest) ran

theorem step_echoing {event : Event} (echoing : Echoing initial l pending missed)
    (stepped : EchoServer.step cb l event = some after) :
    ∃ pending missed, Echoing initial after pending missed := by
  rcases handle_cases stepped with ⟨result, ran⟩ | ⟨result, conn, wrote, rfl⟩ | ran |
    ⟨conn, changed, rfl⟩
  · exact handleRead_echoing echoing ran
  · obtain ⟨left, done⟩ := handleWrite_echoing echoing wrote
    exact ⟨left, missed, done⟩
  · cases ran
    exact ⟨pending, missed, echoing.change (disconnect_change _)⟩
  · exact ⟨pending, missed, echoing.change changed⟩

/-! What the kernel took stays taken. -/

theorem sendInput_accepted (cb : QuietCallbacks) (ran : l.sendInput cb.toCallbacks = some after) :
    after.conn.socket.accepted = l.conn.socket.accepted := by
  unfold Link.sendInput at ran
  split at ran
  · rename_i connected
    obtain ⟨text, -, ran⟩ := Option.bind_eq_some_iff.mp ran
    obtain ⟨conn, queued, made⟩ := Option.bind_eq_some_iff.mp ran
    cases made
    rw [sendBufferInLoop, if_neg (by rw [connected]; decide)] at queued
    obtain ⟨-, -, socket⟩ := growOutput_frame queued
    rw [socket]
    split
    · exact (cb.highWater_quiet _ _).2
    · rfl
  · cases ran
    rfl

theorem handleWrite_takes (cb : QuietCallbacks) {result : IoResult} {output : ChainBuffer}
    {taken : List Byte} (writing : c.channel.isWritting = true)
    (wrote : c.ouputBuffer.writeFd result = some (output, taken)) :
    ∃ next, c.handleWrite cb.toCallbacks result = some next ∧
      next.socket.accepted = c.socket.accepted ++ taken := by
  simp only [handleWrite, writing, ↓reduceIte, drainOutput, wrote, Option.bind_eq_bind,
    Option.bind_some]
  cases result with
  | error errno => exact ⟨_, rfl, rfl⟩
  | count n =>
      by_cases empty : output.readableBytes = 0
      · refine ⟨_, by rw [if_pos empty]; rfl, ?_⟩
        rw [(finishWrite_change _).accepted]
        split
        · exact (cb.writeComplete_quiet _).2
        · rfl
      · exact ⟨_, by rw [if_neg empty]; rfl, rfl⟩

theorem handleWrite_accepted (cb : QuietCallbacks) {result : IoResult}
    (wrote : c.handleWrite cb.toCallbacks result = some next) :
    c.socket.accepted <+: next.socket.accepted := by
  by_cases writing : c.channel.isWritting = true
  · have ran := wrote
    rw [handleWrite, if_pos writing] at ran
    obtain ⟨drained, ran, -⟩ := Option.bind_eq_some_iff.mp ran
    obtain ⟨⟨output, taken⟩, given, -⟩ := Option.bind_eq_some_iff.mp ran
    obtain ⟨same, again, grown⟩ := handleWrite_takes cb writing given
    cases again.symm.trans wrote
    rw [grown]
    exact List.prefix_append _ _
  · rw [handleWrite, if_neg writing] at wrote
    cases wrote
    exact List.prefix_rfl

theorem step_accepted {event : Event} (stepped : EchoServer.step cb l event = some after) :
    l.conn.socket.accepted <+: after.conn.socket.accepted := by
  refine @handle_keeps (fun next => l.conn.socket.accepted <+: next.conn.socket.accepted)
    (EchoServer.user cb) ?_ ?_ ?_ ?_ l after event List.prefix_rfl stepped
  · intro next command after member taken performed
    have known : command = .sendInput ∨ command = .retriveAll := by
      simpa [EchoServer.user, EchoServer.onMessage] using member
    rcases known with rfl | rfl
    · rw [sendInput_accepted cb.toQuietCallbacks performed]
      exact taken
    · obtain ⟨⟨input, text⟩, -, made⟩ := Option.bind_eq_some_iff.mp performed
      cases made
      exact taken
  · exact fun _ _ _ taken _ => taken
  · exact fun _ _ _ taken wrote => taken.trans (handleWrite_accepted _ wrote)
  · intro next conn taken changed
    change _ <+: conn.socket.accepted
    rw [changed.accepted]
    exact taken

/-! A byte can always move. -/

theorem sendInput_possible (cb : QuietCallbacks) {data : List Byte}
    (rep : l.inputBuffer.Represents data) (output : l.conn.ouputBuffer.Represents pending) :
    ∃ after, l.sendInput cb.toCallbacks = some after := by
  unfold Link.sendInput
  split
  · rename_i connected
    obtain ⟨conn, queued, -⟩ := OutputStream.queueOutput_holds cb l.inputBuffer.readableBytes
      (fun output => output.appendBuffer l.inputBuffer) l.conn _ data ⟨pending, output, rfl⟩
      (fun b bytes bRep => ChainBuffer.appendBuffer_represents bRep rep)
    simp only [sendBufferInLoop, connected, reduceCtorEq, ↓reduceIte, queued,
      ChainBuffer.peekAllAsString_represents rep, Option.bind_eq_bind, Option.bind_some]
    exact ⟨_, rfl⟩
  · exact ⟨l, rfl⟩

theorem read_possible (cb : SteadyCallbacks) (echoing : Echoing initial l pending missed)
    (byte : Byte) :
    ∃ input after, l.inputBuffer.readFd (.bytes [byte]) = some input ∧
      EchoServer.step cb l (.handleRead (.bytes [byte])) = some after := by
  obtain ⟨room, offered, -, took, -⟩ := ChainBuffer.readFd_represents echoing.input
  obtain ⟨vec, -, rfl⟩ := Option.map_eq_some_iff.mp offered
  obtain ⟨input, read, rep⟩ := took [byte] (Nat.le_add_left 1 _)
  obtain ⟨sent, ran⟩ := sendInput_possible cb.toQuietCallbacks
    (l := { l with inputBuffer := input, received := l.received ++ [byte] }) rep echoing.output
  have kept : sent.inputBuffer.Represents ([] ++ [byte]) := (sendInput_sameInput ran).input ▸ rep
  obtain ⟨rest, -, emptied⟩ := retriveAll_spec kept
  refine ⟨input, { sent with inputBuffer := rest, consumed := sent.consumed ++ ([] ++ [byte]) },
    read, ?_⟩
  rw [EchoServer.step, Link.handle, Link.handleRead, read, Option.bind_eq_bind, Option.bind_some,
    Link.delivered, if_pos echoing.callback]
  exact run_cons_some.mpr ⟨sent, ran, run_cons_some.mpr ⟨_, emptied, rfl⟩⟩

theorem write_possible (cb : SteadyCallbacks) (echoing : Echoing initial l pending missed)
    (opened : l.conn.state ≠ .kDisConnected) (real : pending ≠ []) :
    ∃ after, EchoServer.step cb l (.handleWrite (.count 1)) = some after ∧
      after.conn.socket.accepted = l.conn.socket.accepted ++ pending.take 1 := by
  obtain ⟨vec, gathered, -, -, took, -⟩ := ChainBuffer.writeFd_represents echoing.output
  obtain ⟨same, again, offered⟩ := ChainBuffer.gather_represents echoing.output
  cases gathered.symm.trans again
  obtain ⟨front, tail, spare, layout, -⟩ := echoing.output
  have inside := layout.readInside
  have some : 1 ≤ vec.flatten.length := by
    have length := List.length_pos_iff.mpr real
    rw [offered, List.length_take]
    unfold ChainBuffer.maxVecSize
    omega
  obtain ⟨rest, wrote, -⟩ := took 1 some
  obtain ⟨next, ran, grown⟩ := handleWrite_takes cb.toQuietCallbacks
    (echoing.writing.mpr ⟨opened, real⟩) wrote
  exact ⟨{ l with conn := next }, by rw [EchoServer.step, Link.handle]; exact congrArg _ ran, grown⟩

end Echo

theorem Fresh.echoing (fresh : Fresh) : Echoing [] fresh.link [] [] where
  callback := fresh.callback
  input := ChainBuffer.init_represents
  output := by
    change fresh.conn.ouputBuffer.Represents []
    rw [fresh.noOutput]
    exact ChainBuffer.init_represents
  stream := by
    change fresh.conn.socket.accepted ++ [] ++ [] = []
    rw [fresh.noneAccepted]
    rfl
  connected _ := rfl
  writing := by
    change fresh.conn.channel.isWritting = true ↔ _
    simp [fresh.idle]

/-- In every run of the echo server's connection, all that came in has gone out again in
order, up to what `ouput_buffer_` still holds and, once the connection is not connected any
more, a rest that is never answered. The input buffer is empty between the events, and the
channel waits for writability exactly as long as there is output. -/
theorem echo_relays (cb : SteadyCallbacks) (fresh : Fresh) (events : List Event) (final : Link)
    (ran : run (EchoServer.step cb) fresh.link events = some final) :
    final.inputBuffer.peekAllAsString = some [] ∧
      ∃ pending missed, final.conn.ouputBuffer.peekAllAsString = some pending ∧
        final.conn.socket.accepted ++ pending ++ missed = final.received ∧
        (final.conn.state = .kConnected → missed = []) ∧
        (final.conn.channel.isWritting = true ↔
          final.conn.state ≠ .kDisConnected ∧ pending ≠ []) := by
  obtain ⟨pending, missed, echoing⟩ :=
    run_invariant (fun l => ∃ pending missed, Echoing [] l pending missed)
      (fun l event after ⟨_, _, echoing⟩ stepped => step_echoing echoing stepped)
      ⟨[], [], fresh.echoing⟩ ran
  exact ⟨ChainBuffer.peekAllAsString_represents echoing.input, pending, missed,
    ChainBuffer.peekAllAsString_represents echoing.output, echoing.stream, echoing.connected,
    echoing.writing⟩

def silent : SteadyCallbacks where
  toQuietCallbacks := OutputStream.silent
  writeComplete_steady _ := ⟨rfl, rfl, rfl⟩
  highWater_steady _ _ := ⟨rfl, rfl, rfl⟩

theorem one_byte_relayed : ∃ final,
    run (EchoServer.step silent) newConnection.link
      [.handleRead (.bytes [7]), .handleWrite (.count 1)] = some final ∧
    final.inputBuffer.peekAllAsString = some [] ∧
      ∃ pending missed, final.conn.ouputBuffer.peekAllAsString = some pending ∧
        final.conn.socket.accepted ++ pending ++ missed = final.received ∧
        (final.conn.state = .kConnected → missed = []) ∧
        (final.conn.channel.isWritting = true ↔
          final.conn.state ≠ .kDisConnected ∧ pending ≠ []) := by
  obtain ⟨final, ran⟩ : ∃ final, run (EchoServer.step silent) newConnection.link
      [.handleRead (.bytes [7]), .handleWrite (.count 1)] = some final := ⟨_, rfl⟩
  exact ⟨final, ran, echo_relays silent newConnection _ final ran⟩

/-- A peer that ends its stream cuts off its own echo: what `ouput_buffer_` holds when
`HandleRead` finds the end is never sent, in any further run. The peer gets all of its
bytes back exactly when the output was drained by then. -/
theorem echo_cut_at_end_of_stream (cb : SteadyCallbacks) (fresh : Fresh)
    (events later : List Event) (middle closed final : Link)
    (ran : run (EchoServer.step cb) fresh.link events = some middle)
    (connected : middle.conn.state = .kConnected)
    (ends : EchoServer.step cb middle (.handleRead (.bytes [])) = some closed)
    (further : run (EchoServer.step cb) closed later = some final) :
    (∃ pending, middle.conn.ouputBuffer.peekAllAsString = some pending ∧
      final.conn.socket.accepted ++ pending = middle.received) ∧
    (final.conn.socket.accepted = middle.received ↔ middle.conn.ouputBuffer.readableBytes = 0) := by
  obtain ⟨pending, missed, echoing⟩ :=
    run_invariant (fun l => ∃ pending missed, Echoing [] l pending missed)
      (fun l event after ⟨_, _, echoing⟩ stepped => step_echoing echoing stepped)
      ⟨[], [], fresh.echoing⟩ ran
  have stream := echoing.stream
  rw [echoing.connected connected, List.append_nil, List.nil_append] at stream
  have begun : Ended middle.conn closed := by
    obtain ⟨input, -, made⟩ := Option.bind_eq_some_iff.mp ends
    cases made
    exact ⟨⟨rfl, rfl⟩, rfl, Channel.isWritting_disableAll _⟩
  have ended := run_invariant (Ended middle.conn)
    (fun l event after ended stepped => handle_ended ended stepped) begun further
  have kept := ended.same.accepted
  refine ⟨⟨pending, ChainBuffer.peekAllAsString_represents echoing.output, by rw [kept, stream]⟩,
    ?_⟩
  rw [ByteQueue.represents_length echoing.output, List.length_eq_zero_iff, kept, ← stream]
  exact List.self_eq_append_right

/-- The peer sends a byte and ends its stream before the byte could go out again. -/
theorem one_byte_cut : ∃ middle closed final,
    run (EchoServer.step silent) newConnection.link [.handleRead (.bytes [7])] = some middle ∧
      middle.conn.state = .kConnected ∧
      EchoServer.step silent middle (.handleRead (.bytes [])) = some closed ∧
      run (EchoServer.step silent) closed [.handleWrite (.count 1)] = some final ∧
      (∃ pending, middle.conn.ouputBuffer.peekAllAsString = some pending ∧
        final.conn.socket.accepted ++ pending = middle.received) ∧
      (final.conn.socket.accepted = middle.received ↔
        middle.conn.ouputBuffer.readableBytes = 0) := by
  obtain ⟨middle, ran⟩ : ∃ middle, run (EchoServer.step silent) newConnection.link
      [.handleRead (.bytes [7])] = some middle := ⟨_, rfl⟩
  have connected : middle.conn.state = .kConnected := by
    cases ran
    rfl
  obtain ⟨closed, ends⟩ : ∃ closed,
      EchoServer.step silent middle (.handleRead (.bytes [])) = some closed := by
    cases ran
    exact ⟨_, rfl⟩
  obtain ⟨final, further⟩ : ∃ final,
      run (EchoServer.step silent) closed [.handleWrite (.count 1)] = some final := by
    cases ran
    cases ends
    exact ⟨_, rfl⟩
  exact ⟨middle, closed, final, ran, connected, ends, further,
    echo_cut_at_end_of_stream silent newConnection _ _ middle closed final ran connected ends
      further⟩

end Muzi.Relay
