import Muzi.ShutdownSystem

/-!
The data plane of the shutdown system. One call is tracked through the output
stream: the kernel's bytes followed by the output buffer. A settled call lies
between two marks of the stream, an interrupted one has its front part there
and the rest in its frame. When `SHUT_WR` is issued the output buffer is empty,
so the kernel has every settled call.
-/

namespace Muzi.GracefulShutdown

open Storage TcpConnection Execution
open OutputStream (Holds Message Payload Source source_grow_represents)

structure Content (k : Nat) (s : System) (stream : List Byte) : Prop where
  holds : Holds s.conn stream
  writing : s.conn.channel.isWritting = false → s.conn.ouputBuffer.readableBytes = 0
  /-- A settled call lies between its marks. -/
  settled : ∀ first last, s.placeOf k = some (first, last) → last ≤ stream.length ∧
    ∃ thread bytes, s.givenOf k = some (thread, bytes) ∧
      bytes.Sublist ((stream.take last).drop first)
  /-- An open call has its front part in the stream and the rest in its frame. -/
  open_ : ∀ first source, .appending k first source ∈ s.frames → first ≤ stream.length ∧
    ∃ thread bytes front, s.givenOf k = some (thread, bytes) ∧
      front.Sublist (stream.drop first) ∧ bytes.Sublist (front ++ source.data)
  queued : ∀ message, .sendInLoop k message ∈ s.loop.pending →
    ∃ thread, s.givenOf k = some (some thread, message.bytes)
  sending : ∀ thread message, s.threads thread = .sending k message →
    s.givenOf k = some (some thread, message.bytes)

theorem Content.written_eq {k : Nat} {s : System} {stream : List Byte}
    (content : Content k s stream) : written s.conn = stream.length := by
  rcases content.holds with ⟨bytes, rep, rfl⟩
  rw [written, ByteQueue.represents_length rep, List.length_append]

theorem Content.grow {k : Nat} {s : System} {stream : List Byte} (content : Content k s stream)
    (conn : TcpConnection) (data : List Byte) (holds : Holds conn (stream ++ data))
    (writing : conn.channel.isWritting = false → conn.ouputBuffer.readableBytes = 0) :
    Content k { s with conn := conn } (stream ++ data) where
  holds := holds
  writing := writing
  settled first last place := by
    rcases content.settled first last place with ⟨inside, thread, bytes, given, within⟩
    refine ⟨by rw [List.length_append]; omega, thread, bytes, given, ?_⟩
    rwa [List.take_append_of_le_length inside]
  open_ first source member := by
    rcases content.open_ first source member with
      ⟨inside, thread, bytes, front, given, before, within⟩
    refine ⟨by rw [List.length_append]; omega, thread, bytes, front, given, ?_, within⟩
    rw [List.drop_append_of_le_length inside]
    exact before.trans (List.sublist_append_left _ _)
  queued := content.queued
  sending := content.sending

theorem Content.settle {k : Nat} {s : System} {stream : List Byte} (content : Content k s stream)
    (j first : Nat)
    (complete : j = k → ∃ thread bytes, s.givenOf k = some (thread, bytes) ∧
      bytes.Sublist (stream.drop first)) :
    Content k (s.settle j first) stream where
  holds := content.holds
  writing := content.writing
  settled start last place := by
    rw [System.settle_place] at place
    rw [System.settle_given]
    by_cases mine : j = k ∧ k < s.calls.length
    · rw [if_pos mine, content.written_eq] at place
      cases place
      refine ⟨Nat.le_refl _, ?_⟩
      rw [List.take_length]
      exact complete mine.1
    · rw [if_neg mine] at place
      exact content.settled start last place
  open_ start source member := by
    rw [System.settle_given]
    exact content.open_ start source member
  queued message member := by
    rw [System.settle_given]
    exact content.queued message member
  sending thread message pc := by
    rw [System.settle_given]
    exact content.sending thread message pc

structure Handled (k j : Nat) (s next : System) : Prop where
  loop : next.loop = s.loop
  threads : next.threads = s.threads
  state : next.conn.state = s.conn.state
  shut : next.conn.socket.shutWr = s.conn.socket.shutWr
  given : next.givenOf k = s.givenOf k
  late : next.lateOf k = s.lateOf k
  frames : ∀ frame ∈ s.frames, frame ∈ next.frames
  waiting : next.Waiting k → s.Waiting k ∧
    (j = k → ∃ first source, .appending k first source ∈ next.frames)

/-- Call `j`, if it is the tracked one, has in the stream behind `first` what is
not in `source`. -/
def Missing (k : Nat) (s : System) (stream : List Byte) (j first : Nat) (source : Source) : Prop :=
  j = k → first ≤ stream.length ∧ ∃ thread bytes front, s.givenOf k = some (thread, bytes) ∧
    front.Sublist (stream.drop first) ∧ bytes.Sublist (front ++ source.data)

theorem settle_handled (k j first : Nat) (s : System) (conn : TcpConnection)
    (state : conn.state = s.conn.state) (shut : conn.socket.shutWr = s.conn.socket.shutWr) :
    Handled k j s (({ s with conn := conn } : System).settle j first) := by
  constructor
  · rfl
  · rfl
  · exact state
  · exact shut
  · exact System.settle_given _ _ _ _
  · exact System.settle_late _ _ _ _
  · exact fun _ member => member
  · intro waits
    rcases (System.settle_waiting _ _ _ _).mp waits with ⟨before, other⟩
    exact ⟨before, fun mine => absurd mine other⟩

theorem append_spec {k j first : Nat} {s next : System} {stream : List Byte} {source : Source}
    (content : Content k s stream) (missing : Missing k s stream j first source)
    (appended : s.append j first source = some next) :
    (∃ later, Content k next later) ∧ Handled k j s next := by
  rcases Option.map_eq_some_iff.mp appended with ⟨conn, grown, rfl⟩
  rcases growOutput_frame grown with ⟨state, writing, socket⟩
  rcases OutputStream.growOutput_holds source.grow s.conn stream source.data content.holds
    (source_grow_represents source) with ⟨after, same, holds⟩
  cases grown.symm.trans same
  constructor
  · refine ⟨_, (content.grow conn source.data holds (by simp [writing])).settle j first ?_⟩
    intro mine
    rcases missing mine with ⟨inside, thread, bytes, front, given, before, within⟩
    refine ⟨thread, bytes, given, ?_⟩
    rw [List.drop_append_of_le_length inside]
    exact within.trans (before.append_right source.data)
  · exact settle_handled k j first s conn state (congrArg Socket.shutWr socket)

theorem queue_spec {k j first added : Nat} {s next : System} {stream : List Byte} {source : Source}
    (content : Content k s stream) (missing : Missing k s stream j first source)
    (queued : s.queue j first added source = some next) :
    (∃ later, Content k next later) ∧ Handled k j s next := by
  unfold System.queue at queued
  split at queued
  · -- The high-water callback runs first; the append waits in a frame.
    cases queued
    constructor
    · refine ⟨stream, { content with open_ := ?_ }⟩
      intro start rest member
      rcases List.mem_cons.mp member with new | old
      · cases new
        exact missing rfl
      · exact content.open_ start rest old
    · constructor
      · rfl
      · rfl
      · rfl
      · rfl
      · rfl
      · rfl
      · exact fun _ member => List.mem_cons_of_mem _ member
      · intro waits
        refine ⟨waits, fun mine => ?_⟩
        subst mine
        exact ⟨first, source, List.mem_cons_self⟩
  · exact append_spec content missing queued

/-- Behind a direct write of `n` bytes, of which `sent` were noticed, the source
appends everything from `sent` on. -/
theorem block_covered (m : Message) (n sent : Nat) (noticed : sent ≤ n) (inside : sent ≤ m.len) :
    m.bytes.Sublist (m.bytes.take n ++ read m.memory (m.start + sent) m.len) := by
  have front : (m.bytes.take sent).Sublist (m.bytes.take n) :=
    (List.take_prefix_take_left noticed).sublist
  exact (m.bytes_isPrefix inside).sublist.trans (front.append_right _)

theorem Handled.of_conn {k j : Nat} {s next : System} {conn : TcpConnection}
    (handled : Handled k j { s with conn := conn } next) (state : conn.state = s.conn.state)
    (shut : conn.socket.shutWr = s.conn.socket.shutWr) : Handled k j s next :=
  { handled with
    state := handled.state.trans state
    shut := handled.shut.trans shut }

theorem sendInLoop_spec {k j : Nat} {s next : System} {stream : List Byte} {payload : Payload}
    {result : IoResult} (content : Content k s stream)
    (connected : s.conn.state ≠ .kDisConnected)
    (known : j = k → ∃ thread, s.givenOf k = some (thread, payload.bytes))
    (sent : s.sendInLoop j payload result = some next) :
    (∃ later, Content k next later) ∧ Handled k j s next := by
  unfold System.sendInLoop at sent
  rw [if_neg connected, content.written_eq] at sent
  cases payload with
  | buffer buf =>
      apply queue_spec content _ sent
      intro mine
      rcases known mine with ⟨thread, given⟩
      exact ⟨Nat.le_refl _, thread, buf.bytes, [], given, List.nil_sublist _, List.Sublist.refl _⟩
  | block m =>
      rcases Option.bind_eq_some_iff.mp sent with ⟨⟨conn, noticed, remaining⟩, wrote, finished⟩
      rcases directWrite_frame wrote with ⟨state, channel, output, shut⟩
      rcases OutputStream.directWrite_holds _ _ _ _ _ _ _ _ stream content.holds wrote
        with ⟨n, holds, below, inside, rfl, -, -⟩
      have grown := content.grow conn (m.bytes.take n) holds (by
        rw [channel, output]
        exact content.writing)
      have behind : (stream ++ m.bytes.take n).drop stream.length = m.bytes.take n :=
        List.drop_left
      dsimp only at finished
      split at finished
      · have parts := queue_spec grown (by
          intro mine
          rcases known mine with ⟨thread, given⟩
          refine ⟨by simp, thread, m.bytes, m.bytes.take n, given, ?_, ?_⟩
          · rw [behind]
          · exact block_covered m n noticed below (by omega)) finished
        exact ⟨parts.1, parts.2.of_conn state shut⟩
      · rename_i complete
        cases finished
        constructor
        · refine ⟨_, grown.settle j stream.length ?_⟩
          intro mine
          rcases known mine with ⟨thread, given⟩
          refine ⟨thread, m.bytes, given, ?_⟩
          rw [behind, List.take_of_length_le]
          rw [Message.bytes, length_read]
          omega
        · exact settle_handled k j stream.length s conn state shut

/-! Issuing `SHUT_WR`: the kernel has all settled calls by then. -/

structure Closing (c conn : TcpConnection) : Prop where
  channel : conn.channel = c.channel
  output : conn.ouputBuffer = c.ouputBuffer
  accepted : conn.socket.accepted = c.socket.accepted
  quiet : conn.socket.shutWr = true → c.socket.shutWr = false → c.channel.isWritting = false

theorem closing_shutDown (c : TcpConnection) (state : ConnectionState) :
    Closing c ({ c with state := state } : TcpConnection).shutDownInLoop := by
  rcases shutDownInLoop_frame { c with state := state } with
    ⟨-, channel, output, accepted, shut⟩
  refine ⟨channel, output, accepted, ?_⟩
  intro issued before
  rw [shut] at issued
  simpa [before] using issued

theorem Content.issue {k : Nat} {s : System} {stream : List Byte} (content : Content k s stream)
    {conn : TcpConnection} (closing : Closing s.conn conn) : Content k (s.issue conn) stream where
  holds := by
    rcases content.holds with ⟨bytes, rep, same⟩
    exact ⟨bytes, closing.output ▸ rep, closing.accepted ▸ same⟩
  writing idle := by
    change conn.channel.isWritting = false at idle
    change conn.ouputBuffer.readableBytes = 0
    rw [closing.channel] at idle
    rw [closing.output]
    exact content.writing idle
  settled first last place := by
    rw [System.issue_place] at place
    rw [System.issue_given]
    exact content.settled first last place
  open_ first source member := by
    rw [System.issue_given]
    exact content.open_ first source member
  queued message member := by
    rw [System.issue_given]
    exact content.queued message member
  sending thread message pc := by
    rw [System.issue_given]
    exact content.sending thread message pc

/-- When `SHUT_WR` is issued, exactly the calls that still wait become late. -/
theorem Content.issue_late {k : Nat} {s : System} {stream : List Byte}
    (content : Content k s stream) {conn : TcpConnection} (closing : Closing s.conn conn) :
    (s.issue conn).lateOf k = true ↔ s.lateOf k = true ∨
      (conn.socket.shutWr = true ∧ s.conn.socket.shutWr = false) ∧ s.Waiting k := by
  rw [System.lateOf, System.issue_call, System.lateOf]
  cases found : s.calls[k]? with
  | none =>
      have outside : ¬s.Waiting k := by
        intro waits
        exact absurd waits.1 (Nat.not_lt.mpr (List.getElem?_eq_none_iff.mp found))
      simp [outside]
  | some call =>
      have inside : k < s.calls.length := (List.getElem?_eq_some_iff.mp found).1
      by_cases issued : conn.socket.shutWr = true ∧ s.conn.socket.shutWr = false
      · have idle := content.writing (closing.quiet issued.1 issued.2)
        rcases OutputStream.accepted_of_drained content.holds idle with ⟨-, drained⟩
        have handed : call.Handed conn.socket.accepted ↔ ¬s.Waiting k := by
          rw [closing.accepted, drained]
          have place : s.placeOf k = call.place := by simp [System.placeOf, found]
          cases marks : call.place with
          | none => simp [Call.Handed, marks, System.Waiting, inside, place]
          | some pair =>
              rcases content.settled pair.1 pair.2 (place.trans marks) with
                ⟨within, thread, bytes, given, covered⟩
              have same : call.bytes = bytes := by
                simp only [System.givenOf, found, Option.map_some, Option.some.injEq,
                  Prod.mk.injEq] at given
                exact given.2
              simp [Call.Handed, marks, System.Waiting, place, same, within, covered]
        simp [issued, Call.atShutDown, handed]
      · have unchanged : (conn.socket.shutWr && !s.conn.socket.shutWr) = false := by
          simpa using issued
        simp [unchanged, issued]

end Muzi.GracefulShutdown
