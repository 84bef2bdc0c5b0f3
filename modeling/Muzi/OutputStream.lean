import Muzi.ByteQueue
import Muzi.TcpConnection

/-!
The output stream of one connection over whole runs: the bytes the kernel took,
followed by what the output buffer still holds, against the messages given to
`SendInLoop`. The direct write is where they can part: after a short write the
source appends `len` bytes from behind the part written, so bytes past the end
of the message enter the stream.
-/

namespace Muzi.OutputStream

open Storage TcpConnection Execution

/-- Callbacks that do not call `Send`: they leave the output buffer and the
bytes already handed to the kernel alone. -/
structure QuietCallbacks extends Callbacks where
  writeComplete_quiet : ∀ c, (writeComplete c).ouputBuffer = c.ouputBuffer ∧
    (writeComplete c).socket.accepted = c.socket.accepted
  highWater_quiet : ∀ c n, (highWater c n).ouputBuffer = c.ouputBuffer ∧
    (highWater c n).socket.accepted = c.socket.accepted

structure Filled where
  buffer : ChainBuffer
  bytes : List Byte
  holds : buffer.Represents bytes

structure Message where
  memory : Memory
  start : Nat
  len : Nat

def Message.bytes (m : Message) : List Byte := read m.memory m.start m.len

theorem Message.bytes_isPrefix (m : Message) {n : Nat} (inside : n ≤ m.len) :
    m.bytes <+: m.bytes.take n ++ read m.memory (m.start + n) m.len := by
  have split : m.bytes =
      read m.memory m.start n ++ read m.memory (m.start + n) (m.len - n) := by
    rw [← read_add, Nat.add_sub_cancel' inside, Message.bytes]
  have front : m.bytes.take n = read m.memory m.start n := by
    rw [split, List.take_left' (length_read _ _ _)]
  have longer := read_add m.memory (m.start + n) (m.len - n) n
  rw [Nat.sub_add_cancel inside] at longer
  refine ⟨read m.memory (m.start + n + (m.len - n)) n, ?_⟩
  rw [front, longer, ← List.append_assoc, ← split]

inductive Payload where
  | block (message : Message)
  | buffer (buf : Filled)

def Payload.bytes : Payload → List Byte
  | .block message => message.bytes
  | .buffer buf => buf.bytes

inductive Source where
  | bytes (data : List Byte)
  | buffer (buf : Filled)

def Source.grow : Source → ChainBuffer → Option ChainBuffer
  | .bytes data, output => output.append data
  | .buffer buf, output => output.appendBuffer buf.buffer

def Source.data : Source → List Byte
  | .bytes data => data
  | .buffer buf => buf.bytes

theorem source_grow_represents (source : Source) (b : ChainBuffer) (bytes : List Byte)
    (rep : b.Represents bytes) :
    ∃ after, source.grow b = some after ∧ after.Represents (bytes ++ source.data) := by
  cases source with
  | bytes data => exact ChainBuffer.append_represents rep data
  | buffer buf => exact ChainBuffer.appendBuffer_represents rep buf.holds

inductive Action where
  | send (cb : QuietCallbacks) (memory : Memory) (start len : Nat) (result : IoResult)
  | sendProxy (cb : QuietCallbacks) (memory : Memory) (str : StringProxy) (result : IoResult)
  | sendBuffer (cb : QuietCallbacks) (buf : Filled)
  | handleWrite (cb : QuietCallbacks) (result : IoResult)

def Action.message : Action → List Byte
  | .send _ memory start len _ => read memory start len
  | .sendProxy _ memory str _ => read memory str.ptr str.length
  | .sendBuffer _ buf => buf.bytes
  | .handleWrite _ _ => []

structure Stream where
  conn : TcpConnection
  /-- All messages passed to `SendInLoop`, in execution order. -/
  sent : List Byte

def Action.perform (c : TcpConnection) : Action → Option TcpConnection
  | .send cb memory start len result => c.sendInLoop cb.toCallbacks memory start len result
  | .sendProxy cb memory str result => c.sendProxyInLoop cb.toCallbacks memory str result
  | .sendBuffer cb buf => c.sendBufferInLoop cb.toCallbacks buf.buffer
  | .handleWrite cb result => c.handleWrite cb.toCallbacks result

def step (s : Stream) (action : Action) : Option Stream :=
  if s.conn.state = .kConnected ∨ s.conn.state = .kDisConnecting then
    (action.perform s.conn).map fun conn => ⟨conn, s.sent ++ action.message⟩
  else none

structure Opened where
  conn : TcpConnection
  noOutput : conn.ouputBuffer = ChainBuffer.init
  noneAccepted : conn.socket.accepted = []

def Opened.stream (opened : Opened) : Stream := ⟨opened.conn, []⟩

/-- The kernel's bytes followed by the readable output are the messages. -/
def Intact (s : Stream) : Prop :=
  s.conn.ouputBuffer.peekAllAsString.map (s.conn.socket.accepted ++ ·) = some s.sent

/-- The kernel's answer to a direct write, when one is attempted, takes nothing
or the whole message, and the count survives the conversion to `int`. -/
def WholeWrite (c : TcpConnection) (len : Nat) (result : IoResult) : Prop :=
  c.channel.isWritting = false → c.ouputBuffer.readableBytes = 0 →
    match result with
    | .error _ => True
    | .count n => n = 0 ∨ n = len ∧ n < 0x80000000

def NoShortWrite (s : Stream) : Action → Prop
  | .send _ _ _ len result => WholeWrite s.conn len result
  | .sendProxy _ _ str result => WholeWrite s.conn str.length result
  | .sendBuffer _ _ => True
  | .handleWrite _ _ => True

def Holds (c : TcpConnection) (stream : List Byte) : Prop :=
  ∃ bytes, c.ouputBuffer.Represents bytes ∧ c.socket.accepted ++ bytes = stream

theorem toInt_small (n : Nat) (small : n < 0x80000000) : toInt n = n :=
  Int.bmod_eq_of_le_mul_two (by omega) (by omega)

theorem toInt_lt (n : Nat) : toInt n < 0x80000000 := by
  have bound : toInt n < ((0x100000000 : Nat) + 1) / 2 := Int.bmod_lt (by decide)
  omega

theorem toInt_le (n : Nat) : toInt n ≤ n := by
  by_cases small : n < 0x80000000
  · exact Int.le_of_eq (toInt_small n small)
  · have := toInt_lt n
    omega

theorem growOutput_holds (grow : ChainBuffer → Option ChainBuffer) (c : TcpConnection)
    (stream data : List Byte) (holds : Holds c stream)
    (grows : ∀ b bytes, b.Represents bytes →
      ∃ after, grow b = some after ∧ after.Represents (bytes ++ data)) :
    ∃ after, c.growOutput grow = some after ∧ Holds after (stream ++ data) := by
  rcases holds with ⟨bytes, rep, rfl⟩
  rcases grows c.ouputBuffer bytes rep with ⟨output, grown, outputRep⟩
  rw [growOutput, grown]
  refine ⟨_, rfl, bytes ++ data, ?_, ?_⟩
  · dsimp only
    split <;> exact outputRep
  · rw [List.append_assoc]
    dsimp only
    split <;> rfl

theorem queueOutput_holds (cb : QuietCallbacks) (added : Nat)
    (grow : ChainBuffer → Option ChainBuffer) (c : TcpConnection) (stream data : List Byte)
    (holds : Holds c stream)
    (grows : ∀ b bytes, b.Represents bytes →
      ∃ after, grow b = some after ∧ after.Represents (bytes ++ data)) :
    ∃ after, c.queueOutput cb.toCallbacks added grow = some after ∧
      Holds after (stream ++ data) := by
  apply growOutput_holds grow _ stream data _ grows
  split
  · rcases cb.highWater_quiet c (c.ouputBuffer.readableBytes + added) with ⟨output, accepted⟩
    rw [Holds, output, accepted]
    exact holds
  · exact holds

theorem accepted_of_drained {c : TcpConnection} {stream : List Byte} (holds : Holds c stream)
    (drained : c.ouputBuffer.readableBytes = 0) :
    c.ouputBuffer.Represents [] ∧ c.socket.accepted = stream := by
  rcases holds with ⟨bytes, rep, rfl⟩
  have empty : bytes = [] :=
    List.length_eq_zero_iff.mp ((ByteQueue.represents_length rep).symm.trans drained)
  subst empty
  exact ⟨rep, (List.append_nil _).symm⟩

theorem toInt_whole (n len : Nat) :
    (toInt n).toNat ≤ n ∧ (n = len ∧ n < 0x80000000 ↔ n = len ∧ (toInt n).toNat = len) := by
  have below := toInt_le n
  have bound := toInt_lt n
  have exactly := toInt_small n
  omega

theorem directWrite_answer (memory : Memory) (start len : Nat) (result : IoResult)
    (c : TcpConnection) (socket : Socket) (ret : Int)
    (attempt : c.channel.isWritting = false ∧ c.ouputBuffer.readableBytes = 0)
    (wrote : write c.socket (read memory start len) result = some (socket, ret)) :
    c.directWrite memory start len result =
      some ({ c with socket := socket }, ret.toNat, len - ret.toNat) := by
  rw [directWrite, if_pos attempt, wrote]
  change (if ret > 0 then _ else _) = _
  by_cases positive : ret > 0
  · rw [if_pos positive]
  · have nothing : ret.toNat = 0 := by omega
    rw [if_neg positive, nothing, Nat.sub_zero]

theorem write_count (socket : Socket) (data : List Byte) (n : Nat) (offered : n ≤ data.length) :
    write socket data (.count n) =
      some ({ socket with accepted := socket.accepted ++ data.take n }, toInt n) := by
  rw [write, if_pos offered]

/-- The direct write moves a front part of `n` bytes into the stream; `written`
falls behind `n` only when the count does not fit an `int`. -/
theorem directWrite_holds (memory : Memory) (start len : Nat) (result : IoResult)
    (c after : TcpConnection) (written remaining : Nat) (stream : List Byte)
    (holds : Holds c stream)
    (wrote : c.directWrite memory start len result = some (after, written, remaining)) :
    ∃ n, Holds after (stream ++ (read memory start len).take n) ∧ written ≤ n ∧ n ≤ len ∧
      remaining = len - written ∧
      (WholeWrite c len result ↔ n = 0 ∨ n = len ∧ written = len) ∧
      ((∀ count, result = .count count → count < 0x80000000) → written = n) := by
  by_cases attempt : c.channel.isWritting = false ∧ c.ouputBuffer.readableBytes = 0
  · cases result with
    | error errno =>
        rw [directWrite_answer memory start len _ c c.socket (-1) attempt rfl] at wrote
        cases wrote
        exact ⟨0, by simpa using holds, by omega, by omega, by omega, by simp [WholeWrite],
          fun _ => rfl⟩
    | count n =>
        by_cases offered : n ≤ len
        · rw [directWrite_answer memory start len _ c _ _ attempt
            (write_count _ _ n (by rwa [length_read]))] at wrote
          simp only [Option.some.injEq, Prod.mk.injEq] at wrote
          rcases wrote with ⟨rfl, rfl, rfl⟩
          rcases accepted_of_drained holds attempt.2 with ⟨rep, rfl⟩
          rcases toInt_whole n len with ⟨below, whole⟩
          refine ⟨n, ⟨[], rep, List.append_nil _⟩, below, offered, rfl, ?_, ?_⟩
          · rw [← whole]
            simp [WholeWrite, attempt]
          · intro fits
            rw [toInt_small n (fits n rfl), Int.toNat_natCast]
        · simp [directWrite, attempt, write, offered] at wrote
  · rw [directWrite, if_neg attempt] at wrote
    cases wrote
    refine ⟨0, by simpa using holds, by omega, by omega, by omega, ?_, fun _ => rfl⟩
    simp only [WholeWrite, true_or, iff_true]
    intro quiet drained
    exact absurd ⟨quiet, drained⟩ attempt

/-- A send extends the stream by its message after a whole write, and by more
bytes than the message has after a short one. -/
theorem sendInLoop_holds (cb : QuietCallbacks) (memory : Memory) (start len : Nat)
    (result : IoResult) (c after : TcpConnection) (stream : List Byte)
    (connected : c.state ≠ .kDisConnected) (holds : Holds c stream)
    (sent : c.sendInLoop cb.toCallbacks memory start len result = some after) :
    ∃ data, Holds after (stream ++ data) ∧
      (WholeWrite c len result ∧ data = read memory start len ∨
        ¬WholeWrite c len result ∧ len < data.length) := by
  simp only [sendInLoop, if_neg connected, Option.bind_eq_bind, Option.bind_eq_some_iff] at sent
  rcases sent with ⟨⟨middle, written, remaining⟩, wrote, finished⟩
  rcases directWrite_holds memory start len result c middle written remaining stream holds wrote
    with ⟨n, middleHolds, below, offered, rfl, whole, -⟩
  dsimp only at finished
  generalize called : (if written > 0 ∧ len - written = 0 ∧ middle.writeCompleteCallback = true
    then cb.writeComplete middle else middle) = notified at finished
  have notifiedHolds : Holds notified (stream ++ (read memory start len).take n) := by
    rw [← called]
    split
    · rcases cb.writeComplete_quiet middle with ⟨output, accepted⟩
      rw [Holds, output, accepted]
      exact middleHolds
    · exact middleHolds
  by_cases rest : len - written > 0
  · rw [if_pos rest] at finished
    rcases queueOutput_holds cb (len - written)
      (fun output => output.append (read memory (start + written) len)) notified _
      (read memory (start + written) len) notifiedHolds
      (fun b bytes rep => ChainBuffer.append_represents rep _) with ⟨queued, ran, queuedHolds⟩
    cases ran.symm.trans finished
    refine ⟨(read memory start len).take n ++ read memory (start + written) len,
      by rwa [← List.append_assoc], ?_⟩
    rw [whole]
    by_cases none : n = 0
    · have unwritten : written = 0 := by omega
      exact .inl ⟨.inl none, by simp [none, unwritten]⟩
    · refine .inr ⟨by omega, ?_⟩
      simp only [List.length_append, List.length_take, length_read]
      omega
  · rw [if_neg rest] at finished
    cases finished
    refine ⟨_, notifiedHolds, .inl ⟨whole.mpr (by omega), ?_⟩⟩
    rw [List.take_of_length_le]
    rw [length_read]
    omega

theorem sendBufferInLoop_holds (cb : QuietCallbacks) (buf : Filled) (c after : TcpConnection)
    (stream : List Byte) (connected : c.state ≠ .kDisConnected) (holds : Holds c stream)
    (sent : c.sendBufferInLoop cb.toCallbacks buf.buffer = some after) :
    Holds after (stream ++ buf.bytes) := by
  rw [sendBufferInLoop, if_neg connected] at sent
  rcases queueOutput_holds cb buf.buffer.readableBytes
    (fun output => output.appendBuffer buf.buffer) c stream buf.bytes holds
    (fun b bytes rep => ChainBuffer.appendBuffer_represents rep buf.holds)
    with ⟨queued, ran, queuedHolds⟩
  cases ran.symm.trans sent
  exact queuedHolds

theorem drainOutput_holds (result : IoResult) (c after : TcpConnection) (drained : Bool)
    (stream : List Byte) (holds : Holds c stream)
    (wrote : c.drainOutput result = some (after, drained)) : Holds after stream := by
  rcases holds with ⟨bytes, rep, rfl⟩
  rcases ChainBuffer.writeFd_represents rep with ⟨vec, -, front, failed, took, refused⟩
  cases result with
  | error errno =>
      simp only [drainOutput, failed, Option.bind_eq_bind, Option.bind_some] at wrote
      cases wrote
      exact ⟨bytes, rep, by simp⟩
  | count n =>
      by_cases within : n ≤ vec.flatten.length
      · rcases took n within with ⟨output, ran, outputRep⟩
        simp only [drainOutput, ran, Option.bind_eq_bind, Option.bind_some] at wrote
        have split : c.socket.accepted ++ bytes.take n ++ bytes.drop n =
            c.socket.accepted ++ bytes := by
          rw [List.append_assoc, List.take_append_drop]
        by_cases empty : output.readableBytes = 0
        · rw [if_pos empty] at wrote
          cases wrote
          exact ⟨bytes.drop n, outputRep, split⟩
        · rw [if_neg empty] at wrote
          cases wrote
          exact ⟨bytes.drop n, outputRep, split⟩
      · simp [drainOutput, refused n (by omega)] at wrote

theorem finishWrite_holds (c : TcpConnection) (stream : List Byte) (holds : Holds c stream) :
    Holds c.finishWrite stream := by
  unfold finishWrite shutDownInLoop
  split
  · split <;> exact holds
  · exact holds

theorem handleWrite_holds (cb : QuietCallbacks) (result : IoResult) (c after : TcpConnection)
    (stream : List Byte) (holds : Holds c stream)
    (wrote : c.handleWrite cb.toCallbacks result = some after) : Holds after stream := by
  unfold handleWrite at wrote
  by_cases writing : c.channel.isWritting = true
  · simp only [writing, if_true, Option.bind_eq_bind, Option.bind_eq_some_iff] at wrote
    rcases wrote with ⟨⟨middle, drained⟩, ran, finished⟩
    have middleHolds := drainOutput_holds result c middle drained stream holds ran
    cases drained with
    | false =>
        cases finished
        exact middleHolds
    | true =>
        cases finished
        apply finishWrite_holds
        split
        · rcases cb.writeComplete_quiet middle with ⟨output, accepted⟩
          rw [Holds, output, accepted]
          exact middleHolds
        · exact middleHolds
  · rw [if_neg writing] at wrote
    cases wrote
    exact holds

theorem perform_holds (s : Stream) (action : Action) (after : TcpConnection) (stream : List Byte)
    (connected : s.conn.state ≠ .kDisConnected) (holds : Holds s.conn stream)
    (performed : action.perform s.conn = some after) :
    ∃ data, Holds after (stream ++ data) ∧
      (NoShortWrite s action ∧ data = action.message ∨
        ¬NoShortWrite s action ∧ action.message.length < data.length) := by
  cases action with
  | send cb memory start len result =>
      simpa [NoShortWrite, Action.message] using
        sendInLoop_holds cb memory start len result s.conn after stream connected holds performed
  | sendProxy cb memory str result =>
      simpa [NoShortWrite, Action.message] using
        sendInLoop_holds cb memory str.ptr str.length result s.conn after stream connected holds
          performed
  | sendBuffer cb buf =>
      exact ⟨buf.bytes,
        sendBufferInLoop_holds cb buf s.conn after stream connected holds performed,
        .inl ⟨trivial, rfl⟩⟩
  | handleWrite cb result =>
      have kept := handleWrite_holds cb result s.conn after stream holds performed
      exact ⟨[], by simpa using kept, .inl ⟨trivial, rfl⟩⟩

/-- The stream is the messages, or has outgrown them. -/
def Sound (s : Stream) : Prop :=
  ∃ stream, Holds s.conn stream ∧ (stream = s.sent ∨ s.sent.length < stream.length)

theorem intact_iff {s : Stream} {stream : List Byte} (holds : Holds s.conn stream) :
    Intact s ↔ stream = s.sent := by
  rcases holds with ⟨bytes, rep, rfl⟩
  rw [Intact, ChainBuffer.peekAllAsString_represents rep, Option.map_some, Option.some.injEq]

theorem step_inversion {s next : Stream} {action : Action} (stepped : step s action = some next) :
    s.conn.state ≠ .kDisConnected ∧ action.perform s.conn = some next.conn ∧
      next.sent = s.sent ++ action.message := by
  unfold step at stepped
  by_cases enabled : s.conn.state = .kConnected ∨ s.conn.state = .kDisConnecting
  · rw [if_pos enabled, Option.map_eq_some_iff] at stepped
    rcases stepped with ⟨conn, performed, rfl⟩
    refine ⟨?_, performed, rfl⟩
    rcases enabled with same | same <;> rw [same] <;> decide
  · rw [if_neg enabled] at stepped
    cases stepped

theorem step_sound (s : Stream) (action : Action) (next : Stream) (sound : Sound s)
    (stepped : step s action = some next) : Sound next := by
  rcases sound with ⟨stream, holds, relation⟩
  rcases step_inversion stepped with ⟨connected, performed, sent⟩
  rcases perform_holds s action next.conn stream connected holds performed
    with ⟨data, nextHolds, added⟩
  refine ⟨stream ++ data, nextHolds, ?_⟩
  have lengths : data = action.message ∨ action.message.length < data.length :=
    added.imp And.right And.right
  rw [sent]
  rcases relation with rfl | longer
  · rcases lengths with rfl | more
    · exact .inl rfl
    · exact .inr (by simpa using more)
  · have atLeast : action.message.length ≤ data.length := by
      rcases lengths with rfl | more <;> omega
    refine .inr ?_
    rw [List.length_append, List.length_append]
    omega

/-- The stream never heals: a step leaves it intact exactly when it was intact
and the step made no short direct write. -/
theorem step_intact (s : Stream) (action : Action) (next : Stream) (sound : Sound s)
    (stepped : step s action = some next) :
    Intact next ↔ Intact s ∧ NoShortWrite s action := by
  rcases sound with ⟨stream, holds, relation⟩
  rcases step_inversion stepped with ⟨connected, performed, sent⟩
  rcases perform_holds s action next.conn stream connected holds performed
    with ⟨data, nextHolds, added⟩
  rw [intact_iff holds, intact_iff nextHolds, sent]
  constructor
  · intro same
    have lengths := congrArg List.length same
    rw [List.length_append, List.length_append] at lengths
    rcases relation with rfl | longer
    · rcases added with ⟨whole, -⟩ | ⟨-, more⟩
      · exact ⟨rfl, whole⟩
      · omega
    · rcases added with ⟨-, rfl⟩ | ⟨-, more⟩ <;> omega
  · rintro ⟨rfl, whole⟩
    rcases added with ⟨-, rfl⟩ | ⟨short, -⟩
    · rfl
    · exact absurd whole short

theorem Opened.holds (opened : Opened) : Holds opened.conn [] :=
  ⟨[], by rw [opened.noOutput]; exact ChainBuffer.init_represents,
    by rw [opened.noneAccepted]; rfl⟩

/-- A connection right after `EstablishConnection`, without user callbacks. -/
def established : Opened where
  conn :=
    { state := .kConnected
      channel := Channel.init.enableReading
      socket := ⟨[], false⟩
      ouputBuffer := ChainBuffer.init
      highWaterMark := kHighWaterMark
      isReading := true
      messageCallback := true
      writeCompleteCallback := false
      highWaterCallback := false }
  noOutput := rfl
  noneAccepted := rfl

def silent : QuietCallbacks where
  writeComplete c := c
  highWater c _ := c
  writeComplete_quiet _ := ⟨rfl, rfl⟩
  highWater_quiet _ _ := ⟨rfl, rfl⟩

def counting : Memory := fun address => UInt8.ofNat (address + 1)

def queuedRun : List Action :=
  [.send silent counting 0 2 (.count 2), .send silent counting 2 3 (.error 11),
    .send silent counting 5 1 (.error 11), .handleWrite silent (.count 2)]

/-- After a short direct write of `n` bytes the stream goes on with `len` bytes
from behind them, `n` more than are left of the message. -/
theorem short_write_appends (cb : QuietCallbacks) (memory : Memory) (start len n : Nat)
    (c : TcpConnection) (stream : List Byte) (connected : c.state ≠ .kDisConnected)
    (holds : Holds c stream)
    (attempt : c.channel.isWritting = false ∧ c.ouputBuffer.readableBytes = 0)
    (short : n < len) (fits : n < 0x80000000) :
    ∃ after, c.sendInLoop cb.toCallbacks memory start len (.count n) = some after ∧
      Holds after
        (stream ++ ((read memory start len).take n ++ read memory (start + n) len)) := by
  have wrote := directWrite_answer memory start len (.count n) c _ _ attempt
    (write_count c.socket (read memory start len) n (by rw [length_read]; omega))
  rw [toInt_small n fits] at wrote
  rcases accepted_of_drained holds attempt.2 with ⟨rep, rfl⟩
  have rest : len - (n : Int).toNat > 0 := by omega
  have unfinished : ¬((n : Int).toNat > 0 ∧ len - (n : Int).toNat = 0 ∧
      c.writeCompleteCallback = true) := by omega
  rw [← List.append_assoc]
  simp only [sendInLoop, if_neg connected, wrote, Option.bind_eq_bind, Option.bind_some,
    if_neg unfinished, if_pos rest]
  exact queueOutput_holds cb _ _ _ _ _ ⟨[], rep, List.append_nil _⟩
    (fun b bytes rep => ChainBuffer.append_represents rep _)

end Muzi.OutputStream
