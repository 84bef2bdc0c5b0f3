import Muzi.Channel
import Muzi.ChainOperations
import Muzi.Integers

/-!
The loop-thread side of net/tcp_connection.cc: the three `SendInLoop`
overloads, `HandleWrite`, `HandleClose` and the half-close. The kernel's answer
to a `write` or `writev` and the effect of a user callback are arguments, so a
function is one straight pass through the source. `none` means that the
buffer, or the kernel's answer, is not one that can occur.
-/

namespace Muzi

open Storage

inductive ConnectionState where
  | kConnecting
  | kConnected
  | kDisConnected
  | kDisConnecting
  deriving DecidableEq

/-- The kernel's end of the socket: the bytes it took so far, and whether the
write side was shut down. -/
structure Socket where
  accepted : List Byte
  shutWr : Bool

structure TcpConnection where
  state : ConnectionState
  channel : Channel
  socket : Socket
  ouputBuffer : ChainBuffer
  highWaterMark : Nat
  isReading : Bool
  -- Whether a callback is set; what it does is an argument of the caller.
  messageCallback : Bool
  writeCompleteCallback : Bool
  highWaterCallback : Bool

structure StringProxy where
  ptr : Nat
  length : Nat

/-- `StringProxy(const char *ptr, int len)`, for a `size_t` as argument. -/
def StringProxy.ofSize (ptr len : Nat) : StringProxy where
  ptr := ptr
  length := Integers.IntType.uint64.pattern (Integers.IntType.int32.convert len)

namespace TcpConnection

def kHighWaterMark : Nat := 64 * 1024 * 1024

structure Callbacks where
  writeComplete : TcpConnection → TcpConnection
  highWater : TcpConnection → Nat → TcpConnection

/-- Conversion of a `ssize_t` to the `int` that `socket::Write` returns. -/
def toInt (n : Nat) : Int := (n : Int).bmod 0x100000000

/-- `socket::Write`: the kernel takes a front part of the data, and its count
comes back as an `int`. -/
def write (socket : Socket) (data : List Byte) : IoResult → Option (Socket × Int)
  | .error _ => some (socket, -1)
  | .count n =>
      if n ≤ data.length then
        some ({ socket with accepted := socket.accepted ++ data.take n }, toInt n)
      else none

def shutDownInLoop (c : TcpConnection) : TcpConnection :=
  if c.channel.isWritting then c else { c with socket := { c.socket with shutWr := true } }

/-- The attempt of `SendInLoop(const void *, size_t)` to write past an empty
output queue; returns `written` and `remaining`. -/
def directWrite (memory : Memory) (start len : Nat) (result : IoResult) (c : TcpConnection) :
    Option (TcpConnection × Nat × Nat) :=
  if c.channel.isWritting = false ∧ c.ouputBuffer.readableBytes = 0 then do
    let answer ← write c.socket (read memory start len) result
    if answer.2 > 0 then
      some ({ c with socket := answer.1 }, answer.2.toNat, len - answer.2.toNat)
    else
      some ({ c with socket := answer.1 }, 0, len)
  else some (c, 0, len)

/-- `added` more bytes reach the high-water mark, and someone wants to know. -/
def reachesHighWater (added : Nat) (c : TcpConnection) : Bool :=
  c.ouputBuffer.readableBytes + added ≥ c.highWaterMark &&
    c.ouputBuffer.readableBytes < c.highWaterMark && c.highWaterCallback

/-- The append to the output buffer, and the write interest. -/
def growOutput (grow : ChainBuffer → Option ChainBuffer) (c : TcpConnection) :
    Option TcpConnection := do
  let output ← grow c.ouputBuffer
  let c := { c with ouputBuffer := output }
  some (if c.channel.isWritting then c else { c with channel := c.channel.enableWritting })

/-- The common end of the `SendInLoop` overloads: the high-water check against
`added` more bytes, then the append. -/
def queueOutput (cb : Callbacks) (added : Nat) (grow : ChainBuffer → Option ChainBuffer)
    (c : TcpConnection) : Option TcpConnection :=
  growOutput grow
    (if c.reachesHighWater added then cb.highWater c (c.ouputBuffer.readableBytes + added) else c)

/-- `SendInLoop(const void *first, size_t len)`. -/
def sendInLoop (cb : Callbacks) (memory : Memory) (start len : Nat) (result : IoResult)
    (c : TcpConnection) : Option TcpConnection :=
  if c.state = .kDisConnected then some c else do
    let (c, written, remaining) ← c.directWrite memory start len result
    let c := if written > 0 ∧ remaining = 0 ∧ c.writeCompleteCallback then cb.writeComplete c else c
    if remaining > 0 then
      -- The source appends `len` bytes here, not `remaining`.
      c.queueOutput cb remaining fun output => output.append (read memory (start + written) len)
    else some c

def sendProxyInLoop (cb : Callbacks) (memory : Memory) (str : StringProxy) (result : IoResult)
    (c : TcpConnection) : Option TcpConnection :=
  c.sendInLoop cb memory str.ptr str.length result

/-- `SendInLoop(const Buffer &)` for a buffer other than the output buffer. -/
def sendBufferInLoop (cb : Callbacks) (buf : ChainBuffer) (c : TcpConnection) :
    Option TcpConnection :=
  if c.state = .kDisConnected then some c
  else c.queueOutput cb buf.readableBytes fun output => output.appendBuffer buf

/-- The first half of `HandleWrite` on a writing channel: `WriteFd`, and the
end of the write interest once the output is drained. -/
def drainOutput (result : IoResult) (c : TcpConnection) : Option (TcpConnection × Bool) := do
  let (output, taken) ← c.ouputBuffer.writeFd result
  let c := { c with
    ouputBuffer := output
    socket := { c.socket with accepted := c.socket.accepted ++ taken } }
  match result with
  | .error _ => some (c, false)
  | .count _ =>
      if output.readableBytes = 0 then
        some ({ c with channel := c.channel.disableWritting }, true)
      else some (c, false)

/-- The last lines of `HandleWrite`, after the write-complete callback. -/
def finishWrite (c : TcpConnection) : TcpConnection :=
  if c.state = .kDisConnecting then c.shutDownInLoop else c

def handleWrite (cb : Callbacks) (result : IoResult) (c : TcpConnection) : Option TcpConnection :=
  if c.channel.isWritting then do
    let (c, drained) ← c.drainOutput result
    if drained then
      some (if c.writeCompleteCallback then cb.writeComplete c else c).finishWrite
    else some c
  else some c

/-- What `HandleClose` does before it calls the user. The `assert` on `state_`
is compiled out. -/
def disconnect (c : TcpConnection) : TcpConnection :=
  { c with state := .kDisConnected, channel := c.channel.disableAll }

def establish (c : TcpConnection) : TcpConnection :=
  { c with state := .kConnected, channel := c.channel.enableReading }

def destroyConnection (c : TcpConnection) : TcpConnection :=
  let c := if c.state ≠ .kDisConnected then c.disconnect else c
  { c with channel := c.channel.remove }

def startReadInLoop (c : TcpConnection) : TcpConnection :=
  if (c.isReading = false ∨ c.channel.isReading = false) ∧ c.state ≠ .kConnecting ∧
      c.state ≠ .kDisConnected then
    { c with channel := c.channel.enableReading, isReading := true }
  else c

def stopReadInLoop (c : TcpConnection) : TcpConnection :=
  if (c.isReading = true ∨ c.channel.isReading = true) ∧ c.state ≠ .kDisConnected then
    { c with channel := c.channel.disableReading, isReading := false }
  else c

/-! What the pieces leave alone. -/

theorem directWrite_frame {memory : Memory} {start len : Nat} {result : IoResult}
    {c after : TcpConnection} {written remaining : Nat}
    (wrote : c.directWrite memory start len result = some (after, written, remaining)) :
    after.state = c.state ∧ after.channel = c.channel ∧ after.ouputBuffer = c.ouputBuffer ∧
      after.socket.shutWr = c.socket.shutWr := by
  unfold directWrite at wrote
  split at wrote
  · rcases Option.bind_eq_some_iff.mp wrote with ⟨⟨socket, ret⟩, answered, finished⟩
    have kept : socket.shutWr = c.socket.shutWr := by
      cases result with
      | error errno =>
          cases answered
          rfl
      | count n =>
          rw [write] at answered
          split at answered
          · cases answered
            rfl
          · cases answered
    split at finished <;> cases finished <;> exact ⟨rfl, rfl, rfl, kept⟩
  · cases wrote
    exact ⟨rfl, rfl, rfl, rfl⟩

theorem growOutput_frame {grow : ChainBuffer → Option ChainBuffer} {c after : TcpConnection}
    (grown : c.growOutput grow = some after) :
    after.state = c.state ∧ after.channel.isWritting = true ∧ after.socket = c.socket := by
  rcases Option.bind_eq_some_iff.mp grown with ⟨output, -, finished⟩
  dsimp only at finished
  split at finished
  · rename_i writing
    cases finished
    exact ⟨rfl, writing, rfl⟩
  · cases finished
    exact ⟨rfl, Channel.isWritting_enable _, rfl⟩

theorem drainOutput_frame {result : IoResult} {c after : TcpConnection} {drained : Bool}
    (writing : c.channel.isWritting = true)
    (wrote : c.drainOutput result = some (after, drained)) :
    after.state = c.state ∧ after.socket.shutWr = c.socket.shutWr ∧
      (after.channel.isWritting = false → after.ouputBuffer.readableBytes = 0) := by
  rcases Option.bind_eq_some_iff.mp wrote with ⟨⟨output, taken⟩, -, finished⟩
  have busy : c.channel.isWritting = false → output.readableBytes = 0 := by
    intro idle
    rw [writing] at idle
    cases idle
  cases result with
  | error errno =>
      cases finished
      exact ⟨rfl, rfl, busy⟩
  | count n =>
      dsimp only at finished
      split at finished
      · rename_i empty
        cases finished
        exact ⟨rfl, rfl, fun _ => empty⟩
      · cases finished
        exact ⟨rfl, rfl, busy⟩

theorem drainOutput_channel {result : IoResult} {c after : TcpConnection}
    (wrote : c.drainOutput result = some (after, false)) : after.channel = c.channel := by
  rcases Option.bind_eq_some_iff.mp wrote with ⟨⟨output, taken⟩, -, finished⟩
  cases result with
  | error errno =>
      cases finished
      rfl
  | count n =>
      dsimp only at finished
      split at finished
      · cases finished
      · cases finished
        rfl

theorem shutDownInLoop_frame (c : TcpConnection) :
    c.shutDownInLoop.state = c.state ∧ c.shutDownInLoop.channel = c.channel ∧
      c.shutDownInLoop.ouputBuffer = c.ouputBuffer ∧
      c.shutDownInLoop.socket.accepted = c.socket.accepted ∧
      c.shutDownInLoop.socket.shutWr = (c.socket.shutWr || !c.channel.isWritting) := by
  unfold shutDownInLoop
  cases writing : c.channel.isWritting <;> simp

theorem finishWrite_frame (c : TcpConnection) :
    c.finishWrite.state = c.state ∧ (c.socket.shutWr = false →
      (c.finishWrite.socket.shutWr = true ↔
        c.state = .kDisConnecting ∧ c.channel.isWritting = false)) := by
  unfold finishWrite
  split
  · rename_i leaving
    rcases shutDownInLoop_frame c with ⟨state, -, -, -, shut⟩
    refine ⟨state, fun before => ?_⟩
    simp [shut, before, leaving]
  · rename_i staying
    refine ⟨rfl, fun before => ?_⟩
    simp [before, staying]

end TcpConnection

end Muzi
