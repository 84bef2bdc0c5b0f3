import Muzi.ByteDeque
import Muzi.ByteQueue
import Muzi.ChainReading

/-!
net/buffer.h, which makes one of two classes the `Buffer` of the library: the include of
old_buffer.h is there beside that of chain_buffer.h, commented out. The calls that both
classes answer are answered alike, whichever is chosen. `UnWrite` is not among them, in
which a ChainBuffer may leave its blocks in the wrong order.
-/

namespace Muzi.BufferChoice

open Storage Execution
open ByteDeque (Outcome specify)
open ChainBuffer (Represents)
open OldBuffer (Holds)

inductive Op where
  | append (data : List Byte)
  | retrive (len : Nat)
  | retriveAll
  | retriveAsString (len : Nat)
  | retriveAllAsString
  | readFd (result : ReadResult)
  | writeFd (result : IoResult)
  deriving DecidableEq

def Op.legacy : Op → ByteDeque.Op
  | .append data => .append data
  | .retrive len => .retrive len
  | .retriveAll => .retriveAll
  | .retriveAsString len => .retriveAsString len
  | .retriveAllAsString => .retriveAllAsString
  | .readFd result => .readFd result
  | .writeFd result => .writeFd result

def perform (b : ChainBuffer) : Op → Option (Outcome ChainBuffer)
  | .append data => (b.append data).map (·, none)
  | .retrive len => (b.retrive len).map (·, none)
  | .retriveAll => b.retriveAll.map (·, none)
  | .retriveAsString len => (b.retriveAsString len).map fun result => (result.1, some result.2)
  | .retriveAllAsString => b.retriveAllAsString.map fun result => (result.1, some result.2)
  | .readFd result => (b.readFd result).map (·, none)
  | .writeFd result => (b.writeFd result).map fun written => (written.1, some written.2)

/-- The asserts of the ChainBuffer hold, and the kernel moves no more than it was offered. -/
def allowed (b : ChainBuffer) : Op → Bool
  | .retrive len | .retriveAsString len => decide (len ≤ b.readableBytes)
  | .readFd (.bytes data) => b.readRoom.any fun room => decide (data.length ≤ room)
  | .writeFd (.count n) =>
      (b.gather ChainBuffer.maxVecSize b.readBuffer b.readPos).any fun vec =>
        decide (n ≤ vec.flatten.length)
  | .append _ | .retriveAll | .retriveAllAsString | .readFd (.error _) | .writeFd (.error _) => true

theorem perform_represents {b : ChainBuffer} {bytes : List Byte} (rep : Represents b bytes)
    {op : Op} (within : allowed b op = true) :
    ∃ after, perform b op = some (after, (specify bytes op.legacy).2) ∧
      Represents after (specify bytes op.legacy).1 := by
  have count := ByteQueue.represents_length rep
  cases op with
  | append data =>
      obtain ⟨after, ran, grown⟩ := ChainBuffer.append_represents rep data
      exact ⟨after, by rw [perform, ran]; rfl, grown⟩
  | retrive len =>
      have available : len ≤ bytes.length := count ▸ of_decide_eq_true within
      obtain ⟨after, ran, rest⟩ := ChainBuffer.retrive_represents rep len available
      exact ⟨after, by rw [perform, ran]; rfl, rest⟩
  | retriveAll =>
      obtain ⟨after, ran, empty⟩ := ChainBuffer.retriveAll_represents rep
      exact ⟨after, by rw [perform, ran]; rfl, empty⟩
  | retriveAsString len =>
      have available : len ≤ bytes.length := count ▸ of_decide_eq_true within
      obtain ⟨after, ran, rest⟩ := ChainBuffer.retrive_represents rep len available
      have text := ChainBuffer.peekAsString_represents rep len available
      exact ⟨after,
        by simp [perform, ChainBuffer.retriveAsString, text, ran, Op.legacy, specify], rest⟩
  | retriveAllAsString =>
      obtain ⟨after, ran, empty⟩ := ChainBuffer.retriveAll_represents rep
      have text := ChainBuffer.peekAllAsString_represents rep
      exact ⟨after,
        by simp [perform, ChainBuffer.retriveAllAsString, text, ran, Op.legacy, specify], empty⟩
  | readFd result =>
      obtain ⟨room, offered, failed, delivered, -⟩ := ChainBuffer.readFd_represents rep
      cases result with
      | error errno => exact ⟨b, by rw [perform, failed]; rfl, rep⟩
      | bytes data =>
          have fits : data.length ≤ room := by simpa [allowed, offered] using within
          obtain ⟨after, ran, grown⟩ := delivered data fits
          exact ⟨after, by rw [perform, ran]; rfl, grown⟩
  | writeFd result =>
      obtain ⟨vec, gathered, -, failed, taken, -⟩ := ChainBuffer.writeFd_represents rep
      cases result with
      | error errno => exact ⟨b, by rw [perform, failed]; rfl, rep⟩
      | count n =>
          have fits : n ≤ vec.flatten.length := by simpa [allowed, gathered] using within
          obtain ⟨after, ran, rest⟩ := taken n fits
          exact ⟨after, by rw [perform, ran]; rfl, rest⟩

structure Both where
  old : OldBuffer
  chain : ChainBuffer
  oldReturned : List (Option (List Byte))
  chainReturned : List (Option (List Byte))

def step (both : Both) (op : Op) : Option Both := do
  let (old, oldText) ← ByteDeque.perform both.old op.legacy
  let (chain, chainText) ← perform both.chain op
  some ⟨old, chain, both.oldReturned ++ [oldText], both.chainReturned ++ [chainText]⟩

/-- The call keeps to the bounds of both classes. -/
def Proper (both : Both) (op : Op) : Prop :=
  ByteDeque.Allowed both.old op.legacy ∧ ByteDeque.Fits both.old op.legacy ∧
    allowed both.chain op = true

instance (both : Both) (op : Op) : Decidable (Proper both op) :=
  inferInstanceAs (Decidable (_ ∧ _ ∧ _))

def Alike (both : Both) : Prop :=
  (∃ bytes, Holds both.old bytes ∧ Represents both.chain bytes) ∧
    both.oldReturned = both.chainReturned

theorem step_alike {both : Both} (alike : Alike both) {op : Op} (proper : Proper both op) :
    ∃ next, step both op = some next ∧ Alike next := by
  obtain ⟨⟨bytes, holds, rep⟩, same⟩ := alike
  obtain ⟨within, fits, offered⟩ := proper
  obtain ⟨old, first, oldHolds⟩ := ByteDeque.perform_holds holds within fits
  obtain ⟨chain, second, chainRep⟩ := perform_represents rep offered
  refine ⟨_, by rw [step, first, second]; rfl, ⟨_, oldHolds, chainRep⟩, ?_⟩
  exact congrArg (· ++ [(specify bytes op.legacy).2]) same

/-- Whatever calls come that keep to the bounds of both classes: both answer them, hand out the
same strings, and are left with the same bytes. -/
theorem buffers_interchangeable (initialBufferNum : Nat) (positive : 0 < initialBufferNum) :
    ∃ fresh, OldBuffer.init initialBufferNum = some fresh ∧
      ∀ ops, Along step Proper ⟨fresh, ChainBuffer.init, [], []⟩ ops →
        ∃ final, run step ⟨fresh, ChainBuffer.init, [], []⟩ ops = some final ∧
          final.oldReturned = final.chainReturned ∧
          final.old.readableBytes = final.chain.readableBytes ∧
          ∃ bytes, final.old.peekAllAsString = some bytes ∧
            final.chain.peekAllAsString = some bytes := by
  obtain ⟨fresh, made, empty⟩ := OldBuffer.init_holds positive
  refine ⟨fresh, made, fun ops proper => ?_⟩
  have start : Alike ⟨fresh, ChainBuffer.init, [], []⟩ :=
    ⟨⟨[], empty, ChainBuffer.init_represents⟩, rfl⟩
  -- There is nothing to compare with but the other buffer.
  obtain ⟨final, ran, ⟨bytes, holds, rep⟩, same⟩ :=
    run_related_along (fun nothing _ => nothing) (fun both (_ : Unit) => Alike both)
      (fun _ _ _ alike proper => step_alike alike proper) () start proper
  have count := holds.readableBytes.trans (ByteQueue.represents_length rep).symm
  exact ⟨final, ran, same, count, bytes, OldBuffer.peekAllAsString_holds holds,
    ChainBuffer.peekAllAsString_represents rep⟩

def exchange : List Op :=
  [.readFd (.bytes [3, 4, 5]), .append [6], .writeFd (.count 1), .retriveAsString 2,
    .append [7, 8], .retrive 1, .writeFd (.error 11)]

theorem exchange_alike : ∃ fresh final, OldBuffer.init 1 = some fresh ∧
    run step ⟨fresh, ChainBuffer.init, [], []⟩ exchange = some final ∧
      final.chainReturned = [none, none, some [3], some [4, 5], none, none, some []] ∧
      final.oldReturned = final.chainReturned ∧
      final.old.readableBytes = final.chain.readableBytes ∧
      ∃ bytes, final.old.peekAllAsString = some bytes ∧
        final.chain.peekAllAsString = some bytes := by
  obtain ⟨fresh, made, interchangeable⟩ := buffers_interchangeable 1 (by decide)
  obtain ⟨same, again, proper, evaluated⟩ : ∃ made, OldBuffer.init 1 = some made ∧
      Along step Proper ⟨made, ChainBuffer.init, [], []⟩ exchange ∧
      (run step ⟨made, ChainBuffer.init, [], []⟩ exchange).map Both.chainReturned =
        some [none, none, some [3], some [4, 5], none, none, some []] :=
    ⟨_, rfl, by decide +kernel, by decide +kernel⟩
  cases made.symm.trans again
  obtain ⟨final, ran, alike⟩ := interchangeable exchange proper
  rw [ran, Option.map_some, Option.some.injEq] at evaluated
  exact ⟨fresh, final, made, ran, evaluated, alike⟩

end Muzi.BufferChoice
