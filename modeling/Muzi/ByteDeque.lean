import Muzi.OldBufferRoom
import Muzi.Execution

/-!
The legacy buffer against a deque of bytes. A deque grows and shrinks at both
ends; the buffer does so as long as the calls keep to their asserts, the kernel
to what it was offered, and the numbers of blocks to `int`.
-/

namespace Muzi.ByteDeque

open Storage OldBuffer Execution

inductive Op where
  | append (data : List Byte)
  | prepend (data : List Byte)
  | retrive (len : Nat)
  | retriveAll
  -- up to the iterator `cbegin() + len`
  | retriveUtil (len : Nat)
  | retriveAsString (len : Nat)
  | retriveAllAsString
  | unWrite (len : Nat)
  | ensureWritableBytes (len : Nat)
  | readFd (result : ReadResult)
  | writeFd (result : IoResult)
  deriving DecidableEq

/-- What a call leaves, and the string it hands back or to the kernel. -/
abbrev Outcome (Content : Type) := Content × Option (List Byte)

def perform (b : OldBuffer) : Op → Option (Outcome OldBuffer)
  | .append data => (b.append data).map (·, none)
  | .prepend data => (b.prepend data).map (·, none)
  | .retrive len => (b.retrive len).map (·, none)
  | .retriveAll => b.retriveAll.map (·, none)
  | .retriveUtil len =>
      ((b.readIndex.advance b.bufferList.length len).bind b.retriveUtil).map (·, none)
  | .retriveAsString len => (b.retriveAsString len).map fun result => (result.1, some result.2)
  | .retriveAllAsString => b.retriveAllAsString.map fun result => (result.1, some result.2)
  | .unWrite len => (b.unWrite len).map (·, none)
  | .ensureWritableBytes len => (b.ensureWritableBytes len).map (·, none)
  | .readFd result => (b.readFd result).map (·, none)
  | .writeFd result => (b.writeFd result).map fun written => (written.1, some written.2)

def specify (deque : List Byte) : Op → Outcome (List Byte)
  | .append data => (deque ++ data, none)
  | .prepend data => (data ++ deque, none)
  | .retrive len => (deque.drop len, none)
  | .retriveAll => ([], none)
  | .retriveUtil len => (deque.drop len, none)
  | .retriveAsString len => (deque.drop len, some (deque.take len))
  | .retriveAllAsString => ([], some deque)
  | .unWrite len => (deque.take (deque.length - len), none)
  | .ensureWritableBytes _ => (deque, none)
  | .readFd (.error _) => (deque, none)
  | .readFd (.bytes data) => (deque ++ data, none)
  | .writeFd (.error _) => (deque, some [])
  | .writeFd (.count n) => (deque.drop n, some (deque.take n))

/-- The asserts hold, and the kernel moves no more bytes than it was offered. -/
def Allowed (b : OldBuffer) : Op → Prop
  | .retrive len | .retriveUtil len | .retriveAsString len | .unWrite len
  | .writeFd (.count len) => len ≤ b.readableBytes
  | .prepend data => data.length ≤ b.getPrependableBytes
  | .readFd (.bytes data) => data.length ≤ b.writableBytes + kExtraBufferSize
  | .append _ | .retriveAll | .retriveAllAsString | .ensureWritableBytes _ | .readFd (.error _)
  | .writeFd (.error _) => True

/-- The loop of `EnsureWritableBytes` ends with room, and the numbers of iovecs are `int`s. -/
def Fits (b : OldBuffer) : Op → Prop
  | .append data => b.Roomy data.length
  | .ensureWritableBytes len => b.Roomy len
  | .readFd (.error _) => b.bufferList.length - b.writeIndex.block < 0x80000000
  | .readFd (.bytes data) => b.bufferList.length - b.writeIndex.block < 0x80000000 ∧
      (data.length ≤ b.writableBytes ∨ b.full.Roomy (data.length - b.writableBytes))
  | .writeFd _ => b.writeIndex.block - b.readIndex.block + 1 < 0x80000000
  | .prepend _ | .retrive _ | .retriveAll | .retriveUtil _ | .retriveAsString _
  | .retriveAllAsString | .unWrite _ => True

structure Session (Content : Type) where
  content : Content
  returned : List (Option (List Byte))

def Session.commit {Content : Type} (session : Session Content) (outcome : Outcome Content) :
    Session Content := ⟨outcome.1, session.returned ++ [outcome.2]⟩

def bufferStep (session : Session OldBuffer) (op : Op) : Option (Session OldBuffer) :=
  (perform session.content op).map session.commit

def dequeStep (session : Session (List Byte)) (op : Op) : Session (List Byte) :=
  session.commit (specify session.content op)

/-- The call keeps to its bounds. -/
def Proper (session : Session OldBuffer) (op : Op) : Prop :=
  Allowed session.content op ∧ Fits session.content op

instance (b : OldBuffer) (op : Op) : Decidable (Allowed b op) :=
  match op with
  | .retrive _ | .retriveUtil _ | .retriveAsString _ | .unWrite _ | .writeFd (.count _)
  | .prepend _ | .readFd (.bytes _) => inferInstanceAs (Decidable (_ ≤ _))
  | .append _ | .retriveAll | .retriveAllAsString | .ensureWritableBytes _ | .readFd (.error _)
  | .writeFd (.error _) => isTrue trivial

instance (b : OldBuffer) (op : Op) : Decidable (Fits b op) :=
  match op with
  | .append _ | .ensureWritableBytes _ => inferInstanceAs (Decidable (b.Roomy _))
  | .readFd (.bytes _) => inferInstanceAs (Decidable (_ < _ ∧ (_ ∨ _)))
  | .readFd (.error _) | .writeFd _ => inferInstanceAs (Decidable (_ < _))
  | .prepend _ | .retrive _ | .retriveAll | .retriveUtil _ | .retriveAsString _
  | .retriveAllAsString | .unWrite _ => isTrue trivial

instance (session : Session OldBuffer) (op : Op) : Decidable (Proper session op) :=
  inferInstanceAs (Decidable (_ ∧ _))

theorem perform_holds {b : OldBuffer} {bytes : List Byte} (holds : Holds b bytes) {op : Op}
    (allowed : Allowed b op) (fits : Fits b op) :
    ∃ after, perform b op = some (after, (specify bytes op).2) ∧
      Holds after (specify bytes op).1 := by
  have count := holds.readableBytes
  cases op with
  | append data =>
      obtain ⟨after, ran, grown⟩ := append_holds _ (holds.grows fits)
      exact ⟨after, by rw [perform, ran]; rfl, grown⟩
  | prepend data =>
      obtain ⟨after, ran, grown⟩ := prepend_holds holds data allowed
      exact ⟨after, by rw [perform, ran]; rfl, grown⟩
  | retrive len =>
      obtain ⟨after, ran, rest⟩ := retrive_holds holds len (count ▸ allowed)
      exact ⟨after, by rw [perform, ran]; rfl, rest⟩
  | retriveAll =>
      obtain ⟨after, ran, empty⟩ := retriveAll_holds holds
      exact ⟨after, by rw [perform, ran]; rfl, empty⟩
  | retriveUtil len =>
      obtain ⟨util, moved, place, inside, -⟩ := holds.advanceRead len (count ▸ allowed)
      obtain ⟨after, ran, rest⟩ := retriveUtil_holds holds place inside (count ▸ allowed)
      exact ⟨after, by rw [perform, moved, Option.bind_some, ran]; rfl, rest⟩
  | retriveAsString len =>
      obtain ⟨after, ran, rest⟩ := retriveAsString_holds holds len (count ▸ allowed)
      exact ⟨after, by rw [perform, ran]; rfl, rest⟩
  | retriveAllAsString =>
      obtain ⟨after, ran, empty⟩ := retriveAllAsString_holds holds
      exact ⟨after, by rw [perform, ran]; rfl, empty⟩
  | unWrite len =>
      obtain ⟨after, ran, rest⟩ := unWrite_holds holds len (count ▸ allowed)
      exact ⟨after, by rw [perform, ran]; rfl, rest⟩
  | ensureWritableBytes len =>
      obtain ⟨after, ran, still, -⟩ := holds.grows fits
      exact ⟨after, by rw [perform, ran]; rfl, still⟩
  | readFd result =>
      cases result with
      | error errno => exact ⟨b, by rw [perform, readFd_error holds fits]; rfl, holds⟩
      | bytes data =>
          obtain ⟨after, ran, grown⟩ := readFd_holds holds data fits.1 allowed
            (fits.2.imp_right fun roomy blocks other same full => full.grows (roomy.congr same))
          exact ⟨after, by rw [perform, ran]; rfl, grown⟩
  | writeFd result =>
      cases result with
      | error errno => exact ⟨b, by rw [perform, writeFd_error holds fits]; rfl, holds⟩
      | count n =>
          obtain ⟨after, ran, rest⟩ := writeFd_holds holds fits n (count ▸ allowed)
          exact ⟨after, by rw [perform, ran]; rfl, rest⟩

def Related (session : Session OldBuffer) (deque : Session (List Byte)) : Prop :=
  Holds session.content deque.content ∧ session.returned = deque.returned

theorem step_related {session : Session OldBuffer} {deque : Session (List Byte)}
    (related : Related session deque) {op : Op} (proper : Proper session op) :
    ∃ next, bufferStep session op = some next ∧ Related next (dequeStep deque op) := by
  obtain ⟨after, ran, holds⟩ := perform_holds related.1 proper.1 proper.2
  refine ⟨_, by rw [bufferStep, ran, Option.map_some], holds, ?_⟩
  simp only [Session.commit, dequeStep, related.2]

/-- From a fresh buffer, whatever calls within their bounds come, they are
answered, hand out what the deque does, leave its bytes, and keep the write index
in the allocated blocks. -/
theorem old_buffer_refines_deque (initialBufferNum : Nat) (positive : 0 < initialBufferNum) :
    ∃ fresh, OldBuffer.init initialBufferNum = some fresh ∧
      ∀ ops, Along bufferStep Proper ⟨fresh, []⟩ ops →
        ∃ final, run bufferStep ⟨fresh, []⟩ ops = some final ∧
          final.content.peekAllAsString = some (ops.foldl dequeStep ⟨[], []⟩).content ∧
          final.returned = (ops.foldl dequeStep ⟨[], []⟩).returned ∧
          final.content.writeIndex.block < final.content.bufferList.length ∧
          final.content.writeIndex.cur < kBufferSize := by
  obtain ⟨fresh, made, empty⟩ := init_holds positive
  refine ⟨fresh, made, fun ops proper => ?_⟩
  have start : Related ⟨fresh, []⟩ ⟨[], []⟩ := ⟨empty, rfl⟩
  obtain ⟨final, ran, holds, same⟩ :=
    run_related_along dequeStep Related
      (fun _ _ _ related proper => step_related related proper) _ start proper
  exact ⟨final, ran, peekAllAsString_holds holds, same, holds.write.block, holds.write.cur⟩

def exchange : List Op :=
  [.readFd (.bytes [3, 4, 5]), .prepend [1, 2], .unWrite 1, .ensureWritableBytes 3000,
    .writeFd (.count 1), .retriveAsString 2, .append [6], .retriveAllAsString]

theorem exchange_refines : ∃ fresh final, OldBuffer.init 1 = some fresh ∧
    run bufferStep ⟨fresh, []⟩ exchange = some final ∧
    final.content.peekAllAsString = some [] ∧
    final.returned = [none, none, none, none, some [1], some [2, 3], none, some [4, 6]] ∧
    final.content.writeIndex.block < final.content.bufferList.length ∧
    final.content.writeIndex.cur < kBufferSize := by
  obtain ⟨fresh, made, refines⟩ := old_buffer_refines_deque 1 (by decide)
  have proper : ∃ made, OldBuffer.init 1 = some made ∧
      Along bufferStep Proper ⟨made, []⟩ exchange := ⟨_, rfl, by decide⟩
  obtain ⟨same, again, keeps⟩ := proper
  cases made.symm.trans again
  obtain ⟨final, ran, left, strings, inside⟩ := refines exchange keeps
  exact ⟨fresh, final, made, ran, left, strings, inside⟩

/-- `2 ^ 32 - 1` blocks more than there are. -/
def hugeRequest : Nat := 0xffffffff * 2048 + 2039

/-- With a read offset below `kCheapPrepend`, `buffers_to_add` of -1 makes
`ExtendSpace` swap the only block with the slot behind the vector. -/
theorem huge_request_leaves_blocks : ∃ fresh ready, OldBuffer.init 1 = some fresh ∧
    Allowed fresh (.prepend [0]) ∧ perform fresh (.prepend [0]) = some (ready, none) ∧
    ready.bufferList.length = 1 ∧ ready.readIndex = ⟨0, 7⟩ ∧ ready.writeIndex = ⟨0, 8⟩ ∧
    Allowed ready (.ensureWritableBytes hugeRequest) ∧
    toInt (((hugeRequest - ready.writableBytes - 1) / kBufferSize + 1 : Nat) : Int) = -1 ∧
    swapBlocks 1 0 1 ready.bufferList = none ∧
    perform ready (.ensureWritableBytes hugeRequest) = none :=
  ⟨_, _, rfl, by decide, rfl, rfl, rfl, rfl, trivial, by decide, rfl, rfl⟩

end Muzi.ByteDeque
