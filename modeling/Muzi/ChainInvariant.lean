import Muzi.ByteQueue
import Muzi.ChainReading

/-!
The representation invariant of the chained buffer, in the terms of its own
members, over whole histories of a family of buffers: the calls of `ByteQueue`,
and `ReadFd` and `WriteFd` with whatever the kernel answers. A call within its
asserted bound never fails.
-/

namespace Muzi.ChainInvariant

open NodeList Storage ChainBuffer Execution

structure Sound (b : ChainBuffer) : Prop where
  readFirst : ∃ node rest, b.buffers = node :: rest ∧ b.readBuffer = some node.id
  writeBehind : ∃ blocks < b.buffers.length,
    distance b.buffers b.readBuffer b.writeBuffer = some blocks
  readInside : b.readPos < kBufferSize
  writeInside : b.writePos < kBufferSize
  cached : b.slowReadableBytes = some (b.readableBytes : Int)
  filled : ∃ writable, b.writableBytes = some writable ∧
    b.readableBytes + writable + b.readPos = kBufferSize * b.buffers.length

theorem sound_of_represents {b : ChainBuffer} {bytes : List Byte} (rep : Represents b bytes) :
    Sound b := by
  obtain ⟨front, tail, spare, layout, rfl, count⟩ := rep
  have extent := span_length layout
  have ordered := layout.ordered
  have writeInside := layout.writeInside
  have apart : distance b.buffers b.readBuffer b.writeBuffer = some front.length := by
    rw [layout.shape, layout.readAt, layout.writeAt]
    exact distance_first layout.distinct
  have blocks : b.buffers.length = front.length + (spare.length + 1) := by
    rw [layout.shape, List.length_append, List.length_cons]
  refine ⟨?_, ⟨front.length, by omega, apart⟩, layout.readInside, writeInside, ?_,
    _, writableBytes_layout layout, ?_⟩
  · rw [layout.shape, layout.readAt]
    cases front with
    | nil => exact ⟨tail, spare, rfl, rfl⟩
    | cons head rest => exact ⟨head, rest ++ tail :: spare, rfl, rfl⟩
  · rw [slowReadableBytes, apart, count, extent, Option.map_some]
    congr 1
    rw [Int.natCast_sub ordered]
    push_cast
    rfl
  · rw [count, extent, blocks, Nat.mul_add, Nat.mul_comm kBufferSize, Nat.mul_comm kBufferSize]
    have room : kBufferSize ≤ (spare.length + 1) * kBufferSize := Nat.le_mul_of_pos_left _
      (Nat.succ_pos _)
    omega

/-! Draining keeps the blocks. -/

theorem retriveLoop_length {turns len : Nat} {b after : ChainBuffer}
    (ran : retriveLoop turns b len = some after) : after.buffers.length = b.buffers.length := by
  induction turns generalizing b len with
  | zero =>
      obtain ⟨-, same⟩ := Option.ite_none_right_eq_some.mp ran
      cases same
      rfl
  | succ turns ih =>
      rw [retriveLoop] at ran
      split at ran
      · cases ran
        rfl
      · obtain ⟨block, -, ran⟩ := Option.bind_eq_some_iff.mp ran
        dsimp only at ran
        split at ran
        · cases ran
          rfl
        · obtain ⟨following, -, ran⟩ := Option.bind_eq_some_iff.mp ran
          obtain ⟨spliced, moved, ran⟩ := Option.bind_eq_some_iff.mp ran
          obtain ⟨landed, -, ran⟩ := Option.bind_eq_some_iff.mp ran
          exact (ih ran).trans (moveToBack_length moved)

theorem retrive_length {b after : ChainBuffer} {len : Nat} (ran : b.retrive len = some after) :
    after.buffers.length = b.buffers.length := by
  obtain ⟨-, looped⟩ := Option.ite_none_right_eq_some.mp ran
  have kept := retriveLoop_length looped
  exact kept

theorem retriveAll_length {b after : ChainBuffer} (ran : b.retriveAll = some after) :
    after.buffers.length = b.buffers.length := by
  obtain ⟨block, -, made⟩ := Option.bind_eq_some_iff.mp ran
  cases made
  rfl

/-! Histories. -/

inductive Use where
  | call (call : ByteQueue.Call)
  | readFd (target : Nat) (result : ReadResult)
  | writeFd (target : Nat) (result : IoResult)

def step (buffers : Nat → ChainBuffer) : Use → Option (Nat → ChainBuffer)
  | .call call =>
      (ByteQueue.perform buffers call.target call.op).map fun outcome =>
        Function.update buffers call.target outcome.1
  | .readFd target result =>
      ((buffers target).readFd result).map (Function.update buffers target)
  | .writeFd target result =>
      ((buffers target).writeFd result).map fun written =>
        Function.update buffers target written.1

def taken : ByteQueue.Op → Nat
  | .retrive len | .peekAsString len | .retriveAsString len => len
  | _ => 0

/-- The asserts hold, the source of an `Append` is another buffer, and the kernel
moves no more bytes than it was offered. -/
def Allowed (buffers : Nat → ChainBuffer) : Use → Prop
  | .call call =>
      taken call.op ≤ (buffers call.target).readableBytes ∧ call.op ≠ .appendBuffer call.target
  | .readFd _ (.error _) | .writeFd _ (.error _) => True
  | .readFd target (.bytes data) => ∃ room ∈ (buffers target).readRoom, data.length ≤ room
  | .writeFd target (.count n) =>
      ∃ vec ∈ (buffers target).gather maxVecSize (buffers target).readBuffer
        (buffers target).readPos, n ≤ vec.flatten.length

def Inv (buffers : Nat → ChainBuffer) : Prop := ∀ i, ∃ bytes, Represents (buffers i) bytes

theorem Inv.update {buffers : Nat → ChainBuffer} (inv : Inv buffers) {b : ChainBuffer}
    {bytes : List Byte} (rep : Represents b bytes) (target : Nat) :
    Inv (Function.update buffers target b) := by
  intro i
  by_cases same : i = target
  · subst same
    rw [Function.update_self]
    exact ⟨bytes, rep⟩
  · rw [Function.update_of_ne same]
    exact inv i

theorem specify_allowed {queues : Nat → List Byte} {target : Nat} {op : ByteQueue.Op}
    (fits : taken op ≤ (queues target).length) (apart : op ≠ .appendBuffer target) :
    ∃ outcome, ByteQueue.specify queues target op = some outcome := by
  cases op with
  | appendBuffer source =>
      have other : source ≠ target := fun same => apart (by rw [same])
      exact ⟨_, if_neg other⟩
  | retrive len => exact ⟨_, if_pos fits⟩
  | peekAsString len => exact ⟨_, if_pos fits⟩
  | retriveAsString len => exact ⟨_, if_pos fits⟩
  | append data => exact ⟨_, rfl⟩
  | retriveAll => exact ⟨_, rfl⟩
  | peekAllAsString => exact ⟨_, rfl⟩
  | retriveAllAsString => exact ⟨_, rfl⟩
  | shrink reserve => exact ⟨_, rfl⟩

theorem perform_allowed {buffers : Nat → ChainBuffer} (inv : Inv buffers) {call : ByteQueue.Call}
    (allowed : Allowed buffers (.call call)) :
    ∃ outcome bytes, ByteQueue.perform buffers call.target call.op = some outcome ∧
      Represents outcome.1 bytes := by
  obtain ⟨queues, reps⟩ := Classical.axiomOfChoice inv
  have agreed := ByteQueue.perform_agrees buffers queues reps call.target call.op
  have fits := allowed.1
  rw [ByteQueue.represents_length (reps call.target)] at fits
  obtain ⟨expected, specified⟩ := specify_allowed fits allowed.2
  rw [specified] at agreed
  cases performed : ByteQueue.perform buffers call.target call.op with
  | none =>
      rw [performed] at agreed
      cases agreed
  | some outcome =>
      rw [performed] at agreed
      cases agreed with
      | some agrees => exact ⟨outcome, expected.1, rfl, agrees.1⟩

theorem step_allowed {buffers : Nat → ChainBuffer} (inv : Inv buffers) {use : Use}
    (allowed : Allowed buffers use) : ∃ next, step buffers use = some next ∧ Inv next := by
  cases use with
  | call call =>
      obtain ⟨outcome, bytes, performed, rep⟩ := perform_allowed inv allowed
      exact ⟨_, by rw [step, performed, Option.map_some], inv.update rep call.target⟩
  | readFd target result =>
      obtain ⟨bytes, rep⟩ := inv target
      obtain ⟨room, offered, failed, delivered, -⟩ := readFd_represents rep
      cases result with
      | error errno =>
          exact ⟨_, by rw [step, failed, Option.map_some], inv.update rep target⟩
      | bytes data =>
          obtain ⟨given, same, fits⟩ := allowed
          cases offered.symm.trans same
          obtain ⟨after, ran, grown⟩ := delivered data fits
          exact ⟨_, by rw [step, ran, Option.map_some], inv.update grown target⟩
  | writeFd target result =>
      obtain ⟨bytes, rep⟩ := inv target
      obtain ⟨vec, gathered, offered, failed, taken, -⟩ := writeFd_represents rep
      cases result with
      | error errno =>
          exact ⟨_, by rw [step, failed, Option.map_some], inv.update rep target⟩
      | count n =>
          obtain ⟨given, same, fits⟩ := allowed
          cases gathered.symm.trans same
          obtain ⟨after, ran, dropped⟩ := taken n fits
          exact ⟨_, by rw [step, ran, Option.map_some], inv.update dropped target⟩

theorem run_allowed {buffers : Nat → ChainBuffer} (inv : Inv buffers) {uses : List Use}
    (allowed : Along step Allowed buffers uses) :
    ∃ final, run step buffers uses = some final ∧ Inv final := by
  -- Nothing to relate the buffers to: the total system has one state.
  exact run_related_along (fun nothing _ => nothing) (fun buffers _ => Inv buffers)
    (fun _ _ _ inv allowed => step_allowed inv allowed) () inv allowed

def fresh : Nat → ChainBuffer := fun _ => init

/-- Whatever calls within their bounds come, they are answered, every buffer is
sound behind them, and no `Retrive` or `RetriveAll` there changes the number of
its blocks. -/
theorem buffers_stay_sound (uses : List Use) (allowed : Along step Allowed fresh uses) :
    ∃ buffers, run step fresh uses = some buffers ∧ ∀ i, Sound (buffers i) ∧
      (∀ len after, (buffers i).retrive len = some after →
        after.buffers.length = (buffers i).buffers.length) ∧
      ∀ after, (buffers i).retriveAll = some after →
        after.buffers.length = (buffers i).buffers.length := by
  obtain ⟨buffers, ran, inv⟩ := run_allowed (fun _ => ⟨[], init_represents⟩) allowed
  refine ⟨buffers, ran, fun i => ⟨?_, fun len after => retrive_length, fun after =>
    retriveAll_length⟩⟩
  obtain ⟨bytes, rep⟩ := inv i
  exact sound_of_represents rep

def exchange : List Use :=
  [.readFd 0 (.bytes [1, 2, 3]), .call ⟨1, .append [4, 5]⟩, .call ⟨1, .appendBuffer 0⟩,
    .writeFd 1 (.error 11), .call ⟨1, .shrink 100⟩, .call ⟨0, .retriveAll⟩]

theorem exchange_stays_sound :
    ∃ buffers, run step fresh exchange = some buffers ∧ ∀ i, Sound (buffers i) ∧
      (∀ len after, (buffers i).retrive len = some after →
        after.buffers.length = (buffers i).buffers.length) ∧
      ∀ after, (buffers i).retriveAll = some after →
        after.buffers.length = (buffers i).buffers.length := by
  refine buffers_stay_sound exchange ⟨⟨_, rfl, by decide⟩, fun _ _ => ⟨⟨Nat.zero_le _, nofun⟩,
    fun _ _ => ⟨⟨Nat.zero_le _, by decide⟩, fun _ _ => ⟨trivial, fun _ _ =>
      ⟨⟨Nat.zero_le _, nofun⟩, fun _ _ => ⟨⟨Nat.zero_le _, nofun⟩, fun _ _ => trivial⟩⟩⟩⟩⟩⟩

end Muzi.ChainInvariant
