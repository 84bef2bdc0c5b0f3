import Muzi.ChainInvariant

/-!
Where the write cursor of the chained buffer may stand. `HasWrite` moves it over
bytes the caller stored and needs a block behind them, `Shrink` cuts the blocks
behind a reserve, `WriteFd` offers what lies before it and `ReadFd` leaves it
behind what the kernel delivered. Logging is modelled as far as `ReadFd` can tell:
what a log line leaves in `errno`.
-/

namespace Muzi.ChainBuffer

open NodeList Storage ChainInvariant

/-! `HasWrite`. -/

theorem forward_beyond (turns : Nat) (before : List (Node Block)) (node : Node Block)
    (rest : List (Node Block)) (pos len : Nat)
    (distinct : ((before ++ node :: rest).map Node.id).Nodup) (inside : pos < kBufferSize)
    (beyond : (rest.length + 1) * kBufferSize ≤ pos + len) :
    forward (before ++ node :: rest) turns (some node.id) pos len = none := by
  induction turns generalizing before node rest pos len with
  | zero =>
      rw [Nat.add_mul, Nat.one_mul] at beyond
      have pending : len ≠ 0 := by omega
      simp [forward, pending]
  | succ turns ih =>
      rw [Nat.add_mul, Nat.one_mul] at beyond
      have pending : len ≠ 0 := by omega
      have through : ¬ kBufferSize - pos > len := by omega
      have here := deref_located distinct
      have following := next_located distinct
      cases rest with
      | nil =>
          have missing : deref (before ++ [node]) (first ([] : List (Node Block))) = none := rfl
          simp only [forward, pending, here, through, following, missing, ↓reduceIte,
            Option.bind_eq_bind, Option.bind_some, Option.bind_none]
      | cons second rest =>
          have regrouped : before ++ node :: second :: rest =
              (before ++ [node]) ++ second :: rest := by simp
          have laterDistinct : (((before ++ [node]) ++ second :: rest).map Node.id).Nodup := by
            rw [← regrouped]
            exact distinct
          have landed := deref_located laterDistinct
          have later := ih (before ++ [node]) second rest 0 (len - (kBufferSize - pos))
            laterDistinct (by omega) (by rw [List.length_cons] at beyond; omega)
          rw [← regrouped] at later landed
          simp only [forward, pending, here, through, following, first_cons, landed, later,
            ↓reduceIte, Option.bind_eq_bind, Option.bind_some]

theorem filled_self (nodes : List (Node Block)) (pos len : Nat)
    (fits : pos + len ≤ nodes.length * kBufferSize) :
    ((stored nodes).drop pos |>.take len).length = len ∧
      Filled nodes nodes pos ((stored nodes).drop pos |>.take len) := by
  have length : ((stored nodes).drop pos |>.take len).length = len := by
    rw [List.length_take, List.length_drop, stored_length]
    omega
  exact ⟨length, rfl, by rw [length, List.take_add]⟩

theorem hasWrite_frame {b after : ChainBuffer} {len : Nat} (ran : b.hasWrite len = some after) :
    after.buffers = b.buffers ∧ after.readPos = b.readPos := by
  obtain ⟨writable, -, ran⟩ := Option.bind_eq_some_iff.mp ran
  obtain ⟨-, ran⟩ := Option.ite_none_right_eq_some.mp ran
  obtain ⟨peek, -, made⟩ := Option.bind_eq_some_iff.mp ran
  cases made
  exact ⟨rfl, rfl⟩

structure Advanced (b : ChainBuffer) (bytes : List Byte) (writable len : Nat)
    (after : ChainBuffer) : Prop where
  readable : after.readableBytes = b.readableBytes + len
  writable : after.writableBytes = some (writable - len)
  contents : ∃ added, Represents after (bytes ++ added)
  atBlock : ∃ node ∈ after.buffers, after.writeBuffer = some node.id
  appends : ∀ data, ∃ grown, after.append data = some grown
  reads : ∃ room, after.readRoom = some room ∧
    (∀ errno, ∃ same, after.readFd (.error errno) = some same) ∧
    ∀ data, data.length ≤ room → ∃ grown, after.readFd (.bytes data) = some grown

theorem hasWrite_advanced {b : ChainBuffer} {bytes : List Byte} (rep : Represents b bytes)
    {writable len : Nat} (room : b.writableBytes = some writable) (within : len < writable) :
    ∃ after, b.hasWrite len = some after ∧ Advanced b bytes writable len after := by
  have sound := sound_of_represents rep
  obtain ⟨front, tail, spare, layout, rfl, count⟩ := rep
  have measured := writableBytes_layout layout
  rw [room] at measured
  injection measured with measured
  obtain ⟨length, own⟩ := filled_self (tail :: spare) b.writePos len
    (by rw [List.length_cons]; omega)
  obtain ⟨after, front', tail', spare', ran, moved, spanned, counted⟩ :=
    hasWrite_spec layout own (by rw [length]; omega)
  rw [← layout.shape, length] at ran
  change b.hasWrite len = some after at ran
  rw [length] at counted
  have grown : Represents after (span b front tail ++
      ((stored (tail :: spare)).drop b.writePos |>.take len)) :=
    ⟨front', tail', spare', moved, spanned, by rw [counted, List.length_append, length, count]⟩
  obtain ⟨offered, offers, failed, delivered, -⟩ := readFd_represents grown
  refine ⟨after, ran, counted, ?_, ⟨_, grown⟩, ⟨tail', ?_, moved.writeAt⟩, fun data => ?_, offered,
    offers, fun errno => ⟨after, failed errno⟩, fun data fits => ?_⟩
  · obtain ⟨sameBlocks, samePos⟩ := hasWrite_frame ran
    obtain ⟨before, wasWritable, balance⟩ := sound.filled
    obtain ⟨now, isWritable, balanced⟩ := (sound_of_represents grown).filled
    obtain rfl : writable = before := Option.some.inj (room.symm.trans wasWritable)
    rw [sameBlocks, samePos, counted] at balanced
    rw [isWritable]
    congr 1
    omega
  · rw [moved.shape]
    simp
  · obtain ⟨next, appended, -⟩ := append_represents grown data
    exact ⟨next, appended⟩
  · obtain ⟨next, read, -⟩ := delivered data fits
    exact ⟨next, read⟩

theorem hasWrite_last {b : ChainBuffer} {bytes : List Byte} (rep : Represents b bytes)
    {writable : Nat} (room : b.writableBytes = some writable) : b.hasWrite writable = none := by
  obtain ⟨front, tail, spare, layout, -, -⟩ := rep
  have measured := writableBytes_layout layout
  rw [room] at measured
  injection measured with measured
  have left := forward_beyond (writable + 1) front tail spare b.writePos writable layout.distinct
    layout.writeInside (by omega)
  rw [← layout.shape, ← layout.writeAt] at left
  simp only [hasWrite, room, Nat.le_refl, left, ↓reduceIte, Option.bind_eq_bind, Option.bind_some,
    Option.bind_none]

/-- Within its asserted bound `HasWrite` works exactly when it leaves a writable byte:
filling the last block takes the cursor to `end()`. -/
theorem hasWrite_inside_iff {b : ChainBuffer} {bytes : List Byte} (rep : Represents b bytes)
    (writable len : Nat) (room : b.writableBytes = some writable) (asserted : len ≤ writable) :
    (∃ after, b.hasWrite len = some after ∧ Advanced b bytes writable len after) ↔
      len < writable := by
  constructor
  · rintro ⟨after, ran, -⟩
    refine Nat.lt_of_le_of_ne asserted ?_
    rintro rfl
    rw [hasWrite_last rep room] at ran
    cases ran
  · exact hasWrite_advanced rep room

theorem halfRead_hasWrite : ∃ b after, halfRead = some b ∧ b.hasWrite 5000 = some after ∧
    Advanced b (List.replicate 5000 7) 6384 5000 after := by
  obtain ⟨b, made, rep⟩ := halfRead_represents
  have room : halfRead.bind writableBytes = some 6384 := by decide +kernel
  rw [made] at room
  obtain ⟨after, moved, advanced⟩ :=
    (hasWrite_inside_iff rep 6384 5000 room (by decide)).mpr (by decide)
  exact ⟨b, after, made, moved, advanced⟩

/-- A fresh buffer whose whole block was filled by hand. -/
theorem hasWrite_whole_block : init.writableBytes = some 4096 ∧ init.hasWrite 4096 = none :=
  ⟨rfl, hasWrite_last init_represents rfl⟩

/-! `Shrink`. -/

structure Shrunk (b : ChainBuffer) (bytes : List Byte) (reserve : Nat) (after : ChainBuffer) :
    Prop where
  contents : Represents after bytes
  cursors : after = { b with buffers := after.buffers }
  room : ∃ writable left, b.writableBytes = some writable ∧ after.writableBytes = some left ∧
    (writable ≤ reserve → left = writable) ∧
    (reserve < writable → reserve < left ∧ left ≤ reserve + kBufferSize)
  kept : ∃ blocks held, distance b.buffers b.readBuffer b.writeBuffer = some blocks ∧
    blocks < held ∧ after.buffers = b.buffers.take held
  again : after.shrink reserve = some after

theorem kept_again {spare stop reserve kept again : Nat}
    (first : Kept spare stop reserve kept) (second : Kept kept stop reserve again) :
    again = kept := by
  obtain ⟨within, bounds⟩ := second
  obtain ⟨-, cut⟩ := first
  rw [Nat.succ_mul] at bounds cut
  split at bounds
  · exact bounds
  · rename_i exceeds
    split at cut
    · rename_i covered
      rw [cut] at exceeds
      exact absurd covered exceeds
    · -- Both counts are the number of whole blocks in `stop + reserve`.
      have above : kept * kBufferSize < (again + 1) * kBufferSize := by
        rw [← Nat.succ_eq_add_one]
        omega
      have order := Nat.lt_of_mul_lt_mul_right above
      omega

/-- `Shrink` keeps contents and cursors, cuts the writable room to at most a block above
the reserve, keeps every block up to the write block, and does nothing the second time. -/
theorem shrink_keeps_reserve {b : ChainBuffer} {bytes : List Byte} (rep : Represents b bytes)
    (reserve : Nat) : ∃ after, b.shrink reserve = some after ∧ Shrunk b bytes reserve after := by
  obtain ⟨front, tail, spare, layout, rfl, count⟩ := rep
  obtain ⟨kept, ran, shrunk, bounds⟩ := shrink_layout layout reserve
  have writeInside := layout.writeInside
  have length : (spare.take kept).length = kept := by
    rw [List.length_take]
    exact Nat.min_eq_left bounds.1
  refine ⟨_, ran, ⟨front, tail, spare.take kept, shrunk, rfl, count⟩, rfl,
    ⟨_, _, writableBytes_layout layout, writableBytes_layout shrunk, ?_, ?_⟩,
    ⟨front.length, front.length + 1 + kept, ?_, by omega, ?_⟩, ?_⟩
  · intro covered
    have all := bounds.2
    rw [if_pos covered] at all
    rw [length, all]
  · intro exceeds
    have cut := bounds.2
    rw [if_neg (Nat.not_le.mpr exceeds), Nat.succ_mul] at cut
    rw [length, Nat.add_mul, Nat.one_mul]
    dsimp only
    omega
  · rw [layout.shape, layout.readAt, layout.writeAt]
    exact distance_first layout.distinct
  · have held : (front ++ tail :: spare).take (front.length + 1 + kept) =
        front ++ tail :: spare.take kept := by
      rw [List.take_append, List.take_of_length_le (by omega),
        show front.length + 1 + kept - front.length = kept + 1 by omega, List.take_succ_cons]
    exact (held.symm.trans (by rw [layout.shape]))
  · obtain ⟨again, ranAgain, -, same⟩ := shrink_layout shrunk reserve
    rw [length] at same
    have equal := kept_again bounds same
    rw [ranAgain, equal, List.take_take, Nat.min_self]

theorem halfRead_shrinks : ∃ b after, halfRead = some b ∧ b.shrink 100 = some after ∧
    Shrunk b (List.replicate 5000 7) 100 after ∧ after.buffers.length < b.buffers.length := by
  obtain ⟨b, made, rep⟩ := halfRead_represents
  obtain ⟨after, shrunk, kept⟩ := shrink_keeps_reserve rep 100
  have blocks : halfRead.map (·.buffers.length) = some 3 := by decide +kernel
  have fewer : (halfRead.bind (·.shrink 100)).map (·.buffers.length) = some 2 := by decide +kernel
  rw [made] at blocks fewer
  rw [Option.bind_some, shrunk] at fewer
  have more : b.buffers.length = 3 := Option.some.inj blocks
  have left : after.buffers.length = 2 := Option.some.inj fewer
  exact ⟨b, after, made, shrunk, kept, by omega⟩

/-! `WriteFd`. -/

/-- Number of blocks that hold contents, when there are any: the write block counts
from its first byte on. -/
def spanned (b : ChainBuffer) : Option Nat :=
  (distance b.buffers b.readBuffer b.writeBuffer).map fun blocks =>
    if b.writePos = 0 then blocks else blocks + 1

theorem spanned_bounds {b : ChainBuffer} {bytes : List Byte} (rep : Represents b bytes) :
    ∃ blocks, b.spanned = some blocks ∧ bytes.length ≤ blocks * kBufferSize - b.readPos := by
  obtain ⟨front, tail, spare, layout, rfl, -⟩ := rep
  have extent := span_length layout
  have writeInside := layout.writeInside
  have apart : distance b.buffers b.readBuffer b.writeBuffer = some front.length := by
    rw [layout.shape, layout.readAt, layout.writeAt]
    exact distance_first layout.distinct
  refine ⟨_, by rw [spanned, apart, Option.map_some], ?_⟩
  split
  · omega
  · rw [Nat.add_mul, Nat.one_mul]
    omega

/-- `writev` is offered a front part of the contents, some of them unless there are none and
all of them when they span at most sixteen blocks; what it takes is dropped. -/
theorem writeFd_offers_front {b : ChainBuffer} {bytes : List Byte} (rep : Represents b bytes) :
    ∃ vec blocks, b.gather maxVecSize b.readBuffer b.readPos = some vec ∧
      b.spanned = some blocks ∧ vec.flatten <+: bytes ∧ (bytes ≠ [] → vec.flatten ≠ []) ∧
      (blocks ≤ maxVecSize → vec.flatten = bytes) ∧
      (∀ n, n ≤ vec.flatten.length → ∃ after, b.writeFd (.count n) = some (after, bytes.take n) ∧
        Represents after (bytes.drop n)) ∧
      ∀ errno, b.writeFd (.error errno) = some (b, []) := by
  obtain ⟨vec, gathered, front, failed, taken, -⟩ := writeFd_represents rep
  obtain ⟨same, again, offered⟩ := gather_represents rep
  obtain rfl : vec = same := Option.some.inj (gathered.symm.trans again)
  obtain ⟨blocks, counted, bound⟩ := spanned_bounds rep
  refine ⟨vec, blocks, gathered, counted, front, ?_, ?_, taken, failed⟩
  · intro holding nothing
    have readInside := (sound_of_represents rep).readInside
    have room : 0 < maxVecSize * kBufferSize - b.readPos := by
      have positive : kBufferSize ≤ maxVecSize * kBufferSize :=
        Nat.le_mul_of_pos_left _ (by decide)
      omega
    rw [nothing] at offered
    rcases List.take_eq_nil_iff.mp offered.symm with noRoom | empty
    · omega
    · exact holding empty
  · intro few
    have room : blocks * kBufferSize ≤ maxVecSize * kBufferSize := Nat.mul_le_mul_right _ few
    rw [offered, List.take_of_length_le (by omega)]

theorem halfRead_written : ∃ b vec after, halfRead = some b ∧ b.spanned = some 2 ∧
    b.gather maxVecSize b.readBuffer b.readPos = some vec ∧
      vec.flatten = List.replicate 5000 7 ∧
      b.writeFd (.count 4000) = some (after, List.replicate 4000 7) ∧
      Represents after (List.replicate 1000 7) := by
  obtain ⟨b, made, rep⟩ := halfRead_represents
  have two : halfRead.bind spanned = some 2 := by decide +kernel
  rw [made] at two
  obtain ⟨vec, blocks, gathered, counted, -, -, whole, taken, -⟩ := writeFd_offers_front rep
  obtain rfl : blocks = 2 := Option.some.inj (counted.symm.trans two)
  have all := whole (by decide)
  obtain ⟨after, wrote, left⟩ := taken 4000 (by rw [all, List.length_replicate]; decide)
  rw [List.take_replicate] at wrote
  rw [List.drop_replicate] at left
  exact ⟨b, vec, after, made, counted, gathered, all, wrote, left⟩

/-! `ReadFd`. -/

inductive LogLevel where
  | kTrace | kDebug | kInfo | kWarn | kError | kFatal
  deriving DecidableEq

/-- The process-wide logger as a caller of `LOG_DEBUG` meets it: its level, and the error
with which its outputer's `fwrite` fails, if it does. -/
structure Logger where
  level : LogLevel
  failed : Option Nat

/-- `gDefaultLogger` over a standard output that takes everything. -/
def Logger.default : Logger := ⟨.kTrace, none⟩

/-- What `LOG_DEBUG` leaves of the `errno` it finds. A line that is not written, or written
without an error, leaves it alone. -/
def Logger.debug (logger : Logger) (errno : Nat) : Nat :=
  match logger.level with
  | .kTrace | .kDebug => logger.failed.getD errno
  | .kInfo | .kWarn | .kError | .kFatal => errno

/-- A line at debug level is written, and writing it fails with another error. -/
def Logger.Disturbs (logger : Logger) (errno : Nat) : Prop :=
  (logger.level = .kTrace ∨ logger.level = .kDebug) ∧ ∃ other, other ≠ errno ∧
    logger.failed = some other

theorem debug_eq_iff (logger : Logger) (errno : Nat) :
    logger.debug errno = errno ↔ ¬ logger.Disturbs errno := by
  obtain ⟨level, failed⟩ := logger
  cases level <;> cases failed <;> simp [Logger.debug, Logger.Disturbs]

/-- What `ReadFd` returns and stores in `*saved_errno`, beside the buffer. -/
structure Report where
  returned : Int
  savedErrno : Option Nat
  deriving DecidableEq

/-- `LOG_DEBUG << "readv() return "` stands between `readv` and the look at `errno`. -/
def report (logger : Logger) : ReadResult → Report
  | .error errno => ⟨-1, some (logger.debug errno)⟩
  | .bytes data => ⟨data.length, none⟩

def readFdReported (b : ChainBuffer) (result : ReadResult) (logger : Logger) :
    Option (ChainBuffer × Report) :=
  (b.readFd result).map (·, report logger result)

/-- `ReadFd` appends exactly what the kernel delivers, whatever the logger does. A failed
`readv` leaves the buffer as it was and returns -1; its error is the one reported exactly
when the log line left `errno` alone. -/
theorem readFd_reports_iff {b : ChainBuffer} {bytes : List Byte} (rep : Represents b bytes)
    (logger : Logger) :
    ∃ room, b.readRoom = some room ∧
      (∀ data, data.length ≤ room → ∃ after,
        b.readFdReported (.bytes data) logger = some (after, ⟨data.length, none⟩) ∧
        Represents after (bytes ++ data) ∧
        after.readableBytes = b.readableBytes + data.length ∧ Sound after) ∧
      ∀ errno, ∃ saved, b.readFdReported (.error errno) logger = some (b, ⟨-1, some saved⟩) ∧
        (saved = errno ↔ ¬ logger.Disturbs errno) := by
  obtain ⟨room, offered, failed, delivered, -⟩ := readFd_represents rep
  refine ⟨room, offered, ?_, ?_⟩
  · intro data fits
    obtain ⟨after, ran, grown⟩ := delivered data fits
    refine ⟨after, by rw [readFdReported, ran]; rfl, grown, ?_, sound_of_represents grown⟩
    rw [ByteQueue.represents_length grown, ByteQueue.represents_length rep, List.length_append]
  · intro errno
    exact ⟨logger.debug errno, by rw [readFdReported, failed]; rfl, debug_eq_iff logger errno⟩

theorem halfRead_reads : ∃ b after, halfRead = some b ∧
    b.readFdReported (.bytes (List.replicate 9000 8)) Logger.default =
        some (after, ⟨9000, none⟩) ∧
      Represents after (List.replicate 5000 7 ++ List.replicate 9000 8) ∧
      ∃ saved, b.readFdReported (.error 11) Logger.default = some (b, ⟨-1, some saved⟩) ∧
        (saved = 11 ↔ ¬Logger.default.Disturbs 11) := by
  obtain ⟨b, made, rep⟩ := halfRead_represents
  obtain ⟨room, offered, delivered, failed⟩ := readFd_reports_iff rep Logger.default
  have large : halfRead.bind readRoom = some 71920 := by decide +kernel
  rw [made] at large
  obtain rfl : room = 71920 := Option.some.inj (offered.symm.trans large)
  obtain ⟨after, ran, grown, -⟩ :=
    delivered (List.replicate 9000 8) (by rw [List.length_replicate]; decide)
  rw [List.length_replicate] at ran
  exact ⟨b, after, made, ran, grown, failed 11⟩

/-- `readv` fails with `EAGAIN`, the log line with `ENOSPC`: the caller is told `ENOSPC`. -/
theorem readFd_reports_other :
    init.readFdReported (.error 11) ⟨.kTrace, some 28⟩ = some (init, ⟨-1, some 28⟩) := rfl

end Muzi.ChainBuffer
