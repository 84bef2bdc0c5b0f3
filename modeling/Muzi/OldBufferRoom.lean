import Muzi.Loop
import Muzi.OldBufferOperations

/-!
The loop of `EnsureWritableBytes`. The number of blocks that the contents and the
request take, counted from the read block, is the same before every turn, and
`buffers_to_use` is that number converted to `int`. As long as the conversion
keeps it, blocks move to the front only when those in use are in the second half;
a number that comes out of the conversion too small moves them again and again.
-/

namespace Muzi.OldBuffer

open Storage Pages Loop

def ensureTurn (len : Nat) (b : OldBuffer) : Option (Turn OldBuffer OldBuffer) :=
  if len > b.writableBytes then (b.extendSpace (len - b.writableBytes)).map .again
  else some (.returned b)

/-- The blocks, counted from the read block, for the contents, `len` bytes more and the
position that is kept. -/
def blocksNeeded (b : OldBuffer) (len : Nat) : Nat :=
  b.writeIndex.block - b.readIndex.block + (b.writeIndex.cur + len) / kBufferSize + 1

def Compacts (len : Nat) (b : OldBuffer) : Prop :=
  len > b.writableBytes ∧
    b.bufferList.length > toSize (2 * b.buffersToUse (len - b.writableBytes))

def Apart (b : OldBuffer) : Prop :=
  b.frontSlot + (b.writeIndex.block - b.readIndex.block) < b.readIndex.block

/-- The loop ends with room for the request and the same contents, and whenever it moves
blocks to the front they do not overlap and leave room for a header. -/
structure Ensured (b : OldBuffer) (bytes : List Byte) (len : Nat) : Prop where
  ends : ∃ after, Returns (ensureTurn len) b after ∧ Holds after bytes ∧
    after.writeIndex.minus after.readIndex = b.writeIndex.minus b.readIndex ∧
    len ≤ after.writableBytes
  moves : ∀ count state next, turns (ensureTurn len) count (.again b) = some (.again state) →
    Compacts len state → ensureTurn len state = some (.again next) →
      state.Apart ∧ kCheapPrepend ≤ next.getPrependableBytes

/-- There is room, or the conversion to `int` keeps the number of blocks; or it makes it
negative, which every size is below; or the blocks move once, and that is enough. -/
def Served (b : OldBuffer) (len : Nat) : Prop :=
  len ≤ b.writableBytes ∨ b.blocksNeeded len < 0x40000000 ∨
    (-0x40000000 ≤ toInt (b.blocksNeeded len) ∧ toInt (b.blocksNeeded len) < 0) ∨
    (0 ≤ toInt (b.blocksNeeded len) ∧ toInt (b.blocksNeeded len) < 0x40000000 ∧
      2 * toInt (b.blocksNeeded len) < b.bufferList.length ∧
      b.frontSlot + b.blocksNeeded len ≤ b.bufferList.length ∧ b.Apart)

instance (b : OldBuffer) (len : Nat) : Decidable (b.Served len) :=
  inferInstanceAs (Decidable (_ ∨ _ ∨ _ ∧ _ ∨ _ ∧ _ ∧ _ ∧ _ ∧ _ < _))

/-- The loop is served, in a storage that can be addressed. -/
def Roomy (b : OldBuffer) (len : Nat) : Prop :=
  b.Served len ∧ b.readIndex.block + b.blocksNeeded len < 0x1000000000000000

instance (b : OldBuffer) (len : Nat) : Decidable (b.Roomy len) :=
  inferInstanceAs (Decidable (_ ∧ _))

/-- Few enough blocks, those of a request counted twice, that no `int` overflows
on the way. -/
def Modest (blocks request : Nat) : Prop := blocks + 2 * (request / kBufferSize + 1) < 0x40000000

instance (blocks request : Nat) : Decidable (Modest blocks request) :=
  inferInstanceAs (Decidable (_ < _))

section Turns
variable {b after : OldBuffer} {bytes : List Byte} {len : Nat}

theorem Holds.enough_iff (holds : Holds b bytes) :
    len ≤ b.writableBytes ↔ b.readIndex.block + b.blocksNeeded len ≤ b.bufferList.length := by
  have room := holds.writableBytes
  have order := holds.block_le
  simp only [blocksNeeded, Iterator.pos, kBufferSize] at room ⊢
  omega

theorem Holds.buffersToUse (holds : Holds b bytes) (wanting : len > b.writableBytes) :
    b.buffersToUse (len - b.writableBytes) = toInt (b.blocksNeeded len) := by
  have room := holds.writableBytes
  have order := holds.block_le
  have readBlock := holds.read.block
  have whole : (b.bufferList.length : Int) - b.readIndex.block +
      ((len - b.writableBytes - 1) / kBufferSize + 1 : Nat) = b.blocksNeeded len := by
    simp only [blocksNeeded, Iterator.pos, kBufferSize] at room ⊢
    omega
  simp only [OldBuffer.buffersToUse, toInt]
  rw [Int.add_bmod_bmod, whole]

theorem toInt_cases (value : Nat) :
    (value < 0x80000000 → toInt value = value) ∧
      (0x80000000 ≤ value → toInt value < 0 ∨ 0x100000000 ≤ value) := by
  simp only [toInt, Int.bmod_def]
  split <;> omega

theorem toSize_double {value : Int} (low : -0x40000000 ≤ value) (high : value < 0x40000000) :
    (0 ≤ value → (toSize (2 * value) : Int) = 2 * value) ∧
      (value < 0 → 0x1000000000000000 ≤ toSize (2 * value)) := by
  simp only [toSize]
  omega

theorem blocksNeeded_congr (read : after.readIndex.block + b.writeIndex.block =
      b.readIndex.block + after.writeIndex.block) (order : b.readIndex.block ≤ b.writeIndex.block)
    (cur : after.writeIndex.cur = b.writeIndex.cur) :
    after.blocksNeeded len = b.blocksNeeded len := by
  have distance : after.writeIndex.block - after.readIndex.block =
      b.writeIndex.block - b.readIndex.block := by omega
  rw [blocksNeeded, blocksNeeded, distance, cur]

theorem Holds.extendSpace_eq (holds : Holds b bytes) (wanting : len > b.writableBytes) :
    b.extendSpace (len - b.writableBytes) =
      if -0x40000000 ≤ toInt (b.blocksNeeded len) ∧ toInt (b.blocksNeeded len) < 0x40000000 then
        if b.bufferList.length > toSize (2 * toInt (b.blocksNeeded len)) then b.toFront
        else b.doubled
      else none := by
  rw [OldBuffer.extendSpace_eq, holds.buffersToUse wanting]
  refine if_congr ?_ rfl rfl
  omega

/-- Whether the blocks move or become more, the number needed stays. -/
theorem Holds.toFront_needed (holds : Holds b bytes) (len : Nat)
    (read : after.readIndex = ⟨b.frontSlot, b.readIndex.cur⟩)
    (write : after.writeIndex =
      ⟨b.frontSlot + (b.writeIndex.block - b.readIndex.block), b.writeIndex.cur⟩) :
    after.blocksNeeded len = b.blocksNeeded len ∧ after.frontSlot = b.frontSlot := by
  have order := holds.block_le
  constructor
  · apply blocksNeeded_congr _ order
    · rw [write]
    · rw [read, write]
      dsimp only
      omega
  · rw [frontSlot, read, frontSlot]

theorem frontSlot_prependable (read : after.readIndex = ⟨b.frontSlot, b.readIndex.cur⟩) :
    kCheapPrepend ≤ after.getPrependableBytes := by
  rw [getPrependableBytes_eq, read, Iterator.pos, frontSlot]
  by_cases header : b.readIndex.cur ≥ kCheapPrepend
  · exact Nat.le_trans header (Nat.le_add_left _ _)
  · rw [if_neg header]
    exact Nat.le_trans (by decide : kCheapPrepend ≤ 1 * kBufferSize) (Nat.le_add_right _ _)

/-- The blocks in use are behind the middle when a number that was kept makes them move. -/
theorem Holds.apart (holds : Holds b bytes) (wanting : len > b.writableBytes)
    (more : 2 * b.blocksNeeded len < b.bufferList.length) : b.Apart := by
  have short := mt holds.enough_iff.mpr (Nat.not_le.mpr wanting)
  have slot := b.frontSlot_le
  simp only [Apart, blocksNeeded, kBufferSize] at *
  omega

/-- The next turn may go on from `next`, which has more room. -/
structure Goes (b : OldBuffer) (bytes : List Byte) (len : Nat) (next : OldBuffer) : Prop where
  holds : Holds next bytes
  bound : next.readIndex.block + next.blocksNeeded len < 0x1000000000000000
  served : next.Served len
  roomier : b.writableBytes < next.writableBytes

theorem Holds.served_fits (holds : Holds b bytes) (wanting : len > b.writableBytes)
    (served : b.Served len) :
    -0x40000000 ≤ toInt (b.blocksNeeded len) ∧ toInt (b.blocksNeeded len) < 0x40000000 := by
  have short := mt holds.enough_iff.mpr (Nat.not_le.mpr wanting)
  have kept := toInt_cases (b.blocksNeeded len)
  rcases served with room | small | negative | once <;> omega

theorem Holds.turn_front (holds : Holds b bytes) (wanting : len > b.writableBytes)
    (bound : b.readIndex.block + b.blocksNeeded len < 0x1000000000000000)
    (served : b.Served len)
    (moves : b.bufferList.length > toSize (2 * toInt (b.blocksNeeded len))) :
    ∃ next, b.toFront = some next ∧ Goes b bytes len next ∧ b.Apart ∧
      kCheapPrepend ≤ next.getPrependableBytes := by
  have short := mt holds.enough_iff.mpr (Nat.not_le.mpr wanting)
  have order := holds.block_le
  have kept := toInt_cases (b.blocksNeeded len)
  have fits := holds.served_fits wanting served
  have double := toSize_double fits.1 fits.2
  have apart : b.Apart := by
    rcases served with room | small | negative | once
    · omega
    · exact holds.apart wanting (by omega)
    · omega
    · exact once.2.2.2.2
  have lower : b.frontSlot < b.readIndex.block := Nat.lt_of_le_of_lt (Nat.le_add_right _ _) apart
  obtain ⟨next, ran, still, length, read, write⟩ := holds.toFront lower
  obtain ⟨needed, slot⟩ := holds.toFront_needed len read write
  have start : next.readIndex.block = b.frontSlot := congrArg Iterator.block read
  refine ⟨next, ran, ⟨still, by omega, ?_, ?_⟩, apart, frontSlot_prependable read⟩
  · rcases served with room | small | negative | once
    · omega
    · exact .inr (.inl (needed ▸ small))
    · omega
    · refine .inl (still.enough_iff.mpr ?_)
      omega
  · refine (holds.roomier still ?_ ?_ ?_).2
    · rw [write]
    · rw [write, length]
      dsimp only
      omega
    · rw [write]
      dsimp only
      omega

theorem Holds.turn_doubled (holds : Holds b bytes) (wanting : len > b.writableBytes)
    (bound : b.readIndex.block + b.blocksNeeded len < 0x1000000000000000)
    (served : b.Served len)
    (stays : ¬b.bufferList.length > toSize (2 * toInt (b.blocksNeeded len))) :
    ∃ next, b.doubled = some next ∧ Goes b bytes len next := by
  have short := mt holds.enough_iff.mpr (Nat.not_le.mpr wanting)
  have kept := toInt_cases (b.blocksNeeded len)
  have fits := holds.served_fits wanting served
  have double := toSize_double fits.1 fits.2
  obtain ⟨next, ran, still, length, read, write⟩ := holds.doubled
  have needed : next.blocksNeeded len = b.blocksNeeded len := by
    rw [blocksNeeded, read, write, blocksNeeded]
  refine ⟨next, ran, still, by rwa [read, needed], ?_, ?_⟩
  · rcases served with room | small | negative | once
    · omega
    · exact .inr (.inl (needed ▸ small))
    · exact .inr (.inr (.inl (needed ▸ negative)))
    · omega
  · refine (holds.roomier still ?_ ?_ ?_).2
    · rw [write]
    · have some := holds.read.block
      rw [write, length]
      omega
    · exact Nat.le_of_eq (congrArg Iterator.block write)

/-- A turn of a loop that is served goes well, makes room, and leaves it served. -/
theorem Holds.turn (holds : Holds b bytes) (wanting : len > b.writableBytes)
    (bound : b.readIndex.block + b.blocksNeeded len < 0x1000000000000000)
    (served : b.Served len) :
    ∃ next, b.extendSpace (len - b.writableBytes) = some next ∧ Goes b bytes len next ∧
      (Compacts len b → b.Apart ∧ kCheapPrepend ≤ next.getPrependableBytes) := by
  rw [holds.extendSpace_eq wanting, if_pos (holds.served_fits wanting served)]
  split
  · rename_i moves
    obtain ⟨next, ran, goes, front⟩ := holds.turn_front wanting bound served moves
    exact ⟨next, ran, goes, fun _ => front⟩
  · rename_i stays
    obtain ⟨next, ran, goes⟩ := holds.turn_doubled wanting bound served stays
    refine ⟨next, ran, goes, fun moves => ?_⟩
    rw [Compacts, holds.buffersToUse wanting] at moves
    exact absurd moves.2 stays

theorem Holds.ensureLoop (holds : Holds b bytes) (roomy : b.Roomy len) (turns : Nat)
    (bound : len ≤ b.writableBytes + turns) :
    ∃ after, OldBuffer.ensureLoop turns b len = some after ∧ Holds after bytes ∧
      len ≤ after.writableBytes := by
  induction turns generalizing b with
  | zero => exact ⟨b, if_pos bound, holds, bound⟩
  | succ turns ih =>
      by_cases wanting : len > b.writableBytes
      · obtain ⟨next, ran, goes, -⟩ := holds.turn wanting roomy.2 roomy.1
        have roomier := goes.roomier
        obtain ⟨after, rest, final, enough⟩ := ih goes.holds ⟨goes.served, goes.bound⟩ (by omega)
        exact ⟨after, by rw [OldBuffer.ensureLoop, if_pos wanting, ran, Option.bind_some, rest],
          final, enough⟩
      · exact ⟨b, by rw [OldBuffer.ensureLoop, if_neg wanting], holds, by omega⟩

theorem Holds.grows (holds : Holds b bytes) (roomy : b.Roomy len) : b.Grows bytes len :=
  holds.ensureLoop roomy len (Nat.le_add_left _ _)

theorem Roomy.congr {blocks : List BufferBlock} (same : blocks.length = b.bufferList.length)
    (roomy : b.Roomy len) : Roomy { b with bufferList := blocks } len := by
  simpa only [Roomy, Served, writableBytes, blocksNeeded, frontSlot, Apart, same] using roomy

theorem Holds.roomy (holds : Holds b bytes) (modest : Modest b.bufferList.length len) :
    b.Roomy len := by
  have readBlock := holds.read.block
  have writeBlock := holds.write.block
  have cur := holds.write.cur
  have small : b.blocksNeeded len < 0x40000000 := by
    simp only [Modest, blocksNeeded, kBufferSize] at *
    omega
  refine ⟨.inr (.inl small), ?_⟩
  unfold Modest at modest
  omega

theorem ensureTurn_wanting (wanting : len > b.writableBytes) :
    ensureTurn len b = (b.extendSpace (len - b.writableBytes)).map .again := if_pos wanting

theorem Holds.ensured (holds : Holds b bytes)
    (bound : b.readIndex.block + b.blocksNeeded len < 0x1000000000000000)
    (served : b.Served len) : Ensured b bytes len := by
  let Inv (state : OldBuffer) : Prop := Holds state bytes ∧
    state.readIndex.block + state.blocksNeeded len < 0x1000000000000000 ∧ state.Served len
  have start : Inv b := ⟨holds, bound, served⟩
  constructor
  · -- every turn leaves fewer bytes to make room for
    have progress (state : OldBuffer) (inv : Inv state) :
        (∃ after, ensureTurn len state = some (.returned after) ∧
            (Holds after bytes ∧ len ≤ after.writableBytes)) ∨
          ∃ next, ensureTurn len state = some (.again next) ∧ Inv next ∧
            len - next.writableBytes < len - state.writableBytes := by
      by_cases wanting : len > state.writableBytes
      · obtain ⟨next, ran, goes, -⟩ := inv.1.turn wanting inv.2.1 inv.2.2
        have roomier := goes.roomier
        refine .inr ⟨next, ?_, ⟨goes.holds, goes.bound, goes.served⟩, by omega⟩
        rw [ensureTurn_wanting wanting, ran, Option.map_some]
      · exact .inl ⟨state, if_neg wanting, inv.1, Nat.le_of_not_lt wanting⟩
    obtain ⟨after, ends, still, room⟩ :=
      returns_of_measure (fun state => len - state.writableBytes) progress start
    refine ⟨after, ends, still, ?_, room⟩
    have before := holds.length
    have behind := still.length
    rw [Iterator.minus_eq, Iterator.minus_eq]
    omega
  · intro count state next ran moves turned
    have inv : Inv state := turns_invariant (fun state next inv turned => by
      by_cases wanting : len > state.writableBytes
      · obtain ⟨made, ran, goes, -⟩ := inv.1.turn wanting inv.2.1 inv.2.2
        rw [ensureTurn_wanting wanting, ran] at turned
        cases turned
        exact ⟨goes.holds, goes.bound, goes.served⟩
      · rw [ensureTurn, if_neg wanting] at turned
        cases turned) start ran
    obtain ⟨made, extended, -, apart⟩ := inv.1.turn moves.1 inv.2.1 inv.2.2
    rw [ensureTurn_wanting moves.1, extended] at turned
    cases turned
    exact apart moves

/-! Numbers that the conversion makes too small. -/

structure Stuck (len : Nat) (b : OldBuffer) : Prop where
  holds : ∃ bytes, Holds b bytes
  huge : 0x100000000 ≤ b.blocksNeeded len
  kept : 0 ≤ toInt (b.blocksNeeded len) ∧ toInt (b.blocksNeeded len) < 0x40000000
  short : b.bufferList.length < b.readIndex.block + b.blocksNeeded len
  few : (b.bufferList.length : Int) ≤ 2 * toInt (b.blocksNeeded len) ∨
    b.bufferList.length < b.frontSlot + b.blocksNeeded len

theorem swapBlocks_length {count left idle : Nat} {blocks moved : List BufferBlock}
    (ran : swapBlocks count left idle blocks = some moved) : moved.length = blocks.length := by
  induction count generalizing left idle blocks with
  | zero =>
      cases ran
      rfl
  | succ count ih =>
      simp only [swapBlocks, Option.bind_eq_bind, Option.bind_eq_some_iff] at ran
      obtain ⟨live, -, other, -, rest⟩ := ran
      rw [ih rest, List.length_set, List.length_set]

theorem place_some {blocks : List BufferBlock} {readIndex readOffset offset writeOffset : Nat}
    (readFits : readOffset < kBufferSize) (writeFits : writeOffset < kBufferSize)
    (placed : place blocks readIndex readOffset offset writeOffset = some after) :
    readIndex + offset < blocks.length ∧
      after = ⟨blocks, ⟨readIndex, readOffset⟩, ⟨readIndex + offset, writeOffset⟩⟩ := by
  by_cases inside : readIndex + offset < blocks.length
  · rw [place_spec inside readFits writeFits] at placed
    cases placed
    exact ⟨inside, rfl⟩
  · simp only [place, Option.bind_eq_bind, Option.bind_eq_some_iff] at placed
    obtain ⟨-, -, -, -, block, made, -⟩ := placed
    rw [Iterator.ofBlock, if_neg inside] at made
    cases made

theorem Holds.toFront_some (holds : Holds b bytes) (ran : b.toFront = some after) :
    (∃ other, Holds after other) ∧ after.bufferList.length = b.bufferList.length ∧
      after.readIndex = ⟨b.frontSlot, b.readIndex.cur⟩ ∧
      after.writeIndex =
        ⟨b.frontSlot + (b.writeIndex.block - b.readIndex.block), b.writeIndex.cur⟩ := by
  obtain ⟨moved, swapped, placed⟩ := Option.bind_eq_some_iff.mp ran
  obtain ⟨inside, rfl⟩ := place_some holds.read.cur holds.write.cur placed
  refine ⟨⟨_, ?_, ⟨inside, holds.write.cur⟩, ?_, rfl⟩, swapBlocks_length swapped, rfl, rfl⟩
  · exact ⟨Nat.lt_of_le_of_lt (Nat.le_add_right _ _) inside, holds.read.cur⟩
  · have shift := Iterator.pos_shift holds.block_le b.frontSlot
    have ordered := holds.ordered
    dsimp only
    omega

theorem Stuck.turn (stuck : Stuck len b) {turn : Turn OldBuffer OldBuffer}
    (ran : ensureTurn len b = some turn) : ∃ next, turn = .again next ∧ Stuck len next := by
  obtain ⟨bytes, holds⟩ := stuck.holds
  have huge := stuck.huge
  have kept := stuck.kept
  have short := stuck.short
  have few := stuck.few
  have wanting : len > b.writableBytes :=
    Nat.lt_of_not_le (mt holds.enough_iff.mp (Nat.not_le.mpr short))
  have double := (toSize_double (by omega) kept.2).1 kept.1
  rw [ensureTurn_wanting wanting, holds.extendSpace_eq wanting, if_pos (by omega)] at ran
  obtain ⟨next, extended, rfl⟩ := Option.map_eq_some_iff.mp ran
  refine ⟨next, rfl, ?_⟩
  split at extended
  · obtain ⟨still, length, read, write⟩ := holds.toFront_some extended
    obtain ⟨needed, slot⟩ := holds.toFront_needed len read write
    have start : next.readIndex.block = b.frontSlot := congrArg Iterator.block read
    exact ⟨still, by omega, by rwa [needed], by omega, by rw [needed]; omega⟩
  · obtain ⟨grown, ran, still, length, read, write⟩ := holds.doubled
    cases ran.symm.trans extended
    have needed : next.blocksNeeded len = b.blocksNeeded len := by
      rw [blocksNeeded, read, write, blocksNeeded]
    exact ⟨⟨bytes, still⟩, by omega, by rwa [needed], by omega, by omega⟩

/-- A loop that is not served has no result, or moves blocks onto themselves. -/
theorem Holds.served (holds : Holds b bytes) (ensured : Ensured b bytes len) : b.Served len := by
  apply Classical.byContradiction
  intro unserved
  simp only [Served, not_or] at unserved
  obtain ⟨few, large, negative, once⟩ := unserved
  have wanting : len > b.writableBytes := Nat.lt_of_not_le few
  have short := mt holds.enough_iff.mpr few
  obtain ⟨after, ends, -⟩ := ensured.ends
  obtain ⟨turn, ran⟩ := body_of_returns ends
  have turned := ran
  rw [ensureTurn_wanting wanting, holds.extendSpace_eq wanting] at ran
  by_cases fits : -0x40000000 ≤ toInt (b.blocksNeeded len) ∧
      toInt (b.blocksNeeded len) < 0x40000000
  · have converted := toInt_cases (b.blocksNeeded len)
    have kept : 0 ≤ toInt (b.blocksNeeded len) ∧ toInt (b.blocksNeeded len) < 0x40000000 := by
      omega
    by_cases stuck : (b.bufferList.length : Int) ≤ 2 * toInt (b.blocksNeeded len) ∨
        b.bufferList.length < b.frontSlot + b.blocksNeeded len
    · have start : Stuck len b := ⟨⟨bytes, holds⟩, by omega, kept, by omega, stuck⟩
      exact not_returns_of_invariant (fun _ _ inv ran => inv.turn ran) start after ends
    · have double := (toSize_double fits.1 fits.2).1 kept.1
      have compacts : Compacts len b := by
        refine ⟨wanting, ?_⟩
        rw [holds.buffersToUse wanting]
        omega
      obtain ⟨next, -, rfl⟩ := Option.map_eq_some_iff.mp ran
      have apart := (ensured.moves 0 b next rfl compacts turned).1
      exact once ⟨kept.1, kept.2, by omega, by omega, apart⟩
  · rw [if_neg fits] at ran
    cases ran

end Turns

/-- For a request that is a `size_t`, in a storage that a `ptrdiff_t` measures, the loop does
what it is there for exactly when it is served. -/
theorem ensureWritableBytes_room_iff {b : OldBuffer} {bytes : List Byte} (holds : Holds b bytes)
    (len : Nat) (size : len < 0x10000000000000000)
    (addressed : b.bufferList.length * kBufferSize < 0x8000000000000000) :
    Ensured b bytes len ↔ b.Served len := by
  have bound : b.readIndex.block + b.blocksNeeded len < 0x1000000000000000 := by
    have readBlock := holds.read.block
    have writeBlock := holds.write.block
    have cur := holds.write.cur
    simp only [blocksNeeded, kBufferSize] at *
    omega
  exact ⟨holds.served, holds.ensured bound⟩

theorem ensureWritableBytes_room_fresh : ∃ fresh, init 1 = some fresh ∧ Ensured fresh [] 3000 := by
  obtain ⟨fresh, made, holds⟩ := init_holds Nat.one_pos
  refine ⟨fresh, made, ?_⟩
  cases made
  exact (ensureWritableBytes_room_iff holds 3000 (by decide) (by decide)).mpr
    (.inr (.inl (by decide)))

def zeroed (blocks : Nat) : OldBuffer := ⟨allocateBuffer blocks, ⟨0, 8⟩, ⟨0, 8⟩⟩

/-- `2 ^ 32 + 3` blocks are needed, which are 3 as an `int`. -/
def wrappedRequest : Nat := 0x100000002 * 2048

/-- The blocks become eight, and from then on every turn moves the only one in use to where
it is. -/
theorem ensureWritableBytes_endless : init 1 = some (zeroed 1) ∧
    wrappedRequest < 0x10000000000000000 ∧
    toInt ((zeroed 1).blocksNeeded wrappedRequest) = 3 ∧
    ensureTurn wrappedRequest (zeroed 8) = some (.again (zeroed 8)) ∧
    Diverges (ensureTurn wrappedRequest) (zeroed 1) := by
  have once : ensureTurn wrappedRequest (zeroed 1) = some (.again (zeroed 2)) := rfl
  have twice : ensureTurn wrappedRequest (zeroed 2) = some (.again (zeroed 4)) := rfl
  have thrice : ensureTurn wrappedRequest (zeroed 4) = some (.again (zeroed 8)) := rfl
  have same : ensureTurn wrappedRequest (zeroed 8) = some (.again (zeroed 8)) := rfl
  refine ⟨rfl, by decide, by decide, same, ?_⟩
  have onward : ∀ state, (∃ n ∈ [1, 2, 4, 8], state = zeroed n) →
      ∃ next, ensureTurn wrappedRequest state = some (.again next) ∧
        ∃ n ∈ [1, 2, 4, 8], next = zeroed n := by
    rintro state ⟨n, member, rfl⟩
    simp only [List.mem_cons, List.not_mem_nil, or_false] at member
    rcases member with rfl | rfl | rfl | rfl
    · exact ⟨_, once, 2, by decide, rfl⟩
    · exact ⟨_, twice, 4, by decide, rfl⟩
    · exact ⟨_, thrice, 8, by decide, rfl⟩
    · exact ⟨_, same, 8, by decide, rfl⟩
  exact diverges_of_invariant onward ⟨1, by decide, rfl⟩

end Muzi.OldBuffer
