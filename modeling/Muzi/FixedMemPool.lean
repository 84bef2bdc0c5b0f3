import Mathlib.Data.List.Nodup
import Muzi.Execution

/-!
The block pool of net/mem_pool.h and net/mem_pool.cc. What the pool knows stands in the
memory it manages: the fields of a chunk at the chunk's start, the link of a free block in
the block's first word. Memory is words by address, addresses are numbers and 0 is the
null pointer; what `malloc` answers is an argument. `Clear`, which the destructor calls,
is in PoolClear.
-/

namespace Muzi

open Execution

structure FixedMemPool where
  chunks : Nat
  idleNodes : Nat
  words : Nat → Nat
  /-- Not a member: what `malloc` returned, the last first. -/
  regions : List Nat

namespace FixedMemPool

def chunkSize : Nat := 49152

def blockSize : Nat := 4096

def lastOffset : Nat := 8

def endOffset : Nat := 16

def dataOffset : Nat := 24

def ptrAligin (p : Nat) : Nat := (p + 7) / 8 * 8

def store (p : FixedMemPool) (address value : Nat) : FixedMemPool :=
  { p with words := fun other => if other = address then value else p.words other }

def allocChunk (p : FixedMemPool) (chunk : Nat) : FixedMemPool :=
  if chunk = 0 then p
  else
    let laid := (p.store (chunk + lastOffset) (chunk + dataOffset)).store (chunk + endOffset)
      (chunk + chunkSize)
    -- `next` of the first chunk is null, as `chunks_` is.
    let linked := laid.store chunk p.chunks
    { linked with chunks := chunk, regions := chunk :: p.regions }

/-- `Alloc` with the answers of `malloc` at its two calls of `AllocChunk`, and what it
returns. -/
def alloc (p : FixedMemPool) (first second : Nat) : FixedMemPool × Nat :=
  if p.idleNodes ≠ 0 then
    ({ p with idleNodes := p.words p.idleNodes }, p.idleNodes)
  else if p.chunks = 0 ∧ first = 0 then (p, 0)
  else
    let opened := if p.chunks = 0 then p.allocChunk first else p
    let ret := ptrAligin (opened.words (opened.chunks + lastOffset))
    let room : Int := opened.words (opened.chunks + endOffset) - ret
    -- A new chunk is made, and the block is still taken from the old one.
    let grown := if room < blockSize then opened.allocChunk second else opened
    (grown.store (grown.chunks + lastOffset) (ret + blockSize), ret)

def release (p : FixedMemPool) (ptr : Nat) : FixedMemPool :=
  if ptr = 0 then p else { p.store ptr p.idleNodes with idleNodes := ptr }

section Laid
variable {chunk : Nat} (p : FixedMemPool) (real : chunk ≠ 0)
include real

theorem allocChunk_chunks : (p.allocChunk chunk).chunks = chunk := by
  rw [allocChunk, if_neg real]

theorem allocChunk_regions : (p.allocChunk chunk).regions = chunk :: p.regions := by
  rw [allocChunk, if_neg real]

theorem allocChunk_link : (p.allocChunk chunk).words chunk = p.chunks := by
  rw [allocChunk, if_neg real]
  exact if_pos rfl

theorem allocChunk_outside {address : Nat}
    (outside : address + chunkSize ≤ chunk ∨ chunk + chunkSize ≤ address) :
    (p.allocChunk chunk).words address = p.words address := by
  have off : address ≠ chunk ∧ address ≠ chunk + lastOffset ∧ address ≠ chunk + endOffset := by
    simp only [chunkSize, lastOffset, endOffset] at *
    omega
  simp [allocChunk, real, store, off]

end Laid

end FixedMemPool

/-- The pool in use: with the blocks it handed out and did not get back. -/
structure PoolSession where
  pool : FixedMemPool
  live : List Nat

namespace PoolSession

open FixedMemPool

inductive Action where
  | alloc (first second : Nat)
  | release (ptr : Nat)
  -- the owner of a block writes into it
  | write (address value : Nat)

/-- `malloc` returns null or an aligned region apart from those it returned before. -/
def Fresh (regions : List Nat) (answer : Nat) : Prop :=
  answer = 0 ∨ answer % 8 = 0 ∧
    ∀ region ∈ regions, region ≠ 0 →
      region + chunkSize ≤ answer ∨ answer + chunkSize ≤ region

instance (regions : List Nat) (answer : Nat) : Decidable (Fresh regions answer) :=
  inferInstanceAs (Decidable (_ ∨ _ ∧ _))

def allocated (s : PoolSession) (first second : Nat) : PoolSession :=
  ⟨(s.pool.alloc first second).1,
    if (s.pool.alloc first second).2 = 0 then s.live else (s.pool.alloc first second).2 :: s.live⟩

def step (s : PoolSession) : Action → Option PoolSession
  | .alloc first second =>
      if Fresh s.pool.regions first ∧ Fresh (first :: s.pool.regions) second then
        some (s.allocated first second)
      else none
  | .release ptr =>
      if ptr ∈ s.live then some ⟨s.pool.release ptr, s.live.erase ptr⟩ else none
  | .write address value =>
      if ∃ block ∈ s.live, block ≤ address ∧ address < block + blockSize then
        some { s with pool := s.pool.store address value }
      else none

def start (words : Nat → Nat) (answer : Nat) : PoolSession :=
  ⟨allocChunk ⟨0, 0, words, []⟩ answer, []⟩

def Apart (left right : Nat) : Prop := left + blockSize ≤ right ∨ right + blockSize ≤ left

instance (left right : Nat) : Decidable (Apart left right) :=
  inferInstanceAs (Decidable (_ ∨ _))

structure Valid (regions live : List Nat) (ptr : Nat) : Prop where
  inside : ∃ region ∈ regions, region + dataOffset ≤ ptr ∧ ptr + blockSize ≤ region + chunkSize
  aligned : ptr % 8 = 0
  apart : ∀ block ∈ live, Apart block ptr

/-- `Alloc` returns null or a valid block. -/
def AllocValid (s : PoolSession) : Action → Prop
  | .alloc first second =>
      (s.pool.alloc first second).2 = 0 ∨
        Valid (s.pool.alloc first second).1.regions s.live (s.pool.alloc first second).2
  | .release _ | .write _ _ => True

instance (regions live : List Nat) (ptr : Nat) : Decidable (Valid regions live ptr) :=
  decidable_of_iff
    ((∃ region ∈ regions, region + dataOffset ≤ ptr ∧ ptr + blockSize ≤ region + chunkSize) ∧
      ptr % 8 = 0 ∧ ∀ block ∈ live, Apart block ptr)
    ⟨fun ⟨inside, aligned, apart⟩ => ⟨inside, aligned, apart⟩,
      fun valid => ⟨valid.inside, valid.aligned, valid.apart⟩⟩

instance (s : PoolSession) : ∀ action, Decidable (s.AllocValid action)
  | .alloc _ _ => inferInstanceAs (Decidable (_ ∨ _))
  | .release _ => .isTrue trivial
  | .write _ _ => .isTrue trivial

def chunkBlocks : Nat := 11

/-- Fewer blocks are in use than a chunk has. -/
def FitsChunk (s : PoolSession) : Action → Prop
  | .alloc _ _ => s.live.length < chunkBlocks
  | .release _ | .write _ _ => True

instance (s : PoolSession) : ∀ action, Decidable (s.FitsChunk action)
  | .alloc _ _ => inferInstanceAs (Decidable (_ < _))
  | .release _ => .isTrue trivial
  | .write _ _ => .isTrue trivial

/-! The blocks of a chunk. -/

def blockAt (chunk i : Nat) : Nat := chunk + dataOffset + i * blockSize

theorem blockAt_succ (chunk i : Nat) : blockAt chunk (i + 1) = blockAt chunk i + blockSize := by
  simp only [blockAt, Nat.add_mul, Nat.one_mul]
  omega

theorem blockAt_inside (chunk : Nat) {i : Nat} (fits : i < chunkBlocks) :
    chunk + dataOffset ≤ blockAt chunk i ∧ blockAt chunk i + blockSize ≤ chunk + chunkSize := by
  simp only [blockAt, dataOffset, blockSize, chunkSize, chunkBlocks] at *
  omega

theorem blockAt_aligned {chunk : Nat} (i : Nat) (aligned : chunk % 8 = 0) :
    blockAt chunk i % 8 = 0 := by
  simp only [blockAt, dataOffset, blockSize]
  omega

theorem blockAt_apart (chunk : Nat) {i j : Nat} (other : i ≠ j) :
    Apart (blockAt chunk i) (blockAt chunk j) := by
  simp only [Apart, blockAt, dataOffset, blockSize]
  omega

theorem blockAt_real (chunk i : Nat) : blockAt chunk i ≠ 0 := by
  simp only [blockAt, dataOffset]
  omega

theorem ptrAligin_of_aligned {p : Nat} (aligned : p % 8 = 0) : ptrAligin p = p := by
  unfold ptrAligin
  omega

/-! The free list. -/

def Chain (words : Nat → Nat) : Nat → List Nat → Prop
  | head, [] => head = 0
  | head, node :: rest => head = node ∧ node ≠ 0 ∧ Chain words (words node) rest

theorem Chain.congr {words others : Nat → Nat} {nodes : List Nat} {head : Nat}
    (chain : Chain words head nodes) (same : ∀ node ∈ nodes, others node = words node) :
    Chain others head nodes := by
  induction nodes generalizing head with
  | nil => exact chain
  | cons node rest ih =>
      obtain ⟨here, real, later⟩ := chain
      refine ⟨here, real, ?_⟩
      rw [same node List.mem_cons_self]
      exact ih later fun other member => same other (List.mem_cons_of_mem node member)

/-! One chunk with its blocks: in use, free, or not carved yet. -/

structure Opened (s : PoolSession) (chunk carved : Nat) (idle : List Nat) : Prop where
  atChunk : s.pool.chunks = chunk
  real : chunk ≠ 0
  aligned : chunk % 8 = 0
  regions : s.pool.regions = [chunk]
  carvedOf : carved ≤ chunkBlocks
  last : s.pool.words (chunk + lastOffset) = blockAt chunk carved
  stop : s.pool.words (chunk + endOffset) = chunk + chunkSize
  chain : Chain s.pool.words s.pool.idleNodes idle
  blocks : (s.live ++ idle).Perm ((List.range carved).map (blockAt chunk))

/-- The constructor's `malloc` failed, and so did every later one. -/
structure Unopened (s : PoolSession) : Prop where
  chunks : s.pool.chunks = 0
  idleNodes : s.pool.idleNodes = 0
  regions : s.pool.regions = []
  live : s.live = []

def Inv (s : PoolSession) : Prop := Unopened s ∨ ∃ chunk carved idle, Opened s chunk carved idle

section Opened
variable {s : PoolSession} {chunk carved : Nat} {idle : List Nat}
  (opened : Opened s chunk carved idle)
include opened

theorem Opened.place {block : Nat} (member : block ∈ s.live ++ idle) :
    ∃ i < carved, blockAt chunk i = block := by
  obtain ⟨i, within, same⟩ := List.mem_map.mp (opened.blocks.mem_iff.mp member)
  exact ⟨i, List.mem_range.mp within, same⟩

theorem Opened.apart {left right : Nat} (first : left ∈ s.live ++ idle)
    (second : right ∈ s.live ++ idle) (other : left ≠ right) : Apart left right := by
  obtain ⟨i, -, rfl⟩ := opened.place first
  obtain ⟨j, -, rfl⟩ := opened.place second
  exact blockAt_apart chunk fun same => other (congrArg _ same)

theorem Opened.distinct : (s.live ++ idle).Nodup := by
  have injective : Function.Injective (blockAt chunk) := by
    intro i j same
    simp only [blockAt, dataOffset, blockSize] at same
    omega
  exact opened.blocks.nodup_iff.mpr (List.Nodup.map injective List.nodup_range)

theorem Opened.unused {block : Nat} (free : block ∈ idle) : block ∉ s.live := by
  intro used
  exact (List.nodup_append.mp opened.distinct).2.2 block used block free rfl

theorem Opened.count : s.live.length + idle.length = carved := by
  have lengths := opened.blocks.length_eq
  simpa using lengths

theorem Opened.off_fields {block address : Nat} (member : block ∈ s.live ++ idle)
    (within : block ≤ address) : address ≠ chunk + lastOffset ∧ address ≠ chunk + endOffset := by
  obtain ⟨i, -, rfl⟩ := opened.place member
  simp only [blockAt, dataOffset, lastOffset, endOffset] at *
  omega

theorem Opened.valid {ptr : Nat} (member : ptr ∈ s.live ++ idle) (unused : ptr ∉ s.live) :
    Valid [chunk] s.live ptr := by
  obtain ⟨i, within, rfl⟩ := opened.place member
  refine ⟨⟨chunk, List.mem_singleton_self chunk, ?_⟩, blockAt_aligned i opened.aligned, ?_⟩
  · exact blockAt_inside chunk (Nat.lt_of_lt_of_le within opened.carvedOf)
  · intro block used
    apply opened.apart (List.mem_append_left idle used) member
    rintro rfl
    exact unused used

end Opened

/-! The calls. -/

theorem mem_allocChunk_regions {p : FixedMemPool} {chunk region : Nat}
    (member : region ∈ (p.allocChunk chunk).regions) :
    region ∈ p.regions ∨ chunk ≠ 0 ∧ region = chunk := by
  by_cases made : chunk = 0
  · rw [allocChunk, if_pos made] at member
    exact .inl member
  · rw [allocChunk_regions p made] at member
    rcases List.mem_cons.mp member with same | old
    · exact .inr ⟨made, same⟩
    · exact .inl old

theorem Opened.alloc_idle {s : PoolSession} {chunk carved ptr : Nat} {rest : List Nat}
    (opened : Opened s chunk carved (ptr :: rest)) (first second : Nat) :
    (s.pool.alloc first second).2 = ptr ∧ ptr ≠ 0 ∧
      Opened ⟨(s.pool.alloc first second).1, ptr :: s.live⟩ chunk carved rest := by
  obtain ⟨here, real, later⟩ := opened.chain
  have taken : s.pool.alloc first second =
      ({ s.pool with idleNodes := s.pool.words ptr }, ptr) := by
    rw [alloc, here, if_pos real]
  rw [taken]
  refine ⟨rfl, real, ?_⟩
  exact { opened with
    chain := later
    blocks := List.perm_middle.symm.trans opened.blocks }

theorem Opened.alloc_carve {s : PoolSession} {chunk carved : Nat}
    (opened : Opened s chunk carved []) (room : carved < chunkBlocks) (first second : Nat) :
    (s.pool.alloc first second).2 = blockAt chunk carved ∧
      Opened ⟨(s.pool.alloc first second).1, blockAt chunk carved :: s.live⟩ chunk (carved + 1)
        [] := by
  have inside := blockAt_inside chunk room
  have aligned := ptrAligin_of_aligned (blockAt_aligned carved opened.aligned)
  have enough : ¬ ((chunk + chunkSize : Nat) : Int) - blockAt chunk carved < blockSize := by omega
  have drained : s.pool.idleNodes = 0 := opened.chain
  have taken : s.pool.alloc first second =
      (s.pool.store (chunk + lastOffset) (blockAt chunk (carved + 1)), blockAt chunk carved) := by
    simp only [alloc, drained, opened.atChunk, opened.real, opened.last, opened.stop, aligned,
      enough, blockAt_succ, ne_eq, not_true_eq_false, false_and, ↓reduceIte]
  have fields : chunk + endOffset ≠ chunk + lastOffset := by
    simp only [endOffset, lastOffset]
    omega
  rw [taken]
  refine ⟨rfl, ?_⟩
  exact {
    atChunk := opened.atChunk
    real := opened.real
    aligned := opened.aligned
    regions := opened.regions
    carvedOf := room
    last := if_pos rfl
    stop := (if_neg fields).trans opened.stop
    chain := drained
    blocks := by
      have blocks := opened.blocks
      rw [List.append_nil] at blocks ⊢
      rw [List.range_succ, List.map_append, List.map_singleton]
      exact (blocks.cons _).trans (List.perm_append_singleton _ _).symm }

theorem Opened.alloc_beyond {s : PoolSession} {chunk : Nat} (opened : Opened s chunk chunkBlocks [])
    {first second : Nat} (fresh : Fresh (first :: s.pool.regions) second) :
    ¬ AllocValid s (.alloc first second) := by
  have aligned := ptrAligin_of_aligned (blockAt_aligned chunkBlocks opened.aligned)
  have short : ((chunk + chunkSize : Nat) : Int) - blockAt chunk chunkBlocks < blockSize := by
    simp only [blockAt, dataOffset, blockSize, chunkSize, chunkBlocks]
    omega
  have drained : s.pool.idleNodes = 0 := opened.chain
  have taken : s.pool.alloc first second =
      (((s.pool.allocChunk second).store ((s.pool.allocChunk second).chunks + lastOffset)
        (blockAt chunk chunkBlocks + blockSize)), blockAt chunk chunkBlocks) := by
    simp only [alloc, drained, opened.atChunk, opened.real, opened.last, opened.stop, aligned,
      short, ne_eq, not_true_eq_false, false_and, ↓reduceIte]
  rintro (null | valid)
  · rw [taken] at null
    exact blockAt_real chunk chunkBlocks null
  · obtain ⟨⟨region, member, lower, upper⟩, -, -⟩ := valid
    rw [taken] at member lower upper
    have old : ∀ region ∈ s.pool.regions, region = chunk := by
      rw [opened.regions]
      exact fun region member => List.mem_singleton.mp member
    simp only [blockAt, dataOffset, blockSize, chunkSize, chunkBlocks] at lower upper
    rcases mem_allocChunk_regions member with known | ⟨made, rfl⟩
    · rw [old region known] at upper
      omega
    · have apart := (fresh.resolve_left made).2 chunk
        (List.mem_cons_of_mem first (by rw [opened.regions]; exact List.mem_singleton_self chunk))
        opened.real
      simp only [chunkSize] at apart
      omega

theorem Unopened.opened {s : PoolSession} (closed : Unopened s) {chunk : Nat} (real : chunk ≠ 0)
    (aligned : chunk % 8 = 0) : Opened ⟨s.pool.allocChunk chunk, s.live⟩ chunk 0 [] := by
  rw [allocChunk, if_neg real]
  exact {
    atChunk := rfl
    real := real
    aligned := aligned
    regions := by rw [closed.regions]
    carvedOf := Nat.zero_le _
    last := by simp [store, lastOffset, endOffset, blockAt]
    stop := by simp [store, endOffset]
    chain := closed.idleNodes
    blocks := by simp [closed.live] }

theorem Unopened.alloc_null {s : PoolSession} (closed : Unopened s) (second : Nat) :
    s.pool.alloc 0 second = (s.pool, 0) := by
  simp [alloc, closed.idleNodes, closed.chunks]

theorem Unopened.alloc_chunk {s : PoolSession} (closed : Unopened s) {first : Nat}
    (real : first ≠ 0) (second : Nat) :
    s.pool.alloc first second = (s.pool.allocChunk first).alloc first second := by
  have chunk := allocChunk_chunks s.pool real
  have idle : (s.pool.allocChunk first).idleNodes = s.pool.idleNodes := by
    rw [allocChunk, if_neg real]
    rfl
  simp only [alloc, closed.idleNodes, idle, closed.chunks, chunk, real, and_false, ↓reduceIte,
    ne_eq, not_true_eq_false]

theorem Opened.valid_next {s : PoolSession} {chunk carved : Nat} {idle : List Nat}
    (opened : Opened s chunk carved idle) (room : carved < chunkBlocks) :
    Valid [chunk] s.live (blockAt chunk carved) := by
  refine ⟨⟨chunk, List.mem_singleton_self chunk, blockAt_inside chunk room⟩,
    blockAt_aligned carved opened.aligned, ?_⟩
  intro block used
  obtain ⟨i, within, rfl⟩ := opened.place (List.mem_append_left idle used)
  exact blockAt_apart chunk (Nat.ne_of_lt within)

theorem Opened.release {s : PoolSession} {chunk carved ptr : Nat} {idle : List Nat}
    (opened : Opened s chunk carved idle) (used : ptr ∈ s.live) :
    Opened ⟨s.pool.release ptr, s.live.erase ptr⟩ chunk carved (ptr :: idle) := by
  have member := List.mem_append_left idle used
  have real : ptr ≠ 0 := by
    obtain ⟨i, -, rfl⟩ := opened.place member
    exact blockAt_real chunk i
  obtain ⟨notLast, notStop⟩ := opened.off_fields member (Nat.le_refl ptr)
  rw [FixedMemPool.release, if_neg real]
  exact {
    atChunk := opened.atChunk
    real := opened.real
    aligned := opened.aligned
    regions := opened.regions
    carvedOf := opened.carvedOf
    last := (if_neg notLast.symm).trans opened.last
    stop := (if_neg notStop.symm).trans opened.stop
    chain := by
      refine ⟨rfl, real, ?_⟩
      have link : (s.pool.store ptr s.pool.idleNodes).words ptr = s.pool.idleNodes := if_pos rfl
      dsimp only
      rw [link]
      apply opened.chain.congr
      intro node free
      have other : node ≠ ptr := by
        rintro rfl
        exact opened.unused free used
      exact if_neg other
    blocks := by
      refine List.perm_middle.trans (List.Perm.trans ?_ opened.blocks)
      exact ((List.perm_cons_erase used).symm.append_right idle) }

theorem Opened.write {s : PoolSession} {chunk carved block address : Nat} {idle : List Nat}
    (opened : Opened s chunk carved idle) (used : block ∈ s.live) (lower : block ≤ address)
    (upper : address < block + blockSize) (value : Nat) :
    Opened { s with pool := s.pool.store address value } chunk carved idle := by
  have member := List.mem_append_left idle used
  obtain ⟨notLast, notStop⟩ := opened.off_fields member lower
  exact { opened with
    last := (if_neg notLast.symm).trans opened.last
    stop := (if_neg notStop.symm).trans opened.stop
    chain := by
      apply opened.chain.congr
      intro node free
      have other : node ≠ address := by
        rintro rfl
        have different : block ≠ node := by
          rintro rfl
          exact opened.unused free used
        have apart := opened.apart member (List.mem_append_right s.live free) different
        unfold Apart at apart
        omega
      exact if_neg other }

/-! Whole histories. -/

theorem start_inv (words : Nat → Nat) {answer : Nat} (fresh : Fresh [] answer) :
    Inv (start words answer) := by
  have closed : Unopened ⟨⟨0, 0, words, []⟩, []⟩ := ⟨rfl, rfl, rfl, rfl⟩
  by_cases real : answer = 0
  · subst real
    exact .inl closed
  · exact .inr ⟨answer, 0, [], closed.opened real (fresh.resolve_left real).1⟩

theorem alloc_done {s : PoolSession} {first second ptr chunk carved : Nat} {idle : List Nat}
    (returned : (s.pool.alloc first second).2 = ptr) (real : ptr ≠ 0)
    (valid : Valid [chunk] s.live ptr)
    (opened : Opened ⟨(s.pool.alloc first second).1, ptr :: s.live⟩ chunk carved idle) :
    AllocValid s (.alloc first second) ∧ Inv (s.allocated first second) := by
  constructor
  · right
    rw [opened.regions, returned]
    exact valid
  · right
    refine ⟨chunk, carved, idle, ?_⟩
    rw [allocated, returned, if_neg real]
    exact opened

theorem Unopened.alloc {s : PoolSession} (closed : Unopened s) {first : Nat}
    (fresh : Fresh s.pool.regions first) (second : Nat) :
    AllocValid s (.alloc first second) ∧ Inv (s.allocated first second) := by
  by_cases real : first = 0
  · subst real
    have null := closed.alloc_null second
    refine ⟨.inl (by rw [null]), .inl ?_⟩
    rw [allocated, null]
    exact closed
  · have chunk := closed.opened real (fresh.resolve_left real).1
    obtain ⟨returned, opened⟩ := chunk.alloc_carve (by decide) first second
    dsimp only at returned opened
    rw [← closed.alloc_chunk real second] at returned opened
    exact alloc_done returned (blockAt_real first 0) (chunk.valid_next (by decide)) opened

/-- What `Alloc` returns is valid exactly when fewer blocks are in use than a chunk has, and
then the pool stays sound. -/
theorem Inv.alloc {s : PoolSession} (inv : Inv s) {first second : Nat}
    (fresh : Fresh s.pool.regions first) (later : Fresh (first :: s.pool.regions) second) :
    (AllocValid s (.alloc first second) ↔ s.live.length < chunkBlocks) ∧
      (s.live.length < chunkBlocks → Inv (s.allocated first second)) := by
  rcases inv with closed | ⟨chunk, carved, idle, opened⟩
  · obtain ⟨valid, still⟩ := closed.alloc fresh second
    have few : s.live.length < chunkBlocks := by
      rw [closed.live]
      decide
    exact ⟨iff_of_true valid few, fun _ => still⟩
  · have count := opened.count
    have carvedOf := opened.carvedOf
    cases idle with
    | cons ptr rest =>
        obtain ⟨returned, real, next⟩ := opened.alloc_idle first second
        have unused := opened.unused List.mem_cons_self
        obtain ⟨valid, still⟩ := alloc_done returned real
          (opened.valid (List.mem_append_right _ List.mem_cons_self) unused) next
        have few : s.live.length < chunkBlocks := by
          rw [List.length_cons] at count
          omega
        exact ⟨iff_of_true valid few, fun _ => still⟩
    | nil =>
        rw [List.length_nil, Nat.add_zero] at count
        by_cases room : carved < chunkBlocks
        · obtain ⟨returned, next⟩ := opened.alloc_carve room first second
          obtain ⟨valid, still⟩ := alloc_done returned (blockAt_real chunk carved)
            (opened.valid_next room) next
          exact ⟨iff_of_true valid (by omega), fun _ => still⟩
        · obtain rfl : carved = chunkBlocks := by omega
          exact ⟨iff_of_false (opened.alloc_beyond later) (by omega), fun few => by omega⟩

theorem Inv.step {s next : PoolSession} {action : Action} (inv : Inv s)
    (fits : s.FitsChunk action) (stepped : s.step action = some next) : Inv next := by
  cases action with
  | alloc first second =>
      obtain ⟨⟨fresh, later⟩, made⟩ := Option.ite_none_right_eq_some.mp stepped
      cases made
      exact (inv.alloc fresh later).2 fits
  | release ptr =>
      obtain ⟨used, made⟩ := Option.ite_none_right_eq_some.mp stepped
      cases made
      rcases inv with closed | ⟨chunk, carved, idle, opened⟩
      · rw [closed.live] at used
        cases used
      · exact .inr ⟨chunk, carved, ptr :: idle, opened.release used⟩
  | write address value =>
      obtain ⟨⟨block, used, lower, upper⟩, made⟩ := Option.ite_none_right_eq_some.mp stepped
      cases made
      rcases inv with closed | ⟨chunk, carved, idle, opened⟩
      · rw [closed.live] at used
        cases used
      · exact .inr ⟨chunk, carved, idle, opened.write used lower upper value⟩

/-- In every history of the pool, all blocks it hands out are valid exactly when it is never
asked for a block while as many are in use as a chunk has. -/
theorem blocks_valid_iff (words : Nat → Nat) (answer : Nat) (fresh : Fresh [] answer)
    (actions : List Action) (final : PoolSession)
    (ran : run step (start words answer) actions = some final) :
    Along step AllocValid (start words answer) actions ↔
      Along step FitsChunk (start words answer) actions := by
  refine along_iff_along Inv ?_ (fun s action next => Inv.step) (start_inv words fresh) ran
  intro s action next inv stepped
  cases action with
  | alloc first second =>
      obtain ⟨⟨fresh, later⟩, -⟩ := Option.ite_none_right_eq_some.mp stepped
      exact (inv.alloc fresh later).1
  | release ptr => exact Iff.rfl
  | write address value => exact Iff.rfl

def reuse : List Action :=
  [.alloc 0 0, .alloc 0 0, .write 8216 5, .release 8216, .alloc 0 0]

theorem reuse_valid_iff : ∃ final, run step (start (fun _ => 0) 4096) reuse = some final ∧
    final.live = [8216, 4120] ∧
    (Along step AllocValid (start (fun _ => 0) 4096) reuse ↔
      Along step FitsChunk (start (fun _ => 0) 4096) reuse) :=
  ⟨_, rfl, rfl, blocks_valid_iff (fun _ => 0) 4096 (by decide) reuse _ rfl⟩

/-- A chunk at 4096 up to 53248, and the twelfth block: it starts at 49176. The new chunk, at
65536, is told that its own blocks go on behind that. -/
theorem twelfth_block_overruns :
    ∃ final, run step (start (fun _ => 0) 4096) (List.replicate 11 (.alloc 0 0)) = some final ∧
      ¬ final.AllocValid (.alloc 0 65536) ∧ (final.pool.alloc 0 65536).2 = 49176 ∧
      4096 + chunkSize < 49176 + blockSize ∧
      (final.pool.alloc 0 65536).1.words (65536 + lastOffset) = 49176 + blockSize :=
  ⟨_, rfl, by decide, rfl, by decide, rfl⟩

end PoolSession

end Muzi
