import Muzi.FixedMemPool
import Muzi.Loop

/-!
`Clear` of net/mem_pool.cc, which the destructor of the pool calls. What was given to
`free` is kept beside the pool. Three things end the program instead of the loop: a `free`
of something `malloc` did not return or that is free already, a read through null, and a
read of a chunk that was freed.

The test of the loop is the wrong way round. It holds only for a pool without any chunk,
and there the body reads through null; a pool with chunks is left as it is.
-/

namespace Muzi

open Execution Loop

namespace FixedMemPool

inductive Fault where
  | badFree
  | nullRead
  | freedRead
deriving DecidableEq

structure Clearing where
  pool : FixedMemPool
  /-- What was given to `free`, the last first. -/
  freed : List Nat

structure Cleared where
  fault : Option Fault
  freed : List Nat
deriving DecidableEq

namespace Clearing

def free (c : Clearing) (ptr : Nat) : Except Fault Clearing :=
  if ptr = 0 then .ok c
  else if ptr ∈ c.pool.regions ∧ ptr ∉ c.freed then .ok { c with freed := ptr :: c.freed }
  else .error .badFree

def next (c : Clearing) (chunk : Nat) : Except Fault Nat :=
  if chunk = 0 then .error .nullRead
  else if chunk ∈ c.freed then .error .freedRead
  else .ok (c.pool.words chunk)

def body (c : Clearing) : Turn Clearing Cleared :=
  match c.free c.pool.chunks with
  | .error fault => .returned ⟨some fault, c.freed⟩
  | .ok released =>
      -- `temp` is freed, and `chunks_` still points to the same chunk.
      match released.next released.pool.chunks with
      | .error fault => .returned ⟨some fault, released.freed⟩
      | .ok next => .again { released with pool := { released.pool with chunks := next } }

/-- `while (!chunks_)`. -/
def turn (c : Clearing) : Option (Turn Clearing Cleared) :=
  if c.pool.chunks = 0 then some c.body else some (.returned ⟨none, c.freed⟩)

theorem body_null {c : Clearing} (null : c.pool.chunks = 0) :
    c.body = .returned ⟨some .nullRead, c.freed⟩ := by
  simp [body, free, next, null]

/-- Whatever the loop tested for, its body could not be run once: with a chunk it reads the
chunk it has just freed. -/
theorem body_faults (c : Clearing) :
    ∃ fault freed, c.body = .returned ⟨some fault, freed⟩ := by
  by_cases null : c.pool.chunks = 0
  · exact ⟨.nullRead, c.freed, body_null null⟩
  · by_cases held : c.pool.chunks ∈ c.pool.regions ∧ c.pool.chunks ∉ c.freed
    · exact ⟨.freedRead, c.pool.chunks :: c.freed, by simp [body, free, next, null, held]⟩
    · exact ⟨.badFree, c.freed, by simp [body, free, null, held]⟩

end Clearing

def Clears (p : FixedMemPool) (cleared : Cleared) : Prop := Returns Clearing.turn ⟨p, []⟩ cleared

def cleared (p : FixedMemPool) : Cleared :=
  if p.chunks = 0 then ⟨some .nullRead, []⟩ else ⟨none, []⟩

theorem clears_cleared (p : FixedMemPool) : Clears p p.cleared := by
  apply returns_of_body
  by_cases null : p.chunks = 0
  · simp [Clearing.turn, cleared, null, Clearing.body_null]
  · simp [Clearing.turn, cleared, null]

theorem clears_iff {p : FixedMemPool} {ended : Cleared} : Clears p ended ↔ ended = p.cleared := by
  constructor
  · intro ends
    exact returns_unique ends p.clears_cleared
  · rintro rfl
    exact p.clears_cleared

/-! What `Clear` is for. -/

def Ends (p : FixedMemPool) : Prop := ∃ ended, Clears p ended ∧ ended.fault = none

def FreesEachOnce (p : FixedMemPool) : Prop :=
  ∃ ended, Clears p ended ∧ ended.freed.Perm p.regions

def ReadsNoneFreed (p : FixedMemPool) : Prop :=
  ∀ ended, Clears p ended → ended.fault ≠ some .freedRead

structure Released (p : FixedMemPool) : Prop where
  ends : Ends p
  once : FreesEachOnce p
  unread : ReadsNoneFreed p

theorem cleared_freed (p : FixedMemPool) : p.cleared.freed = [] := by
  unfold cleared
  split <;> rfl

theorem ends_iff (p : FixedMemPool) : Ends p ↔ p.chunks ≠ 0 := by
  simp only [Ends, clears_iff, exists_eq_left, cleared]
  split <;> simp [*]

theorem freesEachOnce_iff (p : FixedMemPool) : FreesEachOnce p ↔ p.regions = [] := by
  simp only [FreesEachOnce, clears_iff, exists_eq_left, cleared_freed, List.nil_perm]

theorem readsNoneFreed (p : FixedMemPool) : ReadsNoneFreed p := by
  intro ended ends
  rw [clears_iff.mp ends, cleared]
  split <;> simp

/-! Whole histories: any calls of `Alloc` and `Release`, with any answers of `malloc`. -/

def perform (p : FixedMemPool) : PoolSession.Action → FixedMemPool
  | .alloc first second => (p.alloc first second).1
  | .release ptr => p.release ptr
  | .write address value => p.store address value

def used (words : Nat → Nat) (answer : Nat) (actions : List PoolSession.Action) : FixedMemPool :=
  actions.foldl perform (allocChunk ⟨0, 0, words, []⟩ answer)

theorem alloc_cases (p : FixedMemPool) (first second : Nat) :
    (∃ idle, (p.alloc first second).1 = { p with idleNodes := idle }) ∨
      ∃ opened grown value, (opened = p ∨ opened = p.allocChunk first) ∧
        (grown = opened ∨ grown = opened.allocChunk second) ∧
        (p.alloc first second).1 = grown.store (grown.chunks + lastOffset) value := by
  by_cases idle : p.idleNodes ≠ 0
  · left
    exact ⟨p.words p.idleNodes, by rw [alloc, if_pos idle]⟩
  · by_cases null : p.chunks = 0 ∧ first = 0
    · left
      exact ⟨p.idleNodes, by rw [alloc, if_neg idle, if_pos null]⟩
    · right
      rw [alloc, if_neg idle, if_neg null]
      exact ⟨if p.chunks = 0 then p.allocChunk first else p, _, _, (ite_eq_or_eq _ _ _).symm,
        (ite_eq_or_eq _ _ _).symm, rfl⟩

/-- `chunks_` is null exactly as long as no chunk was got. -/
def Headed (p : FixedMemPool) : Prop := p.chunks = 0 ↔ p.regions = []

theorem Headed.allocChunk {p : FixedMemPool} (headed : Headed p) (chunk : Nat) :
    Headed (p.allocChunk chunk) := by
  unfold FixedMemPool.allocChunk
  split
  · exact headed
  · rename_i real
    exact iff_of_false real (List.cons_ne_nil chunk p.regions)

theorem Headed.alloc {p : FixedMemPool} (headed : Headed p) (first second : Nat) :
    Headed (p.alloc first second).1 := by
  rcases p.alloc_cases first second with ⟨idle, same⟩ | ⟨opened, grown, value, opens, grow, made⟩
  · rw [same]
    exact headed
  · have openedHeaded : Headed opened := by
      rcases opens with rfl | rfl
      · exact headed
      · exact headed.allocChunk first
    rw [made]
    rcases grow with rfl | rfl
    · exact openedHeaded
    · exact openedHeaded.allocChunk second

theorem Headed.release {p : FixedMemPool} (headed : Headed p) (ptr : Nat) :
    Headed (p.release ptr) := by
  unfold FixedMemPool.release
  split
  · exact headed
  · exact headed

theorem Headed.perform {p : FixedMemPool} (headed : Headed p) (action : PoolSession.Action) :
    Headed (p.perform action) := by
  cases action with
  | alloc first second => exact headed.alloc first second
  | release ptr => exact headed.release ptr
  | write address value => exact headed

theorem Headed.foldl {p : FixedMemPool} (headed : Headed p) (actions : List PoolSession.Action) :
    Headed (actions.foldl FixedMemPool.perform p) := by
  induction actions generalizing p with
  | nil => exact headed
  | cons action rest ih => exact ih (headed.perform action)

theorem used_headed (words : Nat → Nat) (answer : Nat) (actions : List PoolSession.Action) :
    Headed (used words answer actions) := by
  have empty : Headed ⟨0, 0, words, []⟩ := iff_of_true rfl rfl
  exact (empty.allocChunk answer).foldl actions

/-- In no history does `Clear` release everything. It ends exactly when there is a chunk, and
it frees each chunk exactly when there is none. -/
theorem clear_never_releases (words : Nat → Nat) (answer : Nat)
    (actions : List PoolSession.Action) :
    ¬ Released (used words answer actions) ∧
      (Ends (used words answer actions) ↔ (used words answer actions).regions ≠ []) ∧
      (FreesEachOnce (used words answer actions) ↔ (used words answer actions).regions = []) ∧
      ReadsNoneFreed (used words answer actions) := by
  have ends : Ends (used words answer actions) ↔ (used words answer actions).regions ≠ [] :=
    (ends_iff _).trans (not_congr (used_headed words answer actions))
  have once := freesEachOnce_iff (used words answer actions)
  refine ⟨?_, ends, once, readsNoneFreed _⟩
  intro released
  exact ends.mp released.ends (once.mp released.once)

/-- One chunk, at 4096, a block taken and given back: the chunk is not freed. Without a chunk
the loop is entered and reads through null. -/
theorem one_chunk_not_freed :
    (used (fun _ => 0) 4096 [.alloc 0 0, .release 4120]).regions = [4096] ∧
      Clears (used (fun _ => 0) 4096 [.alloc 0 0, .release 4120]) ⟨none, []⟩ ∧
      ¬ Released (used (fun _ => 0) 4096 [.alloc 0 0, .release 4120]) ∧
      Clears (used (fun _ => 0) 0 []) ⟨some .nullRead, []⟩ := by
  refine ⟨rfl, clears_iff.mpr rfl, ?_, clears_iff.mpr rfl⟩
  intro released
  have none : [4096] = [] := (freesEachOnce_iff _).mp released.once
  cases none

end FixedMemPool

/-! The chunks that are not freed are all in the list at `chunks_`, however many they are. -/

namespace PoolSession

open FixedMemPool

/-- The list of the chunks in memory. -/
structure Listed (p : FixedMemPool) : Prop where
  chain : Chain p.words p.chunks p.regions
  apart : p.regions.Pairwise fun later earlier =>
    earlier + chunkSize ≤ later ∨ later + chunkSize ≤ earlier

/-- What is written into a block, `Release` included, is not the link of a chunk. -/
def OffLinks (s : PoolSession) : Action → Prop
  | .alloc _ _ => True
  | .release address | .write address _ => address ∉ s.pool.regions

theorem Chain.real {words : Nat → Nat} {head node : Nat} {nodes : List Nat}
    (chain : Chain words head nodes) (member : node ∈ nodes) : node ≠ 0 := by
  induction nodes generalizing head with
  | nil => cases member
  | cons first rest ih =>
      obtain ⟨-, real, later⟩ := chain
      rcases List.mem_cons.mp member with rfl | old
      · exact real
      · exact ih later old

theorem Listed.store {p : FixedMemPool} (listed : Listed p) {address : Nat}
    (off : address ∉ p.regions) (value : Nat) : Listed (p.store address value) := by
  refine ⟨listed.chain.congr ?_, listed.apart⟩
  intro node member
  have other : node ≠ address := by
    rintro rfl
    exact off member
  exact if_neg other

theorem Listed.allocChunk {p : FixedMemPool} (listed : Listed p) {chunk : Nat}
    (fresh : Fresh p.regions chunk) : Listed (p.allocChunk chunk) := by
  by_cases real : chunk = 0
  · rw [FixedMemPool.allocChunk, if_pos real]
    exact listed
  · have apart : ∀ region ∈ p.regions,
        region + chunkSize ≤ chunk ∨ chunk + chunkSize ≤ region := by
      intro region member
      exact (fresh.resolve_left real).2 region member (listed.chain.real member)
    constructor
    · rw [allocChunk_chunks p real, allocChunk_regions p real]
      refine ⟨rfl, real, ?_⟩
      rw [allocChunk_link p real]
      exact listed.chain.congr fun region member => allocChunk_outside p real (apart region member)
    · rw [allocChunk_regions p real]
      exact List.pairwise_cons.mpr ⟨apart, listed.apart⟩

theorem Listed.last_off {p : FixedMemPool} (listed : Listed p) :
    p.chunks + lastOffset ∉ p.regions := by
  obtain ⟨chain, apart⟩ := listed
  cases held : p.regions with
  | nil => exact List.not_mem_nil
  | cons chunk rest =>
      rw [held] at chain apart
      rw [chain.1]
      intro member
      rcases List.mem_cons.mp member with same | old
      · simp only [lastOffset] at same
        omega
      · have far := (List.pairwise_cons.mp apart).1 _ old
        simp only [lastOffset, chunkSize] at far
        omega

theorem Fresh.of_cons {region answer : Nat} {regions : List Nat}
    (fresh : Fresh (region :: regions) answer) : Fresh regions answer := by
  refine fresh.imp_right fun ⟨aligned, apart⟩ => ⟨aligned, ?_⟩
  exact fun other member => apart other (List.mem_cons_of_mem region member)

theorem Fresh.allocChunk {p : FixedMemPool} {chunk answer : Nat}
    (fresh : Fresh (chunk :: p.regions) answer) : Fresh (p.allocChunk chunk).regions answer := by
  by_cases real : chunk = 0
  · rw [FixedMemPool.allocChunk, if_pos real]
    exact fresh.of_cons
  · rw [allocChunk_regions p real]
    exact fresh

theorem Listed.alloc {p : FixedMemPool} (listed : Listed p) {first second : Nat}
    (fresh : Fresh p.regions first) (later : Fresh (first :: p.regions) second) :
    Listed (p.alloc first second).1 := by
  rcases p.alloc_cases first second with ⟨idle, same⟩ | ⟨opened, grown, value, opens, grow, made⟩
  · rw [same]
    exact ⟨listed.chain, listed.apart⟩
  · have listedOpened : Listed opened ∧ Fresh opened.regions second := by
      rcases opens with rfl | rfl
      · exact ⟨listed, later.of_cons⟩
      · exact ⟨listed.allocChunk fresh, later.allocChunk⟩
    have listedGrown : Listed grown := by
      rcases grow with rfl | rfl
      · exact listedOpened.1
      · exact listedOpened.1.allocChunk listedOpened.2
    rw [made]
    exact listedGrown.store listedGrown.last_off value

theorem Listed.release {p : FixedMemPool} (listed : Listed p) {ptr : Nat}
    (off : ptr ∉ p.regions) : Listed (p.release ptr) := by
  unfold FixedMemPool.release
  split
  · exact listed
  · exact ⟨(listed.store off p.idleNodes).chain, listed.apart⟩

theorem Listed.step {s next : PoolSession} {action : Action} (listed : Listed s.pool)
    (off : s.OffLinks action) (stepped : s.step action = some next) : Listed next.pool := by
  cases action with
  | alloc first second =>
      obtain ⟨⟨fresh, later⟩, made⟩ := Option.ite_none_right_eq_some.mp stepped
      cases made
      exact listed.alloc fresh later
  | release ptr =>
      obtain ⟨-, made⟩ := Option.ite_none_right_eq_some.mp stepped
      cases made
      exact listed.release off
  | write address value =>
      obtain ⟨-, made⟩ := Option.ite_none_right_eq_some.mp stepped
      cases made
      exact listed.store off value

theorem start_listed (words : Nat → Nat) {answer : Nat} (fresh : Fresh [] answer) :
    Listed (start words answer).pool := by
  have empty : Listed ⟨0, 0, words, []⟩ := ⟨rfl, .nil⟩
  exact empty.allocChunk fresh

theorem step_pool {s next : PoolSession} {action : Action} (stepped : s.step action = some next) :
    next.pool = s.pool.perform action := by
  cases action with
  | alloc first second =>
      obtain ⟨-, made⟩ := Option.ite_none_right_eq_some.mp stepped
      cases made
      rfl
  | release ptr =>
      obtain ⟨-, made⟩ := Option.ite_none_right_eq_some.mp stepped
      cases made
      rfl
  | write address value =>
      obtain ⟨-, made⟩ := Option.ite_none_right_eq_some.mp stepped
      cases made
      rfl

theorem run_pool {s final : PoolSession} {actions : List Action}
    (ran : run step s actions = some final) : final.pool = actions.foldl perform s.pool := by
  induction actions generalizing s with
  | nil =>
      cases ran
      rfl
  | cons action rest ih =>
      obtain ⟨next, stepped, later⟩ := run_cons_some.mp ran
      rw [ih later, step_pool stepped, List.foldl_cons]

/-- In every history whose blocks are not written over the links of the chunks, the chunks
are those of the list at `chunks_`, and `Clear` frees none of them. -/
theorem listed_not_freed (words : Nat → Nat) {answer : Nat} (fresh : Fresh [] answer)
    {actions : List Action} {final : PoolSession}
    (off : Along step OffLinks (start words answer) actions)
    (ran : run step (start words answer) actions = some final) :
    Listed (used words answer actions) ∧
      ∀ ended, Clears (used words answer actions) ended → ended.freed = [] := by
  have same : final.pool = used words answer actions := run_pool ran
  rw [← same]
  constructor
  · exact run_invariant_along (fun s => Listed s.pool) (fun s action next => Listed.step)
      (start_listed words fresh) off ran
  · intro ended ends
    rw [clears_iff.mp ends, cleared_freed]

theorem Inv.offLinks {s next : PoolSession} {action : Action} (inv : Inv s)
    (stepped : s.step action = some next) : s.OffLinks action := by
  have inside : ∀ block ∈ s.live, ∀ address, block ≤ address → address ∉ s.pool.regions := by
    intro block used address lower member
    rcases inv with closed | ⟨chunk, carved, idle, opened⟩
    · rw [closed.live] at used
      cases used
    · obtain ⟨i, -, rfl⟩ := opened.place (List.mem_append_left idle used)
      rw [opened.regions, List.mem_singleton] at member
      simp only [blockAt, dataOffset] at lower
      omega
  cases action with
  | alloc first second => trivial
  | release ptr =>
      obtain ⟨used, -⟩ := Option.ite_none_right_eq_some.mp stepped
      exact inside ptr used ptr (Nat.le_refl ptr)
  | write address value =>
      obtain ⟨⟨block, used, lower, -⟩, -⟩ := Option.ite_none_right_eq_some.mp stepped
      exact inside block used address lower

theorem listed_of_fits (words : Nat → Nat) {answer : Nat} (fresh : Fresh [] answer)
    {actions : List Action} {final : PoolSession}
    (fits : Along step FitsChunk (start words answer) actions)
    (ran : run step (start words answer) actions = some final) : Listed final.pool := by
  have both : Inv final ∧ Listed final.pool := by
    refine run_invariant_along (fun s => Inv s ∧ Listed s.pool) ?_
      ⟨start_inv words fresh, start_listed words fresh⟩ fits ran
    intro s action next ⟨inv, listed⟩ fit stepped
    exact ⟨inv.step fit stepped, listed.step (inv.offLinks stepped) stepped⟩
  exact both.2

end PoolSession

end Muzi
