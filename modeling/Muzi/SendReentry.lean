import Muzi.Grouping
import Muzi.OutputSteps

/-!
Callbacks that call back into `SendInLoop`. The output of one connection is traced over the
steps of the loop thread: every message that a `SendInLoop` does not give up gets a number,
every step that puts bytes into the output stream adds a piece under the number of its
message, and a `SendInLoop` that waits for `high_water_callback_` to return is remembered
with the number of its own.
-/

namespace Muzi.SendReentry

open Storage TcpConnection Execution Grouping OutputSteps
open ConnectionClose ConnectionClose.Reactor
open OutputStream (Holds Payload Source)

abbrev Piece := Nat × List Byte

structure Traced where
  reactor : Reactor
  messages : List (List Byte)
  pieces : List Piece
  /-- The messages of the suspended calls of `SendInLoop`, the innermost first. -/
  waiting : List Nat

def piece (id : Nat) (data : List Byte) : List Piece := if data = [] then [] else [(id, data)]

namespace Traced

/-- What a step to `next` adds to the trace of `c`. A call that is suspended no more ends
the innermost wait. -/
def record (c : Nat) (t : Traced) (action : Action) (next : Reactor) : Traced :=
  let added := (output (next.conns c)).drop (output (t.reactor.conns c)).length
  let before := (suspended c t.reactor).length
  let after := (suspended c next).length
  match message c t.reactor action with
  | some payload =>
      { reactor := next
        messages := t.messages ++ [payload.bytes]
        pieces := t.pieces ++ piece t.messages.length added
        waiting := if before < after then t.messages.length :: t.waiting else t.waiting }
  | none =>
      if after < before then
        { t with
          reactor := next
          pieces := t.pieces ++ piece (t.waiting.headD 0) added
          waiting := t.waiting.tail }
      else { t with reactor := next }

def step (c : Nat) (t : Traced) (action : Action) : Option Traced :=
  if limited action then (t.reactor.step action).map (t.record c action) else none

def start (r : Reactor) : Traced := ⟨r, [], [], []⟩

def bytes (pieces : List Piece) : List Byte := (pieces.map Prod.snd).flatten

/-- The pieces of message `i` stand one behind another, and the message at their front. -/
def Contiguous (t : Traced) (i : Nat) : Prop :=
  piecesOf i t.pieces <:+: t.pieces ∧
    ∀ message, t.messages[i]? = some message → message <+: bytes (piecesOf i t.pieces)

/-- A message is sent while another waits of which the kernel took a part. -/
def Intrudes (c : Nat) (t : Traced) (action : Action) : Prop :=
  (∃ payload, message c t.reactor action = some payload ∧ payload.bytes ≠ []) ∧
    ∃ i ∈ t.waiting, i ∈ t.pieces.map Prod.fst

/-- The rest of a `SendInLoop` leaves the channel of a closed connection alone. -/
def KeepsChannel (c : Nat) (t : Traced) (action : Action) : Prop :=
  action = .callbackReturn → (∃ source rest, t.reactor.frames = .appending c source :: rest) →
    (t.reactor.conns c).state = .kDisConnected →
    ∀ next, t.reactor.step action = some next →
      (next.conns c).channel = (t.reactor.conns c).channel

def ClosesInside (c : Nat) (t : Traced) (action : Action) : Prop :=
  suspended c t.reactor ≠ [] ∧ (t.reactor.conns c).state ≠ .kDisConnected ∧
    ∃ next, t.reactor.step action = some next ∧ (next.conns c).state = .kDisConnected

/-! The trace. -/

theorem bytes_append (front back : List Piece) :
    bytes (front ++ back) = bytes front ++ bytes back := by
  simp [bytes]

theorem bytes_piece (id : Nat) (data : List Byte) : bytes (piece id data) = data := by
  unfold piece
  split
  · rename_i empty
    rw [empty]
    rfl
  · simp [bytes]

theorem piece_real {data : List Byte} (id : Nat) (real : data ≠ []) :
    piece id data = [(id, data)] :=
  if_neg real

theorem piece_eq_nil {id : Nat} {data : List Byte} : piece id data = [] ↔ data = [] := by
  simp [piece]

theorem mem_piece {id : Nat} {data : List Byte} {other : Piece} (member : other ∈ piece id data) :
    other.1 = id := by
  unfold piece at member
  split at member
  · cases member
  · cases List.mem_singleton.mp member
    rfl

/-- What the suspended calls will add when they go on, in this order. -/
def planned (c : Nat) (t : Traced) : List Piece :=
  t.waiting.zip ((suspended c t.reactor).map Source.data)

def future (c : Nat) (t : Traced) : List Piece := t.pieces ++ t.planned c

structure Inv (c : Nat) (before : List Byte) (t : Traced) : Prop where
  holds : Holds (t.reactor.conns c) (before ++ bytes t.pieces)
  depth : t.waiting.length = (suspended c t.reactor).length
  real : ∀ source ∈ suspended c t.reactor, source.data ≠ []
  known : ∀ piece ∈ t.future c, piece.1 < t.messages.length
  complete : ∀ i message, t.messages[i]? = some message →
    message <+: bytes (piecesOf i (t.future c))

def Together (c : Nat) (t : Traced) : Prop := Grouped ((t.future c).map Prod.fst)

theorem Inv.planned_ids {c : Nat} {before : List Byte} {t : Traced} (inv : Inv c before t) :
    (t.planned c).map Prod.fst = t.waiting := by
  apply List.map_fst_zip
  rw [List.length_map]
  exact Nat.le_of_eq inv.depth

theorem Inv.fresh {c : Nat} {before : List Byte} {t : Traced} (inv : Inv c before t) :
    t.messages.length ∉ t.pieces.map Prod.fst ∧
      t.messages.length ∉ (t.planned c).map Prod.fst := by
  have fresh : t.messages.length ∉ (t.future c).map Prod.fst := by
    intro member
    obtain ⟨other, old, same⟩ := List.mem_map.mp member
    exact Nat.lt_irrefl _ (same ▸ inv.known other old)
  rwa [future, List.map_append, List.mem_append, not_or] at fresh

section Record

variable {c : Nat} {t : Traced} {action : Action} {next : Reactor} {stream : List Byte}

theorem added_eq {data : List Byte} (holds : Holds (t.reactor.conns c) stream)
    (after : Holds (next.conns c) (stream ++ data)) :
    (output (next.conns c)).drop (output (t.reactor.conns c)).length = data := by
  rw [output_eq holds, output_eq after, List.drop_left]

theorem record_calm (asked : message c t.reactor action = none)
    (same : suspended c next = suspended c t.reactor) :
    t.record c action next = { t with reactor := next } := by
  simp [record, asked, same]

theorem record_returned {id : Nat} {rest : List Nat} {source : Source}
    (asked : message c t.reactor action = none)
    (below : suspended c t.reactor = source :: suspended c next) (waiting : t.waiting = id :: rest)
    (holds : Holds (t.reactor.conns c) stream)
    (after : Holds (next.conns c) (stream ++ source.data)) (real : source.data ≠ []) :
    t.record c action next =
      { t with
        reactor := next
        pieces := t.pieces ++ [(id, source.data)]
        waiting := rest } := by
  simp [record, asked, below, waiting, added_eq holds after, piece_real id real]

theorem record_done {payload : Payload} {data : List Byte}
    (asked : message c t.reactor action = some payload)
    (same : suspended c next = suspended c t.reactor)
    (holds : Holds (t.reactor.conns c) stream) (after : Holds (next.conns c) (stream ++ data)) :
    t.record c action next =
      { reactor := next
        messages := t.messages ++ [payload.bytes]
        pieces := t.pieces ++ piece t.messages.length data
        waiting := t.waiting } := by
  simp [record, asked, same, added_eq holds after]

theorem record_halted {payload : Payload} {front : List Byte} {source : Source}
    (asked : message c t.reactor action = some payload)
    (above : suspended c next = source :: suspended c t.reactor)
    (holds : Holds (t.reactor.conns c) stream) (after : Holds (next.conns c) (stream ++ front)) :
    t.record c action next =
      { reactor := next
        messages := t.messages ++ [payload.bytes]
        pieces := t.pieces ++ piece t.messages.length front
        waiting := t.messages.length :: t.waiting } := by
  simp [record, asked, above, added_eq holds after]

end Record

structure Gains (c : Nat) (before : List Byte) (t : Traced) (payload : Payload) (next : Traced)
    (new : List Piece) : Prop where
  holds : Holds (next.reactor.conns c) (before ++ bytes next.pieces)
  depth : next.waiting.length = (suspended c next.reactor).length
  real : ∀ source ∈ suspended c next.reactor, source.data ≠ []
  messages : next.messages = t.messages ++ [payload.bytes]
  future : next.future c = t.pieces ++ (new ++ t.planned c)
  mine : ∀ piece ∈ new, piece.1 = t.messages.length
  covers : payload.bytes <+: bytes new
  empty : new = [] ↔ payload.bytes = []

section Step

variable {c : Nat} {before : List Byte} {t : Traced} {action : Action}

theorem Inv.gains {payload : Payload} {next : Reactor} (inv : Inv c before t)
    (asked : message c t.reactor action = some payload)
    (sent : Sent c (before ++ bytes t.pieces) payload (suspended c t.reactor) next) :
    ∃ new, Gains c before t payload (t.record c action next) new := by
  cases sent with
  | done data same holds covers real =>
      rw [record_done asked same inv.holds holds]
      refine ⟨piece t.messages.length data, ?_⟩
      exact {
        holds := by rwa [bytes_append, bytes_piece, ← List.append_assoc]
        depth := inv.depth.trans (congrArg List.length same.symm)
        real := same ▸ inv.real
        messages := rfl
        future := by rw [Traced.future, planned, same, List.append_assoc]; rfl
        mine := fun _ => mem_piece
        covers := by rwa [bytes_piece]
        empty := by
          rw [piece_eq_nil]
          constructor
          · rintro rfl
            exact List.prefix_nil.mp covers
          · exact fun empty => Classical.not_not.mp fun some => real some empty }
  | halted front source above holds covers rest real =>
      rw [record_halted asked above inv.holds holds]
      refine ⟨piece t.messages.length front ++ [(t.messages.length, source.data)], ?_⟩
      exact {
        holds := by rwa [bytes_append, bytes_piece, ← List.append_assoc]
        depth := by
          dsimp only
          rw [above, List.length_cons, List.length_cons, inv.depth]
        real := by
          dsimp only
          rw [above]
          exact List.forall_mem_cons.mpr ⟨rest, inv.real⟩
        messages := rfl
        future := by
          simp [Traced.future, planned, above]
        mine := by
          intro other member
          rcases List.mem_append.mp member with written | rest
          · exact mem_piece written
          · cases List.mem_singleton.mp rest
            rfl
        covers := by
          rw [bytes_append, bytes_piece]
          simpa [bytes] using covers
        empty := by simp [real] }

theorem Gains.inv {payload : Payload} {next : Traced} {new : List Piece}
    (gains : Gains c before t payload next new) (inv : Inv c before t) : Inv c before next where
  holds := gains.holds
  depth := gains.depth
  real := gains.real
  known := by
    rw [gains.future, gains.messages, List.length_append, List.length_singleton]
    intro other member
    rcases List.mem_append.mp member with old | later
    · have := inv.known other (List.mem_append_left _ old)
      omega
    · rcases List.mem_append.mp later with mine | old
      · have := gains.mine other mine
        omega
      · have := inv.known other (List.mem_append_right _ old)
        omega
  complete := by
    intro i message sent
    rw [gains.future, piecesOf_append, piecesOf_append]
    rw [gains.messages] at sent
    by_cases last : i = t.messages.length
    · subst last
      rw [piecesOf_eq_nil.mpr inv.fresh.1, piecesOf_eq_nil.mpr inv.fresh.2,
        piecesOf_eq_self gains.mine, List.append_nil, List.nil_append]
      rw [List.getElem?_append_right (Nat.le_refl _), Nat.sub_self] at sent
      cases sent
      exact gains.covers
    · have others : piecesOf i new = [] := by
        rw [piecesOf_eq_nil]
        intro member
        obtain ⟨other, mine, same⟩ := List.mem_map.mp member
        exact last (same.symm.trans (gains.mine other mine))
      have inside : i < t.messages.length := by
        have bound := (List.getElem?_eq_some_iff.mp sent).1
        rw [List.length_append, List.length_singleton] at bound
        omega
      rw [List.getElem?_append_left inside] at sent
      rw [others, List.nil_append, ← piecesOf_append]
      exact inv.complete i message sent

/-- A message parts others exactly by coming in behind a part of one that waits. -/
theorem Gains.together_iff {payload : Payload} {next : Traced} {new : List Piece}
    (gains : Gains c before t payload next new) (inv : Inv c before t)
    (asked : message c t.reactor action = some payload) :
    Together c next ↔ Together c t ∧ ¬Intrudes c t action := by
  have intrudes : Intrudes c t action ↔
      payload.bytes ≠ [] ∧ ∃ i ∈ t.waiting, i ∈ t.pieces.map Prod.fst := by
    simp [Intrudes, asked]
  rw [Together, Together, gains.future, intrudes]
  by_cases none : new = []
  · simp [none, gains.empty.mp none, Traced.future]
  · have real : payload.bytes ≠ [] := fun empty => none (gains.empty.mpr empty)
    have ids : new.map Prod.fst = List.replicate (new.length - 1 + 1) t.messages.length := by
      have some : 0 < new.length := List.length_pos_iff.mpr none
      rw [List.eq_replicate_iff, List.length_map]
      refine ⟨by omega, ?_⟩
      intro id member
      obtain ⟨other, mine, rfl⟩ := List.mem_map.mp member
      exact gains.mine other mine
    rw [Traced.future, List.map_append, List.map_append, List.map_append, ids,
      grouped_insert_replicate inv.fresh.1 inv.fresh.2, inv.planned_ids]
    simp only [ne_eq, real, not_false_eq_true, true_and, not_exists, not_and]
    exact and_congr_right fun _ => ⟨fun apart i waits old => apart i old waits,
      fun apart i old waits => apart i waits old⟩

theorem Inv.of_future {next : Traced} (inv : Inv c before t)
    (holds : Holds (next.reactor.conns c) (before ++ bytes next.pieces))
    (depth : next.waiting.length = (suspended c next.reactor).length)
    (real : ∀ source ∈ suspended c next.reactor, source.data ≠ [])
    (future : next.future c = t.future c) (messages : next.messages = t.messages) :
    Inv c before next where
  holds := holds
  depth := depth
  real := real
  known := by
    rw [future, messages]
    exact inv.known
  complete := by
    rw [future, messages]
    exact inv.complete

theorem Inv.step {next : Traced} (inv : Inv c before t)
    (stepped : step c t action = some next) :
    Inv c before next ∧ (Together c next ↔ Together c t ∧ ¬Intrudes c t action) := by
  obtain ⟨limit, moved⟩ := Option.ite_none_right_eq_some.mp stepped
  obtain ⟨r, reactor, rfl⟩ := Option.map_eq_some_iff.mp moved
  cases step_traces inv.holds limit reactor with
  | sent payload asked state sent =>
      obtain ⟨new, gains⟩ := inv.gains asked sent
      exact ⟨gains.inv inv, gains.together_iff inv asked⟩
  | returned source rest asked back frames below holds state writing =>
      have none : ¬Intrudes c t action := by simp [Intrudes, asked]
      have depth := inv.depth
      rw [below] at depth
      obtain ⟨id, outer, waiting⟩ := List.exists_of_length_succ _ depth
      have real : source.data ≠ [] := inv.real source (below ▸ List.mem_cons_self)
      rw [record_returned asked below waiting inv.holds holds real]
      have future : Traced.future c ⟨r, t.messages, t.pieces ++ [(id, source.data)], outer⟩ =
          t.future c := by
        simp [Traced.future, planned, waiting, below]
      constructor
      · apply inv.of_future _ _ _ future rfl
        · simpa [bytes] using holds
        · simpa [waiting] using depth
        · intro other member
          exact inv.real other (below ▸ List.mem_cons_of_mem source member)
      · rw [Together, future]
        exact (and_iff_left none).symm
  | calm asked calm =>
      have none : ¬Intrudes c t action := by simp [Intrudes, asked]
      rw [record_calm asked calm.suspended]
      have future : Traced.future c { t with reactor := r } = t.future c := by
        simp [Traced.future, planned, calm.suspended]
      constructor
      · apply inv.of_future (calm.mild.holds _ inv.holds) _ _ future rfl
        · exact inv.depth.trans (congrArg List.length calm.suspended.symm)
        · exact calm.suspended ▸ inv.real
      · rw [Together, future]
        exact (and_iff_left none).symm

end Step

theorem Inv.contiguous_iff {c : Nat} {before : List Byte} {t : Traced} (inv : Inv c before t)
    (ended : suspended c t.reactor = []) : (∀ i, t.Contiguous i) ↔ Together c t := by
  have all : t.future c = t.pieces := by
    simp [future, planned, ended]
  have complete := inv.complete
  rw [all] at complete
  rw [Together, all, grouped_iff_infix]
  exact ⟨fun contiguous i => (contiguous i).1, fun infixes i => ⟨infixes i, complete i⟩⟩

theorem start_inv {c : Nat} {before : List Byte} {r : Reactor} (holds : Holds (r.conns c) before)
    (idle : suspended c r = []) : Inv c before (start r) where
  holds := by simpa [start, bytes] using holds
  depth := by simp [start, idle]
  real := by simp [start, idle]
  known := by simp [start, future, planned]
  complete := by simp [start]

theorem start_together (c : Nat) (r : Reactor) : Together c (start r) := by
  simp [Together, Grouped, start, future, planned]

/-! Closing. -/

/-- Closed while a `SendInLoop` still has to go on. -/
def Doomed (c : Nat) (t : Traced) : Prop :=
  (t.reactor.conns c).state = .kDisConnected ∧ suspended c t.reactor ≠ []

theorem record_reactor (c : Nat) (t : Traced) (action : Action) (next : Reactor) :
    (t.record c action next).reactor = next := by
  simp only [record]
  split
  · rfl
  · split <;> rfl

theorem closesInside_iff {c : Nat} {t : Traced} {action : Action} {r : Reactor}
    (moved : t.reactor.step action = some r) :
    ClosesInside c t action ↔ suspended c t.reactor ≠ [] ∧
      (t.reactor.conns c).state ≠ .kDisConnected ∧ (r.conns c).state = .kDisConnected := by
  simp [ClosesInside, moved]

section Closing

variable {c : Nat} {before : List Byte} {t next : Traced} {action : Action}

theorem keepsChannel_of_safe (safe : ¬Doomed c t) : KeepsChannel c t action := by
  rintro - ⟨source, rest, frames⟩ closed
  refine absurd ⟨closed, ?_⟩ safe
  rw [suspended, frames, List.filterMap_cons_some (pending_own c source)]
  exact List.cons_ne_nil _ _

/-- Where nothing is doomed, the next step dooms a call exactly by closing around it. -/
theorem safe_leads (inv : Inv c before t) (idle : Idle (t.reactor.conns c)) (safe : ¬Doomed c t)
    (stepped : step c t action = some next) :
    Idle (next.reactor.conns c) ∧ (Doomed c next ↔ ClosesInside c t action) := by
  obtain ⟨limit, moved⟩ := Option.ite_none_right_eq_some.mp stepped
  obtain ⟨r, reactor, rfl⟩ := Option.map_eq_some_iff.mp moved
  rw [closesInside_iff reactor, Doomed, record_reactor]
  have alive : (r.conns c).state ≠ .kDisConnected →
      Idle (r.conns c) ∧ ((r.conns c).state = .kDisConnected ∧ suspended c r ≠ [] ↔
        suspended c t.reactor ≠ [] ∧ (t.reactor.conns c).state ≠ .kDisConnected ∧
          (r.conns c).state = .kDisConnected) := by
    intro connected
    exact ⟨fun closed => absurd closed connected,
      iff_of_false (fun doomed => connected doomed.1) (fun closes => connected closes.2.2)⟩
  cases step_traces inv.holds limit reactor with
  | sent payload asked state sent => exact alive (state ▸ message_connected asked)
  | returned source rest asked back frames below holds state writing =>
      apply alive
      rw [state]
      intro closed
      exact safe ⟨closed, below ▸ List.cons_ne_nil _ _⟩
  | calm asked calm =>
      refine ⟨calm.mild.idle idle, ?_⟩
      rw [calm.suspended]
      constructor
      · rintro ⟨closed, calls⟩
        exact ⟨calls, fun before => safe ⟨before, calls⟩, closed⟩
      · rintro ⟨calls, -, closed⟩
        exact ⟨closed, calls⟩

/-- A doomed call stays suspended until it goes on, and then it touches the channel. -/
theorem doomed_stays (inv : Inv c before t) (idle : Idle (t.reactor.conns c))
    (doomed : Doomed c t) (kept : KeepsChannel c t action)
    (stepped : step c t action = some next) :
    Idle (next.reactor.conns c) ∧ Doomed c next := by
  obtain ⟨limit, moved⟩ := Option.ite_none_right_eq_some.mp stepped
  obtain ⟨r, reactor, rfl⟩ := Option.map_eq_some_iff.mp moved
  obtain ⟨closed, calls⟩ := doomed
  rw [Doomed, record_reactor]
  cases step_traces inv.holds limit reactor with
  | sent payload asked state sent => exact absurd closed (message_connected asked)
  | returned source rest asked back frames below holds state writing =>
      have same := kept back ⟨source, rest, frames⟩ closed r reactor
      rw [same, idle closed] at writing
      cases writing
  | calm asked calm =>
      have rank := ((ConnectionStates.step_touches reactor).forward c).rank
      rw [closed] at rank
      exact ⟨calm.mild.idle idle, ConnectionState.gone_of_rank_le rank, calm.suspended ▸ calls⟩

end Closing

/-! Whole runs. -/

/-- From a connected connection with any output, to when no `SendInLoop` of it is suspended
any more, whatever the callbacks did: the stream is what it was and the pieces, all messages
are contiguous in it exactly when none was sent inside `high_water_callback_` of a message
the kernel had taken a part of, and a closed channel is left alone exactly when the
connection was never closed inside `high_water_callback_`. -/
theorem reentry_safe_iff (c : Nat) (r : Reactor) (before : List Byte)
    (holds : Holds (r.conns c) before) (idle : suspended c r = [])
    (connected : (r.conns c).state = .kConnected) (actions : List Action) (final : Traced)
    (ran : run (step c) (start r) actions = some final)
    (ended : suspended c final.reactor = []) :
    Holds (final.reactor.conns c) (before ++ bytes final.pieces) ∧
      ((∀ i, final.Contiguous i) ↔
        Along (step c) (fun t action => ¬Intrudes c t action) (start r) actions) ∧
      (Along (step c) (KeepsChannel c) (start r) actions ↔
        Along (step c) (fun t action => ¬ClosesInside c t action) (start r) actions) := by
  have invStart := start_inv holds idle
  have invFinal : Inv c before final :=
    run_invariant (Inv c before) (fun _ _ _ inv stepped => (inv.step stepped).1) invStart ran
  refine ⟨invFinal.holds, ?_, ?_⟩
  · rw [invFinal.contiguous_iff ended, good_iff_along
      (fun _ _ _ inv stepped => (Inv.step inv stepped).1)
      (fun _ _ _ inv stepped => (Inv.step inv stepped).2) invStart ran]
    exact and_iff_right (start_together c r)
  · have safe : ¬Doomed c (start r) := fun doomed => doomed.2 idle
    have quiet : Idle ((start r).reactor.conns c) := by
      intro closed
      cases connected.symm.trans closed
    refine along_iff_of_trap
      (fun t => Inv c before t ∧ Idle (t.reactor.conns c) ∧ ¬Doomed c t)
      (fun t => Inv c before t ∧ Idle (t.reactor.conns c) ∧ Doomed c t)
      ?_ ?_ ⟨invStart, quiet, safe⟩ (fun trapped => trapped.2.2.2 ended) ran
    · rintro t action next ⟨inv, idle, safe⟩ stepped
      obtain ⟨still, doomed⟩ := safe_leads inv idle safe stepped
      have kept := (inv.step stepped).1
      refine ⟨keepsChannel_of_safe safe, ?_⟩
      by_cases closes : ClosesInside c t action
      · exact .inr ⟨fun never => never closes, kept, still, doomed.mpr closes⟩
      · exact .inl ⟨closes, kept, still, fun doom => closes (doomed.mp doom)⟩
    · rintro t action next ⟨inv, idle, doomed⟩ kept stepped
      exact ⟨(inv.step stepped).1, doomed_stays inv idle doomed kept stepped⟩

def watched : Reactor where
  conns _ := { OutputStream.established.conn with highWaterMark := 1, highWaterCallback := true }
  phase := .executing
  frames := [.user]
  log := []

def outer : Payload := .block ⟨OutputStream.counting, 0, 2⟩

def nested : Payload := .block ⟨OutputStream.counting, 8, 1⟩

def refused : List Action :=
  [.call (.send 0 outer (.error 11)), .call (.send 0 nested (.count 1)), .callbackReturn]

theorem refused_reentry_safe : ∃ final, run (step 0) (start watched) refused = some final ∧
    ((∀ i, final.Contiguous i) ↔
      Along (step 0) (fun t action => ¬Intrudes 0 t action) (start watched) refused) := by
  have idle : suspended 0 watched = [] := rfl
  have done : ((run (step 0) (start watched) refused).map fun t =>
      (suspended 0 t.reactor).length) = some 0 := by
    decide +kernel
  obtain ⟨final, ran, ended⟩ := Option.map_eq_some_iff.mp done
  exact ⟨final, ran, (reentry_safe_iff 0 watched [] OutputStream.established.holds idle rfl refused
    final ran (List.eq_nil_of_length_eq_zero ended)).2.1⟩

/-- The kernel takes the first byte, and the callback sends another message. -/
def intrusion : List Action :=
  [.call (.send 0 outer (.count 1)), .call (.send 0 nested (.count 1)), .callbackReturn]

/-- The kernel takes nothing, and the callback closes the connection; the other returns are
those of `connection_callback_` and `close_callback_`. -/
def closing : List Action :=
  [.call (.send 0 outer (.error 11)), .call (.forceClose 0), .callbackReturn, .callbackReturn,
    .callbackReturn]

/-- The message 1, 2 is parted by the 9, and a closed connection is back in the epoll set. -/
theorem reentry_spoils :
    (run (step 0) (start watched) intrusion).map
        (fun t => (t.messages, output (t.reactor.conns 0))) =
      some ([[1, 2], [9]], [1, 9, 2, 3]) ∧
    ¬([1, 2] : List Byte) <:+: [1, 9, 2, 3] ∧
    (run (step 0) (start watched) closing).map
        (fun t => ((t.reactor.conns 0).state, (t.reactor.conns 0).channel)) =
      some (.kDisConnected, ⟨Channel.kWriteEvent, .kAdded, true⟩) := by
  decide +kernel

end Traced

end Muzi.SendReentry
