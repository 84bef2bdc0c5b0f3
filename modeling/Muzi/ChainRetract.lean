import Muzi.ChainInvariant

/-!
`UnWrite` on the chained buffer. `BackWard` leaves a block also when the bytes to take
back start with the block, and then stands at the end of the block before, where no other
operation puts the write cursor, or before `begin()`. The first cursor looks harmless:
the contents are right until a drain sends the block it stands on to the back of the list.
-/

namespace Muzi.ChainRetract

open NodeList Storage ChainBuffer ByteQueue Execution

/-! Where the cursor goes. -/

theorem walk_back {earlier rest : List (Node Block)} {last node : Node Block}
    (distinct : ((earlier ++ last :: node :: rest).map Node.id).Nodup) :
    deref (earlier ++ last :: node :: rest) (some node.id) = some node.value ∧
      prev (earlier ++ last :: node :: rest) (some node.id) = some (some last.id) ∧
      deref (earlier ++ last :: node :: rest) (some last.id) = some last.value := by
  have landed := deref_located distinct
  have regrouped : earlier ++ last :: node :: rest = (earlier ++ [last]) ++ node :: rest := by simp
  rw [regrouped] at distinct landed ⊢
  have preceding := prev_located distinct
  rw [List.getLast?_concat, Option.map_some] at preceding
  exact ⟨deref_located distinct, preceding, landed⟩

theorem backWard_spec (turns : Nat) (front : List (Node Block)) (node : Node Block)
    (rest : List (Node Block)) (pos len : Nat)
    (distinct : ((front ++ node :: rest).map Node.id).Nodup) (inside : pos ≤ kBufferSize)
    (started : 0 < pos ∨ 0 < len) (bound : len < turns + min 1 pos)
    (room : len < front.length * kBufferSize + pos) :
    ∃ passed target left stop, front ++ [node] = passed ++ target :: left ∧
      backWard (front ++ node :: rest) turns (some node.id) pos len = some (some target.id, stop) ∧
      passed.length * kBufferSize + stop + len = front.length * kBufferSize + pos ∧
      0 < stop ∧ stop ≤ kBufferSize := by
  induction turns generalizing front node rest pos len with
  | zero =>
      obtain rfl : len = 0 := by omega
      exact ⟨front, node, [], pos, rfl, by simp [backWard], by omega, by omega, inside⟩
  | succ turns ih =>
      by_cases done : len = 0
      · subst done
        exact ⟨front, node, [], pos, rfl, by simp [backWard], by omega, by omega, inside⟩
      by_cases within : pos > len
      · have here := deref_located distinct
        exact ⟨front, node, [], pos - len, rfl, by simp [backWard, done, here, within], by omega,
          by omega, by omega⟩
      rcases List.eq_nil_or_concat front with rfl | ⟨earlier, last, rfl⟩
      · simp only [List.length_nil, Nat.zero_mul] at room
        omega
      · have regrouped : earlier.concat last ++ node :: rest = earlier ++ last :: node :: rest := by
          simp
        have block : 1 ≤ kBufferSize := by decide
        rw [regrouped] at distinct ⊢
        rw [List.length_concat, Nat.add_mul, Nat.one_mul] at room ⊢
        obtain ⟨here, preceding, landed⟩ := walk_back distinct
        obtain ⟨passed, target, left, stop, cut, ran, measured, positive, stopInside⟩ :=
          ih earlier last (node :: rest) kBufferSize (len - pos) distinct (Nat.le_refl _)
            (.inl block) (by omega) (by omega)
        refine ⟨passed, target, left ++ [node], stop, ?_, ?_, by omega, positive, stopInside⟩
        · rw [List.concat_eq_append, cut]
          simp
        · simp only [backWard, done, here, within, preceding, landed, ran, ↓reduceIte,
            Option.bind_eq_bind, Option.bind_some]

theorem backWard_beyond (turns : Nat) (front : List (Node Block)) (node : Node Block)
    (rest : List (Node Block)) (pos len : Nat)
    (distinct : ((front ++ node :: rest).map Node.id).Nodup) (pending : len ≠ 0)
    (beyond : front.length * kBufferSize + pos ≤ len) :
    backWard (front ++ node :: rest) turns (some node.id) pos len = none := by
  induction turns generalizing front node rest pos len with
  | zero => simp [backWard, pending]
  | succ turns ih =>
      have through : ¬ pos > len := by omega
      rcases List.eq_nil_or_concat front with rfl | ⟨earlier, last, rfl⟩
      · have here := deref_located distinct
        have preceding := prev_located distinct
        rw [List.getLast?_nil, Option.map_none] at preceding
        simp only [backWard, pending, here, through, preceding, ↓reduceIte, Option.bind_eq_bind,
          Option.bind_some, Option.bind_none]
      · have regrouped : earlier.concat last ++ node :: rest = earlier ++ last :: node :: rest := by
          simp
        have block : 1 ≤ kBufferSize := by decide
        rw [regrouped] at distinct ⊢
        rw [List.length_concat, Nat.add_mul, Nat.one_mul] at beyond
        obtain ⟨here, preceding, landed⟩ := walk_back distinct
        have later := ih earlier last (node :: rest) kBufferSize (len - pos) distinct (by omega)
          (by omega)
        simp only [backWard, pending, here, through, preceding, landed, later, ↓reduceIte,
          Option.bind_eq_bind, Option.bind_some]

/-- The cursor `UnWrite` leaves, in the layout it started from: behind byte `stop` of
`target`, with the blocks of `left` now free. -/
structure Stands (b : ChainBuffer) (front : List (Node Block)) (tail : Node Block) (len : Nat)
    (passed : List (Node Block)) (target : Node Block) (left : List (Node Block)) (stop : Nat) :
    Prop where
  cut : front ++ [tail] = passed ++ target :: left
  measured : passed.length * kBufferSize + stop + len = front.length * kBufferSize + b.writePos
  positive : 0 < stop
  inside : stop ≤ kBufferSize

def retracted (b : ChainBuffer) (target : Node Block) (stop len : Nat) : ChainBuffer :=
  { b with
    writeBuffer := some target.id
    writePos := stop
    readableBytes := b.readableBytes - len }

section Cursor
variable {b : ChainBuffer} {front spare : List (Node Block)} {tail : Node Block} {len : Nat}
  (layout : Layout b front tail spare) (asserted : len ≤ b.readableBytes) (pending : len ≠ 0)
include layout asserted pending

theorem unWrite_stands (room : len < front.length * kBufferSize + b.writePos) :
    ∃ passed target left stop, b.unWrite len = some (retracted b target stop len) ∧
      Stands b front tail len passed target left stop := by
  obtain ⟨passed, target, left, stop, cut, ran, measured, positive, inside⟩ :=
    backWard_spec (len + 2) front tail spare b.writePos len layout.distinct
      (Nat.le_of_lt layout.writeInside) (.inr (by omega)) (by omega) room
  refine ⟨passed, target, left, stop, ?_, cut, measured, positive, inside⟩
  rw [← layout.shape, ← layout.writeAt] at ran
  simp only [unWrite, asserted, ran, retracted, ↓reduceIte, Option.bind_eq_bind, Option.bind_some]

theorem unWrite_beyond (beyond : front.length * kBufferSize + b.writePos ≤ len) :
    b.unWrite len = none := by
  have left := backWard_beyond (len + 2) front tail spare b.writePos len layout.distinct pending
    beyond
  rw [← layout.shape, ← layout.writeAt] at left
  simp only [unWrite, asserted, left, ↓reduceIte, Option.bind_eq_bind, Option.bind_none]
end Cursor

/-! A cursor inside a block: the buffer holds the shorter contents. -/

theorem stretch_eq_take (front : List (Node Block)) (tail : Node Block)
    (spare : List (Node Block)) (stop start : Nat) (inside : stop ≤ kBufferSize) :
    stretch front tail stop start =
      ((stored (front ++ tail :: spare)).take (front.length * kBufferSize + stop)).drop start := by
  rw [take_stored front tail spare stop inside, stretch]

theorem Stands.represents {b : ChainBuffer} {front spare passed left : List (Node Block)}
    {tail target : Node Block} {len stop : Nat} (layout : Layout b front tail spare)
    (count : b.readableBytes = (span b front tail).length) (asserted : len ≤ b.readableBytes)
    (stands : Stands b front tail len passed target left stop) (within : stop < kBufferSize) :
    Represents (retracted b target stop len)
      ((span b front tail).take ((span b front tail).length - len)) := by
  obtain ⟨cut, measured, -, inside⟩ := stands
  have extent := span_length layout
  have ordered := layout.ordered
  have writeInside := layout.writeInside
  have regrouped : front ++ tail :: spare = passed ++ target :: (left ++ spare) := by
    have whole := congrArg (· ++ spare) cut
    simpa using whole
  refine ⟨passed, target, left ++ spare, ?_, ?_, ?_⟩
  · exact {
      shape := layout.shape.trans regrouped
      distinct := regrouped ▸ layout.distinct
      allocated := regrouped ▸ layout.allocated
      writeAt := rfl
      readAt := by
        have same := congrArg first cut
        rw [first_append_cons passed target left] at same
        exact layout.readAt.trans same
      writeInside := within
      readInside := layout.readInside
      ordered := by
        dsimp only [retracted]
        omega }
  · have shorter : b.readPos + (front.length * kBufferSize + b.writePos - b.readPos - len) =
        passed.length * kBufferSize + stop := by omega
    change stretch passed target stop b.readPos = _
    rw [extent, span, stretch_eq_take front tail spare _ _ (Nat.le_of_lt writeInside),
      stretch_eq_take passed target (left ++ spare) _ _ inside, ← regrouped, List.take_drop,
      List.take_take, shorter, Nat.min_eq_left (by omega)]
  · rw [List.length_take, Nat.min_eq_left (Nat.sub_le _ _), ← count]
    rfl

/-! A cursor at the end of a block: draining everything sends the block to the back, and
the next byte goes to a block behind it, which the reader does not look at. -/

theorem retriveLoop_rotate (turns : Nat) (b : ChainBuffer) (passed : List (Node Block))
    (node : Node Block) (rest : List (Node Block)) (shape : b.buffers = passed ++ node :: rest)
    (distinct : ((passed ++ node :: rest).map Node.id).Nodup)
    (readAt : b.readBuffer = first (passed ++ [node])) (readInside : b.readPos < kBufferSize)
    (ordered : b.readPos ≤ passed.length * kBufferSize) (bound : passed.length ≤ turns) :
    retriveLoop turns b (passed.length * kBufferSize - b.readPos) = some { b with
      buffers := node :: (rest ++ passed), readBuffer := some node.id, readPos := 0 } := by
  induction passed generalizing turns b rest with
  | nil =>
      simp only [List.length_nil, Nat.zero_mul, Nat.le_zero] at ordered
      simp only [List.nil_append, first_cons] at shape readAt
      have same : { b with
          buffers := node :: (rest ++ [])
          readBuffer := some node.id
          readPos := 0 } = b := by
        rw [List.append_nil, ← shape, ← readAt, ← ordered]
      rw [same]
      cases turns <;> simp [retriveLoop]
  | cons head later ih =>
      obtain ⟨turns, rfl⟩ : ∃ fewer, turns = fewer + 1 :=
        ⟨turns - 1, by rw [List.length_cons] at bound; omega⟩
      have total : (head :: later).length * kBufferSize =
          later.length * kBufferSize + kBufferSize := by
        rw [List.length_cons, Nat.add_mul, Nat.one_mul]
      have pending : later.length * kBufferSize + kBufferSize - b.readPos ≠ 0 := by omega
      have through : ¬ kBufferSize - b.readPos >
          later.length * kBufferSize + kBufferSize - b.readPos := by omega
      have remaining : later.length * kBufferSize + kBufferSize - b.readPos -
          (kBufferSize - b.readPos) = later.length * kBufferSize - 0 := by omega
      have rotated : ((later ++ node :: (rest ++ [head])).map Node.id).Nodup :=
        ((splice_perm head node later rest).map Node.id).nodup_iff.mpr distinct
      rw [total, retriveLoop_leave shape distinct readAt turns _ pending through, remaining,
        ih turns _ (rest ++ [head]) rfl rotated (first_append_cons later node rest)
          (by dsimp only; omega) (Nat.zero_le _) (by rw [List.length_cons] at bound; omega)]
      simp only [List.append_assoc, List.singleton_append]

theorem appendLoop_enter {c : ChainBuffer} {others : List (Node Block)} {target : Node Block}
    (shape : c.buffers = others ++ [target])
    (distinct : ((others ++ [target]).map Node.id).Nodup)
    (allocated : ∀ other ∈ others ++ [target], other.id < c.fresh)
    (writeAt : c.writeBuffer = some target.id) (writePos : c.writePos = kBufferSize)
    (turns : Nat) (byte : Byte) :
    ∃ block, appendLoop (turns + 1) c [byte] = appendLoop turns { c with
        buffers := others ++ ⟨target.id, block⟩ :: [⟨c.fresh, Block.zero⟩]
        writeBuffer := some c.fresh
        writePos := 0
        fresh := c.fresh + 1 } [byte] ∧
      ((others ++ (⟨target.id, block⟩ : Node Block) ::
        [⟨c.fresh, Block.zero⟩]).map Node.id).Nodup := by
  have grown : ((others ++ target :: [⟨c.fresh, Block.zero⟩]).map Node.id).Nodup := by
    have split : others ++ target :: [⟨c.fresh, Block.zero⟩] =
        (others ++ [target]) ++ [⟨c.fresh, Block.zero⟩] := by simp
    rw [split, List.map_append, List.nodup_append]
    refine ⟨distinct, by simp, ?_⟩
    intro old member other isNew same
    obtain ⟨present, listed, rfl⟩ := List.mem_map.mp member
    have below := allocated present listed
    simp only [List.map_cons, List.map_nil, List.mem_singleton] at isNew
    omega
  obtain ⟨block, copied, -⟩ := store_inside target.value kBufferSize [] (Nat.le_refl _)
  have here := deref_located distinct
  have following := next_located distinct
  have updated := update_located grown (Block.store kBufferSize []) block copied
  rw [← shape, ← writeAt] at here following
  have advanced : c.advanceWrite = some { c with
      buffers := others ++ target :: [⟨c.fresh, Block.zero⟩]
      writeBuffer := some c.fresh
      writePos := 0
      fresh := c.fresh + 1 } := by
    rw [advanceWrite, following, shape]
    simp [first]
  have full : ¬ 0 > [byte].length := Nat.not_lt_zero _
  have nothing : kBufferSize - c.writePos = 0 := by omega
  refine ⟨block, ?_, ?_⟩
  · rw [← writeAt, ← writePos] at updated
    simp only [appendLoop, here, full, advanced, nothing, List.take_zero, List.drop_zero, updated,
      List.cons_ne_nil, ↓reduceIte, Option.bind_eq_bind, Option.bind_some]
  · rw [map_id_replace others [⟨c.fresh, Block.zero⟩] target block]
    exact grown

theorem append_behind {c : ChainBuffer} {node target : Node Block} {others : List (Node Block)}
    (shape : c.buffers = node :: others ++ [target])
    (distinct : ((node :: others ++ [target]).map Node.id).Nodup)
    (allocated : ∀ other ∈ node :: others ++ [target], other.id < c.fresh)
    (writeAt : c.writeBuffer = some target.id) (writePos : c.writePos = kBufferSize)
    (readAt : c.readBuffer = some node.id) (readPos : c.readPos = 0)
    (drained : c.readableBytes = 0) (byte : Byte) :
    ∃ after, c.append [byte] = some after ∧
      after.peekAllAsString = some (node.value.bytes.take 1) := by
  have counted : c.readableBytes + [byte].length = 1 := by simp [drained]
  obtain ⟨block, entered, placed⟩ := appendLoop_enter (c := { c with readableBytes := 1 })
    shape distinct allocated writeAt writePos 1 byte
  have regrouped : node :: others ++ (⟨target.id, block⟩ : Node Block) :: [⟨c.fresh, Block.zero⟩] =
      (node :: others ++ [⟨target.id, block⟩]) ++ ⟨c.fresh, Block.zero⟩ :: [] := by simp
  rw [regrouped] at entered placed
  obtain ⟨filled, written, -⟩ := store_inside Block.zero 0 [byte] (by simp [kBufferSize])
  have here := deref_located placed
  have stored := update_located placed (Block.store 0 [byte]) filled written
  have within : kBufferSize - 0 > 1 := by decide
  have ran : c.append [byte] = some { c with
      buffers := node :: others ++ [⟨target.id, block⟩] ++ ⟨c.fresh, filled⟩ :: []
      readableBytes := 1
      writeBuffer := some c.fresh
      writePos := 1
      fresh := c.fresh + 1 } := by
    rw [append, counted, List.length_singleton, entered]
    simp only [appendLoop, here, within, stored, List.cons_ne_nil, ↓reduceIte, Option.bind_eq_bind,
      Option.bind_some, List.length_singleton, Nat.zero_add]
  refine ⟨_, ran, ?_⟩
  have head : deref (node :: others ++ [⟨target.id, block⟩] ++ ⟨c.fresh, filled⟩ :: [])
      c.readBuffer = some node.value := by
    rw [readAt]
    exact deref_first node _
  simp only [peekAllAsString, peekAsString, peekLoop, readPos, head, within, Nat.le_refl,
    ↓reduceIte,
    Nat.one_ne_zero, Option.bind_eq_bind, Option.bind_some]
  exact load_inside node.value 0 1 (by decide)

/-! Whole histories after the call. -/

def alone {Content : Type} (idle content : Content) : Session Content :=
  ⟨Function.update (fun _ => idle) 0 content, []⟩

/-- Every later sequence of calls does what it does on a queue of these bytes. -/
def Fifo (b : ChainBuffer) (bytes : List Byte) : Prop :=
  ∀ calls, Option.Rel Observed (run bufferStep (alone init b) calls)
    (run queueStep (alone [] bytes) calls)

theorem fifo_of_represents {b : ChainBuffer} {bytes : List Byte} (rep : Represents b bytes) :
    Fifo b bytes := by
  intro calls
  apply related_observed
  constructor
  · intro i
    by_cases own : i = 0
    · subst own
      simpa [alone] using rep
    · simpa [alone, own] using init_represents
  · rfl

/-- A buffer that can be drained and then shows another byte than the one appended is no
queue. -/
theorem not_fifo {b drained : ChainBuffer} {bytes stale : List Byte}
    (ran : b.retrive bytes.length = some drained) (one : stale.length = 1)
    (shown : ∀ byte, ∃ after, drained.append [byte] = some after ∧
      after.peekAllAsString = some stale) : ¬ Fifo b bytes := by
  intro fifo
  obtain ⟨byte, other⟩ : ∃ byte : Byte, [byte] ≠ stale := by
    obtain ⟨old, rfl⟩ := List.length_eq_one_iff.mp one
    by_cases zero : old = 0
    · exact ⟨1, by rw [zero]; decide⟩
    · exact ⟨0, fun same => zero (List.cons.inj same).1.symm⟩
  obtain ⟨after, appended, peeked⟩ := shown byte
  have observed := fifo [⟨0, .retrive bytes.length⟩, ⟨0, .append [byte]⟩]
  simp only [run, bufferStep, queueStep, perform, specify, alone, Session.commit,
    Function.update_self, ran, appended, Nat.le_refl, ↓reduceIte, Option.map_some,
    Option.bind_some, List.drop_length, List.nil_append] at observed
  cases observed with
  | some agree =>
      have contents := (agree.2 0).1
      simp only [Function.update_self, peeked, Option.some.injEq] at contents
      exact other contents.symm

section LaterBlock
variable {b : ChainBuffer} {front spare passed left : List (Node Block)} {tail target : Node Block}
  {len : Nat} (layout : Layout b front tail spare)
  (stands : Stands b front tail len passed target left kBufferSize)
include layout stands

theorem Stands.left_cons : ∃ node free, left = node :: free := by
  cases left with
  | cons node free => exact ⟨node, free, rfl⟩
  | nil =>
      have writeInside := layout.writeInside
      have measured := stands.measured
      have blocks := congrArg List.length stands.cut
      simp only [List.length_append, List.length_cons, List.length_nil, Nat.zero_add] at blocks
      have same : front.length = passed.length := by omega
      rw [same] at measured
      omega

theorem Stands.unread (count : b.readableBytes = (span b front tail).length) :
    b.readableBytes - len = (passed ++ [target]).length * kBufferSize - b.readPos := by
  have measured := stands.measured
  have ordered := layout.ordered
  rw [count, span_length layout, List.length_append, List.length_singleton, Nat.add_mul,
    Nat.one_mul]
  omega

theorem Stands.readAt (node : Node Block) :
    b.readBuffer = first ((passed ++ [target]) ++ [node]) := by
  have same := congrArg first stands.cut
  rw [first_append_cons passed target left] at same
  rw [layout.readAt, same, List.append_assoc, List.singleton_append,
    first_append_cons passed target [node]]

end LaterBlock

/-- The cursor was in a later block, which the drained reader comes to; the block the cursor
is on now is the last of the list. -/
theorem Stands.drained {b : ChainBuffer} {front spare passed left : List (Node Block)}
    {tail target : Node Block} {len : Nat} (layout : Layout b front tail spare)
    (count : b.readableBytes = (span b front tail).length)
    (stands : Stands b front tail len passed target left kBufferSize) :
    ∃ node others, (retracted b target kBufferSize len).retrive (b.readableBytes - len) =
        some { b with
          buffers := node :: others ++ [target]
          readableBytes := 0
          writeBuffer := some target.id
          writePos := kBufferSize
          readBuffer := some node.id
          readPos := 0 } ∧
      (node :: others ++ [target]).Perm (front ++ tail :: spare) := by
  obtain ⟨node, free, rfl⟩ := stands.left_cons layout
  have readAt := stands.readAt layout node
  have length := stands.unread layout count
  have readInside := layout.readInside
  have regrouped : front ++ tail :: spare = (passed ++ [target]) ++ node :: (free ++ spare) := by
    have whole := congrArg (· ++ spare) stands.cut
    simpa using whole
  have total : (passed ++ [target]).length * kBufferSize =
      passed.length * kBufferSize + kBufferSize := by
    rw [List.length_append, List.length_singleton, Nat.add_mul, Nat.one_mul]
  have turns : (passed ++ [target]).length ≤ b.readableBytes - len + 1 := by
    have blocks : passed.length ≤ passed.length * kBufferSize :=
      Nat.le_mul_of_pos_right _ (Nat.zero_lt_of_lt layout.writeInside)
    rw [length, total, List.length_append, List.length_singleton]
    omega
  have rotated : retriveLoop (b.readableBytes - len + 1)
      { b with writeBuffer := some target.id, writePos := kBufferSize, readableBytes := 0 }
      ((passed ++ [target]).length * kBufferSize - b.readPos) = _ :=
    retriveLoop_rotate (b.readableBytes - len + 1)
      { b with writeBuffer := some target.id, writePos := kBufferSize, readableBytes := 0 }
      (passed ++ [target]) node (free ++ spare) (layout.shape.trans regrouped)
      (regrouped ▸ layout.distinct) readAt readInside (by rw [total]; dsimp only; omega) turns
  refine ⟨node, free ++ spare ++ passed, ?_, ?_⟩
  · rw [retrive, if_pos (by exact Nat.le_refl (b.readableBytes - len))]
    simp only [retracted, Nat.sub_self, length] at rotated ⊢
    rw [rotated]
    simp
  · rw [regrouped]
    have back : ((node :: (free ++ spare)) ++ (passed ++ [target])).Perm
        ((passed ++ [target]) ++ node :: (free ++ spare)) := List.perm_append_comm
    simpa using back

theorem Stands.not_fifo {b : ChainBuffer} {front spare passed left : List (Node Block)}
    {tail target : Node Block} {len : Nat} (layout : Layout b front tail spare)
    (count : b.readableBytes = (span b front tail).length)
    (stands : Stands b front tail len passed target left kBufferSize) :
    ¬ Fifo (retracted b target kBufferSize len)
      ((span b front tail).take ((span b front tail).length - len)) := by
  obtain ⟨node, others, ran, moved⟩ := stands.drained layout count
  have length : ((span b front tail).take ((span b front tail).length - len)).length =
      b.readableBytes - len := by
    rw [List.length_take, count]
    omega
  rw [← length] at ran
  have one : (node.value.bytes.take 1).length = 1 := by
    rw [List.length_take, node.value.size]
    rfl
  refine Muzi.ChainRetract.not_fifo ran one fun byte => ?_
  refine append_behind ?_ ((moved.map Node.id).nodup_iff.mpr layout.distinct) ?_ ?_ ?_ ?_ ?_ ?_ byte
  case refine_2 => exact fun other member => layout.allocated other (moved.mem_iff.mp member)
  all_goals rfl

/-! The result. -/

structure Retracted (after : ChainBuffer) (bytes : List Byte) : Prop where
  contents : after.peekAllAsString = some bytes
  readable : after.readableBytes = bytes.length
  cursor : ∃ blocks, distance after.buffers after.readBuffer after.writeBuffer = some blocks ∧
    after.writePos ≤ kBufferSize ∧ after.readPos ≤ blocks * kBufferSize + after.writePos
  fifo : Fifo after bytes

theorem retracted_of_represents {after : ChainBuffer} {bytes : List Byte}
    (rep : Represents after bytes) : Retracted after bytes where
  contents := peekAllAsString_represents rep
  readable := represents_length rep
  cursor := by
    obtain ⟨front, tail, spare, layout, -, -⟩ := rep
    refine ⟨front.length, ?_, Nat.le_of_lt layout.writeInside, layout.ordered⟩
    rw [layout.shape, layout.readAt, layout.writeAt]
    exact distance_first layout.distinct
  fifo := fifo_of_represents rep

theorem unWrite_zero (b : ChainBuffer) : b.unWrite 0 = some b := by
  simp [unWrite, backWard]

theorem unWrite_retracted_iff {b : ChainBuffer} {bytes : List Byte} (rep : Represents b bytes)
    (len : Nat) (asserted : len ≤ bytes.length) :
    (∃ after, b.unWrite len = some after ∧ Retracted after (bytes.take (bytes.length - len))) ↔
      len = 0 ∨ (b.readPos + (bytes.length - len)) % kBufferSize ≠ 0 := by
  by_cases zero : len = 0
  · subst zero
    refine iff_of_true ⟨b, unWrite_zero b, ?_⟩ (.inl rfl)
    rw [Nat.sub_zero, List.take_length]
    exact retracted_of_represents rep
  obtain ⟨front, tail, spare, layout, rfl, count⟩ := rep
  have extent := span_length layout
  have ordered := layout.ordered
  have readable : len ≤ b.readableBytes := by omega
  by_cases beyond : front.length * kBufferSize + b.writePos ≤ len
  · have start : b.readPos + ((span b front tail).length - len) = 0 := by omega
    have none := unWrite_beyond layout readable zero beyond
    rw [none, start]
    simp [zero]
  · obtain ⟨passed, target, left, stop, ran, stands⟩ :=
      unWrite_stands layout readable zero (Nat.lt_of_not_le beyond)
    have measured := stands.measured
    have place : b.readPos + ((span b front tail).length - len) =
        passed.length * kBufferSize + stop := by omega
    rw [place, Nat.mul_add_mod']
    by_cases within : stop < kBufferSize
    · rw [Nat.mod_eq_of_lt within]
      exact iff_of_true
        ⟨_, ran, retracted_of_represents (stands.represents layout count readable within)⟩
        (.inr (Nat.ne_of_gt stands.positive))
    · obtain rfl : stop = kBufferSize := Nat.le_antisymm stands.inside (Nat.le_of_not_lt within)
      rw [Nat.mod_self]
      constructor
      · rintro ⟨after, ranToo, result⟩
        obtain rfl := Option.some.inj (ran.symm.trans ranToo)
        exact absurd result.fifo (stands.not_fifo layout count)
      · simp [zero]

theorem append_unWrite_iff {b : ChainBuffer} {bytes : List Byte} (rep : Represents b bytes)
    (data : List Byte) :
    (∃ grown after, b.append data = some grown ∧ grown.unWrite data.length = some after ∧
        Retracted after bytes) ↔
      data = [] ∨ (b.readPos + bytes.length) % kBufferSize ≠ 0 := by
  obtain ⟨grown, appended, grownRep⟩ := append_represents rep data
  have readPos := (append_extends appended).readPos
  have undone := unWrite_retracted_iff grownRep data.length (by simp)
  rw [List.length_append, Nat.add_sub_cancel, List.take_left, readPos,
    List.length_eq_zero_iff] at undone
  rw [← undone]
  constructor
  · rintro ⟨other, after, ran, taken, result⟩
    obtain rfl := Option.some.inj (appended.symm.trans ran)
    exact ⟨after, taken, result⟩
  · rintro ⟨after, taken, result⟩
    exact ⟨grown, after, appended, taken, result⟩

/-- `UnWrite` undoes the tail exactly when it takes back nothing or what is left does not end
with a block; so `Append` followed by `UnWrite` is the identity exactly when nothing was
appended or the contents did not end with a block. -/
theorem unWrite_undoes_iff {b : ChainBuffer} {bytes : List Byte} (rep : Represents b bytes) :
    (∀ len, len ≤ bytes.length →
      ((∃ after, b.unWrite len = some after ∧ Retracted after (bytes.take (bytes.length - len))) ↔
        len = 0 ∨ (b.readPos + (bytes.length - len)) % kBufferSize ≠ 0)) ∧
    ∀ data,
      (∃ grown after, b.append data = some grown ∧ grown.unWrite data.length = some after ∧
          Retracted after bytes) ↔
        data = [] ∨ (b.readPos + bytes.length) % kBufferSize ≠ 0 :=
  ⟨unWrite_retracted_iff rep, append_unWrite_iff rep⟩

theorem halfRead_unWrites : ∃ b after grown same, halfRead = some b ∧
    b.unWrite 3000 = some after ∧ Retracted after (List.replicate 2000 7) ∧
      b.append [1, 2, 3] = some grown ∧ grown.unWrite 3 = some same ∧
      Retracted same (List.replicate 5000 7) := by
  obtain ⟨b, made, rep⟩ := halfRead_represents
  have start : halfRead.map (·.readPos) = some 904 := by decide +kernel
  rw [made] at start
  have readPos : b.readPos = 904 := Option.some.inj start
  obtain ⟨taken, undone⟩ := unWrite_undoes_iff rep
  obtain ⟨after, ran, back⟩ := (taken 3000 (by rw [List.length_replicate]; decide)).mpr
    (.inr (by rw [readPos, List.length_replicate]; decide))
  obtain ⟨grown, same, appended, again, whole⟩ := (undone [1, 2, 3]).mpr
    (.inr (by rw [readPos, List.length_replicate]; decide))
  rw [List.length_replicate, List.take_replicate] at back
  exact ⟨b, after, grown, same, made, ran, back, appended, again, whole⟩

/-- Three bytes appended to a fresh buffer and taken back: `BackWard` decrements `begin()`. -/
theorem unWrite_first_block :
    (init.append [1, 2, 3]).map (fun grown => (grown.readableBytes, (grown.unWrite 3).isSome)) =
      some (3, false) := rfl

end Muzi.ChainRetract
