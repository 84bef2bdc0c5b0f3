import Muzi.ChainBuffer

/-!
What the chained buffer's operations do to the bytes it represents. Each
operation is followed turn by turn through its loop on an arbitrary layout;
the exact fill of a block is one of the turns, not a separate case.
-/

namespace Muzi.ChainBuffer

open NodeList Storage

/-! Draining: a request that ends inside the read block moves the offset, a
longer one sends the block to the back of the list. -/

theorem deref_read {b : ChainBuffer} {front spare : List (Node Block)} {tail : Node Block}
    (layout : Layout b front tail spare) : ∃ block, deref b.buffers b.readBuffer = some block := by
  rw [layout.shape, layout.readAt]
  exact deref_first_append front tail spare []

theorem stay_layout {b : ChainBuffer} {front spare : List (Node Block)} {tail : Node Block}
    (layout : Layout b front tail spare) (len : Nat) (within : kBufferSize - b.readPos > len)
    (available : len ≤ (span b front tail).length) :
    Layout { b with readPos := b.readPos + len } front tail spare := by
  have extent := span_length layout
  have ordered := layout.ordered
  exact { layout with
    readInside := by dsimp only; omega
    ordered := by dsimp only; omega }

theorem splice_perm (head node : Node Block) (front rest : List (Node Block)) :
    (front ++ node :: (rest ++ [head])).Perm (head :: front ++ node :: rest) := by
  have back : ((front ++ node :: rest) ++ [head]).Perm ([head] ++ (front ++ node :: rest)) :=
    List.perm_append_comm
  simpa using back

theorem splice_layout {b : ChainBuffer} {head tail : Node Block} {front spare : List (Node Block)}
    (layout : Layout b (head :: front) tail spare) :
    Layout { b with
        buffers := front ++ tail :: (spare ++ [head])
        readBuffer := first (front ++ tail :: spare)
        readPos := 0 } front tail (spare ++ [head]) := by
  have moved := splice_perm head tail front spare
  refine ⟨rfl, ?_, ?_, layout.writeAt, ?_, layout.writeInside, ?_, Nat.zero_le _⟩
  · exact (moved.map Node.id).nodup_iff.mpr layout.distinct
  · intro node member
    exact layout.allocated node (moved.mem_iff.mp member)
  · exact first_append_cons front tail spare
  · exact Nat.lt_of_le_of_lt (Nat.zero_le _) layout.writeInside

theorem retriveLoop_leave {b : ChainBuffer} {head node : Node Block}
    {front rest : List (Node Block)} (shape : b.buffers = head :: front ++ node :: rest)
    (distinct : ((head :: front ++ node :: rest).map Node.id).Nodup)
    (readAt : b.readBuffer = some head.id) (turns len : Nat) (pending : len ≠ 0)
    (through : ¬ kBufferSize - b.readPos > len) :
    retriveLoop (turns + 1) b len = retriveLoop turns { b with
        buffers := front ++ node :: (rest ++ [head])
        readBuffer := first (front ++ node :: rest)
        readPos := 0 } (len - (kBufferSize - b.readPos)) := by
  have placed : (([] ++ head :: (front ++ node :: rest)).map Node.id).Nodup := distinct
  have here : deref b.buffers b.readBuffer = some head.value := by
    rw [shape, readAt]
    exact deref_located placed
  have following : next b.buffers b.readBuffer = some (first (front ++ node :: rest)) := by
    rw [shape, readAt]
    exact next_located placed
  have spliced : moveToBack b.buffers b.readBuffer = some (front ++ node :: (rest ++ [head])) := by
    have moved := moveToBack_located placed
    rw [shape, readAt]
    simpa using moved
  obtain ⟨block, landed⟩ := deref_first_append front node (rest ++ [head]) rest
  simp only [retriveLoop, pending, here, through, following, spliced, landed, ↓reduceIte,
    Option.bind_eq_bind, Option.bind_some]

theorem retriveLoop_spec (turns : Nat) (b : ChainBuffer) (front : List (Node Block))
    (tail : Node Block) (spare : List (Node Block)) (layout : Layout b front tail spare)
    (len : Nat) (bound : len ≤ turns) (available : len ≤ (span b front tail).length) :
    ∃ after front' spare', retriveLoop turns b len = some after ∧
      Layout after front' tail spare' ∧
      span after front' tail = (span b front tail).drop len ∧
      after.readableBytes = b.readableBytes := by
  induction turns generalizing b front spare len with
  | zero =>
      obtain rfl : len = 0 := by omega
      exact ⟨b, front, spare, by simp [retriveLoop], layout, by simp, rfl⟩
  | succ turns ih =>
      by_cases done : len = 0
      · subst done
        exact ⟨b, front, spare, by simp [retriveLoop], layout, by simp, rfl⟩
      by_cases within : kBufferSize - b.readPos > len
      · obtain ⟨block, here⟩ := deref_read layout
        refine ⟨{ b with readPos := b.readPos + len }, front, spare,
          by simp [retriveLoop, done, here, within],
          stay_layout layout len within available, ?_, rfl⟩
        simp [span, stretch, List.drop_drop]
      · have extent := span_length layout
        have readInside := layout.readInside
        have writeInside := layout.writeInside
        cases front with
        | nil =>
            -- In the write block a request is shorter than the rest of the block.
            simp only [List.length_nil, Nat.zero_mul, Nat.zero_add] at extent
            omega
        | cons head front =>
            have left : span b (head :: front) tail = head.value.bytes.drop b.readPos ++
                stretch front tail b.writePos 0 :=
              stretch_cons head front tail _ _ (Nat.le_of_lt readInside)
            have unread : (head.value.bytes.drop b.readPos).length = kBufferSize - b.readPos := by
              rw [List.length_drop, head.value.size]
            obtain ⟨after, front', spare', ran, finalLayout, dropped, count⟩ :=
              ih _ front (spare ++ [head]) (splice_layout layout) (len - (kBufferSize - b.readPos))
                (by omega) (by
                  have total := congrArg List.length left
                  rw [List.length_append, unread] at total
                  simp only [span]
                  omega)
            refine ⟨after, front', spare', ?_, finalLayout, ?_, count⟩
            · rw [retriveLoop_leave layout.shape layout.distinct layout.readAt turns len done
                within]
              exact ran
            · have emptied : (head.value.bytes.drop b.readPos).drop len = [] :=
                List.drop_eq_nil_of_le (by omega)
              rw [dropped, left, List.drop_append, emptied, unread, List.nil_append]
              rfl

theorem retrive_represents {b : ChainBuffer} {bytes : List Byte} (rep : Represents b bytes)
    (len : Nat) (available : len ≤ bytes.length) :
    ∃ after, b.retrive len = some after ∧ Represents after (bytes.drop len) := by
  obtain ⟨front, tail, spare, layout, rfl, count⟩ := rep
  have counted : Layout { b with readableBytes := b.readableBytes - len } front tail spare :=
    { layout with }
  obtain ⟨after, front', spare', ran, finalLayout, dropped, kept⟩ :=
    retriveLoop_spec (len + 1) _ front tail spare counted len (by omega) available
  refine ⟨after, ?_, front', tail, spare', finalLayout, dropped, ?_⟩
  · rw [retrive, if_pos (by omega)]
    exact ran
  · rw [kept, List.length_drop, ← count]

theorem retriveAll_represents {b : ChainBuffer} {bytes : List Byte} (rep : Represents b bytes) :
    ∃ after, b.retriveAll = some after ∧ Represents after [] := by
  obtain ⟨front, tail, spare, layout, -, -⟩ := rep
  have nonempty : ∃ head rest, front ++ tail :: spare = head :: rest := by
    cases front with
    | nil => exact ⟨tail, spare, rfl⟩
    | cons head rest => exact ⟨head, rest ++ tail :: spare, rfl⟩
  obtain ⟨head, rest, listed⟩ := nonempty
  have shape : b.buffers = head :: rest := layout.shape.trans listed
  have here := deref_first head rest
  refine ⟨_, by simp only [retriveAll, shape, here, Option.bind_eq_bind, Option.bind_some]; rfl,
    [], head, rest, ?_, by simp [span, stretch], rfl⟩
  exact {
    shape := rfl
    distinct := listed ▸ layout.distinct
    allocated := listed ▸ layout.allocated
    writeAt := rfl
    readAt := rfl
    writeInside := Nat.lt_of_le_of_lt (Nat.zero_le _) layout.writeInside
    readInside := Nat.lt_of_le_of_lt (Nat.zero_le _) layout.writeInside
    ordered := Nat.zero_le _ }

/-! Read-only walks. The blocks already passed are `before`; the walk stands
on the first block of `front ++ [tail]`. -/

section Walk
variable {before front spare : List (Node Block)} {head tail : Node Block}

theorem walk_last
    (distinct : ((before ++ tail :: spare).map Node.id).Nodup) :
    deref (before ++ tail :: spare) (some tail.id) = some tail.value :=
  deref_located distinct

theorem walk_step
    (distinct : ((before ++ head :: (front ++ tail :: spare)).map Node.id).Nodup) :
    deref (before ++ head :: (front ++ tail :: spare)) (some head.id) = some head.value ∧
      next (before ++ head :: (front ++ tail :: spare)) (some head.id) =
        some (first (front ++ [tail])) ∧
      ∃ block, deref (before ++ head :: (front ++ tail :: spare)) (first (front ++ [tail])) =
        some block := by
  refine ⟨deref_located distinct, ?_, ?_⟩
  · rw [← first_append_cons front tail spare]
    exact next_located distinct
  · have passed : before ++ head :: (front ++ tail :: spare) =
        (before ++ [head]) ++ (front ++ tail :: spare) := by simp
    rw [passed] at distinct ⊢
    cases front with
    | nil => exact ⟨_, deref_located distinct⟩
    | cons second rest => exact ⟨_, deref_located distinct⟩

theorem walk_apart
    (distinct : ((before ++ head :: (front ++ tail :: spare)).map Node.id).Nodup) :
    ¬ some head.id = some tail.id := by
  intro same
  have tailDistinct : (((before ++ head :: front) ++ tail :: spare).map Node.id).Nodup := by
    simpa using distinct
  exact fresh_of_distinct tailDistinct head (by simp) (Option.some.inj same)

theorem walk_next_distinct
    (distinct : ((before ++ head :: (front ++ tail :: spare)).map Node.id).Nodup) :
    (((before ++ [head]) ++ (front ++ tail :: spare)).map Node.id).Nodup := by
  simpa using distinct

end Walk

theorem peekLoop_spec (turns : Nat) (before front : List (Node Block)) (tail : Node Block)
    (spare : List (Node Block)) (stop pos len : Nat)
    (distinct : ((before ++ (front ++ tail :: spare)).map Node.id).Nodup)
    (stopInside : stop < kBufferSize) (inside : pos < kBufferSize) (bound : len ≤ turns)
    (available : len ≤ (stretch front tail stop pos).length) :
    peekLoop (before ++ (front ++ tail :: spare)) turns (first (front ++ [tail])) pos len =
      some ((stretch front tail stop pos).take len) := by
  induction turns generalizing before front pos len with
  | zero =>
      obtain rfl : len = 0 := by omega
      simp [peekLoop]
  | succ turns ih =>
      by_cases done : len = 0
      · subst done
        simp [peekLoop]
      have extent := stretch_length front tail stop pos (Nat.le_of_lt stopInside)
      cases front with
      | nil =>
          simp only [List.length_nil, Nat.zero_mul, Nat.zero_add] at extent
          have within : kBufferSize - pos > len := by omega
          have here : deref (before ++ tail :: spare) (some tail.id) = some tail.value :=
            walk_last distinct
          simp only [peekLoop, done, List.nil_append, first_cons, here, within, ↓reduceIte,
            Option.bind_eq_bind, Option.bind_some]
          rw [load_inside _ _ _ (by omega), stretch_nil_take tail stop pos len (by omega)]
      | cons head front =>
          obtain ⟨here, following, block, landed⟩ := walk_step distinct
          have left := stretch_cons head front tail stop pos (Nat.le_of_lt inside)
          have unread : (head.value.bytes.drop pos).length = kBufferSize - pos := by
            rw [List.length_drop, head.value.size]
          by_cases within : kBufferSize - pos > len
          · simp only [peekLoop, done, List.cons_append, first_cons, here, within, ↓reduceIte,
              Option.bind_eq_bind, Option.bind_some]
            rw [load_inside _ _ _ (by omega), left, List.take_append_of_le_length (by omega)]
          · have rest := ih (before ++ [head]) front 0 (len - (kBufferSize - pos))
              (walk_next_distinct distinct) (by omega) (by omega) (by
                rw [left, List.length_append, unread] at available
                omega)
            rw [List.append_assoc, List.singleton_append] at rest
            have whole : (head.value.bytes.drop pos).take len = head.value.bytes.drop pos :=
              List.take_of_length_le (by omega)
            simp only [peekLoop, done, List.cons_append, first_cons, here, within, following,
              landed, rest, load_rest head.value pos (Nat.le_of_lt inside), ↓reduceIte,
              Option.bind_eq_bind,
              Option.bind_some]
            rw [left, List.take_append, unread, whole]

theorem peekAsString_represents {b : ChainBuffer} {bytes : List Byte} (rep : Represents b bytes)
    (len : Nat) (available : len ≤ bytes.length) : b.peekAsString len = some (bytes.take len) := by
  obtain ⟨front, tail, spare, layout, rfl, count⟩ := rep
  rw [peekAsString, if_pos (by omega), layout.shape, layout.readAt]
  exact peekLoop_spec (len + 1) [] front tail spare b.writePos b.readPos len layout.distinct
    layout.writeInside layout.readInside (by omega) available

theorem peekAllAsString_represents {b : ChainBuffer} {bytes : List Byte}
    (rep : Represents b bytes) : b.peekAllAsString = some bytes := by
  obtain ⟨front, tail, spare, layout, same, count⟩ := rep
  rw [peekAllAsString, count,
    peekAsString_represents ⟨front, tail, spare, layout, same, count⟩ _ (Nat.le_refl _),
    List.take_length]

/-! Appending: bytes that fit go behind the write cursor, a full block sends
the cursor to the next block, which is allocated when there is none. -/

theorem grown_layout {b : ChainBuffer} {front spare : List (Node Block)} {tail : Node Block}
    (layout : Layout b front tail spare) :
    Layout { b with
        buffers := front ++ tail :: (spare ++ [⟨b.fresh, Block.zero⟩])
        fresh := b.fresh + 1 } front tail (spare ++ [⟨b.fresh, Block.zero⟩]) := by
  have grown : front ++ tail :: (spare ++ [⟨b.fresh, Block.zero⟩]) =
      (front ++ tail :: spare) ++ [⟨b.fresh, Block.zero⟩] := by simp
  refine { layout with shape := rfl, distinct := ?_, allocated := ?_ }
  · rw [grown, List.map_append, List.nodup_append]
    refine ⟨layout.distinct, by simp, ?_⟩
    intro old member new isNew same
    obtain ⟨node, present, rfl⟩ := List.mem_map.mp member
    have below := layout.allocated node present
    simp only [List.map_cons, List.map_nil, List.mem_singleton] at isNew
    omega
  · intro node member
    rw [grown, List.mem_append, List.mem_singleton] at member
    rcases member with old | rfl
    · exact Nat.lt_succ_of_lt (layout.allocated node old)
    · exact Nat.lt_succ_self b.fresh

theorem advanceWrite_layout {b : ChainBuffer} {front spare : List (Node Block)} {tail : Node Block}
    (layout : Layout b front tail spare) :
    ∃ advanced second spare', b.advanceWrite = some advanced ∧
      advanced.buffers = front ++ tail :: second :: spare' ∧
      ((front ++ tail :: second :: spare').map Node.id).Nodup ∧
      (∀ node ∈ front ++ tail :: second :: spare', node.id < advanced.fresh) ∧
      advanced.writeBuffer = some second.id ∧ advanced.writePos = 0 ∧
      advanced.readBuffer = b.readBuffer ∧ advanced.readPos = b.readPos ∧
      advanced.readableBytes = b.readableBytes := by
  have following : next b.buffers b.writeBuffer = some (first spare) := by
    rw [layout.shape, layout.writeAt, next_located layout.distinct]
  cases spare with
  | cons second spare =>
      refine ⟨{ b with writeBuffer := some second.id, writePos := 0 }, second, spare, ?_,
        layout.shape, layout.distinct, layout.allocated, rfl, rfl, rfl, rfl, rfl⟩
      simp only [advanceWrite, following, first, List.head?_cons, Option.map_some,
        Option.bind_eq_bind, Option.bind_some]
  | nil =>
      refine ⟨{ b with
          buffers := b.buffers ++ [⟨b.fresh, Block.zero⟩]
          writeBuffer := some b.fresh
          writePos := 0
          fresh := b.fresh + 1 }, ⟨b.fresh, Block.zero⟩, [], ?_, ?_, ?_, ?_,
        rfl, rfl, rfl, rfl, rfl⟩
      · simp only [advanceWrite, following, first, List.head?_nil, Option.map_none,
          Option.bind_eq_bind, Option.bind_some]
      · simp [layout.shape]
      · exact (grown_layout layout).distinct
      · exact (grown_layout layout).allocated

theorem first_replace (front : List (Node Block)) (tail : Node Block) (block : Block) :
    first (front ++ [⟨tail.id, block⟩]) = first (front ++ [tail]) := by
  cases front <;> rfl

theorem stored_layout {b : ChainBuffer} {front spare : List (Node Block)} {tail : Node Block}
    (layout : Layout b front tail spare) (block : Block) (pos : Nat) (ahead : b.writePos ≤ pos)
    (inside : pos < kBufferSize) :
    Layout { b with buffers := front ++ ⟨tail.id, block⟩ :: spare, writePos := pos }
      front ⟨tail.id, block⟩ spare := by
  have ordered := layout.ordered
  refine ⟨rfl, ?_, forall_id_replace (· < b.fresh) layout.allocated, layout.writeAt, ?_, inside,
    layout.readInside, by dsimp only; omega⟩
  · rw [map_id_replace front spare tail block]
    exact layout.distinct
  · rw [first_replace]
    exact layout.readAt

theorem stretch_stored (front : List (Node Block)) (tail : Node Block) (block : Block)
    (stop start : Nat) (data : List Byte) (inside : stop ≤ kBufferSize)
    (ordered : start ≤ front.length * kBufferSize + stop)
    (copied : block.bytes.take (stop + data.length) = tail.value.bytes.take stop ++ data) :
    stretch front ⟨tail.id, block⟩ (stop + data.length) start =
      stretch front tail stop start ++ data := by
  have reach : start ≤ (stored front ++ tail.value.bytes.take stop).length := by
    rw [List.length_append, stored_length, List.length_take, tail.value.size]
    omega
  rw [stretch, copied, ← List.append_assoc, List.drop_append_of_le_length reach]
  rfl

theorem stretch_full (front : List (Node Block)) (tail next : Node Block) (start : Nat) :
    stretch (front ++ [tail]) next 0 start = stretch front tail kBufferSize start := by
  have all : tail.value.bytes.take kBufferSize = tail.value.bytes := by
    rw [← tail.value.size, List.take_length]
  simp [stretch, all]

theorem appendLoop_within {b : ChainBuffer} {front spare : List (Node Block)} {tail : Node Block}
    (layout : Layout b front tail spare) (turns : Nat) (data : List Byte) (pending : data ≠ [])
    (within : kBufferSize - b.writePos > data.length) :
    ∃ block, appendLoop (turns + 1) b data = some { b with
        buffers := front ++ ⟨tail.id, block⟩ :: spare
        writePos := b.writePos + data.length } ∧
      block.bytes.take (b.writePos + data.length) = tail.value.bytes.take b.writePos ++ data := by
  obtain ⟨block, copied, contents⟩ := store_inside tail.value b.writePos data (by omega)
  have here : deref b.buffers b.writeBuffer = some tail.value := by
    rw [layout.shape, layout.writeAt, deref_located layout.distinct]
  have updated : update b.buffers b.writeBuffer (Block.store b.writePos data) =
      some (front ++ ⟨tail.id, block⟩ :: spare) := by
    rw [layout.shape, layout.writeAt, update_located layout.distinct _ _ copied]
  refine ⟨block, ?_, contents⟩
  simp only [appendLoop, pending, here, within, updated, ↓reduceIte, Option.bind_eq_bind,
    Option.bind_some]

theorem appendLoop_fill {b : ChainBuffer} {front spare : List (Node Block)} {tail : Node Block}
    (layout : Layout b front tail spare) (turns : Nat) (data : List Byte) (pending : data ≠ [])
    (through : ¬ kBufferSize - b.writePos > data.length) :
    ∃ moved front' second spare', appendLoop (turns + 1) b data =
        appendLoop turns moved (data.drop (kBufferSize - b.writePos)) ∧
      Layout moved front' second spare' ∧
      span moved front' second = span b front tail ++ data.take (kBufferSize - b.writePos) ∧
      moved.readableBytes = b.readableBytes := by
  obtain ⟨advanced, second, spare', ran, shape, distinct, allocated, writeAt, writePos, readBuffer,
    readPos, readable⟩ := advanceWrite_layout layout
  have writeInside := layout.writeInside
  have ordered := layout.ordered
  have chunkLength : (data.take (kBufferSize - b.writePos)).length = kBufferSize - b.writePos := by
    rw [List.length_take]
    omega
  obtain ⟨block, copied, contents⟩ := store_inside tail.value b.writePos
    (data.take (kBufferSize - b.writePos)) (by omega)
  have here : deref b.buffers b.writeBuffer = some tail.value := by
    rw [layout.shape, layout.writeAt, deref_located layout.distinct]
  have updated : update advanced.buffers b.writeBuffer
      (Block.store b.writePos (data.take (kBufferSize - b.writePos))) =
        some (front ++ ⟨tail.id, block⟩ :: second :: spare') := by
    rw [shape, layout.writeAt, update_located distinct _ _ copied]
  have regrouped : front ++ ⟨tail.id, block⟩ :: second :: spare' =
      (front ++ [⟨tail.id, block⟩]) ++ second :: spare' := by simp
  refine ⟨{ advanced with buffers := front ++ ⟨tail.id, block⟩ :: second :: spare' },
    front ++ [⟨tail.id, block⟩], second, spare', ?_, ?_, ?_, readable⟩
  · simp only [appendLoop, pending, here, through, ran, updated, ↓reduceIte, Option.bind_eq_bind,
      Option.bind_some]
  · refine ⟨regrouped, ?_, ?_, writeAt, ?_, ?_, ?_, ?_⟩
    · rw [← regrouped, map_id_replace front (second :: spare') tail block]
      exact distinct
    · rw [← regrouped]
      exact forall_id_replace (· < advanced.fresh) allocated
    · rw [show advanced.readBuffer = b.readBuffer from readBuffer, layout.readAt,
        List.append_assoc, List.singleton_append,
        first_append_cons front ⟨tail.id, block⟩ [second], first_replace front tail block]
    · dsimp only
      omega
    · dsimp only
      rw [readPos]
      exact layout.readInside
    · dsimp only
      rw [readPos, writePos, List.length_append, List.length_singleton, Nat.add_mul]
      omega
  · have filled := stretch_stored front tail block b.writePos b.readPos _
      (Nat.le_of_lt writeInside) ordered contents
    rw [chunkLength, show b.writePos + (kBufferSize - b.writePos) = kBufferSize by omega] at filled
    simp only [span, writePos, readPos]
    rw [stretch_full, filled]

theorem appendLoop_spec (turns : Nat) (b : ChainBuffer) (front : List (Node Block))
    (tail : Node Block) (spare : List (Node Block)) (layout : Layout b front tail spare)
    (data : List Byte) (bound : data.length ≤ turns) :
    ∃ after front' tail' spare', appendLoop turns b data = some after ∧
      Layout after front' tail' spare' ∧
      span after front' tail' = span b front tail ++ data ∧
      after.readableBytes = b.readableBytes := by
  induction turns generalizing b front tail spare data with
  | zero =>
      obtain rfl : data = [] := List.length_eq_zero_iff.mp (by omega)
      exact ⟨b, front, tail, spare, by simp [appendLoop], layout, by simp, rfl⟩
  | succ turns ih =>
      by_cases done : data = []
      · subst done
        exact ⟨b, front, tail, spare, by simp [appendLoop], layout, by simp, rfl⟩
      by_cases within : kBufferSize - b.writePos > data.length
      · obtain ⟨block, ran, contents⟩ := appendLoop_within layout turns data done within
        refine ⟨_, front, ⟨tail.id, block⟩, spare, ran,
          stored_layout layout block _ (by omega) (by omega), ?_, rfl⟩
        exact stretch_stored front tail block b.writePos b.readPos data
          (Nat.le_of_lt layout.writeInside) layout.ordered contents
      · have writeInside := layout.writeInside
        obtain ⟨moved, front', second, spare', ran, movedLayout, movedSpan, count⟩ :=
          appendLoop_fill layout turns data done within
        obtain ⟨after, front'', tail'', spare'', later, finalLayout, finalSpan, finalCount⟩ :=
          ih moved front' second spare' movedLayout (data.drop (kBufferSize - b.writePos))
            (by rw [List.length_drop]; omega)
        refine ⟨after, front'', tail'', spare'', ran.trans later, finalLayout, ?_,
          finalCount.trans count⟩
        rw [finalSpan, movedSpan, List.append_assoc, List.take_append_drop]

theorem append_represents {b : ChainBuffer} {bytes : List Byte} (rep : Represents b bytes)
    (data : List Byte) :
    ∃ after, b.append data = some after ∧ Represents after (bytes ++ data) := by
  obtain ⟨front, tail, spare, layout, rfl, count⟩ := rep
  have counted :
      Layout { b with readableBytes := b.readableBytes + data.length } front tail spare :=
    { layout with }
  obtain ⟨after, front', tail', spare', ran, finalLayout, grown, kept⟩ :=
    appendLoop_spec (data.length + 1) _ front tail spare counted data (by omega)
  refine ⟨after, ran, front', tail', spare', finalLayout, grown, ?_⟩
  rw [kept, List.length_append, ← count]

/-- What appending leaves alone: the read cursor, and the blocks in their order. -/
structure Extends (b after : ChainBuffer) : Prop where
  readBuffer : after.readBuffer = b.readBuffer
  readPos : after.readPos = b.readPos
  blocks : b.buffers.map Node.id <+: after.buffers.map Node.id

theorem advanceWrite_extends {b advanced : ChainBuffer} (ran : b.advanceWrite = some advanced) :
    Extends b advanced := by
  obtain ⟨following, -, ran⟩ := Option.bind_eq_some_iff.mp ran
  cases following with
  | none =>
      cases ran
      exact ⟨rfl, rfl, by simp⟩
  | some id =>
      cases ran
      exact ⟨rfl, rfl, List.prefix_rfl⟩

theorem appendLoop_extends {turns : Nat} {b after : ChainBuffer} {data : List Byte}
    (ran : appendLoop turns b data = some after) : Extends b after := by
  induction turns generalizing b data with
  | zero =>
      obtain ⟨-, same⟩ := Option.ite_none_right_eq_some.mp ran
      cases same
      exact ⟨rfl, rfl, List.prefix_rfl⟩
  | succ turns ih =>
      rw [appendLoop] at ran
      split at ran
      · cases ran
        exact ⟨rfl, rfl, List.prefix_rfl⟩
      · obtain ⟨block, -, ran⟩ := Option.bind_eq_some_iff.mp ran
        dsimp only at ran
        split at ran
        · obtain ⟨stored, updated, made⟩ := Option.bind_eq_some_iff.mp ran
          cases made
          have same : stored.map Node.id = b.buffers.map Node.id := update_ids updated
          exact ⟨rfl, rfl, same ▸ List.prefix_rfl⟩
        · obtain ⟨advanced, moved, ran⟩ := Option.bind_eq_some_iff.mp ran
          obtain ⟨stored, updated, ran⟩ := Option.bind_eq_some_iff.mp ran
          have step := advanceWrite_extends moved
          obtain ⟨readBuffer, readPos, blocks⟩ := ih ran
          rw [update_ids updated] at blocks
          exact ⟨readBuffer.trans step.readBuffer, readPos.trans step.readPos,
            step.blocks.trans blocks⟩

theorem append_extends {b after : ChainBuffer} {data : List Byte}
    (ran : b.append data = some after) : Extends b after := by
  have kept := appendLoop_extends ran
  exact ⟨kept.readBuffer, kept.readPos, kept.blocks⟩

theorem appendBufferLoop_spec (source : ChainBuffer) (turns : Nat) (b : ChainBuffer)
    (bytes : List Byte) (before front : List (Node Block)) (tail : Node Block)
    (spare : List (Node Block)) (pos : Nat) (rep : Represents b bytes)
    (shape : source.buffers = before ++ (front ++ tail :: spare))
    (writeAt : source.writeBuffer = some tail.id)
    (distinct : ((before ++ (front ++ tail :: spare)).map Node.id).Nodup)
    (stopInside : source.writePos < kBufferSize) (inside : pos < kBufferSize)
    (ordered : pos ≤ front.length * kBufferSize + source.writePos)
    (bound : front.length < turns) :
    ∃ after, appendBufferLoop source turns b (first (front ++ [tail])) pos = some after ∧
      Represents after (bytes ++ stretch front tail source.writePos pos) := by
  induction front generalizing turns b bytes before pos with
  | nil =>
      obtain ⟨turns, rfl⟩ : ∃ n, turns = n + 1 := ⟨turns - 1, by omega⟩
      simp only [List.length_nil, Nat.zero_mul, Nat.zero_add] at ordered
      have here : deref (before ++ tail :: spare) (some tail.id) = some tail.value :=
        walk_last distinct
      have chunk : tail.value.load pos (source.writePos - pos) =
          some (stretch [] tail source.writePos pos) := by
        rw [load_inside _ _ _ (by omega), stretch, stored_nil, List.nil_append, List.drop_take]
      obtain ⟨after, appended, grown⟩ := append_represents rep (stretch [] tail source.writePos pos)
      refine ⟨after, ?_, grown⟩
      simp only [appendBufferLoop, shape, List.nil_append, first_cons, here, writeAt, chunk,
        appended,
        ↓reduceIte, Option.bind_eq_bind, Option.bind_some]
  | cons head front ih =>
      obtain ⟨turns, rfl⟩ : ∃ n, turns = n + 1 := ⟨turns - 1, by omega⟩
      obtain ⟨here, following, block, landed⟩ := walk_step distinct
      have apart := walk_apart distinct
      have left := stretch_cons head front tail source.writePos pos (Nat.le_of_lt inside)
      obtain ⟨grown, appended, grownRep⟩ := append_represents rep (head.value.bytes.drop pos)
      obtain ⟨after, ran, finalRep⟩ := ih turns grown _ (before ++ [head]) 0 grownRep
        (by simpa using shape) (walk_next_distinct distinct) (by omega) (Nat.zero_le _)
        (by simp only [List.length_cons] at bound; omega)
      refine ⟨after, ?_, ?_⟩
      · simp only [appendBufferLoop, shape, List.cons_append, first_cons, here, writeAt, apart,
          following,
          landed, load_rest head.value pos (Nat.le_of_lt inside), appended, ran, ↓reduceIte,
          Option.bind_eq_bind, Option.bind_some]
      · rw [left, ← List.append_assoc]
        exact finalRep

theorem appendBuffer_represents {b source : ChainBuffer} {bytes added : List Byte}
    (rep : Represents b bytes) (sourceRep : Represents source added) :
    ∃ after, b.appendBuffer source = some after ∧ Represents after (bytes ++ added) := by
  obtain ⟨front, tail, spare, layout, rfl, -⟩ := sourceRep
  rw [appendBuffer, layout.readAt]
  exact appendBufferLoop_spec source _ b bytes [] front tail spare source.readPos rep layout.shape
    layout.writeAt layout.distinct layout.writeInside layout.readInside layout.ordered
    (by rw [layout.shape, List.length_append, List.length_cons]; omega)

/-! Shrinking: `Forward` walks `len` bytes on from a position. -/

theorem forward_spec (turns : Nat) (before : List (Node Block)) (node : Node Block)
    (rest : List (Node Block)) (pos len : Nat)
    (distinct : ((before ++ node :: rest).map Node.id).Nodup) (inside : pos < kBufferSize)
    (bound : len ≤ turns) (room : pos + len < (rest.length + 1) * kBufferSize) :
    ∃ passed target left stop, node :: rest = passed ++ target :: left ∧
      forward (before ++ node :: rest) turns (some node.id) pos len = some (some target.id, stop) ∧
      passed.length * kBufferSize + stop = pos + len ∧ stop < kBufferSize := by
  induction turns generalizing before node rest pos len with
  | zero =>
      obtain rfl : len = 0 := by omega
      exact ⟨[], node, rest, pos, rfl, by simp [forward], by simp, inside⟩
  | succ turns ih =>
      by_cases done : len = 0
      · subst done
        exact ⟨[], node, rest, pos, rfl, by simp [forward], by simp, inside⟩
      have here := deref_located distinct
      by_cases within : kBufferSize - pos > len
      · exact ⟨[], node, rest, pos + len, rfl, by simp [forward, done, here, within], by simp,
          by omega⟩
      · cases rest with
        | nil =>
            simp only [List.length_nil, Nat.zero_add, Nat.one_mul] at room
            omega
        | cons second rest =>
            have following := next_located distinct
            have regrouped : before ++ node :: second :: rest =
                (before ++ [node]) ++ second :: rest := by simp
            have laterDistinct : (((before ++ [node]) ++ second :: rest).map Node.id).Nodup := by
              rw [← regrouped]
              exact distinct
            have landed := deref_located laterDistinct
            obtain ⟨passed, target, left, stop, cut, ran, measured, stopInside⟩ :=
              ih (before ++ [node]) second rest 0 (len - (kBufferSize - pos)) laterDistinct
                (by omega) (by omega) (by
                  rw [List.length_cons, Nat.add_mul, Nat.one_mul] at room
                  omega)
            refine ⟨node :: passed, target, left, stop, by rw [cut]; rfl, ?_, ?_, stopInside⟩
            · rw [← regrouped] at ran landed
              simp only [forward, done, here, within, following, first_cons, landed, ran,
                ↓reduceIte,
                Option.bind_eq_bind, Option.bind_some]
            · rw [List.length_cons, Nat.add_mul, Nat.one_mul]
              omega

theorem writableBytes_layout {b : ChainBuffer} {front spare : List (Node Block)}
    {tail : Node Block} (layout : Layout b front tail spare) :
    b.writableBytes = some ((spare.length + 1) * kBufferSize - b.writePos) := by
  rw [writableBytes, layout.shape, layout.writeAt, distanceToEnd_located layout.distinct]
  rfl

theorem erase_behind (before : List (Node Block)) (target : Node Block)
    (left : List (Node Block)) (distinct : ((before ++ target :: left).map Node.id).Nodup) :
    eraseFrom (before ++ target :: left) (first left) = some (before ++ [target]) := by
  cases left with
  | nil => rfl
  | cons second rest =>
      have regrouped : before ++ target :: second :: rest =
          (before ++ [target]) ++ second :: rest := by simp
      rw [regrouped] at distinct ⊢
      exact eraseFrom_located distinct

/-- The spare blocks that hold the reserve stay, and all of them when they hold
no more than that. -/
def Kept (spare stop reserve kept : Nat) : Prop :=
  kept ≤ spare ∧
    if spare.succ * kBufferSize - stop ≤ reserve then kept = spare
    else stop + reserve < kept.succ * kBufferSize ∧ kept * kBufferSize ≤ stop + reserve

theorem shrink_layout {b : ChainBuffer} {front spare : List (Node Block)} {tail : Node Block}
    (layout : Layout b front tail spare) (reserve : Nat) :
    ∃ kept, b.shrink reserve = some { b with buffers := front ++ tail :: spare.take kept } ∧
      Layout { b with buffers := front ++ tail :: spare.take kept } front tail (spare.take kept) ∧
      Kept spare.length b.writePos reserve kept := by
  have writeInside := layout.writeInside
  by_cases covered : (spare.length + 1) * kBufferSize - b.writePos ≤ reserve
  · have same : { b with buffers := front ++ tail :: spare.take spare.length } = b := by
      rw [List.take_length, ← layout.shape]
    refine ⟨spare.length, ?_, ?_, Nat.le_refl _, by rw [if_pos covered]⟩
    · rw [same]
      simp [shrink, writableBytes_layout layout, covered]
    · rw [same, List.take_length]
      exact layout
  · obtain ⟨passed, target, left, stop, cut, ran, measured, stopInside⟩ :=
      forward_spec (reserve + 1) front tail spare b.writePos reserve layout.distinct writeInside
        (by omega) (by omega)
    have kept : passed ++ [target] = tail :: spare.take passed.length := by
      have prefixes := congrArg (List.take (passed.length + 1)) cut
      rw [List.take_succ_cons, List.take_append, List.take_of_length_le (Nat.le_succ _)] at prefixes
      simpa using prefixes.symm
    have located : front ++ tail :: spare = (front ++ passed) ++ target :: left := by
      rw [cut, List.append_assoc]
    have distinct : (((front ++ passed) ++ target :: left).map Node.id).Nodup :=
      located ▸ layout.distinct
    have following := next_located distinct
    have erased := erase_behind (front ++ passed) target left distinct
    rw [← located] at following erased
    rw [List.append_assoc, kept] at erased
    have blocks := congrArg List.length cut
    simp only [List.length_cons, List.length_append] at blocks
    refine ⟨passed.length, ?_, ?_, by omega, ?_⟩
    · rw [layout.writeAt.symm] at ran
      simp only [shrink, writableBytes_layout layout, covered, layout.shape, ran, following, erased,
        ↓reduceIte, Option.bind_eq_bind, Option.bind_some]
    · have shorter : (front ++ tail :: spare.take passed.length).Sublist (front ++ tail :: spare) :=
        (((List.take_sublist _ _).cons_cons tail).append_left front)
      exact { layout with
        shape := rfl
        distinct := (shorter.map Node.id).nodup layout.distinct
        allocated := fun node member => layout.allocated node (shorter.subset member) }
    · rw [if_neg covered, Nat.succ_mul]
      omega

theorem shrink_represents {b : ChainBuffer} {bytes : List Byte} (rep : Represents b bytes)
    (reserve : Nat) : ∃ after, b.shrink reserve = some after ∧ Represents after bytes := by
  obtain ⟨front, tail, spare, layout, same, count⟩ := rep
  obtain ⟨kept, ran, shrunk, -⟩ := shrink_layout layout reserve
  exact ⟨_, ran, front, tail, spare.take kept, shrunk, same, count⟩

/-! Writing out: the iovecs offer a front part of the contents. -/

/-- With `room` iovecs the blocks from the read cursor on are offered, up to the
write cursor or `room` blocks, whichever comes first. -/
theorem gather_spec (b : ChainBuffer) (room : Nat) (before front : List (Node Block))
    (tail : Node Block) (spare : List (Node Block)) (pos : Nat)
    (shape : b.buffers = before ++ (front ++ tail :: spare))
    (writeAt : b.writeBuffer = some tail.id)
    (distinct : ((before ++ (front ++ tail :: spare)).map Node.id).Nodup)
    (stopInside : b.writePos < kBufferSize) (inside : pos < kBufferSize)
    (ordered : pos ≤ front.length * kBufferSize + b.writePos) :
    ∃ vec, b.gather room (first (front ++ [tail])) pos = some vec ∧
      vec.flatten = (stretch front tail b.writePos pos).take (room * kBufferSize - pos) := by
  induction room generalizing before front pos with
  | zero => exact ⟨[], rfl, by simp⟩
  | succ room ih =>
      rw [Nat.succ_mul]
      cases front with
      | nil =>
          have extent := stretch_length [] tail b.writePos pos (Nat.le_of_lt stopInside)
          simp only [List.length_nil, Nat.zero_mul, Nat.zero_add] at ordered extent
          have here : deref (before ++ tail :: spare) (some tail.id) = some tail.value :=
            walk_last distinct
          have chunk : tail.value.load pos (b.writePos - pos) =
              some (stretch [] tail b.writePos pos) := by
            rw [load_inside _ _ _ (by omega), stretch, stored_nil, List.nil_append, List.drop_take]
          refine ⟨[stretch [] tail b.writePos pos], ?_, ?_⟩
          · simp only [gather, shape, List.nil_append, first_cons, here, writeAt, chunk, ↓reduceIte,
              Option.bind_eq_bind, Option.bind_some]
          · rw [List.flatten_singleton, List.take_of_length_le (by omega)]
      | cons head front =>
          obtain ⟨here, following, block, landed⟩ := walk_step distinct
          have apart := walk_apart distinct
          have unread : (head.value.bytes.drop pos).length = kBufferSize - pos := by
            rw [List.length_drop, head.value.size]
          obtain ⟨vec, ran, offered⟩ := ih (before ++ [head]) front 0 (by simpa using shape)
            (walk_next_distinct distinct) (by omega) (Nat.zero_le _)
          refine ⟨head.value.bytes.drop pos :: vec, ?_, ?_⟩
          · simp only [gather, shape, List.cons_append, first_cons, here, writeAt, apart, following,
              landed, load_rest head.value pos (Nat.le_of_lt inside), ran, ↓reduceIte,
              Option.bind_eq_bind, Option.bind_some]
          · have whole : (head.value.bytes.drop pos).take (room * kBufferSize + kBufferSize - pos) =
                head.value.bytes.drop pos :=
              List.take_of_length_le (by omega)
            have later : room * kBufferSize + kBufferSize - pos - (kBufferSize - pos) =
                room * kBufferSize - 0 := by omega
            rw [stretch_cons head front tail b.writePos pos (Nat.le_of_lt inside),
              List.flatten_cons, offered, List.take_append, unread, whole, later]

theorem gather_represents {b : ChainBuffer} {bytes : List Byte} (rep : Represents b bytes) :
    ∃ vec, b.gather maxVecSize b.readBuffer b.readPos = some vec ∧
      vec.flatten = bytes.take (maxVecSize * kBufferSize - b.readPos) := by
  obtain ⟨front, tail, spare, layout, rfl, -⟩ := rep
  obtain ⟨vec, gathered, offered⟩ := gather_spec b maxVecSize [] front tail spare b.readPos
    layout.shape layout.writeAt layout.distinct layout.writeInside layout.readInside layout.ordered
  rw [← layout.readAt] at gathered
  exact ⟨vec, gathered, offered⟩

theorem writeFd_represents {b : ChainBuffer} {bytes : List Byte} (rep : Represents b bytes) :
    ∃ vec, b.gather maxVecSize b.readBuffer b.readPos = some vec ∧ vec.flatten <+: bytes ∧
      (∀ errno, b.writeFd (.error errno) = some (b, [])) ∧
      (∀ n, n ≤ vec.flatten.length → ∃ after, b.writeFd (.count n) = some (after, bytes.take n) ∧
        Represents after (bytes.drop n)) ∧
      ∀ n, vec.flatten.length < n → b.writeFd (.count n) = none := by
  obtain ⟨vec, gathered, whole⟩ := gather_represents rep
  have offered : vec.flatten <+: bytes := by
    rw [whole]
    exact List.take_prefix _ _
  refine ⟨vec, gathered, offered, ?_, ?_, ?_⟩
  · intro errno
    simp [writeFd, gathered]
  · intro n within
    obtain ⟨after, retrived, afterRep⟩ :=
      retrive_represents rep n (Nat.le_trans within offered.length_le)
    refine ⟨after, ?_, afterRep⟩
    obtain ⟨rest, rfl⟩ := offered
    simp only [writeFd, gathered, within, retrived, ↓reduceIte, Option.bind_eq_bind,
      Option.bind_some, List.take_append_of_le_length within]
  · intro n beyond
    simp only [writeFd, gathered, Nat.not_le.mpr beyond, ↓reduceIte, Option.bind_eq_bind,
      Option.bind_some]

/-- Ten thousand bytes went in and half of them out again: contents over two blocks, and a
spare block behind them. -/
def halfRead : Option ChainBuffer :=
  (init.append (List.replicate 10000 7)).bind (·.retrive 5000)

theorem halfRead_represents :
    ∃ b, halfRead = some b ∧ Represents b (List.replicate 5000 7) := by
  obtain ⟨grown, appended, rep⟩ := append_represents init_represents (List.replicate 10000 7)
  rw [List.nil_append] at rep
  obtain ⟨b, retrived, left⟩ := retrive_represents rep 5000 (by rw [List.length_replicate]; decide)
  rw [List.drop_replicate] at left
  exact ⟨b, by rw [halfRead, appended]; exact retrived, left⟩

end Muzi.ChainBuffer
