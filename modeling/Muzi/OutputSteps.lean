import Muzi.ConnectionStates

/-!
What a step of the loop thread of ConnectionClose.lean does to the output of one
connection `c`: the bytes the kernel took, followed by those in the output buffer. Only a
`SendInLoop` that is not given up adds to it, at once or, when it has to call
`high_water_callback_` first, with its rest behind the return of the callback.
-/

namespace Muzi.OutputSteps

open Storage TcpConnection Execution
open ConnectionClose ConnectionClose.Reactor
open OutputStream (Holds Payload Source)

def output (conn : TcpConnection) : List Byte :=
  conn.socket.accepted ++ conn.ouputBuffer.peekAllAsString.getD []

/-- What a `SendInLoop` of `c` that is in `high_water_callback_` has still to append. -/
def pending (c : Nat) : Frame → Option Source
  | .appending d source => if d = c then some source else none
  | _ => none

theorem pending_own (c : Nat) (source : Source) : pending c (.appending c source) = some source :=
  if_pos rfl

def suspended (c : Nat) (r : Reactor) : List Source := r.frames.filterMap (pending c)

/-- What a step passes to `SendInLoop` of `c`, unless that gives up at once. -/
def message (c : Nat) (r : Reactor) : Action → Option Payload
  | .call (.send d payload _) =>
      if d = c ∧ (r.conns c).state = .kConnected then some payload else none
  | .functor (some (.send d payload _)) =>
      if d = c ∧ (r.conns c).state ≠ .kDisConnected then some payload else none
  | _ => none

/-- The most that one `write` transfers. -/
def writeLimit : Nat := 0x7ffff000

def withinLimit : IoResult → Bool
  | .error _ => true
  | .count n => n ≤ writeLimit

def limited : Action → Bool
  | .call (.send _ _ result) | .functor (some (.send _ _ result)) => withinLimit result
  | _ => true

/-! What a step leaves alone. -/

theorem output_eq {conn : TcpConnection} {stream : List Byte} (holds : Holds conn stream) :
    output conn = stream := by
  obtain ⟨bytes, rep, rfl⟩ := holds
  rw [output, ChainBuffer.peekAllAsString_represents rep, Option.getD_some]

/-- A closed connection has no interest in writing. -/
def Idle (conn : TcpConnection) : Prop :=
  conn.state = .kDisConnected → conn.channel.isWritting = false

structure Mild (conn after : TcpConnection) : Prop where
  holds : ∀ stream, Holds conn stream → Holds after stream
  idle : Idle conn → Idle after

theorem Mild.refl (conn : TcpConnection) : Mild conn conn := ⟨fun _ => id, id⟩

theorem Mild.trans {conn middle after : TcpConnection} (first : Mild conn middle)
    (second : Mild middle after) : Mild conn after where
  holds stream holds := second.holds stream (first.holds stream holds)
  idle := second.idle ∘ first.idle

theorem Mild.of_same {conn after : TcpConnection} (buffer : after.ouputBuffer = conn.ouputBuffer)
    (accepted : after.socket.accepted = conn.socket.accepted) (idle : Idle conn → Idle after) :
    Mild conn after where
  holds stream holds := by
    rw [Holds, buffer, accepted]
    exact holds
  idle := idle

theorem disconnect_mild (conn : TcpConnection) : Mild conn conn.disconnect :=
  .of_same rfl rfl fun _ _ => Channel.isWritting_disableAll conn.channel

theorem establish_mild (conn : TcpConnection) : Mild conn conn.establish :=
  .of_same rfl rfl fun _ closed => by cases closed

theorem exchange_mild (conn : TcpConnection) : Mild conn { conn with state := .kDisConnecting } :=
  .of_same rfl rfl fun _ closed => by cases closed

theorem shutDownInLoop_mild (conn : TcpConnection) : Mild conn conn.shutDownInLoop := by
  obtain ⟨state, channel, buffer, accepted, -⟩ := shutDownInLoop_frame conn
  apply Mild.of_same buffer accepted
  intro idle closed
  rw [channel]
  exact idle (state ▸ closed)

theorem finishWrite_mild (conn : TcpConnection) : Mild conn conn.finishWrite := by
  unfold finishWrite
  split
  · exact shutDownInLoop_mild conn
  · exact Mild.refl conn

theorem remove_mild (conn : TcpConnection) :
    Mild conn { conn with channel := conn.channel.remove } := by
  refine .of_same rfl rfl fun idle closed => ?_
  rw [Channel.isWritting_remove]
  exact idle closed

theorem destroyConnection_mild (conn : TcpConnection) : Mild conn conn.destroyConnection := by
  unfold destroyConnection
  split
  · exact (disconnect_mild conn).trans (remove_mild conn.disconnect)
  · exact remove_mild conn

theorem startReadInLoop_mild (conn : TcpConnection) : Mild conn conn.startReadInLoop := by
  unfold startReadInLoop
  split
  · rename_i guard
    exact .of_same rfl rfl fun _ closed => absurd closed guard.2.2
  · exact Mild.refl conn

theorem stopReadInLoop_mild (conn : TcpConnection) : Mild conn conn.stopReadInLoop := by
  unfold stopReadInLoop
  split
  · rename_i guard
    exact .of_same rfl rfl fun _ closed => absurd closed guard.2
  · exact Mild.refl conn

theorem drainOutput_mild {conn after : TcpConnection} {result : IoResult} {drained : Bool}
    (wrote : conn.drainOutput result = some (after, drained)) : Mild conn after where
  holds stream holds :=
    OutputStream.drainOutput_holds result conn after drained stream holds wrote
  idle idle closed := by
    obtain ⟨state, same | fewer⟩ := ConnectionStates.drainOutput_interest wrote
    · rw [same]
      exact idle (state ▸ closed)
    · rw [fewer]
      exact Channel.isWritting_disableWritting conn.channel

structure Calm (c : Nat) (r next : Reactor) : Prop where
  suspended : suspended c next = suspended c r
  mild : Mild (r.conns c) (next.conns c)

section Calm

variable {c d : Nat} {r middle next : Reactor}

theorem Calm.refl (c : Nat) (r : Reactor) : Calm c r r := ⟨rfl, .refl _⟩

theorem Calm.trans (first : Calm c r middle) (second : Calm c middle next) : Calm c r next where
  suspended := second.suspended.trans first.suspended
  mild := first.mild.trans second.mild

theorem set_calm {conn : TcpConnection} (mild : d = c → Mild (r.conns d) conn) :
    Calm c r (r.set d conn) where
  suspended := rfl
  mild := by
    by_cases same : c = d
    · subst same
      simpa [Reactor.set] using mild rfl
    · simpa [Reactor.set, same] using Mild.refl (r.conns c)

theorem stack_calm {frames : List Frame}
    (same : frames.filterMap (pending c) = r.frames.filterMap (pending c)) :
    Calm c r { r with frames := frames } :=
  ⟨same, .refl _⟩

theorem note_calm (event : Event) : Calm c r (r.note event) := ⟨rfl, .refl _⟩

theorem enter_calm {frame : Frame} (other : pending c frame = none) : Calm c r (r.enter frame) :=
  stack_calm (List.filterMap_cons_none other)

theorem pop_calm {top : Frame} {rest : List Frame} (frames : r.frames = top :: rest)
    (other : pending c top = none) : Calm c r { r with frames := rest } := by
  apply stack_calm
  rw [frames, List.filterMap_cons_none other]

theorem replace_calm {top frame : Frame} {rest : List Frame} (frames : r.frames = top :: rest)
    (other : pending c top = none) (still : pending c frame = none) :
    Calm c r { r with frames := frame :: rest } := by
  apply stack_calm
  rw [frames, List.filterMap_cons_none other, List.filterMap_cons_none still]

theorem handleClose_calm (c : Nat) (r : Reactor) (d : Nat) : Calm c r (r.handleClose d) := by
  have closed : Calm c r (r.set d (r.conns d).disconnect) :=
    set_calm fun _ => disconnect_mild (r.conns d)
  exact (closed.trans (note_calm (.connectionDown d))).trans (enter_calm rfl)

theorem handleRead_calm (c : Nat) (r : Reactor) (d : Nat) (result : IoResult) :
    Calm c r (r.handleRead d result) := by
  cases result with
  | error errno => exact Calm.refl c r
  | count n =>
      cases n with
      | zero => exact handleClose_calm c r d
      | succ n =>
          simp only [Reactor.handleRead]
          split
          · exact (note_calm (.message d)).trans (enter_calm rfl)
          · exact Calm.refl c r

theorem handleWrite_calm {result : IoResult} (wrote : r.handleWrite d result = some next) :
    Calm c r next := by
  unfold Reactor.handleWrite at wrote
  split at wrote
  · rcases Option.bind_eq_some_iff.mp wrote with ⟨⟨conn, drained⟩, ran, finished⟩
    cases finished
    have first : Calm c r (r.set d conn) := set_calm fun _ => drainOutput_mild ran
    split
    · exact first.trans (enter_calm rfl)
    · exact first
  · cases wrote
    exact Calm.refl c r

theorem queue_other {added : Nat} {source : Source} (other : d ≠ c)
    (queued : r.queue d added source = some next) : Calm c r next := by
  unfold Reactor.queue at queued
  split at queued
  · cases queued
    exact enter_calm (if_neg other)
  · obtain ⟨conn, -, rfl⟩ := Option.map_eq_some_iff.mp queued
    exact set_calm fun same => absurd same other

theorem sendInLoop_other {payload : Payload} {result : IoResult} (other : d ≠ c)
    (sent : r.sendInLoop d payload result = some next) : Calm c r next := by
  unfold Reactor.sendInLoop at sent
  split at sent
  · cases sent
    exact Calm.refl c r
  · cases payload with
    | buffer buf => exact queue_other other sent
    | block m =>
        obtain ⟨⟨conn, written, remaining⟩, -, finished⟩ := Option.bind_eq_some_iff.mp sent
        have wrote : Calm c r (r.set d conn) := set_calm fun same => absurd same other
        dsimp only at finished
        split at finished
        · exact wrote.trans (queue_other other finished)
        · cases finished
          split
          · exact wrote.trans (enter_calm rfl)
          · exact wrote

end Calm

/-! What a `SendInLoop` adds. -/

/-- A `SendInLoop` of `c` that found these calls suspended. -/
inductive Sent (c : Nat) (stream : List Byte) (payload : Payload) (before : List Source)
    (next : Reactor) : Prop where
  | done (data : List Byte) (same : suspended c next = before)
      (holds : Holds (next.conns c) (stream ++ data)) (covers : payload.bytes <+: data)
      (real : data ≠ [] → payload.bytes ≠ [])
  | halted (front : List Byte) (source : Source) (above : suspended c next = source :: before)
      (holds : Holds (next.conns c) (stream ++ front))
      (covers : payload.bytes <+: front ++ source.data) (rest : source.data ≠ [])
      (real : payload.bytes ≠ [])

theorem reachesHighWater_pos {conn : TcpConnection} {added : Nat}
    (reaches : conn.reachesHighWater added = true) : 0 < added := by
  simp only [reachesHighWater, Bool.and_eq_true, decide_eq_true_eq] at reaches
  omega

section Sent

variable {c : Nat} {r next : Reactor} {stream : List Byte}

theorem set_conns (r : Reactor) (c : Nat) (conn : TcpConnection) : (r.set c conn).conns c = conn :=
  if_pos rfl

theorem queue_sent {payload : Payload} {front : List Byte} {added : Nat} {source : Source}
    (queued : r.queue c added source = some next) (holds : Holds (r.conns c) (stream ++ front))
    (covers : payload.bytes <+: front ++ source.data) (rest : 0 < added → source.data ≠ [])
    (real : front ++ source.data ≠ [] → payload.bytes ≠ []) :
    Sent c stream payload (suspended c r) next := by
  unfold Reactor.queue at queued
  split at queued
  · rename_i reaches
    cases queued
    have more := rest (reachesHighWater_pos reaches)
    refine .halted front source ?_ holds covers more (real ?_)
    · exact List.filterMap_cons_some (pending_own c source)
    · exact List.append_ne_nil_of_right_ne_nil front more
  · obtain ⟨conn, grown, rfl⟩ := Option.map_eq_some_iff.mp queued
    obtain ⟨after, ran, longer⟩ := OutputStream.growOutput_holds source.grow (r.conns c) _
      source.data holds (OutputStream.source_grow_represents source)
    cases ran.symm.trans grown
    refine .done (front ++ source.data) rfl ?_ covers real
    rw [set_conns, ← List.append_assoc]
    exact longer

theorem sendInLoop_sent {payload : Payload} {result : IoResult}
    (holds : Holds (r.conns c) stream) (connected : (r.conns c).state ≠ .kDisConnected)
    (within : withinLimit result = true) (sent : r.sendInLoop c payload result = some next) :
    Sent c stream payload (suspended c r) next := by
  unfold Reactor.sendInLoop at sent
  rw [if_neg connected] at sent
  cases payload with
  | buffer buf =>
      have length : buf.buffer.readableBytes = buf.bytes.length :=
        ByteQueue.represents_length buf.holds
      have unchanged : Holds (r.conns c) (stream ++ []) := by simpa using holds
      refine queue_sent sent unchanged List.prefix_rfl ?_ id
      rw [length]
      exact List.ne_nil_of_length_pos
  | block m =>
      obtain ⟨⟨conn, written, remaining⟩, wrote, finished⟩ := Option.bind_eq_some_iff.mp sent
      obtain ⟨n, taken, -, inside, rfl, -, counted⟩ := OutputStream.directWrite_holds _ _ _ _ _ _
        _ _ stream holds wrote
      have fits : ∀ count, result = .count count → count < 0x80000000 := by
        rintro count rfl
        have limit := of_decide_eq_true within
        simp only [writeLimit] at limit
        omega
      obtain rfl := counted fits
      have length : m.bytes.length = m.len := length_read _ _ _
      dsimp only at finished
      split at finished
      · rename_i more
        have real : m.bytes ≠ [] := List.ne_nil_of_length_pos (by omega)
        have behind : read m.memory (m.start + written) m.len ≠ [] :=
          List.ne_nil_of_length_pos (by rw [length_read]; omega)
        have afterwards : Holds ((r.set c conn).conns c) (stream ++ m.bytes.take written) := by
          rw [set_conns]
          exact taken
        have queued : Sent c stream (.block m) (suspended c (r.set c conn)) next :=
          queue_sent finished afterwards (m.bytes_isPrefix inside) (fun _ => behind)
            (fun _ => real)
        exact queued
      · have whole : m.bytes.take written = m.bytes := List.take_of_length_le (by omega)
        cases finished
        refine .done m.bytes ?_ ?_ List.prefix_rfl id
        · split <;> rfl
        · change Holds conn (stream ++ m.bytes.take written) at taken
          rw [whole] at taken
          split <;> simpa [Reactor.enter, set_conns] using taken

theorem queue_state {added : Nat} {source : Source}
    (queued : r.queue c added source = some next) :
    (next.conns c).state = (r.conns c).state := by
  unfold Reactor.queue at queued
  split at queued
  · cases queued
    rfl
  · obtain ⟨conn, grown, rfl⟩ := Option.map_eq_some_iff.mp queued
    rw [set_conns]
    exact (growOutput_frame grown).1

theorem sendInLoop_state {payload : Payload} {result : IoResult}
    (sent : r.sendInLoop c payload result = some next) :
    (next.conns c).state = (r.conns c).state := by
  unfold Reactor.sendInLoop at sent
  split at sent
  · cases sent
    rfl
  · cases payload with
    | buffer buf => exact queue_state sent
    | block m =>
        obtain ⟨⟨conn, written, remaining⟩, wrote, finished⟩ := Option.bind_eq_some_iff.mp sent
        have state : ((r.set c conn).conns c).state = (r.conns c).state := by
          rw [set_conns]
          exact (directWrite_frame wrote).1
        dsimp only at finished
        split at finished
        · exact (queue_state finished).trans state
        · cases finished
          split
          · exact state
          · exact state

inductive Traces (c : Nat) (stream : List Byte) (r : Reactor) (action : Action) (next : Reactor) :
    Prop where
  | sent (payload : Payload) (asked : message c r action = some payload)
      (state : (next.conns c).state = (r.conns c).state)
      (sent : Sent c stream payload (suspended c r) next)
  | returned (source : Source) (rest : List Frame) (asked : message c r action = none)
      (back : action = .callbackReturn) (frames : r.frames = .appending c source :: rest)
      (below : suspended c r = source :: suspended c next)
      (holds : Holds (next.conns c) (stream ++ source.data))
      (state : (next.conns c).state = (r.conns c).state)
      (writing : (next.conns c).channel.isWritting = true)
  | calm (asked : message c r action = none) (calm : Calm c r next)

theorem message_connected {action : Action} {payload : Payload}
    (asked : message c r action = some payload) : (r.conns c).state ≠ .kDisConnected := by
  unfold message at asked
  split at asked
  · intro closed
    simp [closed] at asked
  · intro closed
    simp [closed] at asked
  · cases asked

theorem callbackReturn_traces (holds : Holds (r.conns c) stream)
    (returned : r.callbackReturn = some next) : Traces c stream r .callbackReturn next := by
  unfold Reactor.callbackReturn at returned
  split at returned
  case h_1 d rest frames =>
    cases returned
    have closing : Calm c r { r with frames := .closing d :: rest } :=
      replace_calm frames rfl rfl
    exact .calm rfl (closing.trans (note_calm (.closed d)))
  case h_2 d rest frames =>
    cases returned
    exact .calm rfl ((pop_calm frames rfl).trans (set_calm fun _ => finishWrite_mild _))
  case h_3 d source rest frames =>
    obtain ⟨conn, grown, rfl⟩ := Option.map_eq_some_iff.mp returned
    by_cases same : d = c
    · subst same
      obtain ⟨after, ran, longer⟩ := OutputStream.growOutput_holds source.grow (r.conns d) _
        source.data holds (OutputStream.source_grow_represents source)
      cases ran.symm.trans grown
      obtain ⟨state, writing, -⟩ := growOutput_frame grown
      refine .returned source rest rfl rfl frames ?_ ?_ ?_ ?_
      · rw [suspended, frames]
        exact List.filterMap_cons_some (pending_own d source)
      · rw [set_conns]
        exact longer
      · rw [set_conns]
        exact state
      · rw [set_conns]
        exact writing
    · exact .calm rfl ((pop_calm frames (if_neg same)).trans
        (set_calm fun mine => absurd mine same))
  case h_4 | h_5 | h_6 | h_7 | h_8 =>
    rename_i rest frames
    cases returned
    exact .calm rfl (pop_calm frames rfl)
  case h_9 | h_10 => cases returned

def sends : Call → Bool
  | .send _ _ _ => true
  | _ => false

theorem call_calm (what : Call) (other : sends what = false)
    (called : r.call what = some next) : Calm c r next := by
  cases what with
  | send d payload result => cases other
  | forceClose d =>
      cases called
      unfold Reactor.forceCloseInLoop
      split
      · exact handleClose_calm c r d
      · exact Calm.refl c r
  | shutDown d =>
      cases called
      unfold Reactor.shutDown
      split
      · exact set_calm fun _ => (exchange_mild (r.conns d)).trans (shutDownInLoop_mild _)
      · exact Calm.refl c r
  | startRead d =>
      cases called
      exact set_calm fun _ => startReadInLoop_mild _
  | stopRead d =>
      cases called
      exact set_calm fun _ => stopReadInLoop_mild _
  | establishConnection d =>
      simp only [Reactor.call, Reactor.establishConnection] at called
      split at called
      · cases called
        exact (set_calm fun _ => establish_mild (r.conns d)).trans (enter_calm rfl)
      · cases called
  | destroyConnection d =>
      cases called
      exact set_calm fun _ => destroyConnection_mild _

theorem call_traces {what : Call} (holds : Holds (r.conns c) stream)
    (limit : limited (.call what) = true) (called : r.call what = some next) :
    Traces c stream r (.call what) next := by
  cases what with
  | send d payload result =>
      simp only [Reactor.call] at called
      split at called
      · rename_i connected
        by_cases same : d = c
        · subst same
          have alive : (r.conns d).state ≠ .kDisConnected := by
            rw [connected]
            decide
          exact .sent payload (if_pos ⟨rfl, connected⟩) (sendInLoop_state called)
            (sendInLoop_sent holds alive limit called)
        · exact .calm (if_neg fun both => same both.1) (sendInLoop_other same called)
      · rename_i refused
        cases called
        refine .calm (if_neg ?_) (Calm.refl c r)
        rintro ⟨rfl, connected⟩
        exact refused connected
  | forceClose d | shutDown d | startRead d | stopRead d | establishConnection d
  | destroyConnection d => exact .calm rfl (call_calm _ rfl called)

theorem functor_traces {what : Call} (holds : Holds (r.conns c) stream)
    (limit : limited (.functor (some what)) = true) (ran : r.functor what = some next) :
    Traces c stream r (.functor (some what)) next := by
  cases what with
  | send d payload result =>
      by_cases same : d = c
      · subst same
        by_cases closed : (r.conns d).state = .kDisConnected
        · obtain rfl := ConnectionStates.sendInLoop_gone closed ran
          exact .calm (if_neg fun both => both.2 closed) (Calm.refl d next)
        · exact .sent payload (if_pos ⟨rfl, closed⟩) (sendInLoop_state ran)
            (sendInLoop_sent holds closed limit ran)
      · exact .calm (if_neg fun both => same both.1) (sendInLoop_other same ran)
  | shutDown d =>
      cases ran
      exact .calm rfl (set_calm fun _ => shutDownInLoop_mild _)
  | forceClose d => exact .calm rfl (call_calm (.forceClose d) rfl ran)
  | startRead d => exact .calm rfl (call_calm (.startRead d) rfl ran)
  | stopRead d => exact .calm rfl (call_calm (.stopRead d) rfl ran)
  | establishConnection d => exact .calm rfl (call_calm (.establishConnection d) rfl ran)
  | destroyConnection d => exact .calm rfl (call_calm (.destroyConnection d) rfl ran)

theorem step_traces {action : Action} (holds : Holds (r.conns c) stream)
    (limit : limited action = true) (stepped : r.step action = some next) :
    Traces c stream r action next := by
  cases step_stepped stepped with
  | poll watched => exact .calm rfl ⟨rfl, .refl _⟩
  | nextChannel phase idle => exact .calm rfl ⟨by simp [suspended, idle, pending], .refl _⟩
  | otherChannel phase idle => exact .calm rfl ⟨by simp [suspended, idle, pending], .refl _⟩
  | endHandling => exact .calm rfl ⟨rfl, .refl _⟩
  | error frames => exact .calm rfl (replace_calm frames rfl rfl)
  | @read result d revents rest frames =>
      refine .calm rfl ?_
      have advance : Calm c r (r.atStage d revents .write rest) := replace_calm frames rfl rfl
      split
      · exact advance.trans (handleRead_calm c _ d result)
      · exact advance
  | @write result d revents rest _ frames wrote =>
      have advance : Calm c r (r.atStage d revents .hangup rest) := replace_calm frames rfl rfl
      exact .calm rfl (advance.trans (handleWrite_calm wrote))
  | unwritable frames => exact .calm rfl (replace_calm frames rfl rfl)
  | @hangup d revents rest frames =>
      refine .calm rfl ?_
      have popped : Calm c r { r with frames := rest } := pop_calm frames rfl
      split
      · exact popped.trans (handleClose_calm c _ d)
      · exact popped
  | callbackReturn returned => exact callbackReturn_traces holds returned
  | call called => exact call_traces holds limit called
  | functor ran => exact functor_traces holds limit ran
  | userFunctor => exact .calm rfl (enter_calm rfl)
  | endExecuting => exact .calm rfl ⟨rfl, .refl _⟩
  | exchange connected => exact .calm rfl (set_calm fun _ => exchange_mild _)
  | lateExchange late => exact .calm rfl (Calm.refl c r)

end Sent

end Muzi.OutputSteps
