import Muzi.ConnectionClose

/-!
What a step of the loop thread does to the connections: at most one of them
changes, its state does not go back, and every new frame of the stack is one of
its own. `EstablishConnection` stores to `state_` whatever it finds there (the
`assert` is compiled out), so for it alone this depends on who runs first;
ConnectionStates.lean has the order.
-/

namespace Muzi

def ConnectionState.rank : ConnectionState → Nat
  | .kConnecting => 0
  | .kConnected => 1
  | .kDisConnecting => 2
  | .kDisConnected => 3

theorem ConnectionState.rank_le_gone (state : ConnectionState) :
    state.rank ≤ ConnectionState.kDisConnected.rank := by
  cases state <;> decide

theorem ConnectionState.gone_of_rank_le {state : ConnectionState}
    (last : ConnectionState.kDisConnected.rank ≤ state.rank) : state = .kDisConnected := by
  cases state with
  | kDisConnected => rfl
  | kConnecting | kConnected | kDisConnecting => simp [rank] at last

namespace Channel

/-- `after` has an interest, or a place in the epoll set, that `before` has not. -/
def enabled (before after : Channel) : Bool :=
  has after.events (~~~before.events) || after.watched && !before.watched

/-- A channel with an interest is in the epoll set as far as `index_` tells. -/
def Sane (channel : Channel) : Prop := channel.events ≠ kNoneEvent → channel.index = .kAdded

theorem update_sane (channel : Channel) : channel.update.Sane := by
  unfold update Sane
  split
  · exact fun _ => rfl
  · exact fun _ => rfl
  · rename_i added
    split
    · rename_i empty
      exact fun busy => absurd empty busy
    · exact fun _ => added

theorem remove_sane {channel : Channel} (sane : channel.Sane) : channel.remove.Sane := by
  unfold remove
  split
  · exact sane
  · exact sane
  · exact sane

@[simp] theorem enabled_self (channel : Channel) : enabled channel channel = false := by
  simp [enabled, has, BitVec.and_not_self]

theorem update_watched {channel : Channel} (added : channel.index = .kAdded)
    (watched : channel.update.watched = true) : channel.watched = true := by
  simp only [update, added] at watched
  split at watched
  · cases watched
  · exact watched

theorem disableWritting_enabled {channel : Channel} (sane : channel.Sane)
    (writing : channel.isWritting = true) : enabled channel channel.disableWritting = false := by
  have busy : channel.events ≠ kNoneEvent := by
    intro empty
    simp [isWritting, has, empty, kNoneEvent] at writing
  have narrower : channel.events &&& ~~~kWriteEvent &&& ~~~channel.events = 0#32 := by
    ext i inside
    simp only [BitVec.getElem_and, BitVec.getElem_not, BitVec.getElem_zero]
    cases channel.events[i] <;> simp
  have watched : channel.disableWritting.watched = true → channel.watched = true :=
    update_watched (sane busy)
  cases again : channel.disableWritting.watched with
  | false => simp [enabled, has, disableWritting, narrower, ← again]
  | true => simp [enabled, has, disableWritting, narrower, watched again]

end Channel

namespace ConnectionClose

def Frame.conn : Frame → Option Nat
  | .event d _ _ | .message d | .connectionDown d | .closing d | .connectionUp d | .finishing d
  | .complete d | .appending d _ => some d
  | .user => none

def Call.conn : Call → Nat
  | .forceClose d | .send d _ _ | .shutDown d | .startRead d | .stopRead d
  | .establishConnection d | .destroyConnection d => d

def Call.establishes : Call → Bool
  | .establishConnection _ => true
  | _ => false

/-- The call is `SendInLoop`, `StartReadInLoop` or `StopReadInLoop` of `d`. -/
def Call.transfers (d : Nat) : Call → Bool
  | .send c _ _ | .startRead c | .stopRead c => c = d
  | _ => false

namespace Reactor

def establish (r : Reactor) (d : Nat) : Reactor :=
  (r.set d (r.conns d).establish).enter (.connectionUp d)

def execute (r : Reactor) : Option Call → Option Reactor
  | some (.establishConnection d) =>
      match r.phase, r.frames with
      | .executing, [] => some (r.establish d)
      | _, _ => none
  | what => r.step (.functor what)

def Reports (r : Reactor) (d : Nat) : Prop :=
  match r.phase with
  | .handling active => ∃ revents, some (d, revents) ∈ active
  | .polling | .executing => False

def touched (r : Reactor) : Action → Option Nat
  | .poll _ | .endHandling | .endExecuting => none
  | .nextChannel =>
      match r.phase with
      | .handling (some (c, _) :: _) => some c
      | _ => none
  | .error | .read _ | .write _ | .hangup | .callbackReturn => r.frames.head?.bind Frame.conn
  | .call what => some what.conn
  | .functor what => what.map Call.conn
  | .exchange d => if (r.conns d).state = .kConnected then some d else none

end Reactor

end ConnectionClose

namespace ConnectionStates

open ConnectionClose ConnectionClose.Reactor TcpConnection Execution
open OutputStream (Payload Source)

structure Forward (c after : TcpConnection) : Prop where
  rank : c.state.rank ≤ after.state.rank
  sane : c.channel.Sane → after.channel.Sane

theorem Forward.refl (c : TcpConnection) : Forward c c := ⟨Nat.le_refl _, id⟩

theorem Forward.trans {c middle after : TcpConnection} (first : Forward c middle)
    (second : Forward middle after) : Forward c after :=
  ⟨Nat.le_trans first.rank second.rank, second.sane ∘ first.sane⟩

theorem Forward.of_same {c after : TcpConnection} (state : after.state = c.state)
    (channel : after.channel = c.channel) : Forward c after :=
  ⟨Nat.le_of_eq (congrArg _ state.symm), fun sane => channel ▸ sane⟩

theorem growOutput_forward {c after : TcpConnection} {grow : ChainBuffer → Option ChainBuffer}
    (grown : c.growOutput grow = some after) : Forward c after := by
  rcases Option.bind_eq_some_iff.mp grown with ⟨output, -, finished⟩
  dsimp only at finished
  split at finished
  · cases finished
    exact Forward.of_same rfl rfl
  · cases finished
    exact ⟨Nat.le_refl _, fun _ => Channel.update_sane _⟩

theorem drainOutput_interest {c after : TcpConnection} {result : IoResult} {drained : Bool}
    (wrote : c.drainOutput result = some (after, drained)) :
    after.state = c.state ∧
      (after.channel = c.channel ∨ after.channel = c.channel.disableWritting) := by
  rcases Option.bind_eq_some_iff.mp wrote with ⟨⟨output, taken⟩, -, finished⟩
  cases result with
  | error errno =>
      cases finished
      exact ⟨rfl, .inl rfl⟩
  | count n =>
      dsimp only at finished
      split at finished
      · cases finished
        exact ⟨rfl, .inr rfl⟩
      · cases finished
        exact ⟨rfl, .inl rfl⟩

theorem drainOutput_forward {c after : TcpConnection} {result : IoResult} {drained : Bool}
    (wrote : c.drainOutput result = some (after, drained)) : Forward c after := by
  rcases drainOutput_interest wrote with ⟨state, same | fewer⟩
  · exact Forward.of_same state same
  · exact ⟨Nat.le_of_eq (congrArg _ state.symm), fun _ => fewer ▸ Channel.update_sane _⟩

theorem shutDownInLoop_forward (c : TcpConnection) : Forward c c.shutDownInLoop :=
  Forward.of_same (shutDownInLoop_frame c).1 (shutDownInLoop_frame c).2.1

theorem finishWrite_channel (c : TcpConnection) : c.finishWrite.channel = c.channel := by
  unfold finishWrite
  split
  · exact (shutDownInLoop_frame c).2.1
  · rfl

theorem finishWrite_forward (c : TcpConnection) : Forward c c.finishWrite :=
  Forward.of_same (finishWrite_frame c).1 (finishWrite_channel c)

theorem disconnect_forward (c : TcpConnection) : Forward c c.disconnect :=
  ⟨c.state.rank_le_gone, fun _ => Channel.update_sane _⟩

theorem destroyConnection_forward (c : TcpConnection) : Forward c c.destroyConnection := by
  unfold destroyConnection
  split
  · exact (disconnect_forward c).trans ⟨Nat.le_refl _, Channel.remove_sane⟩
  · exact ⟨Nat.le_refl _, Channel.remove_sane⟩

theorem startReadInLoop_forward (c : TcpConnection) : Forward c c.startReadInLoop := by
  unfold startReadInLoop
  split
  · exact ⟨Nat.le_refl _, fun _ => Channel.update_sane _⟩
  · exact Forward.refl c

theorem stopReadInLoop_forward (c : TcpConnection) : Forward c c.stopReadInLoop := by
  unfold stopReadInLoop
  split
  · exact ⟨Nat.le_refl _, fun _ => Channel.update_sane _⟩
  · exact Forward.refl c

theorem exchange_forward {c : TcpConnection} (connected : c.state = .kConnected) :
    Forward c { c with state := .kDisConnecting } :=
  ⟨by simp [connected, ConnectionState.rank], id⟩

theorem establish_forward {c : TcpConnection} (connecting : c.state = .kConnecting) :
    Forward c c.establish :=
  ⟨by simp [connecting, ConnectionState.rank], fun _ => Channel.update_sane _⟩

structure Touches (target : Option Nat) (r next : Reactor) : Prop where
  forward : ∀ d, Forward (r.conns d) (next.conns d)
  others : ∀ d, target ≠ some d → next.conns d = r.conns d
  frames : ∀ frame ∈ next.frames, frame ∈ r.frames ∨ ∀ d, frame.conn = some d → target = some d
  reports : ∀ d, target ≠ some d → next.Reports d →
    r.Reports d ∨ (r.conns d).channel.watched = true

section Touches

variable {target : Option Nat} {r middle next : Reactor} {d : Nat}

theorem Touches.refl (target : Option Nat) (r : Reactor) : Touches target r r :=
  ⟨fun _ => .refl _, fun _ _ => rfl, fun _ => .inl, fun _ _ => .inl⟩

theorem Touches.trans (first : Touches target r middle) (second : Touches target middle next) :
    Touches target r next where
  forward d := (first.forward d).trans (second.forward d)
  others d other := (second.others d other).trans (first.others d other)
  frames frame member := by
    rcases second.frames frame member with old | new
    · exact first.frames frame old
    · exact .inr new
  reports d other reported := by
    rcases second.reports d other reported with old | watched
    · exact first.reports d other old
    · rw [first.others d other] at watched
      exact .inr watched

theorem set_touches {conn : TcpConnection} (forward : Forward (r.conns d) conn) :
    Touches (some d) r (r.set d conn) where
  forward c := by
    by_cases same : c = d
    · subst same
      simpa [Reactor.set] using forward
    · simpa [Reactor.set, same] using Forward.refl (r.conns c)
  others c other := by
    have apart : c ≠ d := fun same => other (congrArg some same.symm)
    simp [Reactor.set, apart]
  frames _ := .inl
  reports _ _ := .inl

theorem note_touches (event : Event) : Touches target r (r.note event) :=
  ⟨fun _ => .refl _, fun _ _ => rfl, fun _ => .inl, fun _ _ => .inl⟩

theorem stack_touches {frames : List Frame}
    (about : ∀ frame ∈ frames, frame ∈ r.frames ∨ ∀ d, frame.conn = some d → target = some d) :
    Touches target r { r with frames := frames } :=
  ⟨fun _ => .refl _, fun _ _ => rfl, about, fun _ _ => .inl⟩

theorem enter_touches {frame : Frame} (about : ∀ d, frame.conn = some d → target = some d) :
    Touches target r (r.enter frame) := by
  apply stack_touches
  intro other member
  rcases List.mem_cons.mp member with rfl | old
  · exact .inr about
  · exact .inl old

theorem pop_touches {top : Frame} {rest : List Frame} (frames : r.frames = top :: rest) :
    Touches target r { r with frames := rest } :=
  stack_touches fun _ member => .inl (frames ▸ List.mem_cons_of_mem top member)

theorem replace_touches {top frame : Frame} {rest : List Frame} (frames : r.frames = top :: rest)
    (about : ∀ d, frame.conn = some d → target = some d) :
    Touches target r { r with frames := frame :: rest } := by
  apply stack_touches
  intro other member
  rcases List.mem_cons.mp member with rfl | old
  · exact .inr about
  · exact .inl (frames ▸ List.mem_cons_of_mem top old)

theorem handleClose_touches (r : Reactor) (d : Nat) : Touches (some d) r (r.handleClose d) :=
  (set_touches (disconnect_forward _)).trans ((note_touches _).trans (enter_touches fun _ => id))

theorem growOutput_touches {source : Source}
    (grown : ((r.conns d).growOutput source.grow).map (r.set d) = some next) :
    Touches (some d) r next := by
  rcases Option.map_eq_some_iff.mp grown with ⟨conn, ran, rfl⟩
  exact set_touches (growOutput_forward ran)

theorem queue_touches {added : Nat} {source : Source}
    (queued : r.queue d added source = some next) : Touches (some d) r next := by
  unfold Reactor.queue at queued
  split at queued
  · cases queued
    exact enter_touches fun _ => id
  · exact growOutput_touches queued

theorem sendInLoop_touches {payload : Payload} {result : IoResult}
    (sent : r.sendInLoop d payload result = some next) : Touches (some d) r next := by
  unfold Reactor.sendInLoop at sent
  split at sent
  · cases sent
    exact Touches.refl _ r
  · cases payload with
    | buffer buf => exact queue_touches sent
    | block m =>
        rcases Option.bind_eq_some_iff.mp sent with ⟨⟨conn, written, remaining⟩, wrote, finished⟩
        have first : Touches (some d) r (r.set d conn) :=
          set_touches (.of_same (directWrite_frame wrote).1 (directWrite_frame wrote).2.1)
        dsimp only at finished
        split at finished
        · exact first.trans (queue_touches finished)
        · cases finished
          split
          · exact first.trans (enter_touches fun _ => id)
          · exact first

theorem handleWrite_touches {result : IoResult} (wrote : r.handleWrite d result = some next) :
    Touches (some d) r next := by
  unfold Reactor.handleWrite at wrote
  split at wrote
  · rcases Option.bind_eq_some_iff.mp wrote with ⟨⟨conn, drained⟩, ran, finished⟩
    cases finished
    have first : Touches (some d) r (r.set d conn) := set_touches (drainOutput_forward ran)
    split
    · exact first.trans (enter_touches fun _ => id)
    · exact first
  · cases wrote
    exact Touches.refl _ r

theorem handleRead_touches (r : Reactor) (d : Nat) (result : IoResult) :
    Touches (some d) r (r.handleRead d result) := by
  cases result with
  | error errno => exact Touches.refl _ r
  | count n =>
      cases n with
      | zero => exact handleClose_touches r d
      | succ n =>
          simp only [Reactor.handleRead]
          split
          · exact (note_touches _).trans (enter_touches fun _ => id)
          · exact Touches.refl _ r

theorem establish_touches (connecting : (r.conns d).state = .kConnecting) :
    Touches (some d) r (r.establish d) :=
  (set_touches (establish_forward connecting)).trans (enter_touches fun _ => id)

theorem call_touches (what : Call) (called : r.call what = some next) :
    Touches (some what.conn) r next := by
  cases what with
  | forceClose d =>
      cases called
      unfold Reactor.forceCloseInLoop
      split
      · exact handleClose_touches r d
      · exact Touches.refl _ r
  | send d payload result =>
      simp only [Reactor.call] at called
      split at called
      · exact sendInLoop_touches called
      · cases called
        exact Touches.refl _ r
  | shutDown d =>
      cases called
      unfold Reactor.shutDown
      split
      · rename_i connected
        exact set_touches ((exchange_forward connected).trans (shutDownInLoop_forward _))
      · exact Touches.refl _ r
  | startRead d =>
      cases called
      exact set_touches (startReadInLoop_forward _)
  | stopRead d =>
      cases called
      exact set_touches (stopReadInLoop_forward _)
  | establishConnection d =>
      simp only [Reactor.call, Reactor.establishConnection] at called
      split at called
      · rename_i connecting
        cases called
        exact establish_touches connecting
      · cases called
  | destroyConnection d =>
      cases called
      exact set_touches (destroyConnection_forward _)

theorem functor_touches {what : Call} (ran : r.functor what = some next) :
    Touches (some what.conn) r next := by
  cases what with
  | send d payload result => exact sendInLoop_touches ran
  | shutDown d =>
      cases ran
      exact set_touches (shutDownInLoop_forward _)
  | forceClose d => exact call_touches (.forceClose d) ran
  | startRead d => exact call_touches (.startRead d) ran
  | stopRead d => exact call_touches (.stopRead d) ran
  | establishConnection d => exact call_touches (.establishConnection d) ran
  | destroyConnection d => exact call_touches (.destroyConnection d) ran

theorem callbackReturn_touches (returned : r.callbackReturn = some next) :
    Touches (r.frames.head?.bind Frame.conn) r next := by
  unfold Reactor.callbackReturn at returned
  split at returned
  case h_1 =>
    rename_i d rest frames
    cases returned
    rw [frames]
    have closing : Touches (some d) r { r with frames := .closing d :: rest } :=
      replace_touches frames fun _ => id
    exact closing.trans (note_touches (.closed d))
  case h_2 =>
    rename_i d rest frames
    cases returned
    rw [frames]
    exact (pop_touches frames).trans (set_touches (finishWrite_forward _))
  case h_3 =>
    rename_i d source rest frames
    rw [frames]
    exact (pop_touches frames).trans (growOutput_touches returned)
  case h_4 | h_5 | h_6 | h_7 | h_8 =>
    rename_i rest frames
    cases returned
    exact pop_touches frames
  case h_9 | h_10 => cases returned

theorem nextChannel_touches {entry : Option (Nat × Mask)} {active : List (Option (Nat × Mask))}
    {frame : Frame} (phase : r.phase = .handling (entry :: active))
    (about : ∀ d, frame.conn = some d → target = some d) :
    Touches target r { r with phase := .handling active, frames := [frame] } := by
  refine ⟨fun _ => .refl _, fun _ _ => rfl, ?_, ?_⟩
  · intro other member
    cases List.mem_singleton.mp member
    exact .inr about
  · rintro d - ⟨mask, member⟩
    rw [Reports, phase]
    exact .inl ⟨mask, List.mem_cons_of_mem _ member⟩

theorem step_touches {action : ConnectionClose.Action} (stepped : r.step action = some next) :
    Touches (r.touched action) r next := by
  cases step_stepped stepped with
  | poll watched =>
      refine ⟨fun _ => .refl _, fun _ _ => rfl, fun _ => .inl, ?_⟩
      rintro d - ⟨revents, member⟩
      right
      simpa using List.all_eq_true.mp watched _ member
  | nextChannel phase idle =>
      apply nextChannel_touches phase
      simp [touched, phase, Frame.conn]
  | otherChannel phase idle => exact nextChannel_touches phase nofun
  | endHandling => exact ⟨fun _ => .refl _, fun _ _ => rfl, fun _ => .inl, fun _ _ => nofun⟩
  | error frames =>
      rw [touched, frames]
      exact replace_touches frames fun _ => id
  | @read result c revents rest frames =>
      rw [touched, frames]
      have advance : Touches (some c) r (r.atStage c revents .write rest) :=
        replace_touches frames fun _ => id
      split
      · exact advance.trans (handleRead_touches _ c result)
      · exact advance
  | @write result c revents rest _ frames wrote =>
      rw [touched, frames]
      have advance : Touches (some c) r (r.atStage c revents .hangup rest) :=
        replace_touches frames fun _ => id
      exact advance.trans (handleWrite_touches wrote)
  | unwritable frames =>
      rw [touched, frames]
      exact replace_touches frames fun _ => id
  | @hangup c revents rest frames =>
      rw [touched, frames]
      have popped : Touches (some c) r { r with frames := rest } := pop_touches frames
      split
      · exact popped.trans (handleClose_touches _ c)
      · exact popped
  | callbackReturn returned => exact callbackReturn_touches returned
  | call called => exact call_touches _ called
  | functor ran => exact functor_touches ran
  | userFunctor => exact enter_touches nofun
  | endExecuting => exact ⟨fun _ => .refl _, fun _ _ => rfl, fun _ => .inl, fun _ _ => nofun⟩
  | exchange connected =>
      rw [touched, if_pos connected]
      exact set_touches (exchange_forward connected)
  | lateExchange late => exact Touches.refl _ r

end Touches

end ConnectionStates

end Muzi
