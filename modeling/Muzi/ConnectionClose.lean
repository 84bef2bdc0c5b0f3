import Muzi.OutputStream

/-!
Closing connections in one loop thread. `Poll` fills the list of active
channels, `HandleEvent` walks through its four tests for each of them, and
every user callback is a frame on the stack of the loop thread, from which the
user may call back into any connection of the loop. The functor queue and the
other threads are free: in `ExecuteFunctors` any functor may run, and a
`ShutDown` elsewhere may exchange a state at any time. The log has the
callbacks this module is about.
-/

namespace Muzi.ConnectionClose

open Storage TcpConnection Execution
open OutputStream (Message Payload Source)

/-- The tests of `HandleEventWithGuard`, in order. -/
inductive Stage where
  | error
  | read
  | write
  | hangup

inductive Frame where
  -- `HandleEvent`, before the test `stage`
  | event (conn : Nat) (revents : Mask) (stage : Stage)
  -- `HandleRead` in `message_callback_`
  | message (conn : Nat)
  -- `HandleClose` in `connection_callback_`, and then in `close_callback_`
  | connectionDown (conn : Nat)
  | closing (conn : Nat)
  -- `EstablishConnection` in `connection_callback_`
  | connectionUp (conn : Nat)
  -- `HandleWrite` between the drain and its test of `state_`
  | finishing (conn : Nat)
  -- `SendInLoop` in `write_complete_callback_`
  | complete (conn : Nat)
  -- `SendInLoop` in `high_water_callback_`
  | appending (conn : Nat) (source : Source)
  -- the handler of another channel, or a functor of the user
  | user

inductive Event where
  -- `connection_callback_` in the disconnected state
  | connectionDown (conn : Nat)
  | closed (conn : Nat)
  | message (conn : Nat)
  deriving DecidableEq

inductive Phase where
  | polling
  -- `none` is a channel that belongs to no connection
  | handling (active : List (Option (Nat × Mask)))
  | executing

structure Reactor where
  conns : Nat → TcpConnection
  phase : Phase
  frames : List Frame
  log : List Event

namespace Reactor

def set (r : Reactor) (d : Nat) (conn : TcpConnection) : Reactor :=
  { r with conns := fun c => if c = d then conn else r.conns c }

def enter (r : Reactor) (frame : Frame) : Reactor := { r with frames := frame :: r.frames }

def note (r : Reactor) (event : Event) : Reactor := { r with log := r.log ++ [event] }

def handleClose (r : Reactor) (d : Nat) : Reactor :=
  ((r.set d (r.conns d).disconnect).note (.connectionDown d)).enter (.connectionDown d)

def forceCloseInLoop (r : Reactor) (d : Nat) : Reactor :=
  if (r.conns d).state = .kConnected ∨ (r.conns d).state = .kDisConnecting then r.handleClose d
  else r

def handleRead (r : Reactor) (d : Nat) : IoResult → Reactor
  | .error _ => r
  | .count 0 => r.handleClose d
  | .count (_ + 1) =>
      if (r.conns d).messageCallback then (r.note (.message d)).enter (.message d) else r

def handleWrite (r : Reactor) (d : Nat) (result : IoResult) : Option Reactor :=
  if (r.conns d).channel.isWritting then do
    let (conn, drained) ← (r.conns d).drainOutput result
    some (if drained then (r.set d conn).enter (.finishing d) else r.set d conn)
  else some r

def queue (r : Reactor) (d added : Nat) (source : Source) : Option Reactor :=
  if (r.conns d).reachesHighWater added then some (r.enter (.appending d source))
  else ((r.conns d).growOutput source.grow).map (r.set d)

def sendInLoop (r : Reactor) (d : Nat) (payload : Payload) (result : IoResult) : Option Reactor :=
  if (r.conns d).state = .kDisConnected then some r else
    match payload with
    | .block m => do
        let (conn, written, remaining) ← (r.conns d).directWrite m.memory m.start m.len result
        let after := r.set d conn
        if remaining > 0 then
          after.queue d remaining (.bytes (read m.memory (m.start + written) m.len))
        else some (if written > 0 ∧ conn.writeCompleteCallback then after.enter (.complete d)
          else after)
    | .buffer buf => r.queue d buf.buffer.readableBytes (.buffer buf)

def establishConnection (r : Reactor) (d : Nat) : Option Reactor :=
  if (r.conns d).state = .kConnecting then
    some ((r.set d (r.conns d).establish).enter (.connectionUp d))
  else none

def shutDown (r : Reactor) (d : Nat) : Reactor :=
  if (r.conns d).state = .kConnected then
    r.set d ({ r.conns d with state := .kDisConnecting }.shutDownInLoop)
  else r

def userCode (r : Reactor) : Bool :=
  match r.frames with
  | [] | .event _ _ _ :: _ => false
  | .finishing d :: _ => (r.conns d).writeCompleteCallback
  | _ :: _ => true

end Reactor

inductive Call where
  | forceClose (conn : Nat)
  | send (conn : Nat) (payload : Payload) (result : IoResult)
  | shutDown (conn : Nat)
  | startRead (conn : Nat)
  | stopRead (conn : Nat)
  | establishConnection (conn : Nat)
  | destroyConnection (conn : Nat)

inductive Action where
  | poll (active : List (Option (Nat × Mask)))
  | nextChannel
  | endHandling
  | error
  | read (result : IoResult)
  | write (result : IoResult)
  | hangup
  | callbackReturn
  -- a call by user code in the loop thread
  | call (what : Call)
  -- a functor in `ExecuteFunctors`; `none` is one of the user
  | functor (what : Option Call)
  | endExecuting
  -- `ShutDown` in another thread, up to the exchange of `state_`
  | exchange (conn : Nat)

namespace Reactor

/-- The user's call: `Send` and `ShutDown` test `state_` first; so does
`ForceClose`, as `ForceCloseInLoop` does again. -/
def call (r : Reactor) : Call → Option Reactor
  | .forceClose d => some (r.forceCloseInLoop d)
  | .send d payload result =>
      if (r.conns d).state = .kConnected then r.sendInLoop d payload result else some r
  | .shutDown d => some (r.shutDown d)
  | .startRead d => some (r.set d (r.conns d).startReadInLoop)
  | .stopRead d => some (r.set d (r.conns d).stopReadInLoop)
  | .establishConnection d => r.establishConnection d
  | .destroyConnection d => some (r.set d (r.conns d).destroyConnection)

def functor (r : Reactor) : Call → Option Reactor
  | .send d payload result => r.sendInLoop d payload result
  | .shutDown d => some (r.set d (r.conns d).shutDownInLoop)
  | what => r.call what

def atStage (r : Reactor) (conn : Nat) (revents : Mask) (stage : Stage) (rest : List Frame) :
    Reactor :=
  { r with frames := .event conn revents stage :: rest }

def readable (revents : Mask) : Bool :=
  Channel.has revents (Channel.pollIn ||| Channel.pollPri ||| Channel.pollRdHup)

def hungUp (revents : Mask) : Bool :=
  Channel.has revents Channel.pollHup && !Channel.has revents Channel.pollIn

def callbackReturn (r : Reactor) : Option Reactor :=
  match r.frames with
  | .connectionDown d :: rest =>
      some { r with frames := .closing d :: rest, log := r.log ++ [.closed d] }
  | .finishing d :: rest =>
      some (({ r with frames := rest } : Reactor).set d (r.conns d).finishWrite)
  | .appending d source :: rest =>
      ((r.conns d).growOutput source.grow).map (({ r with frames := rest } : Reactor).set d)
  | .message _ :: rest | .closing _ :: rest | .connectionUp _ :: rest | .complete _ :: rest
  | .user :: rest => some { r with frames := rest }
  | .event _ _ _ :: _ | [] => none

def step (r : Reactor) : Action → Option Reactor
  | .poll active =>
      match r.phase with
      | .polling =>
          -- Only what is in the epoll set can be reported.
          if active.all fun entry => entry.all fun e => (r.conns e.1).channel.watched then
            some { r with phase := .handling active }
          else none
      | _ => none
  | .nextChannel =>
      match r.phase, r.frames with
      | .handling (some (c, revents) :: active), [] =>
          some { r with phase := .handling active, frames := [.event c revents .error] }
      | .handling (none :: active), [] =>
          some { r with phase := .handling active, frames := [.user] }
      | _, _ => none
  | .endHandling =>
      match r.phase, r.frames with
      | .handling [], [] => some { r with phase := .executing }
      | _, _ => none
  -- `HandleError` only logs.
  | .error =>
      match r.frames with
      | .event c revents .error :: rest => some (r.atStage c revents .read rest)
      | _ => none
  | .read result =>
      match r.frames with
      | .event c revents .read :: rest =>
          some (if readable revents then (r.atStage c revents .write rest).handleRead c result
            else r.atStage c revents .write rest)
      | _ => none
  | .write result =>
      match r.frames with
      | .event c revents .write :: rest =>
          if Channel.has revents Channel.pollOut then
            (r.atStage c revents .hangup rest).handleWrite c result
          else some (r.atStage c revents .hangup rest)
      | _ => none
  | .hangup =>
      match r.frames with
      | .event c revents .hangup :: rest =>
          some (if hungUp revents then ({ r with frames := rest } : Reactor).handleClose c
            else { r with frames := rest })
      | _ => none
  | .callbackReturn => r.callbackReturn
  | .call what => if r.userCode then r.call what else none
  | .functor what =>
      match r.phase, r.frames with
      | .executing, [] =>
          match what with
          | some what => r.functor what
          | none => some (r.enter .user)
      | _, _ => none
  | .endExecuting =>
      match r.phase, r.frames with
      | .executing, [] => some { r with phase := .polling }
      | _, _ => none
  | .exchange d =>
      some (if (r.conns d).state = .kConnected then
        r.set d { r.conns d with state := .kDisConnecting }
      else r)

def delivers (conn : TcpConnection) : IoResult → Bool
  | .error _ => false
  | .count 0 => true
  | .count (_ + 1) => conn.messageCallback

/-- The connection that a step gets to by the dispatch of its channel, with data,
end of file or a hangup. -/
def dispatched (r : Reactor) : Action → Option Nat
  | .read result =>
      match r.frames with
      | .event c revents .read :: _ =>
          if readable revents && delivers (r.conns c) result then some c else none
      | _ => none
  | .hangup =>
      match r.frames with
      | .event c revents .hangup :: _ => if hungUp revents then some c else none
      | _ => none
  | _ => none

end Reactor

open Reactor

inductive Stepped (r : Reactor) : Action → Reactor → Prop where
  | poll {active : List (Option (Nat × Mask))}
      (watched :
        active.all (fun entry => entry.all fun e => (r.conns e.1).channel.watched) = true) :
      Stepped r (.poll active) { r with phase := .handling active }
  | nextChannel {c : Nat} {revents : Mask} {active : List (Option (Nat × Mask))}
      (phase : r.phase = .handling (some (c, revents) :: active)) (idle : r.frames = []) :
      Stepped r .nextChannel
        { r with phase := .handling active, frames := [.event c revents .error] }
  | otherChannel {active : List (Option (Nat × Mask))}
      (phase : r.phase = .handling (none :: active)) (idle : r.frames = []) :
      Stepped r .nextChannel { r with phase := .handling active, frames := [.user] }
  | endHandling : Stepped r .endHandling { r with phase := .executing }
  | error {c : Nat} {revents : Mask} {rest : List Frame}
      (frames : r.frames = .event c revents .error :: rest) :
      Stepped r .error (r.atStage c revents .read rest)
  | read {result : IoResult} {c : Nat} {revents : Mask} {rest : List Frame}
      (frames : r.frames = .event c revents .read :: rest) :
      Stepped r (.read result)
        (if readable revents then (r.atStage c revents .write rest).handleRead c result
          else r.atStage c revents .write rest)
  | write {result : IoResult} {c : Nat} {revents : Mask} {rest : List Frame} {next : Reactor}
      (frames : r.frames = .event c revents .write :: rest)
      (wrote : (r.atStage c revents .hangup rest).handleWrite c result = some next) :
      Stepped r (.write result) next
  | unwritable {result : IoResult} {c : Nat} {revents : Mask} {rest : List Frame}
      (frames : r.frames = .event c revents .write :: rest) :
      Stepped r (.write result) (r.atStage c revents .hangup rest)
  | hangup {c : Nat} {revents : Mask} {rest : List Frame}
      (frames : r.frames = .event c revents .hangup :: rest) :
      Stepped r .hangup
        (if hungUp revents then ({ r with frames := rest } : Reactor).handleClose c
          else { r with frames := rest })
  | callbackReturn {next : Reactor} (returned : r.callbackReturn = some next) :
      Stepped r .callbackReturn next
  | call {what : Call} {next : Reactor} (called : r.call what = some next) :
      Stepped r (.call what) next
  | functor {what : Call} {next : Reactor} (ran : r.functor what = some next) :
      Stepped r (.functor (some what)) next
  | userFunctor : Stepped r (.functor none) (r.enter .user)
  | endExecuting : Stepped r .endExecuting { r with phase := .polling }
  | exchange {d : Nat} (connected : (r.conns d).state = .kConnected) :
      Stepped r (.exchange d) (r.set d { r.conns d with state := .kDisConnecting })
  | lateExchange {d : Nat} (late : (r.conns d).state ≠ .kConnected) : Stepped r (.exchange d) r

theorem step_stepped {r next : Reactor} {action : Action} (stepped : r.step action = some next) :
    Stepped r action next := by
  cases action with
  | poll active =>
      simp only [Reactor.step] at stepped
      split at stepped
      · split at stepped
        · rename_i watched
          cases stepped
          exact .poll watched
        · cases stepped
      · cases stepped
  | nextChannel =>
      simp only [Reactor.step] at stepped
      split at stepped
      · rename_i phase idle
        cases stepped
        exact .nextChannel phase idle
      · rename_i phase idle
        cases stepped
        exact .otherChannel phase idle
      · cases stepped
  | endHandling =>
      simp only [Reactor.step] at stepped
      split at stepped
      · cases stepped
        exact .endHandling
      · cases stepped
  | error =>
      simp only [Reactor.step] at stepped
      split at stepped
      · rename_i frames
        cases stepped
        exact .error frames
      · cases stepped
  | read result =>
      simp only [Reactor.step] at stepped
      split at stepped
      · rename_i frames
        cases stepped
        exact .read frames
      · cases stepped
  | write result =>
      simp only [Reactor.step] at stepped
      split at stepped
      · rename_i frames
        split at stepped
        · exact .write frames stepped
        · cases stepped
          exact .unwritable frames
      · cases stepped
  | hangup =>
      simp only [Reactor.step] at stepped
      split at stepped
      · rename_i frames
        cases stepped
        exact .hangup frames
      · cases stepped
  | callbackReturn => exact .callbackReturn stepped
  | call what =>
      simp only [Reactor.step] at stepped
      split at stepped
      · exact .call stepped
      · cases stepped
  | functor what =>
      simp only [Reactor.step] at stepped
      split at stepped
      · cases what with
        | some what => exact .functor stepped
        | none =>
            cases stepped
            exact .userFunctor
      · cases stepped
  | endExecuting =>
      simp only [Reactor.step] at stepped
      split at stepped
      · cases stepped
        exact .endExecuting
      · cases stepped
  | exchange d =>
      by_cases connected : (r.conns d).state = .kConnected
      · simp only [Reactor.step, if_pos connected] at stepped
        cases stepped
        exact .exchange connected
      · simp only [Reactor.step, if_neg connected] at stepped
        cases stepped
        exact .lateExchange connected

/-- At most one `close_callback_`, at most one `connection_callback_` in the
disconnected state, and no `message_callback_` behind it. -/
def ClosedOnce (c : Nat) (r : Reactor) : Prop :=
  r.log.count (.closed c) ≤ 1 ∧ r.log.count (.connectionDown c) ≤ 1 ∧
    ¬[Event.connectionDown c, .message c].Sublist r.log

/-- A channel dispatches to a connection whose `HandleClose` has run. -/
def Revisits (c : Nat) (r : Reactor) (action : Action) : Prop :=
  dispatched r action = some c ∧ .connectionDown c ∈ r.log

def Frame.isDown (c : Nat) : Frame → Bool
  | .connectionDown d => d = c
  | _ => false

def downs (c : Nat) (r : Reactor) : Nat := r.frames.countP (Frame.isDown c)

def Stays (r next : Reactor) : Prop :=
  ∀ c, (r.conns c).state = .kDisConnected → (next.conns c).state = .kDisConnected

structure Quiet (r next : Reactor) : Prop where
  log : next.log = r.log
  downs : ∀ c, downs c next = downs c r
  stays : Stays r next

theorem Quiet.refl (r : Reactor) : Quiet r r := ⟨rfl, fun _ => rfl, fun _ => id⟩

theorem Quiet.trans {r middle next : Reactor} (first : Quiet r middle)
    (second : Quiet middle next) :
    Quiet r next where
  log := second.log.trans first.log
  downs c := (second.downs c).trans (first.downs c)
  stays c gone := second.stays c (first.stays c gone)

theorem set_quiet (r : Reactor) (d : Nat) (conn : TcpConnection)
    (stays : (r.conns d).state = .kDisConnected → conn.state = .kDisConnected) :
    Quiet r (r.set d conn) where
  log := rfl
  downs _ := rfl
  stays c gone := by
    by_cases same : c = d
    · subst same
      simpa [Reactor.set] using stays gone
    · simpa [Reactor.set, same] using gone

theorem enter_quiet (r : Reactor) (frame : Frame) (other : ∀ c, frame.isDown c = false) :
    Quiet r (r.enter frame) where
  log := rfl
  downs c := by simp [downs, Reactor.enter, other]
  stays _ := id

theorem growOutput_quiet {r next : Reactor} {d : Nat} {source : Source}
    (grown : ((r.conns d).growOutput source.grow).map (r.set d) = some next) : Quiet r next := by
  rcases Option.map_eq_some_iff.mp grown with ⟨conn, ran, rfl⟩
  apply set_quiet
  rw [(growOutput_frame ran).1]
  exact id

theorem queue_quiet {r next : Reactor} {d added : Nat} {source : Source}
    (queued : r.queue d added source = some next) : Quiet r next := by
  unfold Reactor.queue at queued
  split at queued
  · cases queued
    exact enter_quiet r _ fun _ => rfl
  · exact growOutput_quiet queued

theorem sendInLoop_quiet {r next : Reactor} {d : Nat} {payload : Payload} {result : IoResult}
    (sent : r.sendInLoop d payload result = some next) : Quiet r next := by
  unfold Reactor.sendInLoop at sent
  split at sent
  · cases sent
    exact Quiet.refl r
  · cases payload with
    | buffer buf => exact queue_quiet sent
    | block m =>
        rcases Option.bind_eq_some_iff.mp sent with ⟨⟨conn, written, remaining⟩, wrote, finished⟩
        have first : Quiet r (r.set d conn) := by
          apply set_quiet
          rw [(directWrite_frame wrote).1]
          exact id
        dsimp only at finished
        split at finished
        · exact first.trans (queue_quiet finished)
        · cases finished
          split
          · exact first.trans (enter_quiet _ _ fun _ => rfl)
          · exact first

theorem handleWrite_quiet {r next : Reactor} {d : Nat} {result : IoResult}
    (wrote : r.handleWrite d result = some next) : Quiet r next := by
  unfold Reactor.handleWrite at wrote
  split at wrote
  · rename_i writing
    rcases Option.bind_eq_some_iff.mp wrote with ⟨⟨conn, drained⟩, ran, finished⟩
    cases finished
    have first : Quiet r (r.set d conn) := by
      apply set_quiet
      rw [(drainOutput_frame writing ran).1]
      exact id
    split
    · exact first.trans (enter_quiet _ _ fun _ => rfl)
    · exact first
  · cases wrote
    exact Quiet.refl r

structure Closes (d : Nat) (r next : Reactor) : Prop where
  log : next.log = r.log ++ [.connectionDown d]
  downs : ∀ c, downs c next = downs c r + if d = c then 1 else 0
  stays : Stays r next
  gone : (next.conns d).state = .kDisConnected

theorem handleClose_closes (r : Reactor) (d : Nat) : Closes d r (r.handleClose d) where
  log := rfl
  downs c := by
    simp only [downs, Reactor.handleClose, Reactor.enter, Reactor.note, Reactor.set,
      List.countP_cons, Frame.isDown, decide_eq_true_eq]
  stays := (set_quiet r d (r.conns d).disconnect fun _ => rfl).stays
  gone := by simp [Reactor.handleClose, Reactor.enter, Reactor.note, Reactor.set, disconnect]

theorem Quiet.closes {d : Nat} {r middle next : Reactor} (first : Quiet r middle)
    (second : Closes d middle next) : Closes d r next where
  log := first.log ▸ second.log
  downs c := first.downs c ▸ second.downs c
  stays c gone := second.stays c (first.stays c gone)
  gone := second.gone

inductive Effect (r : Reactor) (action : Action) (next : Reactor) : Prop where
  | quiet (silent : dispatched r action = none) (same : Quiet r next)
  -- `ForceCloseInLoop` has looked at `state_`
  | forced (d : Nat) (silent : dispatched r action = none)
      (connected : (r.conns d).state ≠ .kDisConnected) (closes : Closes d r next)
  -- the channel has not
  | close (d : Nat) (sent : dispatched r action = some d) (closes : Closes d r next)
  | message (d : Nat) (sent : dispatched r action = some d)
      (log : next.log = r.log ++ [.message d]) (downs : ∀ c, downs c next = downs c r)
      (stays : Stays r next)
  | closed (d : Nat) (silent : dispatched r action = none)
      (log : next.log = r.log ++ [.closed d])
      (downs : ∀ c, downs c r = downs c next + if d = c then 1 else 0) (stays : Stays r next)

theorem set_effect {r : Reactor} {action : Action} (d : Nat) {conn : TcpConnection}
    (silent : dispatched r action = none)
    (stays : (r.conns d).state = .kDisConnected → conn.state = .kDisConnected) :
    Effect r action (r.set d conn) :=
  .quiet silent (set_quiet r d conn stays)

theorem call_effect {r next : Reactor} {action : Action} (what : Call)
    (silent : dispatched r action = none) (called : r.call what = some next) :
    Effect r action next := by
  cases what with
  | forceClose d =>
      cases called
      unfold Reactor.forceCloseInLoop
      split
      · rename_i connected
        apply Effect.forced d silent _ (handleClose_closes r d)
        rcases connected with same | same <;> rw [same] <;> decide
      · exact .quiet silent (Quiet.refl r)
  | send d payload result =>
      simp only [Reactor.call] at called
      split at called
      · exact .quiet silent (sendInLoop_quiet called)
      · cases called
        exact .quiet silent (Quiet.refl r)
  | shutDown d =>
      cases called
      unfold Reactor.shutDown
      split
      · rename_i connected
        apply set_effect d silent
        rw [connected]
        intro impossible
        cases impossible
      · exact .quiet silent (Quiet.refl r)
  | startRead d =>
      cases called
      apply set_effect d silent
      unfold startReadInLoop
      split <;> exact id
  | stopRead d =>
      cases called
      apply set_effect d silent
      unfold stopReadInLoop
      split <;> exact id
  | establishConnection d =>
      simp only [Reactor.call, Reactor.establishConnection] at called
      split at called
      · rename_i connecting
        cases called
        apply Effect.quiet silent
        refine Quiet.trans (set_quiet r d _ ?_) (enter_quiet _ _ fun _ => rfl)
        rw [connecting]
        intro impossible
        cases impossible
      · cases called
  | destroyConnection d =>
      cases called
      apply set_effect d silent
      intro gone
      simp [destroyConnection, gone]

theorem functor_effect {r next : Reactor} {action : Action} {what : Call}
    (silent : dispatched r action = none) (ran : r.functor what = some next) :
    Effect r action next := by
  cases what with
  | send d payload result => exact .quiet silent (sendInLoop_quiet ran)
  | shutDown d =>
      cases ran
      apply set_effect d silent
      unfold shutDownInLoop
      split <;> exact id
  | forceClose d => exact call_effect (.forceClose d) silent ran
  | startRead d => exact call_effect (.startRead d) silent ran
  | stopRead d => exact call_effect (.stopRead d) silent ran
  | establishConnection d => exact call_effect (.establishConnection d) silent ran
  | destroyConnection d => exact call_effect (.destroyConnection d) silent ran

theorem frames_quiet {r : Reactor} (phase : Phase) (frames : List Frame)
    (same : ∀ c, frames.countP (Frame.isDown c) = r.frames.countP (Frame.isDown c)) :
    Quiet r { r with phase := phase, frames := frames } :=
  ⟨rfl, same, fun _ => id⟩

theorem callbackReturn_effect {r next : Reactor} (returned : r.callbackReturn = some next) :
    Effect r .callbackReturn next := by
  unfold Reactor.callbackReturn at returned
  split at returned
  case h_1 =>
    rename_i d rest frames
    cases returned
    refine .closed d rfl rfl ?_ fun _ => id
    intro c
    simp [downs, frames, List.countP_cons, Frame.isDown]
  case h_2 =>
    rename_i d rest frames
    cases returned
    refine .quiet rfl (Quiet.trans (frames_quiet r.phase rest ?_) (set_quiet _ d _ ?_))
    · simp [frames, Frame.isDown]
    · change (r.conns d).state = _ → _
      rw [(finishWrite_frame (r.conns d)).1]
      exact id
  case h_3 =>
    rename_i d source rest frames
    refine .quiet rfl (Quiet.trans (frames_quiet r.phase rest ?_) (growOutput_quiet returned))
    simp [frames, Frame.isDown]
  case h_4 | h_5 | h_6 | h_7 | h_8 =>
    rename_i rest frames
    cases returned
    exact .quiet rfl (frames_quiet r.phase rest (by simp [frames, Frame.isDown]))
  case h_9 | h_10 => cases returned

theorem atStage_quiet {r : Reactor} {c : Nat} {revents : Mask} {stage next : Stage}
    {rest : List Frame} (frames : r.frames = .event c revents stage :: rest) :
    Quiet r (r.atStage c revents next rest) :=
  frames_quiet r.phase _ (by simp [frames, Frame.isDown])

theorem read_effect {r : Reactor} {result : IoResult} {c : Nat} {revents : Mask}
    {rest : List Frame} (frames : r.frames = .event c revents .read :: rest) :
    Effect r (.read result)
      (if readable revents then (r.atStage c revents .write rest).handleRead c result
        else r.atStage c revents .write rest) := by
  have advance : Quiet r (r.atStage c revents .write rest) := atStage_quiet frames
  by_cases wanted : readable revents = true
  · rw [if_pos wanted]
    cases result with
    | error errno => exact .quiet (by simp [dispatched, frames, delivers]) advance
    | count n =>
        cases n with
        | zero =>
            exact .close c (by simp [dispatched, frames, wanted, delivers])
              (advance.closes (handleClose_closes _ c))
        | succ n =>
            simp only [Reactor.handleRead]
            split
            · rename_i heard
              change (r.conns c).messageCallback = true at heard
              refine .message c (by simp [dispatched, frames, wanted, delivers, heard]) rfl ?_
                advance.stays
              intro other
              simp [downs, Reactor.enter, Reactor.note, Reactor.atStage, frames, Frame.isDown]
            · rename_i heard
              change ¬(r.conns c).messageCallback = true at heard
              exact .quiet (by simp [dispatched, frames, delivers, heard]) advance
  · rw [if_neg wanted]
    exact .quiet (by simp [dispatched, frames, wanted]) advance

theorem step_effect {r next : Reactor} {action : Action} (stepped : r.step action = some next) :
    Effect r action next := by
  cases step_stepped stepped with
  | poll watched => exact .quiet rfl (frames_quiet _ _ fun _ => rfl)
  | nextChannel phase idle =>
      exact .quiet rfl (frames_quiet _ _ fun _ => by simp [idle, Frame.isDown])
  | otherChannel phase idle =>
      exact .quiet rfl (frames_quiet _ _ fun _ => by simp [idle, Frame.isDown])
  | endHandling => exact .quiet rfl (frames_quiet _ _ fun _ => rfl)
  | error frames => exact .quiet rfl (atStage_quiet frames)
  | read frames => exact read_effect frames
  | write frames wrote => exact .quiet rfl ((atStage_quiet frames).trans (handleWrite_quiet wrote))
  | unwritable frames => exact .quiet rfl (atStage_quiet frames)
  | @hangup c revents rest frames =>
      have popped : Quiet r { r with frames := rest } :=
        frames_quiet r.phase rest (by simp [frames, Frame.isDown])
      by_cases hung : hungUp revents = true
      · rw [if_pos hung]
        exact .close c (by simp [dispatched, frames, hung])
          (popped.closes (handleClose_closes _ c))
      · rw [if_neg hung]
        exact .quiet (by simp [dispatched, frames, hung]) popped
  | callbackReturn returned => exact callbackReturn_effect returned
  | call called => exact call_effect _ rfl called
  | functor ran => exact functor_effect rfl ran
  | userFunctor => exact .quiet rfl (enter_quiet r .user fun _ => rfl)
  | endExecuting => exact .quiet rfl (frames_quiet _ _ fun _ => rfl)
  | @exchange d connected =>
      refine .quiet rfl (set_quiet r d _ ?_)
      rw [connected]
      intro impossible
      cases impossible
  | lateExchange late => exact .quiet rfl (Quiet.refl r)

/-- `close_callback_` follows `connection_callback_` in every `HandleClose`, and
a connection that was closed stays disconnected. -/
structure Inv (c : Nat) (r : Reactor) : Prop where
  balance : r.log.count (.closed c) + downs c r = r.log.count (.connectionDown c)
  gone : .connectionDown c ∈ r.log → (r.conns c).state = .kDisConnected

theorem pair_sublist_concat {α : Type} (first second last : α) (list : List α) :
    [first, second].Sublist (list ++ [last]) ↔
      [first, second].Sublist list ∨ second = last ∧ first ∈ list := by
  rw [← List.reverse_sublist, List.reverse_append, List.reverse_singleton, List.singleton_append,
    List.sublist_cons_iff, List.reverse_sublist]
  apply or_congr_right
  constructor
  · rintro ⟨rest, same, below⟩
    cases same
    exact ⟨rfl, List.mem_reverse.mp (List.singleton_sublist.mp below)⟩
  · rintro ⟨rfl, member⟩
    exact ⟨[first], rfl, List.singleton_sublist.mpr (List.mem_reverse.mpr member)⟩

theorem Closes.once {c d : Nat} {r next : Reactor} (closes : Closes d r next) :
    ClosedOnce c next ↔ ClosedOnce c r ∧ ¬(d = c ∧ .connectionDown c ∈ r.log) := by
  rw [ClosedOnce, ClosedOnce, closes.log, pair_sublist_concat]
  by_cases same : d = c
  · subst same
    by_cases before : Event.connectionDown d ∈ r.log
    · have counted := List.count_pos_iff.mpr before
      simp only [List.count_append, ne_eq, reduceCtorEq, not_false_eq_true, List.count_cons_of_ne,
        List.count_nil, Nat.add_zero, List.count_cons_self, before, and_true, or_false, and_self,
        not_true_eq_false, and_false, iff_false, not_and]
      omega
    · simp [before, List.count_eq_zero.mpr before]
  · simp [same]

theorem Closes.inv {c d : Nat} {r next : Reactor} (closes : Closes d r next) (inv : Inv c r) :
    Inv c next where
  balance := by
    rw [closes.log, closes.downs c, List.count_append, List.count_append, ← inv.balance]
    by_cases same : d = c
    · simp only [same, ne_eq, reduceCtorEq, not_false_eq_true, List.count_cons_of_ne,
        List.count_nil, Nat.add_zero, if_true, List.count_cons_self]
      omega
    · simp [same]
  gone member := by
    rw [closes.log] at member
    rcases List.mem_append.mp member with old | new
    · exact closes.stays c (inv.gone old)
    · cases List.mem_singleton.mp new
      exact closes.gone

theorem step_inv (c : Nat) (r : Reactor) (action : Action) (next : Reactor) (inv : Inv c r)
    (stepped : r.step action = some next) : Inv c next := by
  cases step_effect stepped with
  | quiet silent same =>
      constructor
      · rw [same.log, same.downs c]
        exact inv.balance
      · intro member
        rw [same.log] at member
        exact same.stays c (inv.gone member)
  | forced d silent connected closes => exact closes.inv inv
  | close d sent closes => exact closes.inv inv
  | message d sent log downs stays =>
      constructor
      · rw [log, downs c]
        simpa using inv.balance
      · intro member
        rw [log] at member
        apply stays c (inv.gone _)
        simpa using member
  | closed d silent log downs stays =>
      have balance := inv.balance
      rw [downs c] at balance
      constructor
      · rw [log]
        by_cases same : d = c
        · simp only [same, if_true, List.count_append, List.count_cons_self, List.count_nil, ne_eq,
            reduceCtorEq, not_false_eq_true, List.count_cons_of_ne, Nat.add_zero] at balance ⊢
          omega
        · simpa [same] using balance
      · intro member
        rw [log] at member
        apply stays c (inv.gone _)
        simpa using member

/-- The log never heals: a step keeps it right exactly when it was right and no
channel revisits a closed connection. -/
theorem step_once (c : Nat) (r : Reactor) (action : Action) (next : Reactor) (inv : Inv c r)
    (stepped : r.step action = some next) :
    ClosedOnce c next ↔ ClosedOnce c r ∧ ¬Revisits c r action := by
  cases step_effect stepped with
  | quiet silent same => simp [ClosedOnce, same.log, Revisits, silent]
  | forced d silent connected closes =>
      have fresh : ¬(d = c ∧ .connectionDown c ∈ r.log) := by
        rintro ⟨rfl, member⟩
        exact connected (inv.gone member)
      rw [closes.once]
      simp [fresh, Revisits, silent]
  | close d sent closes =>
      rw [closes.once]
      simp [Revisits, sent]
  | message d sent log downs stays =>
      rw [ClosedOnce, ClosedOnce, log, pair_sublist_concat]
      simp only [List.count_append, ne_eq, reduceCtorEq, not_false_eq_true, List.count_cons_of_ne,
        List.count_nil, Nat.add_zero, Event.message.injEq, not_or, not_and, Revisits, sent,
        Option.some.injEq]
      tauto
  | closed d silent log downs stays =>
      have balance := inv.balance
      rw [downs c] at balance
      rw [ClosedOnce, ClosedOnce, log, pair_sublist_concat]
      by_cases same : d = c
      · simp only [same, if_true] at balance
        simp only [same, List.count_append, List.count_cons_self, List.count_nil, ne_eq,
          reduceCtorEq, not_false_eq_true, List.count_cons_of_ne, Nat.add_zero, false_and, or_false,
          Revisits,
          silent, and_true, and_congr_left_iff, and_imp]
        omega
      · simp [same, Revisits, silent]

def start (conns : Nat → TcpConnection) : Reactor := ⟨conns, .polling, [], []⟩

/-- In every run, a connection is closed at most once and hears nothing after
that exactly as long as no channel dispatches data, end of file or a hangup to a
connection whose `HandleClose` has run. `ForceClose` from any callback, or from
any thread, never closes a connection twice. -/
theorem closed_once_iff_not_revisited (conns : Nat → TcpConnection) (c : Nat)
    (actions : List Action) (final : Reactor)
    (ran : run Reactor.step (start conns) actions = some final) :
    ClosedOnce c final ↔
      Along Reactor.step (fun r action => ¬Revisits c r action) (start conns) actions := by
  have empty : Inv c (start conns) := ⟨rfl, fun member => by cases member⟩
  have once : ClosedOnce c (start conns) := ⟨Nat.zero_le 1, Nat.zero_le 1, by simp [start]⟩
  rw [good_iff_along (step_inv c) (step_once c) empty ran]
  exact and_iff_right once

def connected : Nat → TcpConnection := fun _ => OutputStream.established.conn

/-- A message for connection 0, whose callback closes connection 0; the channel
was readable only. -/
def closeSelf : List Action :=
  [.poll [some (0, Channel.pollIn)], .nextChannel, .error, .read (.count 1),
    .call (.forceClose 0), .callbackReturn, .callbackReturn, .callbackReturn,
    .write (.count 0), .hangup, .endHandling, .endExecuting]

theorem close_self_is_once : ∃ final,
    run Reactor.step (start connected) closeSelf = some final ∧
      final.log = [.message 0, .connectionDown 0, .closed 0] ∧
      Along Reactor.step (fun r action => ¬Revisits 0 r action) (start connected) closeSelf :=
  ⟨_, rfl, rfl, (closed_once_iff_not_revisited connected 0 closeSelf _ rfl).mp
    ⟨by decide, by decide, by decide⟩⟩

/-- Both connections are readable; the message callback of connection 0 closes
connection 1, whose channel is still in the list. -/
def closeOther (answer : IoResult) : List Action :=
  [.poll [some (0, Channel.pollIn), some (1, Channel.pollIn)],
    .nextChannel, .error, .read (.count 1), .call (.forceClose 1),
    .callbackReturn, .callbackReturn, .callbackReturn, .write (.count 0), .hangup,
    .nextChannel, .error, .read answer, .callbackReturn]

/-- With end of file connection 1 is closed again, with data it hears a message
after it was closed. -/
theorem close_other_is_revisited :
    (∃ final, run Reactor.step (start connected) (closeOther (.count 0)) = some final ∧
      final.log = [.message 0, .connectionDown 1, .closed 1, .connectionDown 1, .closed 1] ∧
      ¬ClosedOnce 1 final) ∧
    ∃ final, run Reactor.step (start connected) (closeOther (.count 5)) = some final ∧
      final.log = [.message 0, .connectionDown 1, .closed 1, .message 1] ∧
      ¬ClosedOnce 1 final := by
  constructor
  · refine ⟨_, rfl, rfl, ?_⟩
    rintro ⟨once, -, -⟩
    exact absurd once (by decide)
  · refine ⟨_, rfl, rfl, ?_⟩
    rintro ⟨-, -, quiet⟩
    exact absurd quiet (by decide)

end Muzi.ConnectionClose
