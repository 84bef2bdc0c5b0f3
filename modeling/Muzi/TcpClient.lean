import Muzi.ConnectAttempts
import Muzi.TcpConnection

/-!
net/tcp_client.cc over its `Connector`. A connection goes by the number of its
socket. On the stack of the loop thread only the calls of `HandleClose` that are
in `connection_callback_` are kept: user code runs there and in the other
callbacks, and its calls are the steps that follow. Other threads store to
`to_connect_` and `connect_` and queue functors of the connector. `lock_` and
`condition_` are left to StopHandshake.lean.
-/

namespace Muzi

structure TcpClient where
  connector : Connector
  toConnect : Bool
  isRetry : Bool
  connection : Option Nat
  /-- `state_` of the connections made so far. -/
  states : Nat → ConnectionState
  closing : List Nat

namespace TcpClient

open Execution
open Connector (Errno)

def init : TcpClient where
  connector := .init true
  toConnect := false
  isRetry := false
  connection := none
  states _ := .kConnecting
  closing := []

def setState (c : TcpClient) (socket : Nat) (state : ConnectionState) : TcpClient :=
  { c with states := Function.update c.states socket state }

def newConnection (socket : Nat) (c : TcpClient) : TcpClient :=
  { c with connection := some socket }.setState socket .kConnected

/-- The connector's `HandleWrite`, whose `new_connection_callback_` is
`NewConnection`. -/
def handleWrite (err : Nat) (isSelfConnect : Bool) (c : TcpClient) : Option TcpClient :=
  (c.connector.handleWrite err isSelfConnect).map fun connector =>
    let handled : TcpClient := { c with connector := connector }
    match c.connector.channel with
    | some socket =>
        if c.connector.state = .kConnecting ∧ err = 0 ∧ isSelfConnect = false then
          handled.newConnection socket
        else handled
    | none => handled

/-- `RemoveConnection`. The `DestroyConnection` in it finds `kDisConnected`. -/
def removeConnection (errno : Errno) (socket : Nat) (c : TcpClient) : TcpClient :=
  let removed : TcpClient :=
    if c.connection = some socket then { c with connection := none } else c
  if c.toConnect && c.isRetry then
    { removed with connector := c.connector.reStartInLoop errno }
  else removed

def disConnect (c : TcpClient) : TcpClient :=
  let left : TcpClient := { c with toConnect := false }
  match c.connection with
  | some socket =>
      if c.states socket = .kConnected then left.setState socket .kDisConnecting else left
  | none => left

def disableConnectInLoop (c : TcpClient) : TcpClient := { c with toConnect := false }

inductive Action where
  -- in the loop thread; `DisConnect` in any
  | connect (errno : Errno)
  | disConnect
  | stop
  | enableRetry
  | disableConnectInLoop
  -- the connector's events
  | handleWrite (err : Nat) (isSelfConnect : Bool)
  | expire (timer : Nat)
  | fire (timer : Nat) (errno : Errno)
  | runFunctor (errno : Errno)
  -- a connection closes, and its `connection_callback_` returns
  | handleClose (socket : Nat)
  | callbackReturn (errno : Errno)
  -- `Connect` and `Stop` in other threads
  | storeToConnect (value : Bool)
  | storeConnect (value : Bool)
  | pushStart
  | pushStop

def lift (c : TcpClient) (action : Connector.Action) : Option TcpClient :=
  (c.connector.step action).map fun connector => { c with connector := connector }

/-- The loop comes to events and functors when no callback is open. -/
def step (c : TcpClient) : Action → Option TcpClient
  | .connect errno => { c with toConnect := true }.lift (.start errno)
  | .disConnect => some c.disConnect
  | .stop => { c with toConnect := false }.lift .stop
  | .enableRetry => some { c with isRetry := true }
  | .disableConnectInLoop => some c.disableConnectInLoop
  | .handleWrite err isSelfConnect =>
      if c.closing = [] then c.handleWrite err isSelfConnect else none
  | .expire timer => if c.closing = [] then c.lift (.expire timer) else none
  | .fire timer errno => if c.closing = [] then c.lift (.fire timer errno) else none
  | .runFunctor errno => if c.closing = [] then c.lift (.runFunctor errno) else none
  | .handleClose socket =>
      -- There is no event before `EstablishConnection`; the `assert` is for the debug build.
      if c.states socket = .kConnecting then none else
        some { c.setState socket .kDisConnected with closing := socket :: c.closing }
  | .callbackReturn errno =>
      match c.closing with
      | socket :: rest => some ({ c with closing := rest }.removeConnection errno socket)
      | [] => none
  | .storeToConnect value => some { c with toConnect := value }
  | .storeConnect value => c.lift (.storeConnect value)
  | .pushStart => c.lift .pushStart
  | .pushStop => c.lift .pushStop

/-- What the `assert` of `HandleClose` demands: it runs at most once on a connection. -/
def Asserted (c : TcpClient) : Action → Prop
  | .handleClose socket => c.states socket ≠ .kDisConnected
  | _ => True

instance (c : TcpClient) : ∀ action, Decidable (c.Asserted action)
  | .handleClose socket => inferInstanceAs (Decidable (c.states socket ≠ .kDisConnected))
  | .connect _ | .disConnect | .stop | .enableRetry | .disableConnectInLoop | .handleWrite _ _
  | .expire _ | .fire _ _ | .runFunctor _ | .callbackReturn _ | .storeToConnect _
  | .storeConnect _ | .pushStart | .pushStop => isTrue trivial

def Live (c : TcpClient) : Prop :=
  ∃ socket, c.connection = some socket ∧ c.states socket ≠ .kDisConnected

instance (c : TcpClient) : Decidable c.Live :=
  decidable_of_iff (∃ socket ∈ c.connection, c.states socket ≠ .kDisConnected) <| by
    simp [Live]

end TcpClient

namespace Connector

open Channel

instance (c : Connector) (socket : Nat) : Decidable (c.Held socket) :=
  inferInstanceAs (Decidable (_ ∧ _))

def Outstanding (c : Connector) : Prop := (∃ socket, c.Held socket) ∨ c.pending ≠ []

instance (c : Connector) : Decidable c.Outstanding :=
  decidable_of_iff ((∃ socket ∈ c.channel, c.Held socket) ∨ c.pending ≠ []) <| by
    refine or_congr ⟨fun ⟨socket, _, held⟩ => ⟨socket, held⟩, fun ⟨socket, held⟩ => ?_⟩ Iff.rfl
    exact ⟨socket, held.1, held⟩

theorem connectWith_outstanding {c : Connector} {errno : Errno} (sound : Sound c)
    (ready : c.connect = true ∧ c.state = .kDisConnected) (goesOn : errno.goesOn = true) :
    (c.connectWith errno).Outstanding := by
  cases proceeds : errno.proceeds with
  | true =>
      rw [connectWith_proceeds proceeds]
      obtain ⟨-, table, set⟩ := sound.connecting.held rfl c.created rfl
      exact .inl ⟨c.created, rfl, rfl, table, set⟩
  | false =>
      cases connectWith_attempted errno sound ready with
      | waits stays _ _ _ =>
          rw [proceeds] at stays
          cases stays
      | retries _ _ _ waiting expired _ =>
          refine .inr ?_
          rw [pending, waiting]
          simp
      | ends _ gives_up _ _ _ _ => simp [Errno.goesOn, proceeds, gives_up] at goesOn

/-- `Start` is answered exactly when it finds `kDisConnected`, or an attempt that
is under way anyway. -/
theorem start_served_iff {c next : Connector} {errno : Errno} (sound : Sound c)
    (stepped : c.step (.start errno) = some next) :
    next.Outstanding ∨ c.state = .kDisConnected ∧ errno.goesOn = false ↔
      c.state = .kDisConnected ∨ c.Outstanding := by
  cases stepped
  by_cases ready : c.state = .kDisConnected
  · refine iff_of_true ?_ (.inl ready)
    rw [startInLoop, if_pos ⟨rfl, ready⟩]
    have started : Sound { c with connect := true } :=
      sound.reframe (fun waits _ here => ⟨waits, here⟩) rfl
    cases goesOn : errno.goesOn with
    | true => exact .inl (connectWith_outstanding started ⟨rfl, ready⟩ goesOn)
    | false => exact .inr ⟨ready, rfl⟩
  · rw [startInLoop, if_neg fun attempts => ready attempts.2]
    constructor
    · rintro (outstanding | ⟨found, -⟩)
      · exact .inr outstanding
      · exact absurd found ready
    · rintro (found | outstanding)
      · exact absurd found ready
      · exact .inl outstanding

end Connector

namespace TcpClient

open Execution
open Connector (Errno Sound)

theorem lift_sound {c next : TcpClient} {action : Connector.Action} (sound : Sound c.connector)
    (lifted : c.lift action = some next) : Sound next.connector := by
  obtain ⟨connector, stepped, rfl⟩ := Option.map_eq_some_iff.mp lifted
  exact Connector.step_sound sound stepped

theorem handleWrite_connector {c next : TcpClient} {err : Nat} {isSelfConnect : Bool}
    (handled : c.handleWrite err isSelfConnect = some next) :
    c.connector.handleWrite err isSelfConnect = some next.connector := by
  obtain ⟨connector, stepped, rfl⟩ := Option.map_eq_some_iff.mp handled
  rw [stepped]
  dsimp only
  split
  · split <;> rfl
  · rfl

theorem removeConnection_sound {c : TcpClient} (sound : Sound c.connector) (errno : Errno)
    (socket : Nat) : Sound (c.removeConnection errno socket).connector := by
  unfold removeConnection
  dsimp only
  split
  · have restarted : c.connector.step (.reStartInLoop errno) =
        some (c.connector.reStartInLoop errno) := rfl
    exact Connector.step_sound sound restarted
  · split <;> exact sound

theorem step_sound {c next : TcpClient} {action : Action} (sound : Sound c.connector)
    (stepped : c.step action = some next) : Sound next.connector := by
  cases action with
  | connect errno =>
      have ready : Sound { c with toConnect := true }.connector := sound
      exact lift_sound ready stepped
  | disConnect =>
      cases stepped
      unfold disConnect
      dsimp only
      split
      · split <;> exact sound
      · exact sound
  | stop =>
      have ready : Sound { c with toConnect := false }.connector := sound
      exact lift_sound ready stepped
  | enableRetry =>
      cases stepped
      exact sound
  | disableConnectInLoop =>
      cases stepped
      exact sound
  | handleWrite err isSelfConnect =>
      obtain ⟨-, handled⟩ := Option.ite_none_right_eq_some.mp stepped
      exact Connector.handleWrite_sound sound (handleWrite_connector handled)
  | expire timer =>
      obtain ⟨-, lifted⟩ := Option.ite_none_right_eq_some.mp stepped
      exact lift_sound sound lifted
  | fire timer errno =>
      obtain ⟨-, lifted⟩ := Option.ite_none_right_eq_some.mp stepped
      exact lift_sound sound lifted
  | runFunctor errno =>
      obtain ⟨-, lifted⟩ := Option.ite_none_right_eq_some.mp stepped
      exact lift_sound sound lifted
  | handleClose socket =>
      obtain ⟨-, closed⟩ := Option.ite_none_left_eq_some.mp stepped
      cases closed
      exact sound
  | callbackReturn errno =>
      simp only [step] at stepped
      split at stepped
      · rename_i socket rest _
        cases stepped
        have ready : Sound { c with closing := rest }.connector := sound
        exact removeConnection_sound ready errno socket
      · cases stepped
  | storeToConnect value =>
      cases stepped
      exact sound
  | storeConnect value => exact lift_sound sound stepped
  | pushStart => exact lift_sound sound stepped
  | pushStop => exact lift_sound sound stepped

/-- `Connect` without a live connection leaves an attempt behind, unless `errno`
rules out another. -/
def Served (c : TcpClient) : Action → Prop
  | .connect errno => ¬c.Live → ∀ next, c.step (.connect errno) = some next →
      next.connector.Outstanding ∨ c.connector.state = .kDisConnected ∧ errno.goesOn = false
  | _ => True

/-- `Connect` without a live connection finds the connector in `kDisConnected`,
or with an attempt under way. -/
def Ready (c : TcpClient) : Action → Prop
  | .connect _ => ¬c.Live → c.connector.state = .kDisConnected ∨ c.connector.Outstanding
  | _ => True

instance (c : TcpClient) (action : Action) : Decidable (c.Ready action) :=
  match action with
  | .connect _ => inferInstanceAs (Decidable (_ → _))
  | .disConnect | .stop | .enableRetry | .disableConnectInLoop | .handleWrite _ _ | .expire _
  | .fire _ _ | .runFunctor _ | .handleClose _ | .callbackReturn _ | .storeToConnect _
  | .storeConnect _ | .pushStart | .pushStop => isTrue trivial

theorem served_iff_ready {c : TcpClient} (sound : Sound c.connector) (action : Action) :
    c.Served action ↔ c.Ready action := by
  cases action with
  | connect errno =>
      have started : c.step (.connect errno) = some { c with
          toConnect := true,
          connector := { c.connector with connect := true }.startInLoop errno } := rfl
      refine forall_congr' fun _ => ?_
      simp only [started, Option.some.injEq, forall_eq']
      exact Connector.start_served_iff sound rfl
  | _ => exact Iff.rfl

/-- In a run of the client every `Connect` without a live connection is answered
exactly when each finds the connector ready for it. -/
theorem connect_served_iff_ready (actions : List Action) :
    Along step Served init actions ↔ Along step Ready init actions :=
  along_congr (fun c => Sound c.connector) (fun _ _ _ sound _ moved => step_sound sound moved)
    (fun _ action sound => served_iff_ready sound action) (Connector.init_sound true) actions

def closedByPeer : List Action :=
  [.connect .eInProgress, .handleWrite 0 false, .runFunctor .success, .handleClose 0,
    .callbackReturn .success]

theorem connect_ignored_after_close : ∃ c next, run step init closedByPeer = some c ∧ ¬c.Live ∧
    c.step (.connect .eInProgress) = some next ∧ ¬next.connector.Outstanding ∧
    next.connector.created = c.connector.created := by
  exact ⟨_, _, rfl, by decide, rfl, by decide, rfl⟩

end TcpClient

end Muzi
