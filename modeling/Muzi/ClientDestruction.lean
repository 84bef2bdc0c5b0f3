import Muzi.TcpClient

/-!
`~TcpClient` in the loop thread, at any moment: between two events, or in user code of a
callback. The connector and the connection outlive the client, with timers, functors and
callbacks of their own. `called` notes every call of a member of the client behind its
destructor.
-/

namespace Muzi.TcpClient

open Execution
open Connector (Errno)

def Attached (c : TcpClient) (socket : Nat) : Prop :=
  c.states socket = .kConnected ∨ c.states socket = .kDisConnecting ∨ socket ∈ c.closing

/-- There is one connection at most that can come back to the client, and it is `connection_`. -/
structure Single (c : TcpClient) : Prop where
  attached : ∀ socket, Attached c socket →
    c.connection = some socket ∧ c.connector.state = .kConnected
  closed : ∀ socket ∈ c.closing, c.states socket = .kDisConnected
  nodup : c.closing.Nodup

theorem init_single : Single init where
  attached socket attached := by
    rcases attached with wrong | wrong | wrong <;> cases wrong
  closed _ member := absurd member List.not_mem_nil
  nodup := List.nodup_nil

end Muzi.TcpClient

namespace Muzi.Connector

theorem startInLoop_stays {c : Connector} (connected : c.state = .kConnected) (errno : Errno) :
    c.startInLoop errno = c := by
  rw [startInLoop, if_neg]
  rintro ⟨-, disConnected⟩
  cases connected.symm.trans disConnected

theorem stopInLoop_stays {c next : Connector} (connected : c.state = .kConnected)
    (stopped : c.stopInLoop = some next) : next = c.cancelTimer := by
  rw [stopInLoop, if_neg] at stopped
  · exact (Option.some.inj stopped).symm
  · rintro ⟨-, connecting⟩
    cases connected.symm.trans connecting

theorem step_stays {c next : Connector} {action : Action} (connected : c.state = .kConnected)
    (other : action.reStarts = false) (stepped : c.step action = some next) :
    next.state = .kConnected := by
  cases action with
  | start errno =>
      cases stepped
      rw [startInLoop_stays (c := { c with connect := true }) connected errno]
      exact connected
  | stop =>
      rw [stopInLoop_stays (c := { c with connect := false }) connected stepped]
      exact connected
  | reStartInLoop errno => cases other
  | handleWrite err isSelfConnect =>
      simp only [step, handleWrite, connected] at stepped
      cases stepped
      exact connected
  | expire timer =>
      obtain ⟨-, ran⟩ := Option.ite_none_right_eq_some.mp stepped
      cases ran
      exact connected
  | fire timer errno =>
      obtain ⟨-, ran⟩ := Option.ite_none_right_eq_some.mp stepped
      cases ran
      rw [startInLoop_stays (c := { c with expired := c.expired.erase timer }) connected errno]
      exact connected
  | runFunctor errno =>
      simp only [step] at stepped
      split at stepped
      · cases stepped
      · cases stepped
        exact connected
      · rename_i rest _
        cases stepped
        rw [startInLoop_stays (c := { c with functors := rest }) connected errno]
        exact connected
      · rename_i rest _
        rw [stopInLoop_stays (c := { c with functors := rest }) connected stepped]
        exact connected
  | storeConnect | pushStart | pushStop =>
      cases stepped
      exact connected

theorem handleWrite_connected {c next : Connector} (connecting : c.state = .kConnecting)
    (handled : c.handleWrite 0 false = some next) : next.state = .kConnected := by
  rw [handleWrite, if_pos connecting] at handled
  obtain ⟨⟨id, removed⟩, -, rfl⟩ := Option.map_eq_some_iff.mp handled
  dsimp only
  rw [if_neg (by decide), if_neg (by decide)]
  split <;> rfl

end Muzi.Connector

namespace Muzi.TcpClient

open Execution
open Connector (Errno)

section Steps
variable {c next : TcpClient}

theorem single_of_none (none : ∀ socket, ¬Attached c socket) : Single c where
  attached socket attached := absurd attached (none socket)
  closed socket member := absurd (.inr (.inr member)) (none socket)
  nodup := by
    cases closing : c.closing with
    | nil => exact List.nodup_nil
    | cons socket rest =>
        refine absurd (.inr (.inr ?_)) (none socket)
        rw [closing]
        exact List.mem_cons_self

theorem Single.reconnector (single : Single c) {connector : Connector}
    (stays : c.connector.state = .kConnected → connector.state = .kConnected) :
    Single { c with connector := connector } where
  attached socket attached := by
    obtain ⟨here, connected⟩ := single.attached socket attached
    exact ⟨here, stays connected⟩
  closed := single.closed
  nodup := single.nodup

theorem Single.lift (single : Single c) {action : Connector.Action}
    (other : action.reStarts = false) (lifted : c.lift action = some next) : Single next := by
  obtain ⟨connector, stepped, rfl⟩ := Option.map_eq_some_iff.mp lifted
  exact single.reconnector fun connected => Connector.step_stays connected other stepped

theorem Single.storeToConnect (single : Single c) (value : Bool) :
    Single { c with toConnect := value } := ⟨single.attached, single.closed, single.nodup⟩

theorem disConnect_single (single : Single c) : Single c.disConnect := by
  unfold disConnect
  dsimp only
  split
  · rename_i socket here
    split
    · rename_i connected
      have attached (other : Nat) (now : Attached
          ({ c with toConnect := false }.setState socket .kDisConnecting) other) :
          Attached c other := by
        by_cases same : other = socket
        · exact .inl (same ▸ connected)
        · simpa [Attached, setState, same] using now
      refine ⟨fun other now => single.attached other (attached other now), fun other member => ?_,
        single.nodup⟩
      have closed := single.closed other member
      by_cases same : other = socket
      · subst same
        cases closed.symm.trans connected
      · simpa [setState, same] using closed
    · exact single.storeToConnect false
  · exact single.storeToConnect false

theorem handleWrite_cases {err : Nat} {isSelfConnect : Bool}
    (handled : c.handleWrite err isSelfConnect = some next) :
    ∃ connector, c.connector.handleWrite err isSelfConnect = some connector ∧
      (next = { c with connector := connector } ∨
        ∃ socket, c.connector.state = .kConnecting ∧ connector.state = .kConnected ∧
          next = { c with connector := connector }.newConnection socket) := by
  obtain ⟨connector, ran, rfl⟩ := Option.map_eq_some_iff.mp handled
  refine ⟨connector, ran, ?_⟩
  dsimp only
  split
  · rename_i socket _
    split
    · rename_i established
      obtain ⟨connecting, rfl, rfl⟩ := established
      exact .inr ⟨socket, connecting, Connector.handleWrite_connected connecting ran, rfl⟩
    · exact .inl rfl
  · exact .inl rfl

theorem handleWrite_single {err : Nat} {isSelfConnect : Bool} (single : Single c)
    (idle : c.closing = []) (handled : c.handleWrite err isSelfConnect = some next) :
    Single next := by
  obtain ⟨connector, ran, rfl | ⟨socket, connecting, connected, rfl⟩⟩ := handleWrite_cases handled
  · have stepped : c.connector.step (.handleWrite err isSelfConnect) = some connector := ran
    exact single.reconnector fun connected => Connector.step_stays connected rfl stepped
  · have none (other : Nat) : ¬Attached c other := fun attached => by
      cases connecting.symm.trans (single.attached other attached).2
    refine ⟨fun other attached => ?_, fun other member => ?_, ?_⟩
    · by_cases same : other = socket
      · subst same
        exact ⟨rfl, connected⟩
      · refine absurd ?_ (none other)
        simpa [Attached, newConnection, setState, same] using attached
    · have old : other ∈ c.closing := member
      rw [idle] at old
      cases old
    · exact single.nodup

theorem up_of_asserted {socket : Nat} (established : c.states socket ≠ .kConnecting)
    (once : c.Asserted (.handleClose socket)) :
    c.states socket = .kConnected ∨ c.states socket = .kDisConnecting := by
  cases state : c.states socket with
  | kConnecting => exact absurd state established
  | kConnected => exact .inl rfl
  | kDisConnecting => exact .inr rfl
  | kDisConnected => exact absurd state once

theorem handleClose_single {socket : Nat} (single : Single c)
    (up : c.states socket = .kConnected ∨ c.states socket = .kDisConnecting) :
    Single { c.setState socket .kDisConnected with closing := socket :: c.closing } := by
  have here : Attached c socket := up.elim .inl fun down => .inr (.inl down)
  refine ⟨fun other attached => ?_, fun other member => ?_, ?_⟩
  · by_cases same : other = socket
    · exact single.attached other (same ▸ here)
    · refine single.attached other ?_
      simpa [Attached, setState, same] using attached
  · by_cases same : other = socket
    · simp [setState, same]
    · have old : other ∈ c.closing := (List.mem_cons.mp member).resolve_left same
      simpa [setState, same] using single.closed other old
  · refine List.nodup_cons.mpr ⟨fun member => ?_, single.nodup⟩
    have closed := single.closed socket member
    rcases up with up | up <;> cases closed.symm.trans up

theorem callbackReturn_none {socket : Nat} {rest : List Nat} (single : Single c)
    (closing : c.closing = socket :: rest) (other : Nat) :
    ¬Attached { c with closing := rest } other := by
  have first : socket ∈ c.closing := closing ▸ List.mem_cons_self
  have here := (single.attached socket (.inr (.inr first))).1
  have closed := single.closed socket first
  have apart : socket ∉ rest := (List.nodup_cons.mp (closing ▸ single.nodup)).1
  intro attached
  have before : Attached c other := by
    refine attached.imp id (.imp id fun member => ?_)
    rw [closing]
    exact List.mem_cons_of_mem _ member
  obtain rfl : socket = other :=
    Option.some.inj (here.symm.trans (single.attached other before).1)
  rcases attached with up | up | member
  · cases closed.symm.trans up
  · cases closed.symm.trans up
  · exact apart member

theorem removeConnection_frame (errno : Errno) (socket : Nat) (c : TcpClient) :
    (c.removeConnection errno socket).states = c.states ∧
      (c.removeConnection errno socket).closing = c.closing := by
  unfold removeConnection
  dsimp only
  split <;> split <;> exact ⟨rfl, rfl⟩

end Steps

theorem step_single (c : TcpClient) (action : Action) (next : TcpClient) (single : Single c)
    (once : c.Asserted action) (stepped : c.step action = some next) : Single next := by
  cases action with
  | connect errno => exact (single.storeToConnect true).lift rfl stepped
  | disConnect =>
      cases stepped
      exact disConnect_single single
  | stop => exact (single.storeToConnect false).lift rfl stepped
  | enableRetry =>
      cases stepped
      exact ⟨single.attached, single.closed, single.nodup⟩
  | disableConnectInLoop =>
      cases stepped
      exact single.storeToConnect false
  | handleWrite err isSelfConnect =>
      obtain ⟨idle, handled⟩ := Option.ite_none_right_eq_some.mp stepped
      exact handleWrite_single single idle handled
  | expire timer =>
      obtain ⟨-, lifted⟩ := Option.ite_none_right_eq_some.mp stepped
      exact single.lift rfl lifted
  | fire timer errno =>
      obtain ⟨-, lifted⟩ := Option.ite_none_right_eq_some.mp stepped
      exact single.lift rfl lifted
  | runFunctor errno =>
      obtain ⟨-, lifted⟩ := Option.ite_none_right_eq_some.mp stepped
      exact single.lift rfl lifted
  | handleClose socket =>
      obtain ⟨established, closed⟩ := Option.ite_none_left_eq_some.mp stepped
      cases closed
      exact handleClose_single single (up_of_asserted established once)
  | callbackReturn errno =>
      simp only [step] at stepped
      split at stepped
      · rename_i socket rest closing
        cases stepped
        obtain ⟨states, frames⟩ := removeConnection_frame errno socket { c with closing := rest }
        refine single_of_none fun other attached => callbackReturn_none single closing other ?_
        simpa only [Attached, states, frames] using attached
      · cases stepped
  | storeToConnect value =>
      cases stepped
      exact single.storeToConnect value
  | storeConnect value => exact single.lift rfl stepped
  | pushStart => exact single.lift rfl stepped
  | pushStop => exact single.lift rfl stepped

inductive Call where
  | newConnection (socket : Nat)
  | removeConnection (socket : Nat)

structure Destruction where
  client : TcpClient
  destroyed : Bool
  /-- The connections whose close callback is `DetachedRemoveConnection`. -/
  detached : List Nat
  /-- The members of the destroyed client that were called. -/
  called : List Call

namespace Destruction

inductive Action where
  | client (action : TcpClient.Action)
  -- `~TcpClient`
  | destroy

/-- The destructor: `DisableConnectAndWait`, `StopAndWait`, and the new close callback. -/
def destroy (d : Destruction) : Option Destruction :=
  let c := d.client.disableConnectInLoop
  { c.connector with connect := false }.stopInLoop.map fun connector =>
    { d with
      client := { c with connector := connector, connection := none }
      destroyed := true
      detached := c.connection.toList }

def outlive (d : Destruction) : TcpClient.Action → Option Destruction
  | .handleWrite err isSelfConnect =>
      if d.client.closing = [] then
        (d.client.connector.handleWrite err isSelfConnect).map fun connector =>
          { d with
            client := { d.client with connector := connector }
            called := d.called ++
              match d.client.connector.channel with
              | some socket =>
                  if d.client.connector.state = .kConnecting ∧ err = 0 ∧ isSelfConnect = false then
                    [.newConnection socket]
                  else []
              | none => [] }
      else none
  | .callbackReturn _ =>
      match d.client.closing with
      | socket :: rest =>
          some { d with
            client := { d.client with closing := rest }
            called := d.called ++
              if socket ∈ d.detached then [] else [.removeConnection socket] }
      | [] => none
  | .expire timer => (d.client.step (.expire timer)).map ({ d with client := · })
  | .fire timer errno => (d.client.step (.fire timer errno)).map ({ d with client := · })
  | .runFunctor errno => (d.client.step (.runFunctor errno)).map ({ d with client := · })
  | .handleClose socket => (d.client.step (.handleClose socket)).map ({ d with client := · })
  | _ => none

def step (d : Destruction) : Action → Option Destruction
  | .destroy => if d.destroyed then none else d.destroy
  | .client action =>
      if d.destroyed then d.outlive action
      else (d.client.step action).map ({ d with client := · })

def init : Destruction := ⟨TcpClient.init, false, [], []⟩

/-- `HandleClose` runs at most once on a connection. -/
def Asserted (d : Destruction) : Action → Prop
  | .client action => d.client.Asserted action
  | .destroy => True

instance (d : Destruction) : ∀ action, Decidable (d.Asserted action)
  | .client action => inferInstanceAs (Decidable (d.client.Asserted action))
  | .destroy => isTrue trivial

/-- Behind the destructor: no attempt is under way and none is to come, and who is attached is
detached from the client. -/
structure Quiet (d : Destruction) : Prop where
  stopped : Connector.Stopped d.client.connector
  detached : ∀ socket, Attached d.client socket → socket ∈ d.detached

structure Inv (d : Destruction) : Prop where
  before : d.destroyed = false → Single d.client
  behind : d.destroyed = true → Quiet d
  called : d.called = []

theorem init_inv : Inv init := ⟨fun _ => init_single, Bool.noConfusion, rfl⟩

theorem destroy_inv {d next : Destruction} (inv : Inv d) (alive : d.destroyed = false)
    (ended : d.destroy = some next) : Inv next := by
  obtain ⟨connector, stopped, rfl⟩ := Option.map_eq_some_iff.mp ended
  have rests := Connector.stopInLoop_rests rfl stopped
  refine ⟨Bool.noConfusion, fun _ => ⟨rests.stopped, fun socket attached => ?_⟩, inv.called⟩
  have here := ((inv.before alive).attached socket attached).1
  simp [disableConnectInLoop, here]

/-- Nothing comes back to the client: the connector rests, and no member is called. -/
structure Silent (d next : Destruction) : Prop where
  quiet : Quiet next
  destroyed : next.destroyed = d.destroyed
  called : next.called = d.called
  created : next.client.connector.created = d.client.connector.created

theorem lift_silent {d : Destruction} {c : TcpClient} {action : Connector.Action} (quiet : Quiet d)
    (idle : action.revives = false) (lifted : d.client.lift action = some c) :
    Silent d { d with client := c } := by
  obtain ⟨connector, stepped, rfl⟩ := Option.map_eq_some_iff.mp lifted
  have rests := quiet.stopped.step idle stepped
  exact ⟨⟨rests.stopped, quiet.detached⟩, rfl, rfl, rests.created⟩

theorem handleClose_silent {d : Destruction} {socket : Nat} {c : TcpClient} (quiet : Quiet d)
    (once : d.client.Asserted (.handleClose socket))
    (stepped : d.client.step (.handleClose socket) = some c) : Silent d { d with client := c } := by
  obtain ⟨established, closed⟩ := Option.ite_none_left_eq_some.mp stepped
  cases closed
  have up := up_of_asserted established once
  refine ⟨⟨quiet.stopped, fun other attached => ?_⟩, rfl, rfl, rfl⟩
  apply quiet.detached
  by_cases same : other = socket
  · subst same
    exact up.elim .inl fun down => .inr (.inl down)
  · simpa [Attached, setState, same] using attached

theorem outlive_silent {d next : Destruction} {action : TcpClient.Action} (quiet : Quiet d)
    (once : d.client.Asserted action) (outlived : d.outlive action = some next) :
    Silent d next := by
  cases action with
  | handleWrite err isSelfConnect =>
      obtain ⟨-, handled⟩ := Option.ite_none_right_eq_some.mp outlived
      obtain ⟨connector, ran, rfl⟩ := Option.map_eq_some_iff.mp handled
      have stepped : d.client.connector.step (.handleWrite err isSelfConnect) = some connector :=
        ran
      have rests := quiet.stopped.step rfl stepped
      refine ⟨⟨rests.stopped, quiet.detached⟩, rfl, ?_, rests.created⟩
      dsimp only
      split
      · rw [if_neg fun established => quiet.stopped.state established.1, List.append_nil]
      · exact List.append_nil _
  | callbackReturn errno =>
      simp only [outlive] at outlived
      split at outlived
      · rename_i socket rest closing
        cases outlived
        have first : socket ∈ d.client.closing := closing ▸ List.mem_cons_self
        refine ⟨⟨quiet.stopped, fun other attached => quiet.detached other ?_⟩, rfl, ?_, rfl⟩
        · refine attached.imp id (.imp id fun member => ?_)
          rw [closing]
          exact List.mem_cons_of_mem _ member
        · dsimp only
          rw [if_pos (quiet.detached socket (.inr (.inr first))), List.append_nil]
      · cases outlived
  | expire timer =>
      obtain ⟨c, stepped, rfl⟩ := Option.map_eq_some_iff.mp outlived
      obtain ⟨-, lifted⟩ := Option.ite_none_right_eq_some.mp stepped
      exact lift_silent quiet rfl lifted
  | fire timer errno =>
      obtain ⟨c, stepped, rfl⟩ := Option.map_eq_some_iff.mp outlived
      obtain ⟨-, lifted⟩ := Option.ite_none_right_eq_some.mp stepped
      exact lift_silent quiet rfl lifted
  | runFunctor errno =>
      obtain ⟨c, stepped, rfl⟩ := Option.map_eq_some_iff.mp outlived
      obtain ⟨-, lifted⟩ := Option.ite_none_right_eq_some.mp stepped
      exact lift_silent quiet rfl lifted
  | handleClose socket =>
      obtain ⟨c, stepped, rfl⟩ := Option.map_eq_some_iff.mp outlived
      exact handleClose_silent quiet once stepped
  | connect | disConnect | stop | enableRetry | disableConnectInLoop | storeToConnect
  | storeConnect | pushStart | pushStop => cases outlived

theorem step_inv (d : Destruction) (action : Action) (next : Destruction) (inv : Inv d)
    (once : d.Asserted action) (stepped : d.step action = some next) : Inv next := by
  cases action with
  | destroy =>
      obtain ⟨alive, ended⟩ := Option.ite_none_left_eq_some.mp stepped
      exact destroy_inv inv (by simpa using alive) ended
  | client action =>
      cases destroyed : d.destroyed with
      | false =>
          rw [step, destroyed] at stepped
          obtain ⟨c, moved, rfl⟩ := Option.map_eq_some_iff.mp stepped
          exact ⟨fun _ => step_single d.client action c (inv.before destroyed) once moved,
            Bool.noConfusion, inv.called⟩
      | true =>
          rw [step, destroyed] at stepped
          have silent := outlive_silent (inv.behind destroyed) once stepped
          exact ⟨fun alive => Bool.noConfusion
              ((silent.destroyed.trans destroyed).symm.trans alive),
            fun _ => silent.quiet, silent.called.trans inv.called⟩

theorem step_created {d next : Destruction} {action : Action} (inv : Inv d)
    (destroyed : d.destroyed = true) (once : d.Asserted action)
    (stepped : d.step action = some next) :
    next.destroyed = true ∧ next.client.connector.created = d.client.connector.created := by
  cases action with
  | destroy =>
      rw [step, destroyed] at stepped
      cases stepped
  | client action =>
      rw [step, destroyed] at stepped
      have silent := outlive_silent (inv.behind destroyed) once stepped
      exact ⟨silent.destroyed.trans destroyed, silent.created⟩

/-- The client is destroyed in `connection_callback_` of a close that asks for a retry. -/
def destroyedInCallback : List Action :=
  [.client .enableRetry, .client (.connect .eInProgress), .client (.handleWrite 0 false),
    .client (.runFunctor .success), .client (.handleClose 0), .destroy]

end Destruction

end Muzi.TcpClient
