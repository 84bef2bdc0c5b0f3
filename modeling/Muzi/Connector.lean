import Muzi.EpollPoller

/-!
net/connector.cc on its loop thread. A socket, its file descriptor and the
channel made for it go by one number, the place of the socket in the order of
creation. `functors` are the functors of the connector that the loop holds, in
the order in which they were pushed; `waiting` and `expired` are its retry
timers, of which `CancelTimer` finds only the waiting ones. `assert` is compiled
out. What the history notes is of the model only.
-/

namespace Muzi

namespace Connector

inductive State where
  | kDisConnected
  | kConnecting
  | kConnected
  deriving DecidableEq

inductive Task where
  | resetChannel
  | startInLoop
  | stopInLoop
  deriving DecidableEq

/-- What `connect` leaves in `errno`. -/
inductive Errno where
  | success
  | eInProgress
  | eIntr
  | eIsConn
  | eAgain
  | eAddrInUse
  | eAddrNotAvail
  | eConnRefused
  | eNetUnreach
  | eAcces
  | ePerm
  | eAfNoSupport
  | eAlready
  | eBadF
  | eFault
  | eNotSock
  | other (code : Nat)
  deriving DecidableEq

/-- How often a socket was closed, and handed to `new_connection_callback_`. -/
structure Socket where
  closes : Nat
  hands : Nat
  deriving DecidableEq

def kInitRetryDelayMs : Nat := 500
def kMaxRetryDelayMs : Nat := 30 * 1000

end Connector

structure Connector where
  connect : Bool
  state : Connector.State
  channel : Option Nat
  retryDelay : Nat
  timerId : Option Nat
  newConnectionCallback : Bool
  functors : List Connector.Task
  waiting : List Nat
  expired : List Nat
  nextTimer : Nat
  poller : EpollPoller.System
  created : Nat
  sockets : Nat → Connector.Socket
  /-- Whether `channel_` was null at each entry of `Connecting`. -/
  entered : List Bool
  /-- Whether the poller had let go of each channel that `ResetChannel` destroyed. -/
  destroyed : List Bool

namespace Connector

open Execution Channel
open EpollPoller (System)

def init (newConnectionCallback : Bool) : Connector where
  connect := false
  state := .kDisConnected
  channel := none
  retryDelay := kInitRetryDelayMs
  timerId := none
  newConnectionCallback := newConnectionCallback
  functors := []
  waiting := []
  expired := []
  nextTimer := 0
  poller := .init id
  created := 0
  sockets _ := ⟨0, 0⟩
  entered := []
  destroyed := []

def close (id : Nat) (c : Connector) : Connector :=
  { c with sockets :=
      Function.update c.sockets id { c.sockets id with closes := (c.sockets id).closes + 1 } }

def hand (id : Nat) (c : Connector) : Connector :=
  { c with sockets :=
      Function.update c.sockets id { c.sockets id with hands := (c.sockets id).hands + 1 } }

def retry (id : Nat) (c : Connector) : Connector :=
  let closed : Connector := { c.close id with state := .kDisConnected }
  if c.connect then
    { closed with
      timerId := some c.nextTimer
      waiting := c.waiting ++ [c.nextTimer]
      nextTimer := c.nextTimer + 1
      retryDelay := min (c.retryDelay * 2) kMaxRetryDelayMs }
  else closed

def connecting (id : Nat) (c : Connector) : Connector :=
  { c with
    state := .kConnecting
    channel := some id
    poller := c.poller.perform id .enableWritting
    entered := c.entered ++ [c.channel.isNone] }

def Errno.proceeds : Errno → Bool
  | .success | .eInProgress | .eIntr | .eIsConn => true
  | _ => false

def connectWith (errno : Errno) (c : Connector) : Connector :=
  let opened : Connector := { c with created := c.created + 1 }
  match errno with
  | .success | .eInProgress | .eIntr | .eIsConn => opened.connecting c.created
  | .eAgain | .eAddrInUse | .eAddrNotAvail | .eConnRefused | .eNetUnreach => opened.retry c.created
  | .eAcces | .ePerm | .eAfNoSupport | .eAlready | .eBadF | .eFault | .eNotSock =>
      opened.close c.created
  | .other _ => opened.close c.created

def startInLoop (errno : Errno) (c : Connector) : Connector :=
  if c.connect = true ∧ c.state = .kDisConnected then c.connectWith errno else c

def reStartInLoop (errno : Errno) (c : Connector) : Connector :=
  { c with connect := true, state := .kDisConnected, retryDelay := kInitRetryDelayMs }.startInLoop
    errno

/-- `DisableAll` and `Remove`, with the reset left to the loop. -/
def withdraw (id : Nat) (c : Connector) : Connector :=
  { c with
    poller := (c.poller.perform id .disableAll).perform id .remove
    functors := c.functors ++ [.resetChannel] }

def removeAndResetChannel (c : Connector) : Option (Nat × Connector) :=
  c.channel.map fun id => (id, c.withdraw id)

def resetChannel (c : Connector) : Connector :=
  { c with
    channel := none
    destroyed := c.destroyed ++
      (c.channel.map fun id => (c.poller.channels id).isNone).toList }

def cancelTimer (c : Connector) : Connector :=
  { c with waiting := c.timerId.elim c.waiting c.waiting.erase }

def stopInLoop (c : Connector) : Option Connector :=
  if c.connect = false ∧ c.state = .kConnecting then
    c.cancelTimer.removeAndResetChannel.map fun (id, removed) => removed.retry id
  else some c.cancelTimer

def handleWrite (err : Nat) (isSelfConnect : Bool) (c : Connector) : Option Connector :=
  if c.state = .kConnecting then
    c.removeAndResetChannel.map fun (id, removed) =>
      if err ≠ 0 then removed.retry id
      else if isSelfConnect then removed.retry id
      else
        let connected : Connector := { removed with state := .kConnected }
        if c.newConnectionCallback then connected.hand id else connected.close id
  else some c

/-- Steps of the loop thread, with what the kernel answers; and what other
threads do in `Start` and `Stop`. The callback of a new connection may call
anything: its calls are the steps that follow. -/
inductive Action where
  | start (errno : Errno)
  | stop
  | reStartInLoop (errno : Errno)
  | handleWrite (err : Nat) (isSelfConnect : Bool)
  | expire (timer : Nat)
  | fire (timer : Nat) (errno : Errno)
  | runFunctor (errno : Errno)
  | storeConnect (value : Bool)
  | pushStart
  | pushStop
  deriving DecidableEq

def step (c : Connector) : Action → Option Connector
  | .start errno => some ({ c with connect := true }.startInLoop errno)
  | .stop => { c with connect := false }.stopInLoop
  | .reStartInLoop errno => some (c.reStartInLoop errno)
  | .handleWrite err isSelfConnect => c.handleWrite err isSelfConnect
  | .expire timer =>
      if timer ∈ c.waiting then
        some { c with waiting := c.waiting.erase timer, expired := c.expired ++ [timer] }
      else none
  | .fire timer errno =>
      if timer ∈ c.expired then
        some ({ c with expired := c.expired.erase timer }.startInLoop errno)
      else none
  | .runFunctor errno =>
      match c.functors with
      | [] => none
      | .resetChannel :: rest => some { c with functors := rest }.resetChannel
      | .startInLoop :: rest => some ({ c with functors := rest }.startInLoop errno)
      | .stopInLoop :: rest => { c with functors := rest }.stopInLoop
  | .storeConnect value => some { c with connect := value }
  | .pushStart => some { c with functors := c.functors ++ [.startInLoop] }
  | .pushStop => some { c with functors := c.functors ++ [.stopInLoop] }

/-! Who has a socket. -/

def Held (c : Connector) (id : Nat) : Prop :=
  c.channel = some id ∧ c.state = .kConnecting ∧ c.poller.channels id = some id ∧
    c.poller.epoll id = some (kWriteEvent, id)

/-- Held, closed once or handed over once; and no two of these. -/
def Owned (c : Connector) (id : Nat) : Prop :=
  c.Held id ∧ c.sockets id = ⟨0, 0⟩ ∨
    ¬c.Held id ∧ (c.sockets id = ⟨1, 0⟩ ∨ c.sockets id = ⟨0, 1⟩)

structure Good (c : Connector) : Prop where
  entered : ∀ null ∈ c.entered, null = true
  destroyed : ∀ removed ∈ c.destroyed, removed = true
  owned : ∀ id < c.created, c.Owned id

def attempt (c : Connector) : Action → Option Errno
  | .start errno => if c.state = .kDisConnected then some errno else none
  | .reStartInLoop errno => some errno
  | .fire _ errno =>
      if c.connect = true ∧ c.state = .kDisConnected then some errno else none
  | .runFunctor errno =>
      if c.functors.head? = some .startInLoop ∧ c.connect = true ∧ c.state = .kDisConnected then
        some errno
      else none
  | _ => none

def Action.reStarts : Action → Bool
  | .reStartInLoop _ => true
  | _ => false

/-- `ReStartInLoop` finds no attempt under way, and no attempt begins to wait for
its connection while `ResetChannel` of an earlier one is in the queue. -/
def Clean (c : Connector) (action : Action) : Prop :=
  (action.reStarts = true → c.state ≠ .kConnecting) ∧
    ((c.attempt action).any Errno.proceeds = true → Task.resetChannel ∉ c.functors)

instance (c : Connector) (action : Action) : Decidable (c.Clean action) :=
  inferInstanceAs (Decidable (_ ∧ _))

/-! The poller under the connector. -/

section Poller
variable {p : System} {socket : Nat}

theorem enable_registers (consistent : p.Consistent id) (new : ¬p.Updated socket)
    (here : ¬p.Removed socket) :
    (p.perform socket .enableWritting).channels socket = some socket ∧
      (p.perform socket .enableWritting).epoll socket = some (kWriteEvent, socket) := by
  have after := consistent.perform Function.injective_id here .enableWritting
  have own := (consistent.stage socket).performed here .enableWritting
  have fd := after.fds socket
  have updated : (p.perform socket .enableWritting).Updated socket :=
    (System.perform_updated p socket .enableWritting socket).mpr (.inr ⟨rfl, by decide⟩)
  have stays : ¬(p.perform socket .enableWritting).Removed socket := by
    simp [System.perform_removed, here]
  have events : ((p.perform socket .enableWritting).objects socket).events = kWriteEvent := by
    have view := congrArg Channel.events own.view
    have none : (p.objects socket).events = kNoneEvent := by
      cases consistent.stage socket with
      | fresh index events table set new here => exact events
      | watched index table set old here => exact absurd old new
      | unwatched index events table set old here => exact absurd old new
      | gone table set left => exact absurd left here
    simpa [System.view, EpollPoller.Operation.apply, Channel.enableWritting, none, kNoneEvent]
      using view
  cases own.stage with
  | fresh index none table set fresh here => exact absurd updated fresh
  | watched index table set old here =>
      rw [fd] at table set
      rw [events] at set
      exact ⟨table, set⟩
  | unwatched index none table set old here =>
      rw [events] at none
      exact absurd none (by decide)
  | gone table set left => exact absurd left stays

theorem remove_lets_go (consistent : p.Consistent id) (here : ¬p.Removed socket) :
    ((p.perform socket .disableAll).perform socket .remove).Consistent id ∧
    ((p.perform socket .disableAll).perform socket .remove).Removed socket := by
  have idle : ¬(p.perform socket .disableAll).Removed socket := by
    simp [System.perform_removed, here]
  refine ⟨?_, ?_⟩
  · exact (consistent.perform Function.injective_id here .disableAll).perform
      Function.injective_id idle .remove
  · exact (System.perform_removed _ socket .remove socket).mpr (.inr ⟨rfl, rfl⟩)

theorem removed_channel (consistent : p.Consistent id) (removed : p.Removed socket) :
    p.channels socket = none := by
  have fd := consistent.fds socket
  cases consistent.stage socket with
  | fresh index events table set new here => exact absurd removed here
  | watched index table set old here => exact absurd removed here
  | unwatched index events table set old here => exact absurd removed here
  | gone table set left => rwa [fd] at table

theorem registered_here (consistent : p.Consistent id) (table : p.channels socket = some socket) :
    ¬p.Removed socket := by
  intro removed
  rw [removed_channel consistent removed] at table
  cases table
end Poller

/-! Between the steps. -/

def resets (c : Connector) : Nat := c.functors.count .resetChannel

def Idle (c : Connector) : Prop := c.channel = none ∧ c.state ≠ .kConnecting ∧ c.resets = 0

def Attempting (c : Connector) (socket : Nat) : Prop :=
  c.channel = some socket ∧ c.state = .kConnecting ∧ c.resets = 0 ∧
    c.poller.channels socket = some socket ∧ c.poller.epoll socket = some (kWriteEvent, socket)

/-- The channel is out of the poller and waits for its destruction. -/
def Resetting (c : Connector) (socket : Nat) : Prop :=
  c.channel = some socket ∧ c.state ≠ .kConnecting ∧ c.resets = 1 ∧ c.poller.Removed socket

def Settled (c : Connector) (socket : Nat) : Prop :=
  if c.channel = some socket ∧ c.state = .kConnecting then c.sockets socket = ⟨0, 0⟩
  else c.sockets socket = ⟨1, 0⟩ ∨ c.sockets socket = ⟨0, 1⟩

structure Inv (c : Connector) : Prop where
  poller : c.poller.Consistent id
  unseen : ∀ socket, c.created ≤ socket →
    ¬c.poller.Updated socket ∧ ¬c.poller.Removed socket ∧ c.sockets socket = ⟨0, 0⟩
  phase : c.Idle ∨ (∃ socket, c.Attempting socket) ∨ ∃ socket, c.Resetting socket
  bound : ∀ socket, c.channel = some socket → socket < c.created
  entered : ∀ null ∈ c.entered, null = true
  destroyed : ∀ removed ∈ c.destroyed, removed = true
  settled : ∀ socket < c.created, c.Settled socket

theorem init_inv (newConnectionCallback : Bool) : Inv (init newConnectionCallback) where
  poller := EpollPoller.System.init_consistent id
  unseen socket _ := by
    simp [init, EpollPoller.System.init, System.Updated, System.Removed]
  phase := .inl ⟨rfl, by simp [init], rfl⟩
  bound _ made := nomatch made
  entered := by simp [init]
  destroyed := by simp [init]
  settled _ inside := absurd inside (Nat.not_lt_zero _)

theorem Inv.attempting {c : Connector} (inv : Inv c) (state : c.state = .kConnecting) :
    ∃ socket, c.Attempting socket := by
  rcases inv.phase with idle | attempting | ⟨socket, resetting⟩
  · exact absurd state idle.2.1
  · exact attempting
  · exact absurd state resetting.2.1

theorem Inv.good {c : Connector} (inv : Inv c) : Good c where
  entered := inv.entered
  destroyed := inv.destroyed
  owned socket inside := by
    have settled := inv.settled socket inside
    unfold Settled at settled
    split at settled
    · rename_i here
      rcases inv.attempting here.2 with ⟨other, channel, state, -, table, set⟩
      cases here.1.symm.trans channel
      exact .inl ⟨⟨channel, state, table, set⟩, settled⟩
    · rename_i apart
      exact .inr ⟨fun held => apart ⟨held.1, held.2.1⟩, settled⟩

theorem Inv.ended {c next : Connector} (inv : Inv c) (before : c.state ≠ .kConnecting)
    (after : next.state ≠ .kConnecting)
    (sockets : next.sockets = Function.update c.sockets c.created ⟨1, 0⟩)
    (rest : next = { next with
      channel := c.channel, functors := c.functors, poller := c.poller, created := c.created + 1,
      entered := c.entered, destroyed := c.destroyed }) : Inv next := by
  have same : ∀ socket, socket ≠ c.created → next.sockets socket = c.sockets socket := by
    intro socket apart
    rw [sockets]
    exact Function.update_of_ne apart _ _
  rw [rest]
  refine ⟨inv.poller, fun socket outside => ?_, ?_, fun socket held => ?_, inv.entered,
    inv.destroyed, fun socket inside => ?_⟩
  · have unseen := inv.unseen socket (Nat.le_of_succ_le outside)
    refine ⟨unseen.1, unseen.2.1, ?_⟩
    rw [← unseen.2.2]
    exact same socket (Nat.ne_of_gt outside)
  · rcases inv.phase with idle | ⟨socket, attempting⟩ | ⟨socket, resetting⟩
    · exact .inl ⟨idle.1, after, idle.2.2⟩
    · exact absurd attempting.2.1 before
    · exact .inr (.inr ⟨socket, resetting.1, after, resetting.2.2⟩)
  · exact Nat.lt_succ_of_lt (inv.bound socket held)
  · unfold Settled
    rw [if_neg fun here => after here.2]
    dsimp only
    by_cases new : socket = c.created
    · left
      rw [sockets, new, Function.update_self]
    · have settled := inv.settled socket (Nat.lt_of_le_of_ne (Nat.le_of_lt_succ inside) new)
      rw [Settled, if_neg fun here => before here.2] at settled
      rwa [same socket new]

theorem Inv.begun {c : Connector} (inv : Inv c) (before : c.state ≠ .kConnecting)
    (none : c.resets = 0) :
    Inv ({ c with created := c.created + 1 }.connecting c.created) := by
  have idle : c.channel = .none := by
    rcases inv.phase with idle | ⟨socket, attempting⟩ | ⟨socket, resetting⟩
    · exact idle.1
    · exact absurd attempting.2.1 before
    · rw [resetting.2.2.1] at none
      cases none
  rcases inv.unseen c.created (Nat.le_refl _) with ⟨new, here, untouched⟩
  rcases enable_registers inv.poller new here with ⟨table, set⟩
  refine ⟨inv.poller.perform Function.injective_id here .enableWritting, ?_, ?_, ?_, ?_,
    inv.destroyed, ?_⟩
  · intro socket outside
    have apart : socket ≠ c.created := Nat.ne_of_gt outside
    rcases inv.unseen socket (Nat.le_of_succ_le outside) with ⟨new, here, untouched⟩
    refine ⟨?_, ?_, untouched⟩
    · simpa [connecting, System.perform_updated, apart] using new
    · simpa [connecting, System.perform_removed, apart] using here
  · exact .inr (.inl ⟨c.created, rfl, rfl, none, table, set⟩)
  · intro socket held
    cases held
    exact Nat.lt_succ_self _
  · intro null member
    rcases List.mem_append.mp member with old | new
    · exact inv.entered null old
    · rw [List.mem_singleton.mp new]
      simp [idle]
  · intro socket inside
    unfold Settled
    by_cases new : socket = c.created
    · rw [new, if_pos ⟨rfl, rfl⟩]
      exact untouched
    · have settled := inv.settled socket (Nat.lt_of_le_of_ne (Nat.le_of_lt_succ inside) new)
      rw [Settled, if_neg fun here => before here.2] at settled
      rw [if_neg fun here => new (Option.some.inj here.1).symm]
      exact settled

theorem Inv.left {c next : Connector} {socket : Nat} (inv : Inv c)
    (attempting : c.Attempting socket) (after : next.state ≠ .kConnecting)
    (sockets : next.sockets = Function.update c.sockets socket ⟨1, 0⟩ ∨
      next.sockets = Function.update c.sockets socket ⟨0, 1⟩)
    (rest : next = { next with
      channel := c.channel, functors := c.functors ++ [.resetChannel],
      poller := (c.poller.perform socket .disableAll).perform socket .remove,
      created := c.created, entered := c.entered, destroyed := c.destroyed }) : Inv next := by
  rcases attempting with ⟨channel, state, none, table, set⟩
  have inside := inv.bound socket channel
  rcases remove_lets_go inv.poller (registered_here inv.poller table) with ⟨consistent, removed⟩
  have same : ∀ other, other ≠ socket → next.sockets other = c.sockets other := by
    intro other apart
    rcases sockets with closed | handed
    · rw [closed, Function.update_of_ne apart]
    · rw [handed, Function.update_of_ne apart]
  rw [rest]
  refine ⟨consistent, ?_, ?_, inv.bound, inv.entered, inv.destroyed, ?_⟩
  · intro other outside
    have apart : other ≠ socket := Nat.ne_of_gt (Nat.lt_of_lt_of_le inside outside)
    rcases inv.unseen other outside with ⟨new, here, untouched⟩
    refine ⟨?_, ?_, (same other apart).trans untouched⟩
    · simpa [System.perform_updated, apart] using new
    · simpa [System.perform_removed, apart] using here
  · refine .inr (.inr ⟨socket, channel, after, ?_, removed⟩)
    unfold resets at none ⊢
    rw [List.count_append, none]
    rfl
  · intro other within
    unfold Settled
    rw [if_neg fun here => after here.2]
    dsimp only
    by_cases own : other = socket
    · rcases sockets with closed | handed
      · exact .inl (by rw [closed, own, Function.update_self])
      · exact .inr (by rw [handed, own, Function.update_self])
    · have settled := inv.settled other within
      rw [Settled, if_neg fun here => own (Option.some.inj (here.1.symm.trans channel))] at settled
      rwa [same other own]

theorem connectWith_inv {c : Connector} {errno : Errno} (inv : Inv c)
    (before : c.state ≠ .kConnecting) (clean : errno.proceeds = true → c.resets = 0) :
    Inv (c.connectWith errno) := by
  have untouched := (inv.unseen c.created (Nat.le_refl _)).2.2
  have closed : Inv ({ c with created := c.created + 1 }.close c.created) := by
    refine inv.ended before before ?_ rfl
    simp [close, untouched]
  have retried : Inv ({ c with created := c.created + 1 }.retry c.created) := by
    unfold retry
    dsimp only
    split
    · refine inv.ended before (by simp) ?_ rfl
      simp [close, untouched]
    · refine inv.ended before (by simp) ?_ rfl
      simp [close, untouched]
  cases errno with
  | success | eInProgress | eIntr | eIsConn => exact inv.begun before (clean rfl)
  | eAgain | eAddrInUse | eAddrNotAvail | eConnRefused | eNetUnreach => exact retried
  | eAcces | ePerm | eAfNoSupport | eAlready | eBadF | eFault | eNotSock => exact closed
  | other code => exact closed

theorem Inv.reframe {c next : Connector} (inv : Inv c) (resets : next.resets = c.resets)
    (state : next.state = c.state ∨ c.state ≠ .kConnecting ∧ next.state ≠ .kConnecting)
    (rest : next = { next with
      channel := c.channel, poller := c.poller, created := c.created, sockets := c.sockets,
      entered := c.entered, destroyed := c.destroyed }) : Inv next := by
  have stays : next.state = .kConnecting ↔ c.state = .kConnecting := by
    rcases state with same | ⟨before, after⟩
    · rw [same]
    · exact iff_of_false after before
  rw [rest] at resets ⊢
  refine ⟨inv.poller, inv.unseen, ?_, inv.bound, inv.entered, inv.destroyed, ?_⟩
  · rcases inv.phase with idle | ⟨socket, attempting⟩ | ⟨socket, resetting⟩
    · exact .inl ⟨idle.1, fun now => idle.2.1 (stays.mp now), resets.trans idle.2.2⟩
    · exact .inr (.inl ⟨socket, attempting.1, stays.mpr attempting.2.1,
        resets.trans attempting.2.2.1, attempting.2.2.2⟩)
    · exact .inr (.inr ⟨socket, resetting.1, fun now => resetting.2.1 (stays.mp now),
        resets.trans resetting.2.2.1, resetting.2.2.2⟩)
  · intro socket inside
    simpa only [Settled, stays] using inv.settled socket inside

theorem startInLoop_inv {c : Connector} {errno : Errno} (inv : Inv c)
    (clean : c.connect = true ∧ c.state = .kDisConnected → errno.proceeds = true →
      c.resets = 0) : Inv (c.startInLoop errno) := by
  unfold startInLoop
  split
  · rename_i attempts
    refine connectWith_inv inv ?_ (clean attempts)
    rw [attempts.2]
    decide
  · exact inv

theorem Attempting.removes {c : Connector} {socket : Nat} (attempting : c.Attempting socket) :
    c.removeAndResetChannel = some (socket, c.withdraw socket) := by
  rw [removeAndResetChannel, attempting.1, Option.map_some]

theorem Inv.untouched {c : Connector} {socket : Nat} (inv : Inv c)
    (attempting : c.Attempting socket) : c.sockets socket = ⟨0, 0⟩ := by
  have settled := inv.settled socket (inv.bound socket attempting.1)
  rwa [Settled, if_pos ⟨attempting.1, attempting.2.1⟩] at settled

theorem retry_inv {c : Connector} {socket : Nat} (inv : Inv c)
    (attempting : c.Attempting socket) : Inv ((c.withdraw socket).retry socket) := by
  have untouched := inv.untouched attempting
  unfold retry
  dsimp only
  split
  · refine inv.left attempting (by simp) (.inl ?_) rfl
    simp [withdraw, close, untouched]
  · refine inv.left attempting (by simp) (.inl ?_) rfl
    simp [withdraw, close, untouched]

theorem stopInLoop_inv {c next : Connector} (inv : Inv c) (stopped : c.stopInLoop = some next) :
    Inv next := by
  have cancelled : Inv c.cancelTimer := inv.reframe rfl (.inl rfl) rfl
  unfold stopInLoop at stopped
  split at stopped
  · rename_i waits
    rcases cancelled.attempting waits.2 with ⟨socket, attempting⟩
    rw [attempting.removes] at stopped
    cases stopped
    exact retry_inv cancelled attempting
  · cases stopped
    exact cancelled

theorem handleWrite_inv {c next : Connector} {err : Nat} {isSelfConnect : Bool} (inv : Inv c)
    (handled : c.handleWrite err isSelfConnect = some next) : Inv next := by
  unfold handleWrite at handled
  split at handled
  · rename_i waits
    rcases inv.attempting waits with ⟨socket, attempting⟩
    have untouched := inv.untouched attempting
    rw [attempting.removes] at handled
    simp only [Option.map_some, Option.some.injEq] at handled
    subst handled
    split
    · exact retry_inv inv attempting
    · split
      · exact retry_inv inv attempting
      · split
        · refine inv.left attempting (by simp [hand]) (.inr ?_) rfl
          simp [withdraw, hand, untouched]
        · refine inv.left attempting (by simp [close]) (.inl ?_) rfl
          simp [withdraw, close, untouched]
  · cases handled
    exact inv

theorem resetChannel_inv {c : Connector} {rest : List Task} (inv : Inv c)
    (functors : c.functors = .resetChannel :: rest) :
    Inv { c with functors := rest }.resetChannel := by
  have more : c.resets = rest.count .resetChannel + 1 := by
    rw [resets, functors, List.count_cons_self]
  rcases inv.phase with idle | ⟨socket, attempting⟩ | ⟨socket, channel, state, one, removed⟩
  · rw [idle.2.2] at more
    cases more
  · rw [attempting.2.2.1] at more
    cases more
  · have last : rest.count .resetChannel = 0 := by omega
    refine ⟨inv.poller, inv.unseen, .inl ⟨rfl, state, last⟩, fun _ held => ?_, inv.entered, ?_, ?_⟩
    · cases held
    · intro noted member
      rcases List.mem_append.mp member with old | new
      · exact inv.destroyed noted old
      · simp only [channel, Option.map_some, Option.toList_some, List.mem_singleton] at new
        rw [new, removed_channel inv.poller removed]
        rfl
    · intro other inside
      have settled := inv.settled other inside
      rw [Settled, if_neg fun here => state here.2] at settled
      rw [Settled, if_neg fun here => state here.2]
      exact settled

theorem resets_eq_zero {c : Connector} : c.resets = 0 ↔ Task.resetChannel ∉ c.functors :=
  List.count_eq_zero

theorem runFunctor_inv {c next : Connector} {errno : Errno} (inv : Inv c)
    (clean : c.Clean (.runFunctor errno)) (stepped : c.step (.runFunctor errno) = some next) :
    Inv next := by
  have started (task : Task) (rest : List Task) (functors : c.functors = task :: rest)
      (other : task ≠ .resetChannel) : Inv { c with functors := rest } := by
    refine inv.reframe ?_ (.inl rfl) rfl
    rw [resets, resets, functors, List.count_cons_of_ne other]
  simp only [step] at stepped
  split at stepped
  · cases stepped
  · rename_i rest functors
    cases stepped
    exact resetChannel_inv inv functors
  · rename_i rest functors
    cases stepped
    refine startInLoop_inv (started _ rest functors (by decide)) fun attempts proceeds => ?_
    have again : (c.attempt (.runFunctor errno)).any Errno.proceeds = true := by
      rw [attempt, if_pos ⟨congrArg List.head? functors, attempts⟩]
      exact proceeds
    have none := clean.2 again
    rw [functors] at none
    exact List.count_eq_zero.mpr fun member => none (List.mem_cons_of_mem _ member)
  · rename_i rest functors
    exact stopInLoop_inv (started _ rest functors (by decide)) stepped

theorem step_clean {c next : Connector} {action : Action} (inv : Inv c) (clean : c.Clean action)
    (stepped : c.step action = some next) : Inv next := by
  cases action with
  | start errno =>
      cases stepped
      have ready : Inv { c with connect := true } := inv.reframe rfl (.inl rfl) rfl
      refine startInLoop_inv ready fun attempts proceeds => ?_
      have again : (c.attempt (.start errno)).any Errno.proceeds = true := by
        rw [attempt, if_pos attempts.2]
        exact proceeds
      exact resets_eq_zero.mpr (clean.2 again)
  | stop =>
      have ready : Inv { c with connect := false } := inv.reframe rfl (.inl rfl) rfl
      exact stopInLoop_inv ready stepped
  | reStartInLoop errno =>
      cases stepped
      have ready : Inv { c with
          connect := true, state := .kDisConnected, retryDelay := kInitRetryDelayMs } :=
        inv.reframe rfl (.inr ⟨clean.1 rfl, by simp⟩) rfl
      refine startInLoop_inv ready fun _ proceeds => ?_
      exact resets_eq_zero.mpr (clean.2 (by simpa [attempt] using proceeds))
  | handleWrite err isSelfConnect => exact handleWrite_inv inv stepped
  | expire timer =>
      rcases Option.ite_none_right_eq_some.mp stepped with ⟨-, made⟩
      cases made
      exact inv.reframe rfl (.inl rfl) rfl
  | fire timer errno =>
      rcases Option.ite_none_right_eq_some.mp stepped with ⟨-, made⟩
      cases made
      have ready : Inv { c with expired := c.expired.erase timer } :=
        inv.reframe rfl (.inl rfl) rfl
      refine startInLoop_inv ready fun attempts proceeds => ?_
      have again : (c.attempt (.fire timer errno)).any Errno.proceeds = true := by
        rw [attempt, if_pos attempts]
        exact proceeds
      exact resets_eq_zero.mpr (clean.2 again)
  | runFunctor errno => exact runFunctor_inv inv clean stepped
  | storeConnect value =>
      cases stepped
      exact inv.reframe rfl (.inl rfl) rfl
  | pushStart =>
      cases stepped
      exact inv.reframe (by simp [resets]) (.inl rfl) rfl
  | pushStop =>
      cases stepped
      exact inv.reframe (by simp [resets]) (.inl rfl) rfl

/-! The other direction: what goes wrong otherwise. -/

theorem connectWith_proceeds {errno : Errno} (proceeds : errno.proceeds = true) (c : Connector) :
    c.connectWith errno = { c with created := c.created + 1 }.connecting c.created := by
  cases errno with
  | success | eInProgress | eIntr | eIsConn => rfl
  | eAgain | eAddrInUse | eAddrNotAvail | eConnRefused | eNetUnreach => cases proceeds
  | eAcces | ePerm | eAfNoSupport | eAlready | eBadF | eFault | eNotSock => cases proceeds
  | other code => cases proceeds

theorem connecting_spoils {c : Connector} {socket id : Nat} (channel : c.channel = some socket) :
    ¬Good (c.connecting id) := by
  intro good
  have noted := good.entered false (by simp [connecting, channel])
  cases noted

/-- An attempt that ends at once leaves the channel and the other sockets as they
are, and does not wait. -/
theorem connectWith_fails {errno : Errno} (fails : errno.proceeds = false) {c : Connector}
    (before : c.state ≠ .kConnecting) {socket : Nat} (inside : socket < c.created) :
    (c.connectWith errno).state ≠ .kConnecting ∧
      socket < (c.connectWith errno).created ∧
      (c.connectWith errno).sockets socket = c.sockets socket := by
  have apart : socket ≠ c.created := Nat.ne_of_lt inside
  have closed : ({ c with created := c.created + 1 }.close c.created).sockets socket =
      c.sockets socket := by
    simp [close, apart]
  have more : socket < c.created + 1 := Nat.lt_succ_of_lt inside
  have retried : ({ c with created := c.created + 1 }.retry c.created).state ≠ .kConnecting ∧
      socket < ({ c with created := c.created + 1 }.retry c.created).created ∧
      ({ c with created := c.created + 1 }.retry c.created).sockets socket = c.sockets socket := by
    unfold retry
    dsimp only
    split
    · exact ⟨by simp, more, closed⟩
    · exact ⟨by simp, more, closed⟩
  cases errno with
  | success | eInProgress | eIntr | eIsConn => cases fails
  | eAgain | eAddrInUse | eAddrNotAvail | eConnRefused | eNetUnreach => exact retried
  | eAcces | ePerm | eAfNoSupport | eAlready | eBadF | eFault | eNotSock =>
      exact ⟨before, more, closed⟩
  | other code => exact ⟨before, more, closed⟩

theorem startInLoop_spoils {c : Connector} {errno : Errno} {socket : Nat}
    (attempts : c.connect = true ∧ c.state = .kDisConnected) (proceeds : errno.proceeds = true)
    (channel : c.channel = some socket) : ¬Good (c.startInLoop errno) := by
  rw [startInLoop, if_pos attempts, connectWith_proceeds proceeds]
  exact connecting_spoils channel

theorem Inv.pending {c : Connector} (inv : Inv c) (pending : Task.resetChannel ∈ c.functors) :
    ∃ socket, c.channel = some socket := by
  rcases inv.phase with idle | ⟨socket, attempting⟩ | ⟨socket, resetting⟩
  · exact absurd pending (resets_eq_zero.mp idle.2.2)
  · exact ⟨socket, attempting.1⟩
  · exact ⟨socket, resetting.1⟩

theorem reStartInLoop_spoils {c : Connector} {errno : Errno} (inv : Inv c)
    (waits : c.state = .kConnecting) : ¬Good (c.reStartInLoop errno) := by
  rcases inv.attempting waits with ⟨socket, attempting⟩
  have inside := inv.bound socket attempting.1
  have untouched := inv.untouched attempting
  unfold reStartInLoop
  cases proceeds : errno.proceeds with
  | true => exact startInLoop_spoils ⟨rfl, rfl⟩ proceeds attempting.1
  | false =>
      intro good
      rw [startInLoop, if_pos ⟨rfl, rfl⟩] at good
      rcases connectWith_fails proceeds (c := { c with
        connect := true, state := .kDisConnected, retryDelay := kInitRetryDelayMs })
        (by simp) inside with ⟨state, within, same⟩
      rcases good.owned socket within with ⟨held, -⟩ | ⟨-, closed | handed⟩
      · exact state held.2.1
      · rw [same, untouched] at closed
        cases closed
      · rw [same, untouched] at handed
        cases handed

theorem attempt_spoils {c next : Connector} {action : Action} (inv : Inv c)
    (proceeds : (c.attempt action).any Errno.proceeds = true)
    (pending : Task.resetChannel ∈ c.functors) (stepped : c.step action = some next) :
    ¬Good next := by
  rcases inv.pending pending with ⟨socket, channel⟩
  cases action with
  | start errno =>
      cases stepped
      by_cases ready : c.state = .kDisConnected
      · rw [attempt, if_pos ready] at proceeds
        exact startInLoop_spoils ⟨rfl, ready⟩ proceeds channel
      · simp [attempt, ready] at proceeds
  | reStartInLoop errno =>
      cases stepped
      exact startInLoop_spoils ⟨rfl, rfl⟩ proceeds channel
  | fire timer errno =>
      rcases Option.ite_none_right_eq_some.mp stepped with ⟨-, made⟩
      cases made
      by_cases ready : c.connect = true ∧ c.state = .kDisConnected
      · rw [attempt, if_pos ready] at proceeds
        exact startInLoop_spoils ready proceeds channel
      · rw [attempt, if_neg ready] at proceeds
        cases proceeds
  | runFunctor errno =>
      by_cases ready : c.functors.head? = some .startInLoop ∧ c.connect = true ∧
          c.state = .kDisConnected
      · rw [attempt, if_pos ready] at proceeds
        simp only [step] at stepped
        split at stepped
        · cases stepped
        · rename_i rest functors
          rw [functors] at ready
          cases ready.1
        · cases stepped
          exact startInLoop_spoils ready.2 proceeds channel
        · rename_i rest functors
          rw [functors] at ready
          cases ready.1
      · rw [attempt, if_neg ready] at proceeds
        cases proceeds
  | stop | handleWrite | expire | storeConnect | pushStart | pushStop => cases proceeds

theorem good_iff_clean {c next : Connector} {action : Action} (inv : Inv c)
    (stepped : c.step action = some next) : Good next ↔ c.Clean action := by
  constructor
  · intro good
    refine ⟨fun reStarts waits => ?_, fun proceeds pending => ?_⟩
    · cases action with
      | reStartInLoop errno =>
          cases stepped
          exact reStartInLoop_spoils inv waits good
      | start | stop | handleWrite | expire | fire | runFunctor | storeConnect | pushStart
      | pushStop => cases reStarts
    · exact attempt_spoils inv proceeds pending stepped good
  · intro clean
    exact (step_clean inv clean stepped).good

/-- Channels and sockets are in order after every step exactly when no attempt
got ahead of a pending reset, and none was restarted while it waited. -/
theorem sockets_owned_iff_clean (newConnectionCallback : Bool) (actions : List Action)
    (final : Connector) (ran : run step (init newConnectionCallback) actions = some final) :
    Along step (fun c action => ∀ next, c.step action = some next → Good next)
        (init newConnectionCallback) actions ↔
      Along step Clean (init newConnectionCallback) actions := by
  have start := init_inv newConnectionCallback
  have any : Along step (fun _ _ => True) (init newConnectionCallback) actions :=
    along_of_forall step (fun _ _ => trivial) _
  apply visited_iff_along Inv Good _ _ start start.good any ran
  · intro c action next inv _ _ stepped good
    exact step_clean inv ((good_iff_clean inv stepped).mp good) stepped
  · intro c action next inv _ _ stepped
    exact good_iff_clean inv stepped

def secondTry : List Action :=
  [.start .eInProgress, .handleWrite 111 false, .runFunctor .success, .expire 0,
    .fire 0 .eInProgress, .handleWrite 0 false, .runFunctor .success]

theorem second_try_owned : ∃ final, run step (init true) secondTry = some final ∧
    final.sockets 0 = ⟨1, 0⟩ ∧ final.sockets 1 = ⟨0, 1⟩ ∧
    Along step (fun c action => ∀ next, c.step action = some next → Good next) (init true)
      secondTry :=
  ⟨_, rfl, rfl, rfl, (sockets_owned_iff_clean true secondTry _ rfl).mpr (by decide)⟩

/-- `Start`, `Stop` and `Start` in one callback; then the loop comes to the reset
that `Stop` queued. -/
def restarted : List Action :=
  [.start .eInProgress, .stop, .start .eInProgress, .runFunctor .success]

theorem restart_destroys_watched : ∃ final, run step (init true) restarted = some final ∧
    final.entered = [true, false] ∧ final.destroyed = [false] ∧
    final.poller.channels 1 = some 1 ∧ final.channel = none ∧ ¬final.Owned 1 := by
  refine ⟨_, rfl, rfl, rfl, rfl, rfl, ?_⟩
  rintro (⟨held, -⟩ | ⟨-, closed | handed⟩)
  · cases held.1
  · cases closed
  · cases handed

end Connector

end Muzi
