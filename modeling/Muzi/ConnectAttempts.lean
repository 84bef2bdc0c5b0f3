import Muzi.Connector

/-!
The attempts of net/connector.cc that are under way. One that waits for its
connection has a channel in the poller; one that failed has a retry timer, which
is in the timer queue or already out of it and about to call back. Nothing in
`StartInLoop` looks for either: it goes by `connect_` and `state_` alone.
-/

namespace Muzi.Connector

open Execution Channel
open EpollPoller (System)

def Errno.retries : Errno → Bool
  | .eAgain | .eAddrInUse | .eAddrNotAvail | .eConnRefused | .eNetUnreach => true
  | _ => false

def registered (c : Connector) : List Nat :=
  (List.range c.created).filter fun socket => (c.poller.channels socket).isSome

def pending (c : Connector) : List Nat := c.waiting ++ c.expired

/-- At most one attempt is under way, and `timer_id_` names its timer. -/
structure Single (c : Connector) : Prop where
  one : c.registered.length + c.pending.length ≤ 1
  named : ∀ timer ∈ c.pending, c.timerId = some timer

/-! What holds of channels and poller in every run. -/

structure Sound (c : Connector) : Prop where
  poller : c.poller.Consistent id
  unseen : ∀ socket, c.created ≤ socket → ¬c.poller.Updated socket ∧ ¬c.poller.Removed socket
  held : c.state = .kConnecting → ∀ socket, c.channel = some socket →
    socket < c.created ∧ c.poller.channels socket = some socket ∧
      c.poller.epoll socket = some (kWriteEvent, socket)

theorem init_sound (newConnectionCallback : Bool) : Sound (init newConnectionCallback) where
  poller := EpollPoller.System.init_consistent id
  unseen socket _ := by
    simp [init, EpollPoller.System.init, System.Updated, System.Removed]
  held waits := nomatch waits

theorem Sound.reframe {c next : Connector} (sound : Sound c)
    (held : next.state = .kConnecting → ∀ socket, next.channel = some socket →
      c.state = .kConnecting ∧ c.channel = some socket)
    (rest : next = { next with poller := c.poller, created := c.created }) : Sound next := by
  rw [rest] at held ⊢
  refine ⟨sound.poller, sound.unseen, fun waits socket here => ?_⟩
  obtain ⟨waited, there⟩ := held waits socket here
  exact sound.held waited socket there

theorem Sound.opened {c next : Connector} (sound : Sound c) (ended : next.state ≠ .kConnecting)
    (rest : next = { next with poller := c.poller, created := c.created + 1 }) : Sound next := by
  rw [rest] at ended ⊢
  exact ⟨sound.poller, fun socket outside => sound.unseen socket (Nat.le_of_succ_le outside),
    fun waits => absurd waits ended⟩

theorem Sound.connecting {c : Connector} (sound : Sound c) :
    Sound ({ c with created := c.created + 1 }.connecting c.created) := by
  obtain ⟨new, here⟩ := sound.unseen c.created (Nat.le_refl _)
  obtain ⟨table, set⟩ := enable_registers sound.poller new here
  refine ⟨sound.poller.perform Function.injective_id here .enableWritting, ?_, ?_⟩
  · intro socket outside
    have apart : socket ≠ c.created := Nat.ne_of_gt outside
    obtain ⟨new, here⟩ := sound.unseen socket (Nat.le_of_succ_le outside)
    refine ⟨?_, ?_⟩
    · simpa [Connector.connecting, System.perform_updated, apart] using new
    · simpa [Connector.connecting, System.perform_removed, apart] using here
  · intro _ socket there
    cases there
    exact ⟨Nat.lt_succ_self _, table, set⟩

theorem Sound.withdrawn {c next : Connector} {socket : Nat} (sound : Sound c)
    (waits : c.state = .kConnecting) (here : c.channel = some socket)
    (ended : next.state ≠ .kConnecting)
    (rest : next = { next with poller := (c.withdraw socket).poller, created := c.created }) :
    Sound next := by
  obtain ⟨inside, table, -⟩ := sound.held waits socket here
  obtain ⟨consistent, -⟩ := remove_lets_go sound.poller (registered_here sound.poller table)
  rw [rest] at ended ⊢
  refine ⟨consistent, ?_, fun now => absurd now ended⟩
  intro other outside
  have apart : other ≠ socket := Nat.ne_of_gt (Nat.lt_of_lt_of_le inside outside)
  obtain ⟨new, left⟩ := sound.unseen other outside
  refine ⟨?_, ?_⟩
  · simpa [withdraw, System.perform_updated, apart] using new
  · simpa [withdraw, System.perform_removed, apart] using left

/-! The channels in the poller. -/

theorem unseen_channel {p : System} {socket : Nat} (consistent : p.Consistent id)
    (new : ¬p.Updated socket) (here : ¬p.Removed socket) : p.channels socket = none := by
  have fd := consistent.fds socket
  cases consistent.stage socket with
  | fresh index events table set _ _ => rwa [fd] at table
  | watched index table set old _ => exact absurd old new
  | unwatched index events table set old _ => exact absurd old new
  | gone table set left => exact absurd left here

theorem perform_channel {p : System} {socket other : Nat} (consistent : p.Consistent id)
    (op : EpollPoller.Operation) (apart : other ≠ socket) :
    (p.perform socket op).channels other = p.channels other := by
  apply (System.perform_local p socket op).channel other
  rwa [consistent.fds socket]

theorem registered_opened {c next : Connector} (sound : Sound c)
    (rest : next = { next with poller := c.poller, created := c.created + 1 }) :
    next.registered = c.registered := by
  obtain ⟨new, here⟩ := sound.unseen c.created (Nat.le_refl _)
  have none := unseen_channel sound.poller new here
  rw [rest]
  simp [registered, List.range_succ, none]

theorem registered_connecting {c : Connector} (sound : Sound c) :
    ({ c with created := c.created + 1 }.connecting c.created).registered =
      c.registered ++ [c.created] := by
  obtain ⟨new, here⟩ := sound.unseen c.created (Nat.le_refl _)
  obtain ⟨table, -⟩ := enable_registers sound.poller new here
  have old : ∀ socket ∈ List.range c.created,
      ((c.poller.perform c.created .enableWritting).channels socket).isSome =
        (c.poller.channels socket).isSome := by
    intro socket inside
    have apart : socket ≠ c.created := Nat.ne_of_lt (List.mem_range.mp inside)
    rw [perform_channel sound.poller .enableWritting apart]
  simp only [registered, Connector.connecting, List.range_succ, List.filter_append,
    List.filter_congr old]
  simp [table]

theorem registered_withdraw {c : Connector} {socket : Nat} (sound : Sound c)
    (table : c.poller.channels socket = some socket) :
    (c.withdraw socket).registered = c.registered.filter fun other => other ≠ socket := by
  have here := registered_here sound.poller table
  obtain ⟨consistent, removed⟩ := remove_lets_go sound.poller here
  have gone := removed_channel consistent removed
  have middle := sound.poller.perform Function.injective_id here .disableAll
  simp only [registered, withdraw, List.filter_filter]
  apply List.filter_congr
  intro other _
  by_cases same : other = socket
  · subst same
    simp [gone]
  · rw [perform_channel middle .remove same, perform_channel sound.poller .disableAll same]
    simp [same]

/-! One attempt. -/

inductive Attempted (c : Connector) (errno : Errno) : Connector → Prop
  | waits {next : Connector} (proceeds : errno.proceeds = true) (sound : Sound next)
      (registered : next.registered = c.registered ++ [c.created])
      (pending : next.pending = c.pending) : Attempted c errno next
  | retries {next : Connector} (retries : errno.retries = true) (sound : Sound next)
      (registered : next.registered = c.registered)
      (waiting : next.waiting = c.waiting ++ [c.nextTimer]) (expired : next.expired = c.expired)
      (named : next.timerId = some c.nextTimer) : Attempted c errno next
  | ends {next : Connector} (stays : errno.proceeds = false) (gives_up : errno.retries = false)
      (sound : Sound next) (registered : next.registered = c.registered)
      (pending : next.pending = c.pending) (named : next.timerId = c.timerId) :
      Attempted c errno next

theorem connectWith_attempted {c : Connector} (errno : Errno) (sound : Sound c)
    (ready : c.connect = true ∧ c.state = .kDisConnected) :
    Attempted c errno (c.connectWith errno) := by
  have idle : c.state ≠ .kConnecting := by simp [ready.2]
  have retried : errno.retries = true →
      Attempted c errno ({ c with created := c.created + 1 }.retry c.created) := by
    intro retries
    rw [retry]
    simp only [ready.1, if_true]
    exact .retries retries (sound.opened (by simp) rfl) (registered_opened sound rfl) rfl rfl rfl
  have closed : errno.proceeds = false → errno.retries = false →
      Attempted c errno ({ c with created := c.created + 1 }.close c.created) := by
    intro stays gives_up
    exact .ends stays gives_up (sound.opened idle rfl) (registered_opened sound rfl) rfl rfl
  cases errno with
  | success | eInProgress | eIntr | eIsConn =>
      exact .waits rfl sound.connecting (registered_connecting sound) rfl
  | eAgain | eAddrInUse | eAddrNotAvail | eConnRefused | eNetUnreach => exact retried rfl
  | eAcces | ePerm | eAfNoSupport | eAlready | eBadF | eFault | eNotSock => exact closed rfl rfl
  | other code => exact closed rfl rfl

def Errno.goesOn (errno : Errno) : Bool := errno.proceeds || errno.retries

theorem Attempted.sound {c next : Connector} {errno : Errno} (attempted : Attempted c errno next) :
    Sound next := by
  cases attempted <;> assumption

theorem Attempted.single_iff {c next : Connector} {errno : Errno}
    (attempted : Attempted c errno next) (single : Single c) :
    Single next ↔ (errno.goesOn = true → c.registered = [] ∧ c.pending = []) := by
  have alone : c.registered = [] ∧ c.pending = [] ↔
      c.registered.length + c.pending.length + 1 ≤ 1 := by
    rw [← List.length_eq_zero_iff, ← List.length_eq_zero_iff]
    omega
  cases attempted with
  | waits proceeds sound registered pending =>
      have counted : next.registered.length + next.pending.length =
          c.registered.length + c.pending.length + 1 := by
        rw [registered, pending, List.length_append, List.length_singleton]
        omega
      constructor
      · intro after _
        exact alone.mpr (counted ▸ after.one)
      · intro before
        have none := before (by simp [Errno.goesOn, proceeds])
        refine ⟨counted ▸ alone.mp none, fun timer member => ?_⟩
        rw [pending, none.2] at member
        cases member
  | retries retries sound registered waiting expired named =>
      have counted : next.registered.length + next.pending.length =
          c.registered.length + c.pending.length + 1 := by
        simp only [Connector.pending, registered, waiting, expired, List.length_append,
          List.length_singleton]
        omega
      constructor
      · intro after _
        exact alone.mpr (counted ▸ after.one)
      · intro before
        have none := before (by simp [Errno.goesOn, retries])
        refine ⟨counted ▸ alone.mp none, fun timer member => ?_⟩
        obtain ⟨idle, fired⟩ := List.append_eq_nil_iff.mp none.2
        rw [Connector.pending, waiting, expired, idle, fired] at member
        rw [named, List.mem_singleton.mp member]
  | ends stays gives_up sound registered pending named =>
      refine iff_of_true ⟨?_, ?_⟩ ?_
      · rw [registered, pending]
        exact single.one
      · rw [pending, named]
        exact single.named
      · intro goesOn
        simp [Errno.goesOn, stays, gives_up] at goesOn

theorem startInLoop_cases {c : Connector} (errno : Errno) (sound : Sound c) :
    c.connect = true ∧ c.state = .kDisConnected ∧ Attempted c errno (c.startInLoop errno) ∨
      ¬(c.connect = true ∧ c.state = .kDisConnected) ∧ c.startInLoop errno = c := by
  by_cases ready : c.connect = true ∧ c.state = .kDisConnected
  · refine .inl ⟨ready.1, ready.2, ?_⟩
    rw [startInLoop, if_pos ready]
    exact connectWith_attempted errno sound ready
  · exact .inr ⟨ready, if_neg ready⟩

/-! One step. -/

theorem retry_pending {c : Connector} (socket : Nat) (none : c.pending = []) :
    (c.retry socket).registered = c.registered ∧ (c.retry socket).pending.length ≤ 1 ∧
      ∀ timer ∈ (c.retry socket).pending, (c.retry socket).timerId = some timer := by
  obtain ⟨idle, fired⟩ := List.append_eq_nil_iff.mp none
  unfold retry
  dsimp only
  split
  · refine ⟨rfl, ?_, ?_⟩
    · simp [pending, close, idle, fired]
    · intro timer member
      simp only [pending, close, idle, fired, List.nil_append, List.append_nil,
        List.mem_singleton] at member
      rw [member]
  · refine ⟨rfl, ?_, ?_⟩
    · change c.pending.length ≤ 1
      simp [none]
    · intro timer member
      change timer ∈ c.pending at member
      rw [none] at member
      cases member

theorem Single.withdrawn {c : Connector} {socket : Nat} (single : Single c) (sound : Sound c)
    (waits : c.state = .kConnecting) (here : c.channel = some socket) :
    (c.withdraw socket).registered = [] ∧ (c.withdraw socket).pending = [] := by
  obtain ⟨inside, table, -⟩ := sound.held waits socket here
  have member : socket ∈ c.registered := by simp [registered, inside, table]
  have pos := List.length_pos_of_mem member
  have one := single.one
  have alone : c.registered = [socket] := by
    obtain ⟨other, list⟩ := List.length_eq_one_iff.mp (by omega : c.registered.length = 1)
    rw [list, List.mem_singleton] at member
    rw [list, member]
  refine ⟨?_, ?_⟩
  · rw [registered_withdraw sound table, alone]
    simp
  · exact List.length_eq_zero_iff.mp (by omega : c.pending.length = 0)

theorem Single.retried {c : Connector} {socket : Nat} (single : Single c) (sound : Sound c)
    (waits : c.state = .kConnecting) (here : c.channel = some socket) :
    Single ((c.withdraw socket).retry socket) := by
  obtain ⟨none, idle⟩ := single.withdrawn sound waits here
  obtain ⟨same, one, named⟩ := retry_pending socket idle
  refine ⟨?_, named⟩
  rw [same, none]
  simpa using one

def others (c : Connector) : Action → List Nat
  | .fire timer _ => c.waiting ++ c.expired.erase timer
  | _ => c.pending

def Alone (c : Connector) (action : Action) : Prop :=
  (c.attempt action).any Errno.goesOn = true → c.registered = [] ∧ c.others action = []

instance (c : Connector) (action : Action) : Decidable (c.Alone action) :=
  inferInstanceAs (Decidable (_ → _))

theorem startInLoop_sound {c : Connector} {errno : Errno} (sound : Sound c) :
    Sound (c.startInLoop errno) := by
  rcases startInLoop_cases errno sound with ⟨-, -, attempted⟩ | ⟨-, same⟩
  · exact attempted.sound
  · rw [same]
    exact sound

theorem startInLoop_single {c : Connector} {errno : Errno} {attempt : Option Errno}
    (sound : Sound c) (single : Single c)
    (made : attempt = if c.connect = true ∧ c.state = .kDisConnected then some errno else none) :
    Single (c.startInLoop errno) ↔
      (attempt.any Errno.goesOn = true → c.registered = [] ∧ c.pending = []) := by
  rcases startInLoop_cases errno sound with ⟨on, ready, attempted⟩ | ⟨idle, same⟩
  · rw [if_pos ⟨on, ready⟩] at made
    subst made
    exact attempted.single_iff single
  · rw [if_neg idle] at made
    subst made
    rw [same]
    exact iff_of_true single fun goesOn => nomatch goesOn

theorem Sound.retried {c : Connector} {socket : Nat} (sound : Sound c)
    (waits : c.state = .kConnecting) (here : c.channel = some socket) :
    Sound ((c.withdraw socket).retry socket) := by
  unfold retry
  dsimp only
  split
  · exact sound.withdrawn waits here (by simp) rfl
  · exact sound.withdrawn waits here (by simp) rfl

theorem stopInLoop_cases {c next : Connector} (stopped : c.stopInLoop = some next) :
    (∃ socket, c.connect = false ∧ c.state = .kConnecting ∧ c.channel = some socket ∧
        next = (c.cancelTimer.withdraw socket).retry socket) ∨
      ¬(c.connect = false ∧ c.state = .kConnecting) ∧ next = c.cancelTimer := by
  unfold stopInLoop at stopped
  split at stopped
  · rename_i waits
    obtain ⟨⟨socket, removed⟩, made, rfl⟩ := Option.map_eq_some_iff.mp stopped
    obtain ⟨id, here, same⟩ := Option.map_eq_some_iff.mp made
    cases same
    exact .inl ⟨socket, waits.1, waits.2, here, rfl⟩
  · rename_i waits
    cases stopped
    exact .inr ⟨waits, rfl⟩

/-- `HandleWrite` ends an attempt that waits: with a retry, or with a socket that
is handed over or closed. -/
theorem handleWrite_cases {c next : Connector} {err : Nat} {isSelfConnect : Bool}
    (handled : c.handleWrite err isSelfConnect = some next) :
    (∃ socket, c.state = .kConnecting ∧ c.channel = some socket ∧
        (next = (c.withdraw socket).retry socket ∨
          next = { c.withdraw socket with state := .kConnected }.hand socket ∨
          next = { c.withdraw socket with state := .kConnected }.close socket)) ∨
      c.state ≠ .kConnecting ∧ next = c := by
  unfold handleWrite at handled
  split at handled
  · rename_i waits
    obtain ⟨⟨socket, removed⟩, made, rfl⟩ := Option.map_eq_some_iff.mp handled
    obtain ⟨id, here, same⟩ := Option.map_eq_some_iff.mp made
    cases same
    refine .inl ⟨socket, waits, here, ?_⟩
    dsimp only
    split
    · exact .inl rfl
    · split
      · exact .inl rfl
      · split
        · exact .inr (.inl rfl)
        · exact .inr (.inr rfl)
  · rename_i idle
    cases handled
    exact .inr ⟨idle, rfl⟩

theorem cancelTimer_sound {c : Connector} (sound : Sound c) : Sound c.cancelTimer :=
  sound.reframe (fun waits _ here => ⟨waits, here⟩) rfl

theorem stopInLoop_sound {c next : Connector} (sound : Sound c)
    (stopped : c.stopInLoop = some next) : Sound next := by
  rcases stopInLoop_cases stopped with ⟨socket, -, waits, here, rfl⟩ | ⟨-, rfl⟩
  · exact (cancelTimer_sound sound).retried waits here
  · exact cancelTimer_sound sound

theorem handleWrite_sound {c next : Connector} {err : Nat} {isSelfConnect : Bool}
    (sound : Sound c) (handled : c.handleWrite err isSelfConnect = some next) : Sound next := by
  rcases handleWrite_cases handled with ⟨socket, waits, here, rfl | rfl | rfl⟩ | ⟨-, rfl⟩
  · exact sound.retried waits here
  · exact sound.withdrawn waits here (by simp [hand]) rfl
  · exact sound.withdrawn waits here (by simp [close]) rfl
  · exact sound

theorem step_sound {c next : Connector} {action : Action} (sound : Sound c)
    (stepped : c.step action = some next) : Sound next := by
  have same : ∀ next : Connector, next.state = c.state → next.channel = c.channel →
      next = { next with poller := c.poller, created := c.created } → Sound next := by
    intro next state channel rest
    refine sound.reframe (fun waits _ here => ⟨?_, ?_⟩) rest
    · rwa [← state]
    · rwa [← channel]
  cases action with
  | start errno =>
      cases stepped
      exact startInLoop_sound (same { c with connect := true } rfl rfl rfl)
  | stop => exact stopInLoop_sound (same { c with connect := false } rfl rfl rfl) stepped
  | reStartInLoop errno =>
      cases stepped
      exact startInLoop_sound (sound.reframe (fun waits _ _ => by cases waits) rfl)
  | handleWrite err isSelfConnect => exact handleWrite_sound sound stepped
  | expire timer =>
      obtain ⟨-, made⟩ := Option.ite_none_right_eq_some.mp stepped
      cases made
      exact same _ rfl rfl rfl
  | fire timer errno =>
      obtain ⟨-, made⟩ := Option.ite_none_right_eq_some.mp stepped
      cases made
      exact startInLoop_sound (same { c with expired := c.expired.erase timer } rfl rfl rfl)
  | runFunctor errno =>
      simp only [step] at stepped
      split at stepped
      · cases stepped
      · cases stepped
        exact sound.reframe (fun _ _ here => by cases here) rfl
      · rename_i rest functors
        cases stepped
        exact startInLoop_sound (same { c with functors := rest } rfl rfl rfl)
      · rename_i rest functors
        exact stopInLoop_sound (same { c with functors := rest } rfl rfl rfl) stepped
  | storeConnect value =>
      cases stepped
      exact same _ rfl rfl rfl
  | pushStart =>
      cases stepped
      exact same _ rfl rfl rfl
  | pushStop =>
      cases stepped
      exact same _ rfl rfl rfl

theorem alone_of_none {c next : Connector} {action : Action} (single : Single next)
    (none : c.attempt action = none) : Single next ↔ c.Alone action := by
  refine iff_of_true single fun goesOn => ?_
  rw [none] at goesOn
  cases goesOn

theorem Single.fewer {c next : Connector} (single : Single c)
    (registered : next.registered = c.registered) (named : next.timerId = c.timerId)
    (shorter : next.pending.length ≤ c.pending.length)
    (members : ∀ timer ∈ next.pending, timer ∈ c.pending) : Single next := by
  have one := single.one
  constructor
  · rw [registered]
    omega
  · rw [named]
    exact fun timer member => single.named timer (members timer member)

theorem cancelTimer_single {c : Connector} (single : Single c) : Single c.cancelTimer := by
  have fewer : (∀ timer ∈ c.cancelTimer.waiting, timer ∈ c.waiting) ∧
      c.cancelTimer.waiting.length ≤ c.waiting.length := by
    unfold cancelTimer
    cases c.timerId with
    | none => exact ⟨fun _ member => member, Nat.le_refl _⟩
    | some id => exact ⟨fun _ member => List.mem_of_mem_erase member, List.length_erase_le⟩
  refine single.fewer rfl rfl ?_ fun timer member => ?_
  · rw [pending, pending, List.length_append, List.length_append]
    exact Nat.add_le_add_right fewer.2 _
  · rcases List.mem_append.mp member with waiting | expired
    · exact List.mem_append_left _ (fewer.1 timer waiting)
    · exact List.mem_append_right _ expired

theorem stopInLoop_single {c next : Connector} (sound : Sound c) (single : Single c)
    (stopped : c.stopInLoop = some next) : Single next := by
  have still := cancelTimer_single single
  rcases stopInLoop_cases stopped with ⟨socket, -, waits, here, rfl⟩ | ⟨-, rfl⟩
  · exact still.retried (cancelTimer_sound sound) waits here
  · exact still

theorem handleWrite_single {c next : Connector} {err : Nat} {isSelfConnect : Bool}
    (sound : Sound c) (single : Single c)
    (handled : c.handleWrite err isSelfConnect = some next) : Single next := by
  rcases handleWrite_cases handled with ⟨socket, waits, here, made⟩ | ⟨-, rfl⟩
  · obtain ⟨none, idle⟩ := single.withdrawn sound waits here
    have ended : Single (c.withdraw socket) := by
      refine ⟨by simp [none, idle], fun timer member => ?_⟩
      rw [idle] at member
      cases member
    rcases made with rfl | rfl | rfl
    · exact single.retried sound waits here
    · exact ⟨ended.one, ended.named⟩
    · exact ⟨ended.one, ended.named⟩
  · exact single

theorem expire_single {c : Connector} {timer : Nat} (single : Single c)
    (member : timer ∈ c.waiting) :
    Single { c with
      waiting := c.waiting.erase timer
      expired := c.expired ++ [timer] } := by
  refine single.fewer rfl rfl ?_ fun other moved => ?_
  · have some := List.length_pos_of_mem member
    simp only [pending, List.length_append, List.length_erase_of_mem member,
      List.length_singleton]
    omega
  · simp only [pending, List.mem_append, List.mem_singleton] at moved ⊢
    rcases moved with waiting | expired | rfl
    · exact .inl (List.mem_of_mem_erase waiting)
    · exact .inr expired
    · exact .inl member

theorem fire_single {c : Connector} (single : Single c) (timer : Nat) :
    Single { c with expired := c.expired.erase timer } := by
  refine single.fewer rfl rfl ?_ fun other left => ?_
  · rw [pending, pending, List.length_append, List.length_append]
    exact Nat.add_le_add_left List.length_erase_le _
  · rcases List.mem_append.mp left with waiting | expired
    · exact List.mem_append_left _ waiting
    · exact List.mem_append_right _ (List.mem_of_mem_erase expired)

theorem step_single {c next : Connector} {action : Action} (sound : Sound c) (single : Single c)
    (stepped : c.step action = some next) : Single next ↔ c.Alone action := by
  have same : ∀ next : Connector, next.registered = c.registered → next.pending = c.pending →
      next.timerId = c.timerId → Single next := by
    intro next registered pending named
    exact single.fewer registered named (Nat.le_of_eq (congrArg _ pending))
      fun _ member => pending ▸ member
  cases action with
  | start errno =>
      cases stepped
      have ready : Sound { c with connect := true } :=
        sound.reframe (fun waits _ here => ⟨waits, here⟩) rfl
      exact startInLoop_single ready (same _ rfl rfl rfl) (by simp [attempt])
  | stop =>
      have ready : Sound { c with connect := false } :=
        sound.reframe (fun waits _ here => ⟨waits, here⟩) rfl
      exact alone_of_none (stopInLoop_single ready (same _ rfl rfl rfl) stepped) rfl
  | reStartInLoop errno =>
      cases stepped
      have ready : Sound { c with
          connect := true, state := .kDisConnected, retryDelay := kInitRetryDelayMs } :=
        sound.reframe (fun waits _ _ => by cases waits) rfl
      exact startInLoop_single ready (same _ rfl rfl rfl) (by simp [attempt])
  | handleWrite err isSelfConnect =>
      exact alone_of_none (handleWrite_single sound single stepped) rfl
  | expire timer =>
      obtain ⟨member, made⟩ := Option.ite_none_right_eq_some.mp stepped
      cases made
      exact alone_of_none (expire_single single member) rfl
  | fire timer errno =>
      obtain ⟨member, made⟩ := Option.ite_none_right_eq_some.mp stepped
      cases made
      have ready : Sound { c with expired := c.expired.erase timer } :=
        sound.reframe (fun waits _ here => ⟨waits, here⟩) rfl
      exact startInLoop_single ready (fire_single single timer) rfl
  | runFunctor errno =>
      simp only [step] at stepped
      split at stepped
      · cases stepped
      · rename_i rest functors
        cases stepped
        exact alone_of_none (same _ rfl rfl rfl) (by simp [attempt, functors])
      · rename_i rest functors
        cases stepped
        have ready : Sound { c with functors := rest } :=
          sound.reframe (fun waits _ here => ⟨waits, here⟩) rfl
        exact startInLoop_single ready (same _ rfl rfl rfl) (by simp [attempt, functors])
      · rename_i rest functors
        have ready : Sound { c with functors := rest } :=
          sound.reframe (fun waits _ here => ⟨waits, here⟩) rfl
        have stopped := stopInLoop_single ready (same _ rfl rfl rfl) stepped
        exact alone_of_none stopped (by simp [attempt, functors])
  | storeConnect value =>
      cases stepped
      exact alone_of_none (same _ rfl rfl rfl) rfl
  | pushStart =>
      cases stepped
      exact alone_of_none (same _ rfl rfl rfl) rfl
  | pushStop =>
      cases stepped
      exact alone_of_none (same _ rfl rfl rfl) rfl

theorem init_single (newConnectionCallback : Bool) : Single (init newConnectionCallback) :=
  ⟨Nat.zero_le _, fun _ member => nomatch member⟩

/-- There is at most one attempt behind every step exactly when none was begun
while another was under way. -/
theorem single_attempt_iff_begun_alone (newConnectionCallback : Bool) (actions : List Action)
    (final : Connector) (ran : run step (init newConnectionCallback) actions = some final) :
    Along step (fun c action => ∀ next, c.step action = some next → Single next)
        (init newConnectionCallback) actions ↔
      Along step Alone (init newConnectionCallback) actions := by
  have any : Along step (fun _ _ => True) (init newConnectionCallback) actions :=
    along_of_forall step (fun _ _ => trivial) _
  apply visited_iff_along Sound Single _ _ (init_sound newConnectionCallback)
    (init_single newConnectionCallback) any ran
  · intro c action next sound single _ stepped _
    exact step_sound sound stepped
  · intro c action next sound single _ stepped
    exact step_single sound single stepped

theorem second_try_single : ∃ final, run step (init true) secondTry = some final ∧
    Along step (fun c action => ∀ next, c.step action = some next → Single next) (init true)
      secondTry :=
  ⟨_, rfl, (single_attempt_iff_begun_alone true secondTry _ rfl).mpr (by decide)⟩

def startedTwice : List Action := [.start .eConnRefused, .start .eConnRefused]

theorem second_start_doubles_chain : ∃ final, run step (init true) startedTwice = some final ∧
    final.pending = [0, 1] ∧ final.timerId = some 1 ∧ ¬Single final := by
  refine ⟨_, rfl, rfl, rfl, fun single => ?_⟩
  have named := single.named 0 List.mem_cons_self
  cases named

/-! `Stop`. -/

/-- A call of `Start` or `ReStartInLoop`; that of another thread begins with its
store to `connect_`. -/
def Action.revives : Action → Bool
  | .start _ | .reStartInLoop _ | .storeConnect true => true
  | _ => false

/-- The step executes `StopInLoop` with `connect_` false. -/
def stops (c : Connector) : Action → Bool
  | .stop => true
  | .runFunctor _ => decide (c.functors.head? = some .stopInLoop) && !c.connect
  | _ => false

structure Stopped (c : Connector) : Prop where
  connect : c.connect = false
  state : c.state ≠ .kConnecting

structure Rests (c next : Connector) : Prop where
  stopped : Stopped next
  created : next.created = c.created
  hands : ∀ socket, (next.sockets socket).hands = (c.sockets socket).hands

theorem close_hands (c : Connector) (closed socket : Nat) :
    ((c.close closed).sockets socket).hands = (c.sockets socket).hands := by
  by_cases same : socket = closed
  · subst same
    simp [close]
  · simp [close, same]

theorem stopInLoop_rests {c next : Connector} (off : c.connect = false)
    (stopped : c.stopInLoop = some next) : Rests c next := by
  rcases stopInLoop_cases stopped with ⟨socket, -, -, -, rfl⟩ | ⟨idle, rfl⟩
  · have still : (c.cancelTimer.withdraw socket).connect = false := off
    unfold retry
    dsimp only
    rw [if_neg (by simp [still])]
    exact ⟨⟨off, by simp⟩, rfl, close_hands c socket⟩
  · exact ⟨⟨off, fun now => idle ⟨off, now⟩⟩, rfl, fun _ => rfl⟩

theorem stops_rests {c next : Connector} {action : Action} (stops : c.stops action = true)
    (stepped : c.step action = some next) : Rests c next := by
  cases action with
  | stop =>
      have off : ({ c with connect := false } : Connector).connect = false := rfl
      have rests := stopInLoop_rests off stepped
      exact ⟨rests.stopped, rests.created, rests.hands⟩
  | runFunctor errno =>
      simp only [Connector.stops, Bool.and_eq_true, decide_eq_true_eq, Bool.not_eq_true'] at stops
      simp only [step] at stepped
      split at stepped
      · cases stepped
      · rename_i rest functors
        rw [functors] at stops
        cases stops.1
      · rename_i rest functors
        rw [functors] at stops
        cases stops.1
      · rename_i rest functors
        have off : ({ c with functors := rest } : Connector).connect = false := stops.2
        have rests := stopInLoop_rests off stepped
        exact ⟨rests.stopped, rests.created, rests.hands⟩
  | start | reStartInLoop | handleWrite | expire | fire | storeConnect | pushStart
  | pushStop => cases stops

theorem startInLoop_off {c : Connector} (off : c.connect = false) (errno : Errno) :
    c.startInLoop errno = c := by
  rw [startInLoop, if_neg (by simp [off])]

theorem stopInLoop_idle {c : Connector} (stopped : Stopped c) :
    c.stopInLoop = some c.cancelTimer := by
  rw [stopInLoop, if_neg fun waits => stopped.state waits.2]

theorem Stopped.step {c next : Connector} {action : Action} (stopped : Stopped c)
    (quiet : action.revives = false) (stepped : c.step action = some next) : Rests c next := by
  obtain ⟨off, idle⟩ := stopped
  cases action with
  | start errno => cases quiet
  | reStartInLoop errno => cases quiet
  | stop =>
      have still : Stopped { c with connect := false } := ⟨rfl, idle⟩
      rw [Connector.step, stopInLoop_idle still] at stepped
      cases stepped
      exact ⟨⟨rfl, idle⟩, rfl, fun _ => rfl⟩
  | handleWrite err isSelfConnect =>
      rw [Connector.step, handleWrite, if_neg idle] at stepped
      cases stepped
      exact ⟨⟨off, idle⟩, rfl, fun _ => rfl⟩
  | expire timer =>
      obtain ⟨-, made⟩ := Option.ite_none_right_eq_some.mp stepped
      cases made
      exact ⟨⟨off, idle⟩, rfl, fun _ => rfl⟩
  | fire timer errno =>
      obtain ⟨-, made⟩ := Option.ite_none_right_eq_some.mp stepped
      have still : ({ c with expired := c.expired.erase timer } : Connector).connect = false := off
      rw [startInLoop_off still] at made
      cases made
      exact ⟨⟨off, idle⟩, rfl, fun _ => rfl⟩
  | runFunctor errno =>
      simp only [Connector.step] at stepped
      split at stepped
      · cases stepped
      · cases stepped
        exact ⟨⟨off, idle⟩, rfl, fun _ => rfl⟩
      · rename_i rest functors
        have still : ({ c with functors := rest } : Connector).connect = false := off
        rw [startInLoop_off still] at stepped
        cases stepped
        exact ⟨⟨off, idle⟩, rfl, fun _ => rfl⟩
      · rename_i rest functors
        have still : Stopped { c with functors := rest } := ⟨off, idle⟩
        rw [stopInLoop_idle still] at stepped
        cases stepped
        exact ⟨⟨off, idle⟩, rfl, fun _ => rfl⟩
  | storeConnect value =>
      cases stepped
      cases value with
      | true => cases quiet
      | false => exact ⟨⟨rfl, idle⟩, rfl, fun _ => rfl⟩
  | pushStart =>
      cases stepped
      exact ⟨⟨off, idle⟩, rfl, fun _ => rfl⟩
  | pushStop =>
      cases stepped
      exact ⟨⟨off, idle⟩, rfl, fun _ => rfl⟩

/-- With `StopInLoop` and behind it no socket is opened and no connection is
handed over, whatever events and timers are still to come, until the next
`Start` or `ReStartInLoop`. -/
theorem nothing_begins_behind_stop {c final : Connector} (action : Action) (later : List Action)
    (stops : c.stops action = true) (quiet : ∀ action ∈ later, action.revives = false)
    (ran : run step c (action :: later) = some final) :
    final.created = c.created ∧
      ∀ socket, (final.sockets socket).hands = (c.sockets socket).hands := by
  obtain ⟨stopped, stepped, further⟩ := run_cons_some.mp ran
  have rests : Rests c final := by
    refine run_invariant_along (Rests c) ?_ (stops_rests stops stepped)
      (along_of_forall step quiet stopped) further
    intro middle action next rests quiet stepped
    have again := rests.stopped.step quiet stepped
    exact ⟨again.stopped, again.created.trans rests.created,
      fun socket => (again.hands socket).trans (rests.hands socket)⟩
  exact ⟨rests.created, rests.hands⟩

/-- Two chains: a retry timer that `timer_id_` does not name is about to call
back, and a connection waits. -/
def twoChains : List Action :=
  [.start .eConnRefused, .start .eConnRefused, .expire 0, .start .eInProgress]

/-- What the loop has still to come to: the completion of the connection, the
timer, and a `StartInLoop` that was queued before. -/
def stragglers : List Action :=
  [.handleWrite 0 false, .fire 0 .eInProgress, .pushStart, .runFunctor .eInProgress,
    .runFunctor .eInProgress]

theorem stop_outlasts_stragglers : ∃ c final,
    run step (init true) twoChains = some c ∧ run step c (.stop :: stragglers) = some final ∧
      final.created = c.created ∧
      ∀ socket, (final.sockets socket).hands = (c.sockets socket).hands := by
  refine ⟨_, _, rfl, rfl, ?_⟩
  exact nothing_begins_behind_stop .stop stragglers rfl (by decide) rfl

end Muzi.Connector
