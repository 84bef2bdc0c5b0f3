import Muzi.EpollPoller
import Muzi.ServerSteps

/-!
Connections come and go, and the kernel gives the descriptor of a closed one to the next:
`accept` returns any descriptor that is not open. A connection closes its descriptor when
it is freed, its loop has the channel under that descriptor in `channels_` until
`DestroyConnection`, and two loops may have one descriptor in turn. The server is the one of
TcpServer.lean, and every loop has a poller of EpollPoller.lean; the channel of a connection
goes by the number of the connection. The descriptors of the loops and of the acceptor stay
open, so `accept` never returns them.
-/

namespace Muzi

namespace EpollPoller.System

def Active (s : System) (id : Nat) : Prop := s.Updated id ∧ ¬s.Removed id

/-- `Consistent` for channels that have their descriptor one after the other. -/
structure Shared (fd : Nat → Nat) (s : System) : Prop where
  fds : ∀ id, (s.objects id).fd = fd id
  fatal : s.fatal = false
  valid : ∀ ctl ∈ s.ctls, ctl.Valid
  active : ∀ id, s.Active id → Stage s id
  unused : ∀ id, ¬s.Updated id → ¬s.Removed id →
    (s.objects id).index = .kNew ∧ (s.objects id).events = Channel.kNoneEvent
  free : ∀ n, (∀ id, fd id = n → ¬s.Active id) → s.channels n = none ∧ s.epoll n = none

theorem init_shared (fd : Nat → Nat) : Shared fd (init fd) where
  fds _ := rfl
  fatal := rfl
  valid := by simp [init]
  active id active := absurd active.1 (by simp [Updated, init])
  unused _ _ _ := ⟨rfl, rfl⟩
  free _ _ := ⟨rfl, rfl⟩

section Shared
variable {fd : Nat → Nat} {s : System} {id : Nat}

theorem perform_active {op : Operation} {other : Nat} (apart : other ≠ id) :
    (s.perform id op).Active other ↔ s.Active other := by
  simp [Active, perform_updated, perform_removed, apart]

/-- Who has its descriptor for itself is where `Consistent` has it. -/
theorem Shared.stage (shared : Shared fd s) (here : ¬s.Removed id)
    (alone : ∀ other, other ≠ id → fd other = fd id → ¬s.Active other) : Stage s id := by
  by_cases updated : s.Updated id
  · exact shared.active id ⟨updated, here⟩
  · obtain ⟨index, events⟩ := shared.unused id updated here
    obtain ⟨channel, epoll⟩ := shared.free (fd id) fun other same => by
      by_cases own : other = id
      · subst own
        exact fun active => updated active.1
      · exact alone other own same
    exact .fresh index events (by rwa [shared.fds]) (by rwa [shared.fds]) updated here

theorem Shared.listed (shared : Shared fd s) (active : s.Active id) :
    s.channels (fd id) = some id ∧
      ∀ {events other}, s.epoll (fd id) = some (events, other) → other = id := by
  rw [← shared.fds id]
  cases shared.active id active with
  | watched _ channel epoll =>
      refine ⟨channel, fun found => ?_⟩
      rw [epoll] at found
      cases found
      rfl
  | unwatched _ _ channel epoll =>
      exact ⟨channel, fun found => absurd (found.symm.trans epoll) (Option.some_ne_none _)⟩
  | fresh _ _ _ _ unused => exact absurd active.1 unused
  | gone _ _ removed => exact absurd removed active.2

theorem Shared.perform (shared : Shared fd s) (here : ¬s.Removed id)
    (alone : ∀ other, other ≠ id → fd other = fd id → ¬s.Active other) (op : Operation) :
    Shared fd (s.perform id op) := by
  have own := (shared.stage here alone).performed here op
  have frame := s.perform_local id op
  rw [shared.fds] at frame
  have used : (s.perform id op).Updated id ∨ (s.perform id op).Removed id := by
    by_cases last : op = .remove
    · exact .inr ((perform_removed s id op id).mpr (.inr ⟨rfl, last⟩))
    · exact .inl ((perform_updated s id op id).mpr (.inr ⟨rfl, last⟩))
  refine ⟨fun other => ?_, own.fatal.trans shared.fatal, fun ctl member => ?_,
    fun other active => ?_, fun other fresh stays => ?_, fun n nobody => ?_⟩
  · by_cases same : other = id
    · subst same
      exact frame.sameFd.trans (shared.fds other)
    · rw [frame.object other same]
      exact shared.fds other
  · obtain ⟨more, called, valid⟩ := own.ctls
    rw [called] at member
    exact (List.mem_append.mp member).elim (shared.valid ctl) (valid ctl)
  · by_cases same : other = id
    · subst same
      exact own.stage
    · have before := (perform_active same).mp active
      refine (shared.active other before).frame same ?_
      rw [shared.fds, shared.fds]
      exact fun equal => alone other same equal before
  · by_cases same : other = id
    · subst same
      exact (used.elim fresh stays).elim
    · rw [frame.object other same]
      refine shared.unused other (fun old => fresh ?_) fun old => stays ?_
      · exact (perform_updated s id op other).mpr (.inl old)
      · exact (perform_removed s id op other).mpr (.inl old)
  · by_cases same : n = fd id
    · subst same
      have removed : (s.perform id op).Removed id := by
        by_contra stays
        exact nobody id rfl ⟨used.resolve_right stays, stays⟩
      have fdAfter : ((s.perform id op).objects id).fd = fd id := frame.sameFd.trans (shared.fds id)
      cases own.stage with
      | gone channel epoll _ =>
          rw [fdAfter] at channel epoll
          exact ⟨channel, epoll⟩
      | fresh _ _ _ _ _ stays => exact absurd removed stays
      | watched _ _ _ _ stays => exact absurd removed stays
      | unwatched _ _ _ _ _ stays => exact absurd removed stays
    · rw [frame.channel n same, frame.epoll n same]
      refine shared.free n fun other held active => ?_
      have apart : other ≠ id := by
        rintro rfl
        exact same held.symm
      exact nobody other held ((perform_active apart).mpr active)

end Shared

end EpollPoller.System

namespace TcpServer

open Execution
open EpollPoller (Operation)

def established (s : TcpServer) (c : Nat) : Bool :=
  s.log.any fun
    | .establishConnection d _ => d == c
    | _ => false

/-- The channel of the connection is in `channels_` of its loop. -/
def inTable (s : TcpServer) (c : Nat) : Bool := s.established c && !s.destroyed c

/-- `Kept`, tested where a functor of the connection can be. -/
def holds (s : TcpServer) (c : Nat) : Bool :=
  decide (s.connections (s.conns c).name = some c) ||
    [0, (s.conns c).loop].any fun i => (s.loops i).pending.any (Task.of c)

theorem At.holds {s : TcpServer} {c : Nat} {stage : Stage} (here : At s c stage)
    (kept : Kept s c) : s.holds c = true := by
  rcases kept with listed | ⟨i, task, member, own⟩
  · simp [TcpServer.holds, listed]
  · have held : task ∈ (s.loops i).pending.filter (Task.of c) :=
      List.mem_filter.mpr ⟨member, own⟩
    have place : i = 0 ∨ i = (s.conns c).loop := by
      rw [here.tasks] at held
      cases stage with
      | queued | destroying =>
          by_cases same : i = (s.conns c).loop
          · exact .inr same
          · simp [Stage.tasks, same] at held
      | removing =>
          by_cases same : i = 0
          · exact .inl same
          · simp [Stage.tasks, same] at held
      | entering | up | closing | leaving | left | gone => cases held
    have found : ((s.loops i).pending.any (Task.of c)) = true :=
      List.any_eq_true.mpr ⟨task, member, own⟩
    rcases place with rfl | rfl <;> simp [TcpServer.holds, found]

def closed (s : TcpServer) : Action → Option Nat
  | .handleClose c => some c
  | .runFunctor i =>
      match (s.loops i).curFunctors with
      | .forceCloseInLoop c :: _ => if s.up c then some c else none
      | _ => none
  | _ => none

/-- What a call does to the channel of its connection: the loop, the connection and the call on
the poller. -/
def Event.operations (s : TcpServer) : Event → List (Nat × Nat × Operation)
  | .establishConnection c i => [(i, c, .enableReading)]
  | .destroyConnection c i =>
      if (s.conns c).state = .kDisConnected then [(i, c, .remove)]
      else [(i, c, .disableAll), (i, c, .remove)]
  | .newConnection _ | .removeConnectionInLoop _ _ => []

def operations (s : TcpServer) (action : Action) (next : TcpServer) :
    List (Nat × Nat × Operation) :=
  (s.closed action).toList.map (fun c => ((s.conns c).loop, c, .disableAll)) ++
    (next.log.drop s.log.length).flatMap (Event.operations s)

def Event.operation : Event → Option (Nat × Nat × Operation)
  | .establishConnection c i => some (i, c, .enableReading)
  | .destroyConnection c i => some (i, c, .remove)
  | .newConnection _ | .removeConnectionInLoop _ _ => none

theorem Event.operations_none {s : TcpServer} {event : Event} (quiet : event.operation = none) :
    event.operations s = [] := by
  cases event with
  | newConnection | removeConnectionInLoop => rfl
  | establishConnection | destroyConnection => cases quiet

theorem Event.operations_some {s : TcpServer} {event : Event} {i c : Nat} {op : Operation}
    (made : event.operation = some (i, c, op)) :
    event.operations s = [(i, c, op)] ∨
      op = .remove ∧ event.operations s = [(i, c, .disableAll), (i, c, op)] := by
  cases event with
  | establishConnection d j =>
      cases made
      exact .inl rfl
  | destroyConnection d j =>
      cases made
      by_cases closed : (s.conns c).state = .kDisConnected
      · exact .inl (if_pos closed)
      · exact .inr ⟨rfl, if_neg closed⟩
  | newConnection | removeConnectionInLoop => cases made

/-- What a step adds to the log: at most one call on a poller, and that at the end. -/
inductive Notes : List Event → Prop
  | quiet {events : List Event} (quiet : ∀ event ∈ events, event.operation = none) : Notes events
  | calls {before : List Event} {event : Event} {target : Nat × Nat × Operation}
      (quiet : ∀ event ∈ before, event.operation = none) (made : event.operation = some target) :
      Notes (before ++ [event])

theorem removeConnectionInLoop_notes {s next : TcpServer} {c i : Nat}
    (removed : s.removeConnectionInLoop c i = some next) :
    ∃ events, next.log = s.log ++ events ∧ Notes events := by
  have quiet (n : Nat) :
      ∀ event ∈ [Event.removeConnectionInLoop c n], event.operation = none := by
    simp [Event.operation]
  unfold removeConnectionInLoop at removed
  split at removed
  · cases removed
    exact ⟨_, List.append_assoc _ _ _, .calls (quiet _) rfl⟩
  · rw [queueIn_log removed]
    exact ⟨_, rfl, .quiet (quiet _)⟩

theorem Stepped.notes {s next : TcpServer} {action : Action} (stepped : Stepped s action next) :
    ∃ events, next.log = s.log ++ events ∧ Notes events := by
  have nothing (same : next.log = s.log) : ∃ events, next.log = s.log ++ events ∧ Notes events :=
    ⟨[], by rw [same, List.append_nil], .quiet fun _ member => nomatch member⟩
  have called (event : Event) {target : Nat × Nat × Operation}
      (made : event.operation = some target) : Notes [event] :=
    List.nil_append [event] ▸ .calls (fun _ member => nomatch member) made
  cases stepped with
  | machine moved =>
      obtain ⟨-, ran⟩ := Option.ite_none_right_eq_some.mp moved
      obtain ⟨loop, -, rfl⟩ := Option.map_eq_some_iff.mp ran
      exact nothing rfl
  | newConnection made =>
      have quiet : ∀ event ∈ [Event.newConnection s.created], event.operation = none := by
        simp [Event.operation]
      unfold TcpServer.newConnection at made
      split at made
      · cases made
        exact ⟨_, List.append_assoc _ _ _, .calls quiet rfl⟩
      · rw [queueIn_log made]
        exact ⟨_, rfl, .quiet quiet⟩
  | runFunctor functors moved ran =>
      rename_i i task rest loop
      cases task with
      | establishConnection c =>
          cases ran
          exact ⟨_, rfl, called _ rfl⟩
      | removeConnectionInLoop c =>
          exact removeConnectionInLoop_notes (s := s.setLoop i loop) ran
      | destroyConnection c =>
          cases ran
          exact ⟨_, rfl, called _ rfl⟩
      | forceCloseInLoop c =>
          cases ran
          refine nothing ?_
          split <;> rfl
      | other =>
          cases ran
          exact nothing rfl
  | callbackReturn frames returned =>
      unfold removeConnection at returned
      split at returned
      · exact removeConnectionInLoop_notes (s := s.setFrames _ _) returned
      · exact nothing ((queueIn_log returned).trans rfl)
  | forceClose inside up queued => exact nothing (queueIn_log queued)
  | handleClose | shutDown | shutDownIgnored | forceCloseIgnored => exact nothing rfl

theorem Stepped.closed {stages : Nat → Stage} {s next : TcpServer} {action : Action} {c : Nat}
    (inv : Inv stages s) (once : s.Asserted action) (stepped : Stepped s action next)
    (closes : s.closed action = some c) :
    c < s.created ∧ s.up c = true ∧ next.log = s.log := by
  cases stepped with
  | handleClose inside user established =>
      cases closes
      exact ⟨inside, once, rfl⟩
  | runFunctor functors moved ran =>
      rename_i i task rest loop
      simp only [TcpServer.closed, functors] at closes
      cases task with
      | forceCloseInLoop d =>
          obtain ⟨up, same⟩ := Option.ite_none_right_eq_some.mp closes
          cases same
          have pending := EventLoop.runNext_pending functors moved
          have inside := (inv.forced c i (by rw [pending]; exact List.mem_cons_self)).1
          cases ran
          refine ⟨inside, up, ?_⟩
          split <;> rfl
      | establishConnection | removeConnectionInLoop | destroyConnection | other => cases closes
  | machine | newConnection | callbackReturn | shutDown | forceClose | shutDownIgnored
  | forceCloseIgnored => cases closes

theorem Inv.ends {stages : Nat → Stage} {s : TcpServer} {c : Nat} {event : Event}
    {before : List Event} (inv : Inv stages s) (own : event.of c = true)
    (log : s.log = before ++ [event]) :
    c < s.created ∧
      (stages c).history c (s.conns c).loop = before.filter (Event.of c) ++ [event] := by
  have noted : event ∈ s.log := by simp [log]
  have inside := inv.created_of_event own noted
  refine ⟨inside, ?_⟩
  rw [← (inv.here c inside).events, log, List.filter_append]
  simp [own]

theorem Event.establishConnection_of (c i : Nat) : (Event.establishConnection c i).of c = true :=
  beq_self_eq_true c

theorem Event.destroyConnection_of (c i : Nat) : (Event.destroyConnection c i).of c = true :=
  beq_self_eq_true c

theorem Stage.established_own {stage : Stage} {c own i : Nat}
    (last : (stage.history c own).getLast? = some (.establishConnection c i)) : own = i := by
  cases stage with
  | entering | queued | left | destroying | gone => simp [history] at last
  | up | closing | leaving | removing => simpa [history] using last

theorem Inv.establishes {stages : Nat → Stage} {s : TcpServer} {c i : Nat} {before : List Event}
    (inv : Inv stages s) (log : s.log = before ++ [.establishConnection c i]) :
    c < s.created ∧ (s.conns c).loop = i ∧ s.destroyed c = false := by
  obtain ⟨inside, ends⟩ := inv.ends (Event.establishConnection_of c i) log
  have last := congrArg List.getLast? ends
  rw [List.getLast?_concat] at last
  refine ⟨inside, Stage.established_own last, ?_⟩
  rw [Bool.eq_false_iff]
  intro dead
  obtain ⟨j, noted⟩ := destroyed_iff.mp dead
  rw [mem_log_iff (Event.destroyConnection_of c j), (inv.here c inside).events] at noted
  rw [Stage.gone_of_destroyed noted] at last
  simp [Stage.history] at last

/-- `DestroyConnection` comes once, after `EstablishConnection` and in the loop of the
connection. -/
theorem Inv.destroys {stages : Nat → Stage} {s : TcpServer} {c i : Nat} {before : List Event}
    (inv : Inv stages s) (log : s.log = before ++ [.destroyConnection c i]) :
    c < s.created ∧ (s.conns c).loop = i ∧ .establishConnection c i ∈ before ∧
      ∀ j, .destroyConnection c j ∉ before := by
  obtain ⟨inside, ends⟩ := inv.ends (Event.destroyConnection_of c i) log
  have gone : stages c = .gone := by
    have noted : .destroyConnection c i ∈ (stages c).history c (s.conns c).loop := by
      rw [ends]
      simp
    exact Stage.gone_of_destroyed noted
  rw [gone] at ends
  have front := congrArg List.dropLast ends
  rw [List.dropLast_concat] at front
  have own : (s.conns c).loop = i := by
    have last := congrArg List.getLast? ends
    rw [List.getLast?_concat] at last
    simpa [Stage.history] using last
  refine ⟨inside, own, ?_, fun j noted => ?_⟩
  · have held : .establishConnection c i ∈ before.filter (Event.of c) := by
      rw [← front, own]
      simp [Stage.history]
    exact (List.mem_filter.mp held).1
  · have held : .destroyConnection c j ∈ before.filter (Event.of c) :=
      List.mem_filter.mpr ⟨noted, Event.destroyConnection_of c j⟩
    rw [← front] at held
    simp [Stage.history] at held

theorem established_iff {s : TcpServer} {c : Nat} :
    s.established c = true ↔ ∃ i, .establishConnection c i ∈ s.log := by
  constructor
  · intro found
    obtain ⟨event, noted, own⟩ := List.any_eq_true.mp found
    cases event with
    | establishConnection d i =>
        obtain rfl := beq_iff_eq.mp own
        exact ⟨i, noted⟩
    | newConnection | removeConnectionInLoop | destroyConnection => cases own
  · rintro ⟨i, noted⟩
    exact List.any_eq_true.mpr ⟨_, noted, beq_self_eq_true c⟩

theorem destroyed_mono {s next : TcpServer} {events : List Event} {c : Nat}
    (log : next.log = s.log ++ events) (alive : next.destroyed c = false) :
    s.destroyed c = false := by
  rw [Bool.eq_false_iff] at alive ⊢
  intro dead
  obtain ⟨i, noted⟩ := destroyed_iff.mp dead
  exact alive (destroyed_iff.mpr ⟨i, log ▸ List.mem_append_left _ noted⟩)

theorem noted_same {s next : TcpServer} {events : List Event} {c : Nat}
    (log : next.log = s.log ++ events)
    (quiet : ∀ event ∈ events, ∀ i op, event.operation ≠ some (i, c, op)) :
    next.inTable c = s.inTable c ∧ next.destroyed c = s.destroyed c := by
  have established : next.established c = s.established c := by
    rw [Bool.eq_iff_iff, established_iff, established_iff, log]
    refine exists_congr fun i => List.mem_append.trans (or_iff_left fun noted => ?_)
    exact quiet _ noted i _ rfl
  have destroyed : next.destroyed c = s.destroyed c := by
    rw [Bool.eq_iff_iff, destroyed_iff, destroyed_iff, log]
    refine exists_congr fun i => List.mem_append.trans (or_iff_left fun noted => ?_)
    exact quiet _ noted i _ rfl
  rw [inTable, inTable, established, destroyed]
  exact ⟨rfl, rfl⟩

theorem Inv.up_inTable {stages : Nat → Stage} {s : TcpServer} {c : Nat} (inv : Inv stages s)
    (inside : c < s.created) (up : s.up c = true) : s.inTable c = true := by
  have here := inv.of_up inside up
  have alive := here.up_alive up
  have noted : .establishConnection c (s.conns c).loop ∈ s.log := by
    rw [mem_log_iff (Event.establishConnection_of c _), here.events]
    simp [Stage.history]
  rw [inTable, established_iff.mpr ⟨_, noted⟩, alive]
  rfl

theorem Inv.inTable_created {stages : Nat → Stage} {s : TcpServer} {c : Nat} (inv : Inv stages s)
    (table : s.inTable c = true) : c < s.created ∧ s.destroyed c = false := by
  simp only [inTable, Bool.and_eq_true, Bool.not_eq_true'] at table
  obtain ⟨i, noted⟩ := established_iff.mp table.1
  exact ⟨inv.created_of_event (Event.establishConnection_of c i) noted, table.2⟩

structure Calls (s next : TcpServer) (c : Nat) (op : Operation) : Prop where
  alive : s.destroyed c = false
  table : next.inTable c = decide (op ≠ .remove)
  destroyed : next.destroyed c = decide (op = .remove)
  others : ∀ d, d ≠ c → next.inTable d = s.inTable d ∧ next.destroyed d = s.destroyed d

theorem Inv.calls_closed {stages : Nat → Stage} {s next : TcpServer} {c : Nat}
    (inv : Inv stages s) (inside : c < s.created) (up : s.up c = true)
    (log : next.log = s.log) : Calls s next c .disableAll := by
  have table := inv.up_inTable inside up
  have alive := (inv.inTable_created table).2
  have same (d : Nat) := noted_same (c := d) (log.trans (List.append_nil _).symm)
    fun _ member => nomatch member
  exact ⟨alive, (same c).1.trans table, (same c).2.trans alive, fun d _ => same d⟩

theorem Inv.calls_noted {stages : Nat → Stage} {s next : TcpServer} {before : List Event}
    {event : Event} {i c : Nat} {op : Operation} (inv : Inv stages next)
    (log : next.log = s.log ++ (before ++ [event]))
    (quiet : ∀ event ∈ before, event.operation = none)
    (made : event.operation = some (i, c, op)) :
    c < next.created ∧ (next.conns c).loop = i ∧ Calls s next c op ∧
      (op = .remove → s.inTable c = true) := by
  have others : ∀ d, d ≠ c → next.inTable d = s.inTable d ∧ next.destroyed d = s.destroyed d := by
    refine fun d apart => noted_same log fun later member j kind noted => ?_
    rcases List.mem_append.mp member with early | last
    · exact Option.some_ne_none _ (noted.symm.trans (quiet later early))
    · rw [List.mem_singleton.mp last, made] at noted
      cases noted
      exact apart rfl
  have last : next.log = (s.log ++ before) ++ [event] := by rw [log, List.append_assoc]
  have noted : event ∈ next.log := by simp [last]
  cases event with
  | establishConnection d j =>
      cases made
      obtain ⟨inside, own, alive⟩ := inv.establishes last
      refine ⟨inside, own, ⟨destroyed_mono log alive, ?_, alive, others⟩, nofun⟩
      rw [inTable, established_iff.mpr ⟨_, noted⟩, alive]
      rfl
  | destroyConnection d j =>
      cases made
      obtain ⟨inside, own, entered, once⟩ := inv.destroys last
      have dead : next.destroyed c = true := destroyed_iff.mpr ⟨_, noted⟩
      have alive : s.destroyed c = false := by
        rw [Bool.eq_false_iff]
        intro gone
        obtain ⟨k, early⟩ := destroyed_iff.mp gone
        exact once k (List.mem_append_left _ early)
      refine ⟨inside, own, ⟨alive, by simp [inTable, dead], dead, others⟩, fun _ => ?_⟩
      rcases List.mem_append.mp entered with early | wrong
      · rw [inTable, established_iff.mpr ⟨_, early⟩, alive]
        rfl
      · cases quiet _ wrong
  | newConnection | removeConnectionInLoop => cases made

end TcpServer

structure DescriptorReuse where
  server : TcpServer
  pollers : Nat → EpollPoller.System

namespace DescriptorReuse

open Execution TcpServer
open EpollPoller (Operation System)

inductive Action where
  | server (action : TcpServer.Action)
  -- A handler or user code changes the interest in a connection. What `SendInLoop` does behind
  -- a callback of its own that had the connection destroyed is left out.
  | update (c : Nat) (op : Operation)

/-- The loop calls `op` on the channel. Nothing happens in a process that was ended. -/
def call (pollers : Nat → System) (target : Nat × Nat × Operation) : Nat → System :=
  Function.update pollers target.1
    (if (pollers target.1).fatal then pollers target.1
    else (pollers target.1).perform target.2.1 target.2.2)

section
-- what `accept` returns for each connection
variable (fd : Nat → Nat)

/-- No connection that may be there has the descriptor. -/
def fresh (s : TcpServer) : Bool :=
  (List.range s.created).all fun c => !s.holds c || fd c != fd s.created

def step (d : DescriptorReuse) : Action → Option DescriptorReuse
  | .server action =>
      if action.accepts ≠ 0 ∧ fresh fd d.server = false then none else
        (d.server.step action).map fun server =>
          ⟨server, (d.server.operations action server).foldl call d.pollers⟩
  | .update c op =>
      if op ≠ .remove ∧ d.server.inTable c = true then
        some { d with pollers := call d.pollers ((d.server.conns c).loop, c, op) }
      else none

def init (start : Start) : DescriptorReuse := ⟨start.server, fun _ => System.init fd⟩

/-- `HandleClose` runs at most once on a connection. -/
def Asserted (d : DescriptorReuse) : Action → Prop
  | .server action => d.server.Asserted action
  | .update _ _ => True

instance (d : DescriptorReuse) : ∀ action, Decidable (d.Asserted action)
  | .server action => inferInstanceAs (Decidable (d.server.Asserted action))
  | .update _ _ => isTrue trivial

/-- The pollers have the channels of the connections that are established and not destroyed. -/
structure Tables (s : TcpServer) (pollers : Nat → System) : Prop where
  shared : ∀ i, (pollers i).Shared fd
  active : ∀ i c, (pollers i).Active c ↔ (s.conns c).loop = i ∧ s.inTable c = true
  removed : ∀ i c, (pollers i).Removed c → s.destroyed c = true

/-- Connections that are not destroyed have descriptors of their own. -/
structure Inv (d : DescriptorReuse) : Prop where
  server : ∃ stages, TcpServer.Inv stages d.server
  follows : FollowsUp d.server
  tables : Tables fd d.server d.pollers
  distinct : ∀ c < d.server.created, ∀ e < d.server.created, c ≠ e →
    d.server.destroyed c = false → d.server.destroyed e = false → fd c ≠ fd e

end

section Steps
variable {fd : Nat → Nat} {s next : TcpServer} {pollers : Nat → System}

theorem Tables.same (tables : Tables fd s pollers)
    (log : ∀ c, next.inTable c = s.inTable c ∧ next.destroyed c = s.destroyed c)
    (loops : ∀ c, s.inTable c = true → (next.conns c).loop = (s.conns c).loop) :
    Tables fd next pollers where
  shared := tables.shared
  active i c := by
    rw [tables.active, (log c).1]
    exact and_congr_left fun table => by rw [loops c table]
  removed i c gone := (log c).2.trans (tables.removed i c gone)

theorem Tables.call {c : Nat} {op : Operation} (tables : Tables fd s pollers)
    (calls : Calls s next c op)
    (apart : ∀ other, other ≠ c → s.inTable other = true → fd other ≠ fd c)
    (loops : ∀ d, s.inTable d = true → (next.conns d).loop = (s.conns d).loop) :
    Tables fd next (call pollers ((next.conns c).loop, c, op)) := by
  have shared := tables.shared (next.conns c).loop
  have here : ¬(pollers (next.conns c).loop).Removed c := fun gone =>
    Bool.false_ne_true (calls.alive.symm.trans (tables.removed _ c gone))
  have performed := shared.perform here
    (fun other own same active => apart other own ((tables.active _ other).mp active).2 same) op
  have made : DescriptorReuse.call pollers ((next.conns c).loop, c, op) =
      Function.update pollers (next.conns c).loop
        ((pollers (next.conns c).loop).perform c op) := by
    simp [DescriptorReuse.call, shared.fatal]
  rw [made]
  refine ⟨fun i => ?_, fun i e => ?_, fun i e gone => ?_⟩
  · by_cases own : i = (next.conns c).loop
    · subst own
      rwa [Function.update_self]
    · rw [Function.update_of_ne own]
      exact tables.shared i
  · by_cases own : i = (next.conns c).loop
    · subst own
      rw [Function.update_self]
      by_cases same : e = c
      · subst same
        rw [calls.table, decide_eq_true_iff, System.Active, System.perform_updated,
          System.perform_removed]
        constructor
        · rintro ⟨-, stays⟩
          exact ⟨rfl, fun last => stays (.inr ⟨rfl, last⟩)⟩
        · rintro ⟨-, real⟩
          exact ⟨.inr ⟨rfl, real⟩, fun gone => gone.elim here fun last => real last.2⟩
      · rw [System.perform_active same, tables.active, (calls.others e same).1]
        exact and_congr_left fun table => by rw [loops e table]
    · rw [Function.update_of_ne own, tables.active]
      by_cases same : e = c
      · subst same
        refine iff_of_false ?_ fun table => own table.1.symm
        rintro ⟨here, table⟩
        exact own ((loops e table).trans here).symm
      · rw [(calls.others e same).1]
        exact and_congr_left fun table => by rw [loops e table]
  · by_cases same : e = c
    · subst same
      rw [calls.destroyed, decide_eq_true_iff]
      by_contra stays
      by_cases own : i = (next.conns e).loop
      · subst own
        rw [Function.update_self, System.perform_removed] at gone
        exact gone.elim here fun last => stays last.2
      · rw [Function.update_of_ne own] at gone
        exact Bool.false_ne_true (calls.alive.symm.trans (tables.removed i e gone))
    · rw [(calls.others e same).2]
      by_cases own : i = (next.conns c).loop
      · subst own
        rw [Function.update_self, System.perform_removed] at gone
        exact gone.elim (tables.removed _ e) fun last => absurd last.1 same
      · rw [Function.update_of_ne own] at gone
        exact tables.removed i e gone

theorem Inv.apart {d : DescriptorReuse} {action : TcpServer.Action} (inv : Inv fd d)
    (stepped : Stepped d.server action next)
    (free : action.accepts = 0 ∨ fresh fd d.server = true) :
    ∀ c < next.created, ∀ e < next.created, c ≠ e →
      d.server.destroyed c = false → d.server.destroyed e = false → fd c ≠ fd e := by
  obtain ⟨stages, server⟩ := inv.server
  have created := stepped.created
  -- an old connection that is not destroyed holds its descriptor
  have held (c : Nat) (inside : c < d.server.created) (alive : d.server.destroyed c = false)
      (new : d.server.created < next.created) : fd c ≠ fd d.server.created := by
    have here := server.here c inside
    have kept := here.kept inv.follows fun i noted =>
      Bool.false_ne_true (alive.symm.trans (destroyed_iff.mpr ⟨i, noted⟩))
    have fresh := free.resolve_left (by omega)
    have checked := List.all_eq_true.mp fresh c (List.mem_range.mpr inside)
    simpa [here.holds kept] using checked
  have accepts : action.accepts ≤ 1 := by cases action <;> simp [TcpServer.Action.accepts]
  intro c insideC e insideE apart aliveC aliveE
  rcases Nat.lt_or_ge c d.server.created with oldC | newC
  · rcases Nat.lt_or_ge e d.server.created with oldE | newE
    · exact inv.distinct c oldC e oldE apart aliveC aliveE
    · obtain rfl : e = d.server.created := by omega
      exact held c oldC aliveC insideE
  · obtain rfl : c = d.server.created := by omega
    exact (held e (by omega) aliveE insideC).symm

theorem Tables.update {stages : Nat → Stage} {c : Nat} {op : Operation}
    (tables : Tables fd s pollers) (inv : TcpServer.Inv stages s)
    (apart : ∀ c < s.created, ∀ e < s.created, c ≠ e →
      s.destroyed c = false → s.destroyed e = false → fd c ≠ fd e)
    (real : op ≠ .remove) (table : s.inTable c = true) :
    Tables fd s (DescriptorReuse.call pollers ((s.conns c).loop, c, op)) := by
  obtain ⟨inside, alive⟩ := inv.inTable_created table
  have calls : Calls s s c op :=
    ⟨alive, by simpa [real] using table, by simpa [real] using alive, fun _ _ => ⟨rfl, rfl⟩⟩
  refine tables.call calls (fun other own listed => ?_) fun _ _ => rfl
  obtain ⟨insideOther, aliveOther⟩ := inv.inTable_created listed
  exact apart other insideOther c inside own aliveOther alive

theorem server_tables {stages after : Nat → Stage} {action : TcpServer.Action}
    (tables : Tables fd s pollers) (inv : TcpServer.Inv stages s)
    (invNext : TcpServer.Inv after next) (once : s.Asserted action)
    (stepped : Stepped s action next)
    (apart : ∀ c < next.created, ∀ e < next.created, c ≠ e →
      s.destroyed c = false → s.destroyed e = false → fd c ≠ fd e) :
    Tables fd next ((s.operations action next).foldl DescriptorReuse.call pollers) := by
  have loops (e : Nat) (table : s.inTable e = true) :=
    (stepped.owner (inv.inTable_created table).1).2
  have called {c : Nat} {op : Operation} {pollers : Nat → System} (tables : Tables fd s pollers)
      (inside : c < next.created) (calls : Calls s next c op) :
      Tables fd next (DescriptorReuse.call pollers ((next.conns c).loop, c, op)) := by
    refine tables.call calls (fun other own table => ?_) loops
    obtain ⟨insideOther, alive⟩ := inv.inTable_created table
    exact apart other (stepped.owner insideOther).1 c inside own alive calls.alive
  cases closes : s.closed action with
  | some c =>
      obtain ⟨inside, up, log⟩ := stepped.closed inv once closes
      have operations : s.operations action next = [((next.conns c).loop, c, .disableAll)] := by
        simp [operations, closes, log, (stepped.owner inside).2]
      rw [operations]
      exact called tables (stepped.owner inside).1 (inv.calls_closed inside up log)
  | none =>
      obtain ⟨events, log, notes⟩ := stepped.notes
      have operations : s.operations action next = events.flatMap (Event.operations s) := by
        simp [operations, closes, log]
      have silent (events : List Event) (quiet : ∀ event ∈ events, event.operation = none) :
          events.flatMap (Event.operations s) = [] :=
        List.flatMap_eq_nil_iff.mpr fun event member => Event.operations_none (quiet event member)
      rw [operations]
      cases notes with
      | quiet quiet =>
          rw [silent _ quiet]
          refine tables.same (fun c => noted_same log fun event member i op made => ?_) loops
          exact Option.some_ne_none _ (made.symm.trans (quiet event member))
      | @calls before event target quiet made =>
          obtain ⟨i, c, op⟩ := target
          obtain ⟨inside, rfl, calls, entered⟩ := invNext.calls_noted log quiet made
          rw [List.flatMap_append, silent _ quiet, List.flatMap_singleton, List.nil_append]
          rcases Event.operations_some (s := s) made with one | ⟨last, two⟩
          · rw [one]
            exact called tables inside calls
          · have table := entered last
            have disabled : Tables fd s
                (DescriptorReuse.call pollers ((s.conns c).loop, c, .disableAll)) :=
              tables.update inv (fun c insideC e insideE => apart c (stepped.owner insideC).1 e
                (stepped.owner insideE).1) nofun table
            rw [← loops c table] at disabled
            rw [two]
            exact called disabled inside calls

theorem step_inv {d after : DescriptorReuse} {action : Action} (inv : Inv fd d)
    (few : after.server.created < maxConnections) (once : d.Asserted action)
    (stepped : step fd d action = some after) : Inv fd after := by
  obtain ⟨stages, server⟩ := inv.server
  cases action with
  | server action =>
      obtain ⟨free, moved⟩ := Option.ite_none_left_eq_some.mp stepped
      obtain ⟨next, ran, rfl⟩ := Option.map_eq_some_iff.mp moved
      have made := step_stepped ran
      obtain ⟨later, invNext⟩ := made.inv server few once
      have apart := inv.apart made (by
        by_cases accepts : action.accepts = 0
        · exact .inl accepts
        · exact .inr (by simpa [accepts] using free))
      obtain ⟨events, log, -⟩ := made.notes
      refine ⟨⟨later, invNext⟩, step_followsUp _ _ _ inv.follows ran,
        server_tables inv.tables server invNext once made apart, ?_⟩
      exact fun c insideC e insideE other aliveC aliveE => apart c insideC e insideE other
        (destroyed_mono log aliveC) (destroyed_mono log aliveE)
  | update c op =>
      obtain ⟨⟨real, table⟩, moved⟩ := Option.ite_none_right_eq_some.mp stepped
      cases moved
      exact ⟨inv.server, inv.follows, inv.tables.update server inv.distinct real table,
        inv.distinct⟩

theorem step_server {d after : DescriptorReuse} {action : TcpServer.Action}
    (stepped : step fd d (.server action) = some after) :
    Stepped d.server action after.server := by
  obtain ⟨-, moved⟩ := Option.ite_none_left_eq_some.mp stepped
  obtain ⟨next, made, rfl⟩ := Option.map_eq_some_iff.mp moved
  exact step_stepped made

theorem step_update {d after : DescriptorReuse} {c : Nat} {op : Operation}
    (stepped : step fd d (.update c op) = some after) : after.server = d.server := by
  obtain ⟨-, moved⟩ := Option.ite_none_right_eq_some.mp stepped
  cases moved
  rfl

theorem step_created {d after : DescriptorReuse} {action : Action}
    (stepped : step fd d action = some after) : d.server.created ≤ after.server.created := by
  cases action with
  | server action => exact (step_server stepped).created ▸ Nat.le_add_right _ _
  | update c op => rw [step_update stepped]

theorem init_inv (fd : Nat → Nat) (start : Start) : Inv fd (init fd start) where
  server := ⟨_, start.inv⟩
  follows _ _ noted := absurd noted List.not_mem_nil
  tables :=
    { shared := fun _ => System.init_shared fd
      active := fun _ _ => iff_of_false (fun active => by simp [init, System.Active,
        System.Updated, System.init] at active) fun table => Bool.false_ne_true table.2
      removed := fun _ _ gone => by cases gone }
  distinct _ inside := absurd inside (Nat.not_lt_zero _)

theorem run_inv {start : Start} {actions : List Action} {final : DescriptorReuse}
    (ran : run (step fd) (init fd start) actions = some final)
    (few : final.server.created < maxConnections)
    (once : Along (step fd) Asserted (init fd start) actions) : Inv fd final := by
  refine run_invariant_along (fun d => d.server.created < maxConnections → Inv fd d) ?_
    (fun _ => init_inv fd start) once ran few
  intro d action after inv asserted stepped bound
  exact step_inv (inv (Nat.lt_of_le_of_lt (step_created stepped) bound)) bound asserted stepped

theorem Tables.channel_iff {i c : Nat} (tables : Tables fd s pollers)
    (own : (s.conns c).loop = i) :
    (pollers i).channels (fd c) = some c ↔ s.inTable c = true := by
  have shared := tables.shared i
  constructor
  · intro found
    by_contra out
    by_cases other : ∃ e, fd e = fd c ∧ (pollers i).Active e
    · obtain ⟨e, same, active⟩ := other
      have here := (shared.listed active).1
      rw [same, found] at here
      cases here
      exact out ((tables.active i c).mp active).2
    · obtain ⟨empty, -⟩ := shared.free (fd c) fun e same active => other ⟨e, same, active⟩
      exact Option.some_ne_none _ (found.symm.trans empty)
  · exact fun table => (shared.listed ((tables.active i c).mpr ⟨own, table⟩)).1

theorem Tables.epoll {i n c : Nat} {events : Mask} (tables : Tables fd s pollers)
    (watched : (pollers i).epoll n = some (events, c)) :
    fd c = n ∧ (s.conns c).loop = i ∧ s.inTable c = true := by
  have shared := tables.shared i
  have found : ∃ e, fd e = n ∧ (pollers i).Active e := by
    by_contra nobody
    obtain ⟨-, empty⟩ := shared.free n fun e same active => nobody ⟨e, same, active⟩
    exact Option.some_ne_none _ (watched.symm.trans empty)
  obtain ⟨e, rfl, active⟩ := found
  obtain rfl := (shared.listed active).2 watched
  exact ⟨rfl, (tables.active i c).mp active⟩

end Steps

/-- However the kernel gives descriptors out again, where `HandleClose` runs at most once on a
connection and nobody updates a channel behind its `DestroyConnection`: no poller makes a call that
`epoll_ctl` refuses, a loop has the channel of a connection under its descriptor from
`EstablishConnection` until `DestroyConnection`, and whatever `epoll_wait` returns is such a channel
of the loop. -/
theorem reused_descriptors_keep_apart (fd : Nat → Nat) (start : Start) (actions : List Action)
    (final : DescriptorReuse) (ran : run (step fd) (init fd start) actions = some final)
    (few : final.server.created < maxConnections)
    (once : Along (step fd) Asserted (init fd start) actions) (i : Nat) :
    ((final.pollers i).fatal = false ∧ ∀ ctl ∈ (final.pollers i).ctls, ctl.Valid) ∧
      (∀ c, (final.server.conns c).loop = i →
        ((final.pollers i).channels (fd c) = some c ↔ final.server.inTable c = true)) ∧
      ∀ n events c, (final.pollers i).epoll n = some (events, c) →
        fd c = n ∧ (final.server.conns c).loop = i ∧ final.server.inTable c = true := by
  have tables := (run_inv ran few once).tables
  have shared := tables.shared i
  exact ⟨⟨shared.fatal, shared.valid⟩, fun c own => tables.channel_iff own,
    fun n events c watched => tables.epoll watched⟩

def descriptorGivenAgain : List Action :=
  [peerCloses, turn 0 [.functorReturn, .finish, .poll, .pollReturn],
    [.newConnection, .machine 2 (.pushed 0)],
    turn 2 [.enter, .poll, .pollReturn, .beginExecute, .swap],
    [.runFunctor 2]].flatten.map .server

theorem second_in_other_loop : ∃ final,
    run (step fun _ => 5) (init (fun _ => 5) (Start.fresh "echo" 2)) descriptorGivenAgain =
        some final ∧
      final.server.destroyed 0 = true ∧ (final.pollers 1).channels 5 = none ∧
        (final.pollers 2).channels 5 = some 1 := by
  have checked : (run (step fun _ => 5) (init (fun _ => 5) (Start.fresh "echo" 2))
      descriptorGivenAgain).map (fun final => (final.server.created, final.server.destroyed 0,
        (final.pollers 1).channels 5, (final.server.conns 1).loop, final.server.inTable 1)) =
      some (2, true, none, 2, true) := by decide +kernel
  obtain ⟨final, ran, seen⟩ := Option.map_eq_some_iff.mp checked
  simp only [Prod.mk.injEq] at seen
  obtain ⟨two, gone, left, own, table⟩ := seen
  obtain ⟨-, channels, -⟩ := reused_descriptors_keep_apart (fun _ => 5) (Start.fresh "echo" 2) _
    final ran (by rw [two]; decide) (by decide +kernel) 2
  exact ⟨final, ran, gone, left, (channels 1 own).mpr table⟩

end DescriptorReuse

end Muzi
