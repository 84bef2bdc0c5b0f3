import Mathlib
import Muzi.EventLoop
import Muzi.TcpConnection

/-!
The life of a connection in net/tcp_server.cc. Loop 0 is the base loop, loops
1 to `thread_nums_` are those of the pool; every thread of a loop is also a
thread that pushes on the other loops. A connection goes by its place in the
order of acceptance. On the stack of a loop thread only the calls of
`HandleClose` that are in `connection_callback_` are kept: user code runs there,
and in handlers and functors, and may close any connection of the loop. The
destructor is in ServerDestruction.lean; the history notes the calls this is
about.
-/

namespace Muzi

namespace TcpServer

inductive Task where
  | establishConnection (conn : Nat)
  | removeConnectionInLoop (conn : Nat)
  | destroyConnection (conn : Nat)
  | forceCloseInLoop (conn : Nat)
  | other
  deriving DecidableEq

inductive Event where
  | newConnection (conn : Nat)
  | establishConnection (conn loop : Nat)
  -- with the result of `erase`
  | removeConnectionInLoop (conn erased : Nat)
  | destroyConnection (conn loop : Nat)
  deriving DecidableEq

structure Conn where
  name : String
  loop : Nat
  state : ConnectionState
  deriving DecidableEq

end TcpServer

structure TcpServer where
  name : String
  connSequence : Int
  threadNums : Nat
  next : Nat
  connections : String → Option Nat
  created : Nat
  conns : Nat → TcpServer.Conn
  loops : Nat → EventLoop TcpServer.Task
  frames : Nat → List Nat
  log : List TcpServer.Event

namespace TcpServer

open Execution

def setLoop (s : TcpServer) (i : Nat) (loop : EventLoop Task) : TcpServer :=
  { s with loops := Function.update s.loops i loop }

def setState (s : TcpServer) (c : Nat) (state : ConnectionState) : TcpServer :=
  { s with conns := Function.update s.conns c { s.conns c with state := state } }

def setFrames (s : TcpServer) (i : Nat) (frames : List Nat) : TcpServer :=
  { s with frames := Function.update s.frames i frames }

def note (s : TcpServer) (event : Event) : TcpServer := { s with log := s.log ++ [event] }

/-- What the `assert` of `HandleClose` tests. -/
def up (s : TcpServer) (c : Nat) : Bool :=
  match (s.conns c).state with
  | .kConnected | .kDisConnecting => true
  | .kConnecting | .kDisConnected => false

def queueIn (thread target : Nat) (task : Task) (s : TcpServer) : Option TcpServer :=
  ((s.loops target).step (.push thread task)).map (s.setLoop target)

/-- `EventLoopThreadPool::GetNextLoop`, with the new `next_`. -/
def getNextLoop (s : TcpServer) : Nat × Nat :=
  if s.threadNums = 0 then (0, s.next) else (s.next + 1, (s.next + 1) % s.threadNums)

def establishConnection (c i : Nat) (s : TcpServer) : TcpServer :=
  (s.setState c .kConnected).note (.establishConnection c i)

def destroyConnection (c i : Nat) (s : TcpServer) : TcpServer :=
  (s.setState c .kDisConnected).note (.destroyConnection c i)

def erase (c : Nat) (s : TcpServer) : TcpServer :=
  { s with
    connections := Function.update s.connections (s.conns c).name none
    log := s.log ++ [.removeConnectionInLoop c
      (if (s.connections (s.conns c).name).isSome then 1 else 0)] }

def removeConnectionInLoop (c i : Nat) (s : TcpServer) : Option TcpServer :=
  if (s.conns c).loop = i then some ((s.erase c).destroyConnection c i)
  else (s.erase c).queueIn i (s.conns c).loop (.destroyConnection c)

def removeConnection (c i : Nat) (s : TcpServer) : Option TcpServer :=
  if i = 0 then s.removeConnectionInLoop c i else s.queueIn i 0 (.removeConnectionInLoop c)

/-- `HandleClose` up to `connection_callback_`. -/
def handleClose (c i : Nat) (s : TcpServer) : TcpServer :=
  (s.setState c .kDisConnected).setFrames i (c :: s.frames i)

def connName (s : TcpServer) : String := s.name ++ "#" ++ toString s.connSequence

/-- `NewConnection` up to `RunInLoop`; `int` wraps around. -/
def accept (s : TcpServer) : TcpServer :=
  { s with
    connSequence := (s.connSequence + 1).bmod 0x100000000
    next := s.getNextLoop.2
    connections := Function.update s.connections s.connName (some s.created)
    created := s.created + 1
    conns := Function.update s.conns s.created ⟨s.connName, s.getNextLoop.1, .kConnecting⟩
    log := s.log ++ [.newConnection s.created] }

def newConnection (s : TcpServer) : Option TcpServer :=
  if s.getNextLoop.1 = 0 then some (s.accept.establishConnection s.created 0)
  else s.accept.queueIn 0 s.getNextLoop.1 (.establishConnection s.created)

def runTask (i : Nat) (s : TcpServer) : Task → Option TcpServer
  | .establishConnection c => some (s.establishConnection c i)
  | .removeConnectionInLoop c => s.removeConnectionInLoop c i
  | .destroyConnection c => some (s.destroyConnection c i)
  | .forceCloseInLoop c => some (if s.up c then s.handleClose c i else s)
  | .other => some s

inductive Action where
  -- loop `i`, and all that has nothing to do with connections
  | machine (i : Nat) (action : EventLoop.Action Task)
  | newConnection
  | runFunctor (i : Nat)
  -- by the channel, or by `ForceClose` in the thread of the loop
  | handleClose (c : Nat)
  -- `connection_callback_` returns to `HandleClose`
  | callbackReturn (i : Nat)
  -- any thread, but for `ForceClose` that of another loop
  | shutDown (c : Nat)
  | forceClose (thread c : Nat)

/-- Steps of loop `i` that neither queue nor run functors of connections. The
thread goes on only when no callback is open. -/
def machineMay (s : TcpServer) (i : Nat) : EventLoop.Action Task → Bool
  | .push _ .other => true
  | .push _ _ => false
  | .pushed _ | .wakeUp | .quit | .queued => true
  | .loop (.queue .other) => true
  | .loop (.queue _) | .loop .runNext => false
  | .loop _ => (s.frames i).isEmpty

/-- User code runs in the thread of loop `i`. Around `Loop` the threads of the
pool run none. -/
def userCode (s : TcpServer) (i : Nat) : Bool :=
  !(s.loops i).queueing &&
    match (s.loops i).phase with
    | .outside => i == 0
    | .handling | .inFunctor _ => true
    | _ => false

def step (s : TcpServer) : Action → Option TcpServer
  | .machine i action =>
      if s.machineMay i action then ((s.loops i).step action).map (s.setLoop i) else none
  | .newConnection =>
      match (s.loops 0).phase, s.frames 0 with
      | .handling, [] => if (s.loops 0).queueing then none else s.newConnection
      | _, _ => none
  | .runFunctor i =>
      match s.frames i, (s.loops i).curFunctors with
      | [], task :: _ => do
          let loop ← (s.loops i).step (.loop .runNext)
          (s.setLoop i loop).runTask i task
      | _, _ => none
  | .handleClose c =>
      -- No event comes before `EstablishConnection` has added the channel. Nothing tests the
      -- state: the `assert` is for the debug build.
      if c < s.created ∧ s.userCode (s.conns c).loop = true ∧
          (s.conns c).state ≠ .kConnecting then
        some (s.handleClose c (s.conns c).loop)
      else none
  | .callbackReturn i =>
      if (s.loops i).queueing then none else
        match s.frames i with
        | c :: rest => (s.setFrames i rest).removeConnection c i
        | [] => none
  | .shutDown c =>
      if c < s.created then
        some (if (s.conns c).state = .kConnected then s.setState c .kDisConnecting else s)
      else none
  | .forceClose thread c =>
      if c < s.created ∧ thread ≠ (s.conns c).loop then
        if s.up c then s.queueIn thread (s.conns c).loop (.forceCloseInLoop c) else some s
      else none

/-- What the `assert` of `HandleClose` demands: it runs at most once on a connection. -/
def Asserted (s : TcpServer) : Action → Prop
  | .handleClose c => s.up c = true
  | _ => True

instance (s : TcpServer) : ∀ action, Decidable (s.Asserted action)
  | .handleClose c => inferInstanceAs (Decidable (s.up c = true))
  | .machine _ _ | .newConnection | .runFunctor _ | .callbackReturn _ | .shutDown _
  | .forceClose _ _ => isTrue trivial

/-! One connection. -/

def Task.of (c : Nat) : Task → Bool
  | .establishConnection d | .removeConnectionInLoop d | .destroyConnection d => d == c
  | .forceCloseInLoop _ | .other => false

def Event.of (c : Nat) : Event → Bool
  | .newConnection d | .establishConnection d _ | .removeConnectionInLoop d _
  | .destroyConnection d _ => d == c

theorem Task.of_apart {task : Task} {c d : Nat} (own : task.of c = true) (apart : d ≠ c) :
    task.of d = false := by
  cases task with
  | establishConnection e | removeConnectionInLoop e | destroyConnection e =>
      have same : e = c := by simpa [Task.of] using own
      simp [Task.of, same, Ne.symm apart]
  | forceCloseInLoop e => rfl
  | other => rfl

theorem Event.of_apart {event : Event} {c d : Nat} (own : event.of c = true) (apart : d ≠ c) :
    event.of d = false := by
  cases event with
  | newConnection e | establishConnection e _ | removeConnectionInLoop e _
  | destroyConnection e _ =>
      have same : e = c := by simpa [Event.of] using own
      simp [Event.of, same, Ne.symm apart]

/-- Where a connection is. `entering`, `leaving` and `left` are passed within a
step. -/
inductive Stage where
  | entering
  | queued
  | up
  | closing
  | leaving
  | removing
  | left
  | destroying
  | gone

namespace Stage

def tasks (c own : Nat) : Stage → Nat → List Task
  | .queued, i => if i = own then [.establishConnection c] else []
  | .removing, i => if i = 0 then [.removeConnectionInLoop c] else []
  | .destroying, i => if i = own then [.destroyConnection c] else []
  | _, _ => []

def frames (c own : Nat) : Stage → Nat → List Nat
  | .closing, i => if i = own then [c] else []
  | _, _ => []

def Allows : Stage → ConnectionState → Prop
  | .entering, state | .queued, state => state = .kConnecting
  | .up, state => state = .kConnected ∨ state = .kDisConnecting
  | _, state => state = .kDisConnected

def listed : Stage → Bool
  | .left | .destroying | .gone => false
  | _ => true

def history (c own : Nat) : Stage → List Event
  | .entering | .queued => [.newConnection c]
  | .up | .closing | .leaving | .removing => [.newConnection c, .establishConnection c own]
  | .left | .destroying =>
      [.newConnection c, .establishConnection c own, .removeConnectionInLoop c 1]
  | .gone =>
      [.newConnection c, .establishConnection c own, .removeConnectionInLoop c 1,
        .destroyConnection c own]

end Stage

structure At (s : TcpServer) (c : Nat) (stage : Stage) : Prop where
  tasks : ∀ i, (s.loops i).pending.filter (Task.of c) = stage.tasks c (s.conns c).loop i
  frames : ∀ i, (s.frames i).filter (fun d => d == c) = stage.frames c (s.conns c).loop i
  state : stage.Allows (s.conns c).state
  listed : s.connections (s.conns c).name = some c ↔ stage.listed = true
  events : s.log.filter (Event.of c) = stage.history c (s.conns c).loop

structure Moves (c : Nat) (s next : TcpServer) : Prop where
  created : next.created = s.created
  sequence : next.connSequence = s.connSequence
  name : next.name = s.name
  record : ∀ d, (next.conns d).name = (s.conns d).name ∧ (next.conns d).loop = (s.conns d).loop
  state : ∀ d, d ≠ c → (next.conns d).state = (s.conns d).state
  tasks : ∀ d, d ≠ c → ∀ i,
    (next.loops i).pending.filter (Task.of d) = (s.loops i).pending.filter (Task.of d)
  forced : ∀ d i, Task.forceCloseInLoop d ∈ (next.loops i).pending →
    Task.forceCloseInLoop d ∈ (s.loops i).pending
  frames : ∀ d, d ≠ c → ∀ i,
    (next.frames i).filter (fun e => e == d) = (s.frames i).filter (fun e => e == d)
  connections : ∀ name, name ≠ (s.conns c).name → next.connections name = s.connections name
  keys : ∀ name d, next.connections name = some d → s.connections name = some d
  events : ∀ d, d ≠ c → next.log.filter (Event.of d) = s.log.filter (Event.of d)

theorem Moves.refl (c : Nat) (s : TcpServer) : Moves c s s where
  created := rfl
  sequence := rfl
  name := rfl
  record _ := ⟨rfl, rfl⟩
  state _ _ := rfl
  tasks _ _ _ := rfl
  forced _ _ member := member
  frames _ _ _ := rfl
  connections _ _ := rfl
  keys _ _ found := found
  events _ _ := rfl

theorem Moves.trans {c : Nat} {s middle next : TcpServer} (first : Moves c s middle)
    (second : Moves c middle next) : Moves c s next where
  created := second.created.trans first.created
  sequence := second.sequence.trans first.sequence
  name := second.name.trans first.name
  record d := ⟨(second.record d).1.trans (first.record d).1,
    (second.record d).2.trans (first.record d).2⟩
  state d apart := (second.state d apart).trans (first.state d apart)
  tasks d apart i := (second.tasks d apart i).trans (first.tasks d apart i)
  forced d i member := first.forced d i (second.forced d i member)
  frames d apart i := (second.frames d apart i).trans (first.frames d apart i)
  connections name apart :=
    (second.connections name ((first.record c).1 ▸ apart)).trans (first.connections name apart)
  keys name d found := first.keys name d (second.keys name d found)
  events d apart := (second.events d apart).trans (first.events d apart)

theorem setState_moves (s : TcpServer) (c : Nat) (state : ConnectionState) :
    Moves c s (s.setState c state) := by
  refine { Moves.refl c s with record := fun d => ?_, state := fun d apart => ?_ }
  · by_cases same : d = c
    · subst same
      simp [setState]
    · simp [setState, same]
  · simp [setState, apart]

theorem note_moves {c : Nat} {event : Event} (own : event.of c = true) (s : TcpServer) :
    Moves c s (s.note event) := by
  refine { Moves.refl c s with events := fun d apart => ?_ }
  simp [note, Event.of_apart own apart]

theorem setFrames_moves {s : TcpServer} {c i : Nat} {frames : List Nat}
    (others : ∀ d, d ≠ c →
      frames.filter (fun e => e == d) = (s.frames i).filter (fun e => e == d)) :
    Moves c s (s.setFrames i frames) := by
  refine { Moves.refl c s with frames := fun d apart j => ?_ }
  by_cases same : j = i
  · subst same
    simpa [setFrames] using others d apart
  · simp [setFrames, same]

theorem erase_moves (s : TcpServer) (c : Nat) : Moves c s (s.erase c) := by
  refine { Moves.refl c s with
    connections := fun name apart => ?_, keys := fun name d found => ?_,
    events := fun d apart => ?_ }
  · exact Function.update_of_ne apart _ _
  · by_cases same : name = (s.conns c).name
    · simp [erase, same] at found
    · simpa [erase, same] using found
  · simp [erase, Event.of, Ne.symm apart]

theorem queueIn_pending {s next : TcpServer} {thread target : Nat} {task : Task}
    (queued : s.queueIn thread target task = some next) :
    next = { s with loops := next.loops } ∧
      ∀ i, (next.loops i).pending =
        (s.loops i).pending ++ if i = target then [task] else [] := by
  rcases Option.map_eq_some_iff.mp queued with ⟨loop, pushed, rfl⟩
  refine ⟨rfl, fun i => ?_⟩
  by_cases same : i = target
  · subst same
    simpa [setLoop] using EventLoop.push_pending pushed
  · simp [setLoop, same]

theorem queueIn_moves {s next : TcpServer} {c thread target : Nat} {task : Task}
    (own : task.of c = true) (queued : s.queueIn thread target task = some next) :
    Moves c s next := by
  rcases queueIn_pending queued with ⟨rest, pending⟩
  rw [rest] at pending ⊢
  refine { Moves.refl c s with tasks := fun d apart i => ?_, forced := fun d i member => ?_ }
  · rw [pending i, List.filter_append]
    split <;> simp [Task.of_apart own apart]
  · rw [pending i, List.mem_append] at member
    rcases member with old | new
    · exact old
    · split at new
      · rw [← List.mem_singleton.mp new] at own
        cases own
      · cases new

/-! The first functor of a loop is started. -/

theorem popped_filter {s : TcpServer} {d i : Nat} {task : Task} {loop : EventLoop Task}
    (pending : (s.loops i).pending = task :: loop.pending) (apart : task.of d = false) (j : Nat) :
    ((s.setLoop i loop).loops j).pending.filter (Task.of d) =
      (s.loops j).pending.filter (Task.of d) := by
  by_cases same : j = i
  · subst same
    simp [setLoop, pending, apart]
  · simp [setLoop, same]

theorem popped_mem {s : TcpServer} {i j : Nat} {task later : Task} {loop : EventLoop Task}
    (pending : (s.loops i).pending = task :: loop.pending)
    (member : later ∈ ((s.setLoop i loop).loops j).pending) : later ∈ (s.loops j).pending := by
  by_cases same : j = i
  · subst same
    rw [pending]
    exact List.mem_cons_of_mem _ (by simpa [setLoop] using member)
  · simpa [setLoop, same] using member

theorem popped_moves {s : TcpServer} {c i : Nat} {task : Task} {loop : EventLoop Task}
    (pending : (s.loops i).pending = task :: loop.pending) (own : task.of c = true) :
    Moves c s (s.setLoop i loop) :=
  { Moves.refl c s with
    tasks := fun _ apart => popped_filter pending (Task.of_apart own apart)
    forced := fun _ _ => popped_mem pending }

/-! From one stage to the next. -/

theorem At.establish {s : TcpServer} {c : Nat} (here : At s c .entering) :
    At (s.establishConnection c (s.conns c).loop) c .up := by
  constructor
  · simpa [establishConnection, setState, note, Stage.tasks] using here.tasks
  · simpa [establishConnection, setState, note, Stage.frames] using here.frames
  · exact .inl (by simp [establishConnection, setState, note])
  · simpa [establishConnection, setState, note, Stage.listed] using here.listed
  · simp [establishConnection, setState, note, here.events, Event.of, Stage.history]

theorem At.destroy {s : TcpServer} {c : Nat} (here : At s c .left) :
    At (s.destroyConnection c (s.conns c).loop) c .gone := by
  constructor
  · simpa [destroyConnection, setState, note, Stage.tasks] using here.tasks
  · simpa [destroyConnection, setState, note, Stage.frames] using here.frames
  · simp [destroyConnection, setState, note, Stage.Allows]
  · simpa [destroyConnection, setState, note, Stage.listed] using here.listed
  · simp [destroyConnection, setState, note, here.events, Event.of, Stage.history]

theorem At.erase {s : TcpServer} {c : Nat} (here : At s c .leaving) : At (s.erase c) c .left := by
  have found := here.listed.mpr rfl
  constructor
  · exact here.tasks
  · exact here.frames
  · exact here.state
  · simp [TcpServer.erase, Stage.listed]
  · simp [TcpServer.erase, found, here.events, Event.of, Stage.history]

theorem At.close {s : TcpServer} {c : Nat} (here : At s c .up) :
    At (s.handleClose c (s.conns c).loop) c .closing := by
  constructor
  · simpa [handleClose, setState, setFrames, Stage.tasks] using here.tasks
  · intro i
    have none := here.frames i
    by_cases same : i = (s.conns c).loop
    · subst same
      simp [handleClose, setState, setFrames, none, Stage.frames]
    · simpa [handleClose, setState, setFrames, same, Stage.frames] using none
  · simp [handleClose, setState, setFrames, Stage.Allows]
  · simpa [handleClose, setState, setFrames, Stage.listed] using here.listed
  · simpa [handleClose, setState, setFrames, Stage.history] using here.events

theorem At.returned {s : TcpServer} {c i : Nat} {rest : List Nat} (here : At s c .closing)
    (frames : s.frames i = c :: rest) :
    (s.conns c).loop = i ∧ At (s.setFrames i rest) c .leaving := by
  have own : i = (s.conns c).loop := by
    have one := here.frames i
    rw [frames] at one
    by_contra apart
    simp [Stage.frames, apart] at one
  refine ⟨own.symm, here.tasks, fun j => ?_, here.state, here.listed, here.events⟩
  have one := here.frames j
  by_cases same : j = i
  · subst same
    rw [frames] at one
    simpa [setFrames, Stage.frames, ← own] using one
  · have other : j ≠ (s.conns c).loop := fun equal => same (equal.trans own.symm)
    simpa [setFrames, Stage.frames, same, other] using one

theorem At.queue {s next : TcpServer} {c thread target : Nat} {task : Task}
    {stage : Stage} (after : Stage) (here : At s c stage)
    (queued : s.queueIn thread target task = some next) (own : task.of c = true)
    (none : ∀ i, stage.tasks c (s.conns c).loop i = [])
    (tasks : ∀ i, after.tasks c (s.conns c).loop i = if i = target then [task] else [])
    (frames : after.frames c (s.conns c).loop = stage.frames c (s.conns c).loop)
    (state : after.Allows = stage.Allows) (listed : after.listed = stage.listed)
    (history : after.history c (s.conns c).loop = stage.history c (s.conns c).loop) :
    At next c after := by
  rcases queueIn_pending queued with ⟨rest, pending⟩
  rw [rest] at pending ⊢
  refine ⟨fun i => ?_, fun i => ?_, ?_, ?_, ?_⟩
  · rw [pending i, List.filter_append, here.tasks i, none i, tasks i]
    split <;> simp [own]
  · rw [frames]
    exact here.frames i
  · rw [state]
    exact here.state
  · rw [listed]
    exact here.listed
  · rw [history]
    exact here.events

theorem At.pop {s : TcpServer} {c i : Nat} {task : Task} {loop : EventLoop Task}
    {stage : Stage} (after : Stage) (here : At s c stage)
    (pending : (s.loops i).pending = task :: loop.pending) (own : task.of c = true)
    (tasks : ∀ j, stage.tasks c (s.conns c).loop j = if j = i then [task] else [])
    (none : ∀ j, after.tasks c (s.conns c).loop j = [])
    (frames : after.frames c (s.conns c).loop = stage.frames c (s.conns c).loop)
    (state : after.Allows = stage.Allows) (listed : after.listed = stage.listed)
    (history : after.history c (s.conns c).loop = stage.history c (s.conns c).loop) :
    At (s.setLoop i loop) c after := by
  refine ⟨fun j => ?_, fun j => ?_, ?_, ?_, ?_⟩
  · have held := here.tasks j
    rw [tasks j] at held
    by_cases same : j = i
    · subst same
      rw [pending] at held
      simpa [setLoop, own, none j] using held
    · simpa [setLoop, same, none j] using held
  · exact (here.frames j).trans (congrFun frames j).symm
  · exact state ▸ here.state
  · exact listed ▸ here.listed
  · exact here.events.trans history.symm

/-! All connections. -/

def maxConnections : Nat := 0x80000000

structure Inv (stages : Nat → Stage) (s : TcpServer) : Prop where
  sequence : s.connSequence = s.created
  names : ∀ c < s.created, (s.conns c).name = s.name ++ "#" ++ toString c
  keys : ∀ name c, s.connections name = some c → c < s.created ∧ (s.conns c).name = name
  here : ∀ c < s.created, At s c (stages c)
  blank : ∀ c, s.created ≤ c → (∀ i, (s.loops i).pending.filter (Task.of c) = []) ∧
    (∀ i, (s.frames i).filter (fun d => d == c) = []) ∧ s.log.filter (Event.of c) = []
  forced : ∀ c i, Task.forceCloseInLoop c ∈ (s.loops i).pending →
    c < s.created ∧ (s.conns c).loop = i

theorem connName_inj {name : String} {c d : Nat}
    (same : name ++ "#" ++ toString c = name ++ "#" ++ toString d) : c = d :=
  Nat.repr_inj.mp ((String.append_right_inj _).mp same)

theorem Inv.name_inj {stages : Nat → Stage} {s : TcpServer} (inv : Inv stages s) {c d : Nat}
    (first : c < s.created) (second : d < s.created)
    (same : (s.conns c).name = (s.conns d).name) : c = d := by
  rw [inv.names c first, inv.names d second] at same
  exact connName_inj same

theorem Inv.moved {stages : Nat → Stage} {s next : TcpServer} {c : Nat} {stage : Stage}
    (inv : Inv stages s) (inside : c < s.created) (moves : Moves c s next)
    (here : At next c stage) : Inv (Function.update stages c stage) next where
  sequence := by rw [moves.sequence, moves.created, inv.sequence]
  names d within := by
    rw [(moves.record d).1, moves.name]
    exact inv.names d (moves.created ▸ within)
  keys name d found := by
    rw [moves.created, (moves.record d).1]
    exact inv.keys name d (moves.keys name d found)
  here d within := by
    rw [moves.created] at within
    by_cases same : d = c
    · subst same
      simpa using here
    · have before := inv.here d within
      have apart : (s.conns d).name ≠ (s.conns c).name :=
        fun equal => same (inv.name_inj within inside equal)
      have name := (moves.record d).1
      have loop := (moves.record d).2
      rw [Function.update_of_ne same]
      constructor
      · intro i
        rw [moves.tasks d same, loop]
        exact before.tasks i
      · intro i
        rw [moves.frames d same, loop]
        exact before.frames i
      · rw [moves.state d same]
        exact before.state
      · rw [name, moves.connections _ apart]
        exact before.listed
      · rw [moves.events d same, loop]
        exact before.events
  blank d outside := by
    rw [moves.created] at outside
    have apart : d ≠ c := Nat.ne_of_gt (Nat.lt_of_lt_of_le inside outside)
    rcases inv.blank d outside with ⟨tasks, frames, events⟩
    refine ⟨fun i => ?_, fun i => ?_, ?_⟩
    · exact (moves.tasks d apart i).trans (tasks i)
    · exact (moves.frames d apart i).trans (frames i)
    · exact (moves.events d apart).trans events
  forced d i member := by
    rw [moves.created, (moves.record d).2]
    exact inv.forced d i (moves.forced d i member)

theorem Inv.reloop {stages : Nat → Stage} {s next : TcpServer} (inv : Inv stages s)
    (rest : next = { s with loops := next.loops })
    (tasks : ∀ c i,
      (next.loops i).pending.filter (Task.of c) = (s.loops i).pending.filter (Task.of c))
    (forced : ∀ c i, Task.forceCloseInLoop c ∈ (next.loops i).pending →
      c < s.created ∧ (s.conns c).loop = i) : Inv stages next := by
  rw [rest] at tasks forced ⊢
  refine ⟨inv.sequence, inv.names, inv.keys, fun c inside => ?_, fun c outside => ?_, forced⟩
  · have before := inv.here c inside
    exact ⟨fun i => (tasks c i).trans (before.tasks i), before.frames, before.state,
      before.listed, before.events⟩
  · rcases inv.blank c outside with ⟨none, frames, events⟩
    exact ⟨fun i => (tasks c i).trans (none i), frames, events⟩

theorem machineMay_tasks {s : TcpServer} {i : Nat} {action : EventLoop.Action Task}
    (may : s.machineMay i action = true) (l : EventLoop Task) :
    l.started action = [] ∧ (action.appended = [] ∨ action.appended = [.other]) := by
  cases action with
  | push thread task =>
      cases task with
      | other => exact ⟨rfl, .inr rfl⟩
      | establishConnection | removeConnectionInLoop | destroyConnection | forceCloseInLoop =>
          cases may
  | pushed | wakeUp | quit | queued => exact ⟨rfl, .inl rfl⟩
  | loop action =>
      cases action with
      | queue task =>
          cases task with
          | other => exact ⟨rfl, .inr rfl⟩
          | establishConnection | removeConnectionInLoop | destroyConnection
          | forceCloseInLoop => cases may
      | runNext => cases may
      | enter | leave | poll | pollReturn | handleWakeupRead | beginExecute | swap
      | functorReturn | finish => exact ⟨rfl, .inl rfl⟩

theorem machine_pending {s : TcpServer} {i : Nat} {action : EventLoop.Action Task}
    {loop : EventLoop Task} (may : s.machineMay i action = true)
    (moved : (s.loops i).step action = some loop) :
    loop.pending = (s.loops i).pending ∨ loop.pending = (s.loops i).pending ++ [.other] := by
  have order := EventLoop.step_pending moved
  obtain ⟨none, appended⟩ := machineMay_tasks may (s.loops i)
  rw [none, List.nil_append] at order
  rcases appended with nothing | some
  · rw [nothing, List.append_nil] at order
    exact .inl order
  · rw [some] at order
    exact .inr order

theorem machine_inv {stages : Nat → Stage} {s next : TcpServer} {i : Nat}
    {action : EventLoop.Action Task} (inv : Inv stages s)
    (stepped : s.step (.machine i action) = some next) : Inv stages next := by
  rcases Option.ite_none_right_eq_some.mp stepped with ⟨may, moved⟩
  rcases Option.map_eq_some_iff.mp moved with ⟨loop, inner, rfl⟩
  have pending := machine_pending may inner
  refine inv.reloop rfl (fun c j => ?_) fun c j member => ?_
  · by_cases same : j = i
    · subst same
      rcases pending with equal | more
      · simp [setLoop, equal]
      · simp [setLoop, more, Task.of]
    · simp [setLoop, same]
  · apply inv.forced c j
    by_cases same : j = i
    · subst same
      rcases pending with equal | more
      · simpa [setLoop, equal] using member
      · simpa [setLoop, more] using member
    · simpa [setLoop, same] using member

theorem Inv.connName_eq {stages : Nat → Stage} {s : TcpServer} (inv : Inv stages s) :
    s.connName = s.name ++ "#" ++ toString s.created := by
  rw [connName, inv.sequence]
  rfl

theorem Inv.connName_fresh {stages : Nat → Stage} {s : TcpServer} (inv : Inv stages s) {c : Nat}
    (inside : c < s.created) : (s.conns c).name ≠ s.connName := by
  intro same
  rw [inv.names c inside, inv.connName_eq] at same
  exact Nat.ne_of_lt inside (connName_inj same)

theorem Inv.accept_new {stages : Nat → Stage} {s : TcpServer} (inv : Inv stages s) :
    At s.accept s.created .entering := by
  obtain ⟨tasks, frames, events⟩ := inv.blank s.created (Nat.le_refl _)
  constructor
  · simpa [accept, Stage.tasks] using tasks
  · simpa [accept, Stage.frames] using frames
  · simp [accept, Stage.Allows]
  · simp [accept, Stage.listed]
  · simp [accept, events, Event.of, Stage.history]

theorem Inv.accept_old {stages : Nat → Stage} {s : TcpServer} (inv : Inv stages s) {c : Nat}
    (inside : c < s.created) : At s.accept c (stages c) := by
  have before := inv.here c inside
  have old : c ≠ s.created := Nat.ne_of_lt inside
  have apart := inv.connName_fresh inside
  constructor
  · simpa [accept, old] using before.tasks
  · simpa [accept, old] using before.frames
  · simpa [accept, old] using before.state
  · simpa [accept, old, apart] using before.listed
  · simpa [accept, old, Event.of, Ne.symm old] using before.events

theorem accept_inv {stages : Nat → Stage} {s : TcpServer} (inv : Inv stages s)
    (few : s.created + 1 < maxConnections) :
    Inv (Function.update stages s.created .entering) s.accept := by
  constructor
  · have value := inv.sequence
    simp only [accept, value, Int.bmod_def, maxConnections] at few ⊢
    omega
  · intro c inside
    by_cases new : c = s.created
    · subst new
      simpa [accept] using inv.connName_eq
    · simpa [accept, new] using inv.names c (Nat.lt_of_le_of_ne (Nat.le_of_lt_succ inside) new)
  · intro name c found
    by_cases new : name = s.connName
    · have same : s.created = c := by simpa [accept, new] using found
      subst same
      simp [accept, new]
    · have old : s.connections name = some c := by simpa [accept, new] using found
      rcases inv.keys name c old with ⟨inside, named⟩
      have apart : c ≠ s.created := Nat.ne_of_lt inside
      refine ⟨Nat.lt_succ_of_lt inside, ?_⟩
      simpa [accept, apart] using named
  · intro c inside
    by_cases new : c = s.created
    · subst new
      rw [Function.update_self]
      exact inv.accept_new
    · rw [Function.update_of_ne new]
      exact inv.accept_old (Nat.lt_of_le_of_ne (Nat.le_of_lt_succ inside) new)
  · intro c outside
    have apart : s.created ≠ c := Nat.ne_of_lt outside
    rcases inv.blank c (Nat.le_of_succ_le outside) with ⟨tasks, frames, events⟩
    refine ⟨tasks, frames, ?_⟩
    simp [accept, events, Event.of, apart]
  · intro c i member
    rcases inv.forced c i member with ⟨inside, loop⟩
    have apart : c ≠ s.created := Nat.ne_of_lt inside
    refine ⟨Nat.lt_succ_of_lt inside, ?_⟩
    simpa [accept, apart] using loop

theorem establishConnection_inv {stages : Nat → Stage} {s : TcpServer} {c i : Nat}
    (inv : Inv stages s) (inside : c < s.created) (here : At s c .entering)
    (own : (s.conns c).loop = i) : ∃ after, Inv after (s.establishConnection c i) := by
  have moves := (setState_moves s c .kConnected).trans
    (note_moves (show (Event.establishConnection c i).of c = true by simp [Event.of]) _)
  have established := here.establish
  rw [own] at established
  exact ⟨_, inv.moved inside moves established⟩

theorem destroyConnection_inv {stages : Nat → Stage} {s : TcpServer} {c i : Nat}
    (inv : Inv stages s) (inside : c < s.created) (here : At s c .left)
    (own : (s.conns c).loop = i) : ∃ after, Inv after (s.destroyConnection c i) := by
  have moves := (setState_moves s c .kDisConnected).trans
    (note_moves (show (Event.destroyConnection c i).of c = true by simp [Event.of]) _)
  have gone := here.destroy
  rw [own] at gone
  exact ⟨_, inv.moved inside moves gone⟩

theorem newConnection_inv {stages : Nat → Stage} {s next : TcpServer} (inv : Inv stages s)
    (few : s.created + 1 < maxConnections) (made : s.newConnection = some next) :
    ∃ after, Inv after next := by
  have accepted := accept_inv inv few
  have inside : s.created < s.accept.created := Nat.lt_succ_self _
  have here := inv.accept_new
  have own : (s.accept.conns s.created).loop = s.getNextLoop.1 := by simp [accept]
  unfold newConnection at made
  split at made
  · rename_i base
    cases made
    exact establishConnection_inv accepted inside here (own.trans base)
  · refine ⟨_, accepted.moved inside (queueIn_moves (by simp [Task.of]) made)
      (here.queue .queued made (by simp [Task.of]) (fun _ => rfl) ?_ rfl rfl rfl rfl)⟩
    intro i
    rw [own]
    rfl

theorem removeConnectionInLoop_inv {stages : Nat → Stage} {s next : TcpServer} {c i : Nat}
    (inv : Inv stages s) (inside : c < s.created) (here : At s c .leaving)
    (removed : s.removeConnectionInLoop c i = some next) : ∃ after, Inv after next := by
  have left := here.erase
  have erased := inv.moved inside (erase_moves s c) left
  unfold removeConnectionInLoop at removed
  split at removed
  · rename_i own
    cases removed
    exact destroyConnection_inv erased inside left own
  · have queued := left.queue .destroying removed (by simp [Task.of]) (fun _ => rfl)
      (fun _ => rfl) rfl rfl rfl rfl
    exact ⟨_, erased.moved inside (queueIn_moves (by simp [Task.of]) removed) queued⟩

theorem Stage.of_task {stage : Stage} {c own i : Nat} {task : Task} {rest : List Task}
    (held : stage.tasks c own i = task :: rest) :
    stage = .queued ∧ i = own ∧ task = .establishConnection c ∨
      stage = .removing ∧ i = 0 ∧ task = .removeConnectionInLoop c ∨
      stage = .destroying ∧ i = own ∧ task = .destroyConnection c := by
  cases stage with
  | queued =>
      by_cases same : i = own
      · simp [tasks, same] at held
        exact .inl ⟨rfl, same, held.1.symm⟩
      · simp [tasks, same] at held
  | removing =>
      by_cases same : i = 0
      · simp [tasks, same] at held
        exact .inr (.inl ⟨rfl, same, held.1.symm⟩)
      · simp [tasks, same] at held
  | destroying =>
      by_cases same : i = own
      · simp [tasks, same] at held
        exact .inr (.inr ⟨rfl, same, held.1.symm⟩)
      · simp [tasks, same] at held
  | entering | up | closing | leaving | left | gone => cases held

theorem Stage.of_up {stage : Stage} {state : ConnectionState} (allows : stage.Allows state)
    (up : state = .kConnected ∨ state = .kDisConnecting) : stage = .up := by
  cases stage with
  | up => rfl
  | entering | queued | closing | leaving | removing | left | destroying | gone =>
      cases allows
      rcases up with up | up <;> cases up

theorem up_iff {s : TcpServer} {c : Nat} :
    s.up c = true ↔ (s.conns c).state = .kConnected ∨ (s.conns c).state = .kDisConnecting := by
  unfold TcpServer.up
  cases (s.conns c).state <;> simp

theorem Inv.of_up {stages : Nat → Stage} {s : TcpServer} {c : Nat} (inv : Inv stages s)
    (inside : c < s.created) (up : s.up c = true) : At s c .up := by
  have here := inv.here c inside
  rwa [Stage.of_up here.state (up_iff.mp up)] at here

theorem handleClose_inv {stages : Nat → Stage} {s : TcpServer} {c : Nat} (inv : Inv stages s)
    (inside : c < s.created) (up : s.up c = true) :
    ∃ after, Inv after (s.handleClose c (s.conns c).loop) := by
  refine ⟨_, inv.moved inside ((setState_moves s c .kDisConnected).trans ?_)
    (inv.of_up inside up).close⟩
  apply setFrames_moves
  intro d apart
  simp [setState, Ne.symm apart]

theorem Inv.first {stages : Nat → Stage} {s : TcpServer} {c i : Nat} {task : Task}
    {loop : EventLoop Task} (inv : Inv stages s)
    (pending : (s.loops i).pending = task :: loop.pending) (own : task.of c = true) :
    c < s.created ∧ ∃ rest, (stages c).tasks c (s.conns c).loop i = task :: rest := by
  have held : (s.loops i).pending.filter (Task.of c) = task :: loop.pending.filter (Task.of c) := by
    simp [pending, own]
  have inside : c < s.created := by
    by_contra outside
    rw [(inv.blank c (Nat.le_of_not_lt outside)).1 i] at held
    cases held
  exact ⟨inside, _, ((inv.here c inside).tasks i).symm.trans held⟩

theorem Inv.popped {stages : Nat → Stage} {s : TcpServer} {c i : Nat} {task : Task}
    {loop : EventLoop Task} (inv : Inv stages s)
    (pending : (s.loops i).pending = task :: loop.pending) (own : task.of c = true) :
    c < s.created ∧ ∃ stage, Inv (Function.update stages c stage) (s.setLoop i loop) ∧
      At (s.setLoop i loop) c stage ∧
      (stage = .entering ∧ (s.conns c).loop = i ∧ task = .establishConnection c ∨
        stage = .leaving ∧ task = .removeConnectionInLoop c ∨
        stage = .left ∧ (s.conns c).loop = i ∧ task = .destroyConnection c) := by
  obtain ⟨inside, rest, held⟩ := inv.first pending own
  have here := inv.here c inside
  have moves := popped_moves pending own
  rcases Stage.of_task held with ⟨stage, same, rfl⟩ | ⟨stage, base, rfl⟩ | ⟨stage, same, rfl⟩
  · rw [stage] at here
    have after := here.pop .entering pending own
      (fun j => by rw [same]; rfl) (fun _ => rfl) rfl rfl rfl rfl
    exact ⟨inside, _, inv.moved inside moves after, after, .inl ⟨rfl, same.symm, rfl⟩⟩
  · rw [stage] at here
    have after := here.pop .leaving pending own
      (fun j => by rw [base]; rfl) (fun _ => rfl) rfl rfl rfl rfl
    exact ⟨inside, _, inv.moved inside moves after, after, .inr (.inl ⟨rfl, rfl⟩)⟩
  · rw [stage] at here
    have after := here.pop .left pending own
      (fun j => by rw [same]; rfl) (fun _ => rfl) rfl rfl rfl rfl
    exact ⟨inside, _, inv.moved inside moves after, after, .inr (.inr ⟨rfl, same.symm, rfl⟩)⟩

theorem Inv.popped_other {stages : Nat → Stage} {s : TcpServer} {i : Nat} {task : Task}
    {loop : EventLoop Task} (inv : Inv stages s)
    (pending : (s.loops i).pending = task :: loop.pending) (idle : ∀ c, task.of c = false) :
    Inv stages (s.setLoop i loop) :=
  inv.reloop rfl (fun c => popped_filter pending (idle c))
    fun c j member => inv.forced c j (popped_mem pending member)

theorem runFunctor_inv {stages : Nat → Stage} {s next : TcpServer} {i : Nat} {task : Task}
    {loop : EventLoop Task} (inv : Inv stages s)
    (pending : (s.loops i).pending = task :: loop.pending)
    (ran : (s.setLoop i loop).runTask i task = some next) : ∃ after, Inv after next := by
  cases task with
  | establishConnection c =>
      cases ran
      obtain ⟨inside, stage, after, here, found⟩ := inv.popped (c := c) pending (by simp [Task.of])
      rcases found with ⟨rfl, own, -⟩ | ⟨-, other⟩ | ⟨-, -, other⟩
      · exact establishConnection_inv after inside here own
      · cases other
      · cases other
  | removeConnectionInLoop c =>
      obtain ⟨inside, stage, after, here, found⟩ := inv.popped (c := c) pending (by simp [Task.of])
      rcases found with ⟨-, -, other⟩ | ⟨rfl, -⟩ | ⟨-, -, other⟩
      · cases other
      · exact removeConnectionInLoop_inv after inside here ran
      · cases other
  | destroyConnection c =>
      cases ran
      obtain ⟨inside, stage, after, here, found⟩ := inv.popped (c := c) pending (by simp [Task.of])
      rcases found with ⟨-, -, other⟩ | ⟨-, other⟩ | ⟨rfl, own, -⟩
      · cases other
      · cases other
      · exact destroyConnection_inv after inside here own
  | forceCloseInLoop c =>
      cases ran
      have after := inv.popped_other pending fun _ => rfl
      split
      · rename_i up
        rcases inv.forced c i (pending ▸ List.mem_cons_self) with ⟨inside, own⟩
        have closed := handleClose_inv after inside up
        rwa [show ((s.setLoop i loop).conns c).loop = i from own] at closed
      · exact ⟨stages, after⟩
  | other =>
      cases ran
      exact ⟨stages, inv.popped_other pending fun _ => rfl⟩

theorem callbackReturn_inv {stages : Nat → Stage} {s next : TcpServer} {c i : Nat}
    {rest : List Nat} (inv : Inv stages s) (frames : s.frames i = c :: rest)
    (returned : (s.setFrames i rest).removeConnection c i = some next) :
    ∃ after, Inv after next := by
  have held : (s.frames i).filter (fun d => d == c) = c :: rest.filter (fun d => d == c) := by
    simp [frames]
  have inside : c < s.created := by
    by_contra outside
    rw [(inv.blank c (Nat.le_of_not_lt outside)).2.1 i] at held
    cases held
  have closing : At s c .closing := by
    have here := inv.here c inside
    have one := here.frames i
    rw [held] at one
    cases stage : stages c with
    | closing => rwa [stage] at here
    | entering | queued | up | leaving | removing | left | destroying | gone =>
        rw [stage] at one
        cases one
  rcases closing.returned frames with ⟨own, leaving⟩
  have moves : Moves c s (s.setFrames i rest) := by
    apply setFrames_moves
    intro d apart
    simp [frames, Ne.symm apart]
  have after := inv.moved inside moves leaving
  unfold removeConnection at returned
  split at returned
  · exact removeConnectionInLoop_inv after inside leaving returned
  · have queued := leaving.queue .removing returned (by simp [Task.of]) (fun _ => rfl)
      (fun _ => rfl) rfl rfl rfl rfl
    exact ⟨_, after.moved inside (queueIn_moves (by simp [Task.of]) returned) queued⟩

theorem shutDown_inv {stages : Nat → Stage} {s : TcpServer} {c : Nat} (inv : Inv stages s)
    (inside : c < s.created) (connected : (s.conns c).state = .kConnected) :
    ∃ after, Inv after (s.setState c .kDisConnecting) := by
  have here := inv.of_up inside (up_iff.mpr (.inl connected))
  have still : At (s.setState c .kDisConnecting) c .up := by
    constructor
    · simpa [setState] using here.tasks
    · simpa [setState] using here.frames
    · exact .inr (by simp [setState])
    · simpa [setState] using here.listed
    · simpa [setState] using here.events
  exact ⟨_, inv.moved inside (setState_moves s c _) still⟩

theorem forceClose_inv {stages : Nat → Stage} {s next : TcpServer} {thread c : Nat}
    (inv : Inv stages s) (inside : c < s.created)
    (queued : s.queueIn thread (s.conns c).loop (.forceCloseInLoop c) = some next) :
    Inv stages next := by
  rcases queueIn_pending queued with ⟨rest, pending⟩
  refine inv.reloop rest (fun d i => ?_) fun d i member => ?_
  · rw [pending i, List.filter_append]
    split <;> simp [Task.of]
  · rw [pending i, List.mem_append] at member
    rcases member with old | new
    · exact inv.forced d i old
    · split at new
      · rename_i own
        cases List.mem_singleton.mp new
        exact ⟨inside, own.symm⟩
      · cases new

/-! Whole runs. -/

def Action.accepts : Action → Nat
  | .newConnection => 1
  | _ => 0

theorem queueIn_created {s next : TcpServer} {thread target : Nat} {task : Task}
    (queued : s.queueIn thread target task = some next) : next.created = s.created := by
  rw [(queueIn_pending queued).1]

theorem removeConnectionInLoop_created {s next : TcpServer} {c i : Nat}
    (removed : s.removeConnectionInLoop c i = some next) : next.created = s.created := by
  unfold removeConnectionInLoop at removed
  split at removed
  · cases removed
    rfl
  · exact (queueIn_created removed).trans rfl

theorem runTask_created {s next : TcpServer} {i : Nat} {task : Task}
    (ran : s.runTask i task = some next) : next.created = s.created := by
  cases task with
  | removeConnectionInLoop c => exact removeConnectionInLoop_created ran
  | forceCloseInLoop c =>
      cases ran
      split <;> rfl
  | establishConnection c | destroyConnection c | other =>
      cases ran
      rfl

theorem newConnection_created {s next : TcpServer} (made : s.newConnection = some next) :
    next.created = s.created + 1 := by
  unfold newConnection at made
  split at made
  · cases made
    rfl
  · exact queueIn_created made

inductive Stepped (s : TcpServer) : Action → TcpServer → Prop
  | machine {i : Nat} {action : EventLoop.Action Task} {next : TcpServer}
      (stepped : s.step (.machine i action) = some next) : Stepped s (.machine i action) next
  | newConnection {next : TcpServer} (made : s.newConnection = some next) :
      Stepped s .newConnection next
  | runFunctor {i : Nat} {task : Task} {rest : List Task} {loop : EventLoop Task}
      {next : TcpServer} (functors : (s.loops i).curFunctors = task :: rest)
      (moved : (s.loops i).step (.loop .runNext) = some loop)
      (ran : (s.setLoop i loop).runTask i task = some next) : Stepped s (.runFunctor i) next
  | handleClose {c : Nat} (inside : c < s.created) (user : s.userCode (s.conns c).loop = true)
      (established : (s.conns c).state ≠ .kConnecting) :
      Stepped s (.handleClose c) (s.handleClose c (s.conns c).loop)
  | callbackReturn {c i : Nat} {rest : List Nat} {next : TcpServer}
      (frames : s.frames i = c :: rest)
      (returned : (s.setFrames i rest).removeConnection c i = some next) :
      Stepped s (.callbackReturn i) next
  | shutDown {c : Nat} (inside : c < s.created) (connected : (s.conns c).state = .kConnected) :
      Stepped s (.shutDown c) (s.setState c .kDisConnecting)
  | forceClose {thread c : Nat} {next : TcpServer} (inside : c < s.created) (up : s.up c = true)
      (queued : s.queueIn thread (s.conns c).loop (.forceCloseInLoop c) = some next) :
      Stepped s (.forceClose thread c) next
  | shutDownIgnored {c : Nat} : Stepped s (.shutDown c) s
  | forceCloseIgnored {thread c : Nat} : Stepped s (.forceClose thread c) s

theorem step_stepped {s next : TcpServer} {action : Action}
    (stepped : s.step action = some next) : Stepped s action next := by
  cases action with
  | machine i action => exact .machine stepped
  | newConnection =>
      simp only [step] at stepped
      split at stepped
      · split at stepped
        · cases stepped
        · exact .newConnection stepped
      · cases stepped
  | runFunctor i =>
      simp only [step] at stepped
      split at stepped
      · rename_i task rest idle functors
        rcases Option.bind_eq_some_iff.mp stepped with ⟨loop, moved, ran⟩
        exact .runFunctor functors moved ran
      · cases stepped
  | handleClose c =>
      rcases Option.ite_none_right_eq_some.mp stepped with
        ⟨⟨inside, user, established⟩, made⟩
      cases made
      exact .handleClose inside user established
  | callbackReturn i =>
      simp only [step] at stepped
      split at stepped
      · cases stepped
      · split at stepped
        · rename_i frames
          exact .callbackReturn frames stepped
        · cases stepped
  | shutDown c =>
      rcases Option.ite_none_right_eq_some.mp stepped with ⟨inside, made⟩
      cases made
      split
      · rename_i connected
        exact .shutDown inside connected
      · exact .shutDownIgnored
  | forceClose thread c =>
      rcases Option.ite_none_right_eq_some.mp stepped with ⟨⟨inside, -⟩, made⟩
      split at made
      · rename_i up
        exact .forceClose inside up made
      · cases made
        exact .forceCloseIgnored

theorem Stepped.created {s next : TcpServer} {action : Action} (stepped : Stepped s action next) :
    next.created = s.created + action.accepts := by
  cases stepped with
  | machine moved =>
      rcases Option.ite_none_right_eq_some.mp moved with ⟨-, moved⟩
      rcases Option.map_eq_some_iff.mp moved with ⟨loop, -, rfl⟩
      rfl
  | newConnection made => exact newConnection_created made
  | runFunctor functors moved ran => exact (runTask_created ran).trans rfl
  | handleClose inside user established => rfl
  | callbackReturn frames returned =>
      unfold removeConnection at returned
      split at returned
      · exact (removeConnectionInLoop_created returned).trans rfl
      · exact (queueIn_created returned).trans rfl
  | shutDown inside connected => rfl
  | forceClose inside up queued => exact queueIn_created queued
  | shutDownIgnored | forceCloseIgnored => rfl

theorem Stepped.inv {stages : Nat → Stage} {s next : TcpServer} {action : Action}
    (inv : Inv stages s) (few : next.created < maxConnections) (once : s.Asserted action)
    (stepped : Stepped s action next) : ∃ after, Inv after next := by
  cases stepped with
  | machine moved => exact ⟨stages, machine_inv inv moved⟩
  | newConnection made => exact newConnection_inv inv (newConnection_created made ▸ few) made
  | runFunctor functors moved ran =>
      exact runFunctor_inv inv (EventLoop.runNext_pending functors moved) ran
  | handleClose inside user established => exact handleClose_inv inv inside once
  | callbackReturn frames returned => exact callbackReturn_inv inv frames returned
  | shutDown inside connected => exact shutDown_inv inv inside connected
  | forceClose inside up queued => exact ⟨stages, forceClose_inv inv inside queued⟩
  | shutDownIgnored | forceCloseIgnored => exact ⟨stages, inv⟩

structure Start where
  name : String
  threadNums : Nat
  loops : Nat → EventLoop Task
  others : ∀ i, ∀ task ∈ (loops i).pending, task = .other

def Start.server (start : Start) : TcpServer where
  name := start.name
  connSequence := 0
  threadNums := start.threadNums
  next := 0
  connections _ := none
  created := 0
  conns _ := ⟨"", 0, .kConnecting⟩
  loops := start.loops
  frames _ := []
  log := []

theorem Start.inv (start : Start) : Inv (fun _ => .gone) start.server where
  sequence := rfl
  names _ inside := absurd inside (Nat.not_lt_zero _)
  keys _ _ found := nomatch found
  here _ inside := absurd inside (Nat.not_lt_zero _)
  blank c _ := by
    refine ⟨fun i => List.filter_eq_nil_iff.mpr fun task member => ?_, fun i => rfl, rfl⟩
    rw [start.others i task member]
    simp [Task.of]
  forced c i member := by cases start.others i _ member

theorem run_inv {start : Start} {actions : List Action} {final : TcpServer}
    (ran : run step start.server actions = some final) (few : final.created < maxConnections)
    (once : Along step Asserted start.server actions) : ∃ stages, Inv stages final := by
  refine run_invariant_along (fun s => s.created < maxConnections → ∃ stages, Inv stages s) ?_
    (fun _ => ⟨_, start.inv⟩) once ran few
  intro s action next inv asserted stepped bound
  have moved := step_stepped stepped
  rcases inv (Nat.lt_of_le_of_lt (moved.created ▸ Nat.le_add_right _ _) bound) with ⟨stages, before⟩
  exact moved.inv before bound asserted

def lifecycle (s : TcpServer) (c : Nat) : List Event :=
  [.newConnection c, .establishConnection c (s.conns c).loop, .removeConnectionInLoop c 1,
    .destroyConnection c (s.conns c).loop]

theorem At.in_order {s : TcpServer} {c : Nat} {stage : Stage} (here : At s c stage) :
    s.log.filter (Event.of c) <+: s.lifecycle c := by
  rw [here.events]
  cases stage with
  | entering | queued => exact ⟨_, rfl⟩
  | up | closing | leaving | removing => exact ⟨_, rfl⟩
  | left | destroying => exact ⟨_, rfl⟩
  | gone => exact ⟨[], rfl⟩

theorem Stage.listed_iff (stage : Stage) (c own : Nat) :
    stage.listed = true ↔ Event.newConnection c ∈ stage.history c own ∧
      ∀ n, Event.removeConnectionInLoop c n ∉ stage.history c own := by
  cases stage with
  | entering | queued | up | closing | leaving | removing => simp [listed, history]
  | left | destroying | gone =>
      simp only [listed, history]
      refine iff_of_false (by simp) ?_
      rintro ⟨-, none⟩
      exact none 1 (by simp)

theorem mem_log_iff {s : TcpServer} {c : Nat} {event : Event} (own : event.of c = true) :
    event ∈ s.log ↔ event ∈ s.log.filter (Event.of c) := by
  simp [own]

theorem Event.newConnection_of (c : Nat) : (Event.newConnection c).of c = true :=
  beq_self_eq_true c

theorem Event.removeConnectionInLoop_of (c n : Nat) :
    (Event.removeConnectionInLoop c n).of c = true :=
  beq_self_eq_true c

theorem At.listed_iff {s : TcpServer} {c : Nat} {stage : Stage} (here : At s c stage) :
    s.connections (s.conns c).name = some c ↔
      .newConnection c ∈ s.log ∧ ∀ n, .removeConnectionInLoop c n ∉ s.log := by
  rw [here.listed, stage.listed_iff c (s.conns c).loop, ← here.events,
    ← mem_log_iff (Event.newConnection_of c)]
  refine and_congr_right fun _ => forall_congr' fun n => not_congr ?_
  exact (mem_log_iff (Event.removeConnectionInLoop_of c n)).symm

theorem Inv.created_of_event {stages : Nat → Stage} {s : TcpServer} (inv : Inv stages s) {c : Nat}
    {event : Event} (own : event.of c = true) (noted : event ∈ s.log) : c < s.created := by
  by_contra outside
  have none := (inv.blank c (Nat.le_of_not_lt outside)).2.2
  rw [mem_log_iff own, none] at noted
  cases noted

theorem Inv.listed_iff {stages : Nat → Stage} {s : TcpServer} (inv : Inv stages s) (c : Nat) :
    s.connections (s.conns c).name = some c ↔
      .newConnection c ∈ s.log ∧ ∀ n, .removeConnectionInLoop c n ∉ s.log := by
  constructor
  · intro found
    exact (inv.here c (inv.keys _ c found).1).listed_iff.mp found
  · intro noted
    have here := inv.here c (inv.created_of_event (Event.newConnection_of c) noted.1)
    exact here.listed_iff.mpr noted

theorem Inv.in_order {stages : Nat → Stage} {s : TcpServer} (inv : Inv stages s) (c : Nat) :
    s.log.filter (Event.of c) <+: s.lifecycle c := by
  by_cases inside : c < s.created
  · exact (inv.here c inside).in_order
  · rw [(inv.blank c (Nat.le_of_not_lt inside)).2.2]
    exact List.nil_prefix

theorem Inv.erased_one {stages : Nat → Stage} {s : TcpServer} (inv : Inv stages s) {c n : Nat}
    (noted : .removeConnectionInLoop c n ∈ s.log) : n = 1 := by
  have member := (inv.in_order c).subset
    ((mem_log_iff (Event.removeConnectionInLoop_of c n)).mp noted)
  simpa [lifecycle] using member

/-- However the base loop and the loops of the pool interleave, where `HandleClose`
runs at most once on a connection `connections_` holds a connection from
`NewConnection` to `RemoveConnectionInLoop`, which erases one entry, and the calls
on a connection come in the order of its life, each at most once and on the loop
it belongs to. -/
theorem connections_follow_lifecycle {start : Start} {actions : List Action} {final : TcpServer}
    (ran : run step start.server actions = some final) (few : final.created < maxConnections)
    (once : Along step Asserted start.server actions) :
    (∀ c, final.connections (final.conns c).name = some c ↔
        .newConnection c ∈ final.log ∧ ∀ n, .removeConnectionInLoop c n ∉ final.log) ∧
      (∀ name c, final.connections name = some c → (final.conns c).name = name) ∧
      (∀ c d, .newConnection c ∈ final.log → .newConnection d ∈ final.log →
        (final.conns c).name = (final.conns d).name → c = d) ∧
      (∀ c n, .removeConnectionInLoop c n ∈ final.log → n = 1) ∧
      ∀ c, final.log.filter (Event.of c) <+: final.lifecycle c := by
  rcases run_inv ran few once with ⟨stages, inv⟩
  refine ⟨inv.listed_iff, fun name c found => (inv.keys name c found).2, ?_,
    fun _ _ noted => inv.erased_one noted, inv.in_order⟩
  intro c d first second same
  exact inv.name_inj (inv.created_of_event (Event.newConnection_of c) first)
    (inv.created_of_event (Event.newConnection_of d) second) same

def Start.fresh (name : String) (threadNums : Nat) : Start where
  name := name
  threadNums := threadNums
  loops _ := .init
  others _ _ member := by cases member

def turn (i : Nat) (actions : List (EventLoop.LoopAction Task)) : List Action :=
  actions.map fun action => .machine i (.loop action)

def peerCloses : List Action :=
  [turn 0 [.enter, .poll, .pollReturn], [.newConnection, .machine 1 (.pushed 0)],
    turn 1 [.enter, .poll, .pollReturn, .beginExecute, .swap], [.runFunctor 1],
    turn 1 [.functorReturn, .finish, .poll, .pollReturn],
    [.handleClose 0, .callbackReturn 1, .machine 0 (.pushed 1)],
    turn 0 [.beginExecute, .swap], [.runFunctor 0, .machine 1 (.pushed 0)],
    turn 1 [.beginExecute, .swap], [.runFunctor 1]].flatten

theorem peer_closes_in_order :
    ∃ final, run step (Start.fresh "echo" 1).server peerCloses = some final ∧
      final.log = [.newConnection 0, .establishConnection 0 1, .removeConnectionInLoop 0 1,
        .destroyConnection 0 1] ∧
      final.log.filter (Event.of 0) <+: final.lifecycle 0 := by
  refine ⟨_, rfl, rfl, ?_⟩
  have ran : run step (Start.fresh "echo" 1).server peerCloses = some _ := rfl
  exact (connections_follow_lifecycle ran (by decide) (by decide)).2.2.2.2 0

end TcpServer

end Muzi
