import Muzi.LoopQuit
import Muzi.TcpServer

/-!
`~TcpServer` in the thread of the base loop, while the loops of the pool go on.
It hands `DestroyConnection` to the loop of every entry of `connections_`, then
its members go: `connections_`, and the pool, which quits its loops and waits
for their threads. `close_callback_` keeps the server's address, and so do the
functors it queues; what is said here is when one of them comes later. A
connection lives as long as somebody has a `TcpConnectionPtr`: `connections_`, a
`HandleClose` on the stack and functors have one, and `held` says that anybody
else has: user code, a `HandleEvent` that has locked its tie, a functor of
`Send`, or one that the batch has run and not freed.
-/

namespace Muzi

namespace TcpServer

def entries (s : TcpServer) : List Nat :=
  (List.range s.created).filter fun c => s.connections (s.conns c).name == some c

def Task.removes : Task → Bool
  | .removeConnectionInLoop _ => true
  | _ => false

def Task.keeps (c : Nat) : Task → Bool
  | .establishConnection d | .removeConnectionInLoop d | .destroyConnection d
  | .forceCloseInLoop d => d == c
  | .other => false

def Action.conn? : Action → Option Nat
  | .handleClose c | .shutDown c | .forceClose _ c => some c
  | .machine _ _ | .newConnection | .runFunctor _ | .callbackReturn _ => none

def enters (s : TcpServer) : Action → Bool
  | .callbackReturn _ => true
  | .runFunctor i => (s.loops i).curFunctors.head?.any Task.removes
  | _ => false

def ofBase (s : TcpServer) : Action → Bool
  | .machine i (.loop _) | .machine i .queued => i == 0
  | .machine _ (.push thread _) | .forceClose thread _ => thread == 0
  | .machine _ _ | .shutDown _ => false
  | .newConnection => true
  | .runFunctor i | .callbackReturn i => i == 0
  | .handleClose c => (s.conns c).loop == 0

/-- The threads of the pool call `Loop` once. -/
def loopsOnce (s : TcpServer) : Action → Bool
  | .machine i (.loop .enter) => i == 0 || !(s.loops i).quit
  | _ => true

end TcpServer

namespace ServerDestruction

open Execution TcpServer

inductive Life where
  | alive
  -- in the loop gone `connections_`
  | destroying (rest : List Nat)
  -- behind `RunInLoop`, before `WakeUp` of this loop
  | waking (loop : Nat) (rest : List Nat)
  -- in `~EventLoopThreadPool`; behind the last loop, in the destructors of the threads
  | quitting (rest : List Nat)
  -- at the wait in `Quit` of this loop
  | waiting (loop : Nat) (rest : List Nat)
  | destroyed
  deriving DecidableEq

structure System where
  server : TcpServer
  life : Life
  held : Nat → Bool

/-- Somebody has a pointer to the connection, so that it is there. -/
def pointed (s : System) (c : Nat) : Bool :=
  s.held c || decide (s.server.connections (s.server.conns c).name = some c) ||
    [0, (s.server.conns c).loop].any fun i =>
      (s.server.frames i).contains c || (s.server.loops i).pending.any (Task.keeps c)

inductive Action where
  | server (action : TcpServer.Action)
  -- `~TcpServer` is called and will go through `connections_` in this order
  | destroy (order : List Nat)
  -- the next statement of the destructor
  | advance
  -- a pointer is copied, or the last of those in `held` goes
  | hold (c : Nat)
  | release (c : Nat)

/-- While the destructor runs, the thread of the base loop does nothing else;
behind it there is no `Acceptor`. -/
def may (s : System) (action : TcpServer.Action) : Bool :=
  s.server.loopsOnce action && action.conn?.all (pointed s) &&
    match s.life, action with
    | .alive, _ => true
    | .destroyed, .newConnection => false
    | .destroyed, _ => true
    | _, action => !s.server.ofBase action

def pool (s : TcpServer) : List Nat := List.range' 1 s.threadNums

/-- `EventLoop::Quit` of loop `i` up to its wait. -/
def quitLoop (s : TcpServer) (i : Nat) (rest : List Nat) : TcpServer × Life :=
  if !(s.loops i).phase.looping || (s.loops i).quit then (s, .quitting rest)
  else (s.setLoop i (EventLoop.wakeUp { s.loops i with quit := true }), .waiting i rest)

def advance (s : TcpServer) : Life → Option (TcpServer × Life)
  | .destroying (c :: rest) =>
      if (s.conns c).loop = 0 then some (s.destroyConnection c 0, .waking 0 rest)
      else (s.queueIn 0 (s.conns c).loop (.destroyConnection c)).map fun queued =>
        (queued, .waking (s.conns c).loop rest)
  | .waking i rest =>
      if 0 ∈ (s.loops i).waking then none
      else some (s.setLoop i (s.loops i).wakeUp, .destroying rest)
  | .destroying [] => some ({ s with connections := fun _ => none }, .quitting (pool s))
  | .quitting (i :: rest) => some (quitLoop s i rest)
  | .waiting i rest => if (s.loops i).phase.looping then none else some (s, .quitting rest)
  -- `~EventLoopThread` waits until `Loop` has returned.
  | .quitting [] =>
      if ∀ i ∈ pool s, (s.loops i).phase.looping = false ∧ (s.loops i).quit = true then
        some (s, .destroyed)
      else none
  | .alive | .destroyed => none

def step (s : System) : Action → Option System
  | .server action =>
      if may s action then (s.server.step action).map fun server => { s with server := server }
      else none
  | .destroy order =>
      match s.life with
      | .alive =>
          if s.server.userCode 0 && order.isPerm s.server.entries then
            some { s with life := .destroying order }
          else none
      | _ => none
  | .advance =>
      (advance s.server s.life).map fun next => { s with server := next.1, life := next.2 }
  | .hold c =>
      if pointed s c then some { s with held := Function.update s.held c true } else none
  | .release c => some { s with held := Function.update s.held c false }

def Calls (s : System) : Action → Prop
  | .server action => s.life = .destroyed ∧ s.server.enters action = true
  | _ => False

/-- No `HandleClose` is open in the thread of the base loop, and no
`RemoveConnectionInLoop` is ahead of it. -/
def Drained (s : TcpServer) : Prop :=
  s.frames 0 = [] ∧ ∀ task ∈ (s.loops 0).ahead, task.removes = false

instance (s : TcpServer) : Decidable (Drained s) := inferInstanceAs (Decidable (_ ∧ _))

/-- Nobody has a pointer to a connection of the base loop. Such connections are
there only when the pool is empty. -/
def Released (s : System) : Prop :=
  ∀ c < s.server.created, (s.server.conns c).loop = 0 → pointed s c = false

instance (s : System) : Decidable (Released s) :=
  inferInstanceAs (Decidable (∀ c < s.server.created, _))

/-! Connections stay with their loops. -/

def PlacedTask (s : TcpServer) (i : Nat) : Task → Prop
  -- In the thread of the base loop they are called at once.
  | .establishConnection c | .destroyConnection c => i ≠ 0 ∧ c < s.created ∧ (s.conns c).loop = i
  | .removeConnectionInLoop c => i = 0 ∧ c < s.created
  | .forceCloseInLoop c => c < s.created ∧ (s.conns c).loop = i
  | .other => True

structure Placed (s : TcpServer) : Prop where
  next : s.threadNums ≠ 0 → s.next < s.threadNums
  owners : ∀ c < s.created, (s.conns c).loop ≤ s.threadNums
  pooled : s.threadNums ≠ 0 → ∀ c < s.created, (s.conns c).loop ≠ 0
  frames : ∀ i, ∀ c ∈ s.frames i, c < s.created ∧ (s.conns c).loop = i
  opened : ∀ i, i ≠ 0 → s.frames i ≠ [] → (s.loops i).phase.looping = true
  tasks : ∀ i, ∀ task ∈ (s.loops i).pending, PlacedTask s i task

theorem PlacedTask.mono {s next : TcpServer} {i : Nat} {task : Task}
    (placed : PlacedTask s i task) (created : s.created ≤ next.created)
    (owners : ∀ c < s.created, (next.conns c).loop = (s.conns c).loop) :
    PlacedTask next i task := by
  cases task with
  | establishConnection c | destroyConnection c =>
      obtain ⟨io, inside, own⟩ := placed
      exact ⟨io, Nat.lt_of_lt_of_le inside created, (owners c inside).trans own⟩
  | removeConnectionInLoop c => exact ⟨placed.1, Nat.lt_of_lt_of_le placed.2 created⟩
  | forceCloseInLoop c =>
      exact ⟨Nat.lt_of_lt_of_le placed.1 created, (owners c placed.1).trans placed.2⟩
  | other => trivial

theorem note_placed {s : TcpServer} (placed : Placed s) (event : Event) : Placed (s.note event) :=
  ⟨placed.next, placed.owners, placed.pooled, placed.frames, placed.opened, placed.tasks⟩

theorem erase_placed {s : TcpServer} (placed : Placed s) (c : Nat) : Placed (s.erase c) :=
  ⟨placed.next, placed.owners, placed.pooled, placed.frames, placed.opened, placed.tasks⟩

theorem setState_loop (s : TcpServer) (c : Nat) (state : ConnectionState) (d : Nat) :
    ((s.setState c state).conns d).loop = (s.conns d).loop :=
  ((setState_moves s c state).record d).2

theorem setState_placed {s : TcpServer} (placed : Placed s) (c : Nat) (state : ConnectionState) :
    Placed (s.setState c state) where
  next := placed.next
  owners d inside := by
    rw [setState_loop]
    exact placed.owners d inside
  pooled some d inside := by
    rw [setState_loop]
    exact placed.pooled some d inside
  frames i d member := by
    rw [setState_loop]
    exact placed.frames i d member
  opened := placed.opened
  tasks i task member :=
    (placed.tasks i task member).mono (Nat.le_refl _) fun d _ => setState_loop s c state d

theorem setFrames_placed {s : TcpServer} (placed : Placed s) {i : Nat} {frames : List Nat}
    (here : ∀ c ∈ frames, c < s.created ∧ (s.conns c).loop = i)
    (opened : i ≠ 0 → frames ≠ [] → (s.loops i).phase.looping = true) :
    Placed (s.setFrames i frames) where
  next := placed.next
  owners := placed.owners
  pooled := placed.pooled
  frames j c member := by
    by_cases same : j = i
    · subst same
      exact here c (by simpa [setFrames] using member)
    · exact placed.frames j c (by simpa [setFrames, same] using member)
  opened j io some := by
    by_cases same : j = i
    · subst same
      exact opened io (by simpa [setFrames] using some)
    · exact placed.opened j io (by simpa [setFrames, same] using some)
  tasks := placed.tasks

theorem setLoop_placed {s : TcpServer} (placed : Placed s) {i : Nat} {loop : EventLoop Task}
    (opened : i ≠ 0 → s.frames i ≠ [] → loop.phase.looping = true)
    (tasks : ∀ task ∈ loop.pending, PlacedTask s i task) : Placed (s.setLoop i loop) where
  next := placed.next
  owners := placed.owners
  pooled := placed.pooled
  frames := placed.frames
  opened j io some := by
    by_cases same : j = i
    · subst same
      simpa [setLoop] using opened io some
    · simpa [setLoop, same] using placed.opened j io some
  tasks j task member := by
    by_cases same : j = i
    · subst same
      exact tasks task (by simpa [setLoop] using member)
    · exact placed.tasks j task (by simpa [setLoop, same] using member)

theorem queueIn_cases {s next : TcpServer} {thread target : Nat} {task : Task}
    (queued : s.queueIn thread target task = some next) :
    next = s.setLoop target { (s.loops target).pushBack task with
      waking := thread :: (s.loops target).waking } := by
  obtain ⟨loop, pushed, rfl⟩ := Option.map_eq_some_iff.mp queued
  cases EventLoop.step_moves pushed with
  | push thread task free => rfl

theorem queueIn_placed {s next : TcpServer} {thread target : Nat} {task : Task} (placed : Placed s)
    (queued : s.queueIn thread target task = some next) (here : PlacedTask s target task) :
    Placed next := by
  rw [queueIn_cases queued]
  apply setLoop_placed placed
  · exact placed.opened target
  intro queued member
  have split : queued ∈ (s.loops target).pending ++ [task] := by
    simpa [EventLoop.pending, EventLoop.curFunctors, EventLoop.pushBack] using member
  rcases List.mem_append.mp split with old | new
  · exact placed.tasks target queued old
  · cases List.mem_singleton.mp new
    exact here

theorem destroyConnection_placed {s : TcpServer} (placed : Placed s) (c i : Nat) :
    Placed (s.destroyConnection c i) :=
  note_placed (setState_placed placed c .kDisConnected) _

theorem removeConnectionInLoop_placed {s next : TcpServer} {c : Nat} (placed : Placed s)
    (inside : c < s.created) (removed : s.removeConnectionInLoop c 0 = some next) :
    Placed next := by
  unfold removeConnectionInLoop at removed
  split at removed
  · cases removed
    exact destroyConnection_placed (erase_placed placed c) c 0
  · rename_i io
    exact queueIn_placed (erase_placed placed c) removed ⟨io, inside, rfl⟩

theorem removeConnection_placed {s next : TcpServer} {c i : Nat} (placed : Placed s)
    (inside : c < s.created) (removed : s.removeConnection c i = some next) : Placed next := by
  unfold removeConnection at removed
  split at removed
  · rename_i base
    subst base
    exact removeConnectionInLoop_placed placed inside removed
  · exact queueIn_placed placed removed ⟨rfl, inside⟩

theorem handleClose_placed {s : TcpServer} {c i : Nat} (placed : Placed s) (inside : c < s.created)
    (own : (s.conns c).loop = i) (looping : i ≠ 0 → (s.loops i).phase.looping = true) :
    Placed (s.handleClose c i) := by
  apply setFrames_placed (setState_placed placed c .kDisConnected)
  · intro d member
    rw [setState_loop]
    rcases List.mem_cons.mp member with rfl | old
    · exact ⟨inside, own⟩
    · exact placed.frames i d old
  · intro io _
    exact looping io

theorem runTask_placed {s next : TcpServer} {i : Nat} {task : Task} (placed : Placed s)
    (here : PlacedTask s i task) (looping : (s.loops i).phase.looping = true)
    (ran : s.runTask i task = some next) : Placed next := by
  cases task with
  | establishConnection c =>
      cases ran
      exact note_placed (setState_placed placed c .kConnected) _
  | removeConnectionInLoop c =>
      obtain ⟨rfl, inside⟩ := here
      exact removeConnectionInLoop_placed placed inside ran
  | destroyConnection c =>
      cases ran
      exact destroyConnection_placed placed c i
  | forceCloseInLoop c =>
      cases ran
      split
      · exact handleClose_placed placed here.1 here.2 fun _ => looping
      · exact placed
  | other =>
      cases ran
      exact placed

theorem accept_placed {s : TcpServer} (placed : Placed s) : Placed s.accept := by
  have old : ∀ c < s.created, (s.accept.conns c).loop = (s.conns c).loop := by
    intro c inside
    simp [accept, Nat.ne_of_lt inside]
  have own : (s.accept.conns s.created).loop = s.getNextLoop.1 := by simp [accept]
  have next : s.getNextLoop.1 ≤ s.threadNums ∧
      (s.threadNums ≠ 0 → s.getNextLoop.1 ≠ 0 ∧ s.getNextLoop.2 < s.threadNums) := by
    unfold getNextLoop
    split
    · rename_i zero
      exact ⟨Nat.zero_le _, fun some => absurd zero some⟩
    · rename_i some
      exact ⟨placed.next some,
        fun _ => ⟨Nat.succ_ne_zero _, Nat.mod_lt _ (Nat.pos_of_ne_zero some)⟩⟩
  constructor
  case next => exact fun some => (next.2 some).2
  case owners =>
    intro c inside
    rcases Nat.lt_succ_iff_lt_or_eq.mp inside with before | rfl
    · rw [old c before]
      exact placed.owners c before
    · rw [own]
      exact next.1
  case pooled =>
    intro some c inside
    rcases Nat.lt_succ_iff_lt_or_eq.mp inside with before | rfl
    · rw [old c before]
      exact placed.pooled some c before
    · rw [own]
      exact (next.2 some).1
  case frames =>
    intro i c member
    have here := placed.frames i c member
    exact ⟨Nat.lt_succ_of_lt here.1, (old c here.1).trans here.2⟩
  case opened => exact placed.opened
  case tasks =>
    intro i task member
    exact (placed.tasks i task member).mono (Nat.le_succ _) old

theorem newConnection_placed {s next : TcpServer} (placed : Placed s)
    (made : s.newConnection = some next) : Placed next := by
  unfold newConnection at made
  split at made
  · cases made
    exact note_placed (setState_placed (accept_placed placed) _ _) _
  · rename_i io
    exact queueIn_placed (accept_placed placed) made
      ⟨io, Nat.lt_succ_self _, by simp [accept]⟩

theorem machine_looping {s : TcpServer} {i : Nat} {action : EventLoop.Action Task}
    {loop : EventLoop Task} (may : s.machineMay i action = true) (opened : s.frames i ≠ [])
    (moved : (s.loops i).step action = some loop) :
    loop.phase.looping = (s.loops i).phase.looping := by
  cases EventLoop.step_moves moved with
  | push | quitIgnored | quit => rfl
  | pushed | wakeUp | queued => simp
  | loop action _ free moved =>
      cases moved with
      | queue task phase => rfl
      | runNext task rest phase => cases may
      | enter | leave | poll | pollReturn | handleWakeupRead | beginExecute | swap
      | functorReturn | finish =>
          exact absurd (List.isEmpty_iff.mp may) opened

theorem machine_placed {s next : TcpServer} {i : Nat} {action : EventLoop.Action Task}
    (placed : Placed s) (stepped : s.step (.machine i action) = some next) : Placed next := by
  obtain ⟨may, stepped⟩ := Option.ite_none_right_eq_some.mp stepped
  obtain ⟨loop, moved, rfl⟩ := Option.map_eq_some_iff.mp stepped
  apply setLoop_placed placed
  · intro io opened
    rw [machine_looping may opened moved]
    exact placed.opened i io opened
  · intro task member
    rcases machine_pending may moved with same | more
    · exact placed.tasks i task (same ▸ member)
    · rw [more] at member
      rcases List.mem_append.mp member with old | new
      · exact placed.tasks i task old
      · cases List.mem_singleton.mp new
        trivial

theorem runNext_looping {l loop : EventLoop Task} (moved : l.step (.loop .runNext) = some loop) :
    loop.phase.looping = true := by
  cases EventLoop.step_moves moved with
  | loop _ _ free moved =>
      cases moved with
      | runNext task rest phase => rfl

theorem userCode_looping {s : TcpServer} {i : Nat} (user : s.userCode i = true) (io : i ≠ 0) :
    (s.loops i).phase.looping = true := by
  unfold userCode at user
  cases phase : (s.loops i).phase with
  | outside => simp [phase, io] at user
  | testing | polling | handling | swapping | running rest | inFunctor rest => rfl

theorem stepped_placed {s next : TcpServer} {action : TcpServer.Action} (placed : Placed s)
    (stepped : Stepped s action next) : Placed next := by
  cases stepped with
  | machine moved => exact machine_placed placed moved
  | newConnection made => exact newConnection_placed placed made
  | @runFunctor i task rest loop _ functors moved ran =>
      have pending := EventLoop.runNext_pending functors moved
      have looping := runNext_looping moved
      have popped : Placed (s.setLoop i loop) := by
        apply setLoop_placed placed fun _ _ => looping
        intro later member
        exact placed.tasks i later (pending ▸ List.mem_cons_of_mem task member)
      apply runTask_placed popped _ _ ran
      · have here := placed.tasks i task (pending ▸ List.mem_cons_self)
        exact here.mono (Nat.le_refl _) fun _ _ => rfl
      · simpa [setLoop] using looping
  | handleClose inside user established =>
      exact handleClose_placed placed inside rfl (userCode_looping user)
  | @callbackReturn c i rest _ frames returned =>
      have here := placed.frames i
      rw [frames] at here
      have closed : Placed (s.setFrames i rest) := by
        apply setFrames_placed placed fun d member => here d (List.mem_cons_of_mem c member)
        intro io _
        exact placed.opened i io (frames ▸ List.cons_ne_nil c rest)
      exact removeConnection_placed closed (here c List.mem_cons_self).1 returned
  | shutDown inside connected => exact setState_placed placed _ _
  | forceClose inside up queued => exact queueIn_placed placed queued ⟨inside, rfl⟩
  | shutDownIgnored | forceCloseIgnored => exact placed

theorem start_placed (start : Start) : Placed start.server where
  next some := Nat.pos_of_ne_zero some
  owners _ inside := absurd inside (Nat.not_lt_zero _)
  pooled _ _ inside := absurd inside (Nat.not_lt_zero _)
  frames _ _ member := by cases member
  opened _ _ some := absurd rfl some
  tasks i task member := by
    cases start.others i task member
    trivial

/-! The destructor. -/

/-- The connections whose `DestroyConnection` is to be handed on. -/
def Life.rest : Life → List Nat
  | .destroying rest | .waking _ rest => rest
  | _ => []

structure Inv (s : TcpServer) (life : Life) : Prop where
  placed : Placed s
  rest : ∀ c ∈ life.rest, c < s.created

theorem wakeUp_pending (l : EventLoop Task) : l.wakeUp.pending = l.pending := by
  simp [EventLoop.pending, EventLoop.curFunctors]

theorem setLoop_same_placed {s : TcpServer} {i : Nat} {loop : EventLoop Task} (placed : Placed s)
    (phase : loop.phase = (s.loops i).phase) (pending : loop.pending = (s.loops i).pending) :
    Placed (s.setLoop i loop) := by
  apply setLoop_placed placed
  · rw [phase]
    exact placed.opened i
  · rw [pending]
    exact placed.tasks i

inductive Advanced (s : TcpServer) : Life → TcpServer × Life → Prop
  | destroyInline {c : Nat} {rest : List Nat} (own : (s.conns c).loop = 0) :
      Advanced s (.destroying (c :: rest)) (s.destroyConnection c 0, .waking 0 rest)
  | destroyQueued {c : Nat} {rest : List Nat} {queued : TcpServer} (io : (s.conns c).loop ≠ 0)
      (pushed : s.queueIn 0 (s.conns c).loop (.destroyConnection c) = some queued) :
      Advanced s (.destroying (c :: rest)) (queued, .waking (s.conns c).loop rest)
  | wakeUp {i : Nat} {rest : List Nat} :
      Advanced s (.waking i rest) (s.setLoop i (s.loops i).wakeUp, .destroying rest)
  | cleared :
      Advanced s (.destroying []) ({ s with connections := fun _ => none }, .quitting (pool s))
  | quitIgnored {i : Nat} {rest : List Nat} :
      Advanced s (.quitting (i :: rest)) (s, .quitting rest)
  | quit {i : Nat} {rest : List Nat} :
      Advanced s (.quitting (i :: rest))
        (s.setLoop i (EventLoop.wakeUp { s.loops i with quit := true }), .waiting i rest)
  | quitReturn {i : Nat} {rest : List Nat} : Advanced s (.waiting i rest) (s, .quitting rest)
  | joined (left : ∀ i ∈ pool s, (s.loops i).phase.looping = false ∧ (s.loops i).quit = true) :
      Advanced s (.quitting []) (s, .destroyed)

theorem advance_advanced {s : TcpServer} {life : Life} {next : TcpServer × Life}
    (advanced : advance s life = some next) : Advanced s life next := by
  unfold advance at advanced
  split at advanced
  · split at advanced
    · cases advanced
      exact .destroyInline ‹_›
    · obtain ⟨queued, pushed, rfl⟩ := Option.map_eq_some_iff.mp advanced
      exact .destroyQueued ‹_› pushed
  · split at advanced
    · cases advanced
    · cases advanced
      exact .wakeUp
  · cases advanced
    exact .cleared
  · cases advanced
    unfold quitLoop
    split
    · exact .quitIgnored
    · exact .quit
  · split at advanced
    · cases advanced
    · cases advanced
      exact .quitReturn
  · split at advanced
    · cases advanced
      exact .joined ‹_›
    · cases advanced
  · cases advanced
  · cases advanced

theorem Advanced.inv {s : TcpServer} {life : Life} {next : TcpServer × Life} (inv : Inv s life)
    (advanced : Advanced s life next) : Inv next.1 next.2 := by
  obtain ⟨placed, rest⟩ := inv
  cases advanced with
  | @destroyInline c entries own =>
      exact ⟨destroyConnection_placed placed c 0, fun d member =>
        rest d (List.mem_cons_of_mem c member)⟩
  | @destroyQueued c entries queued io pushed =>
      refine ⟨queueIn_placed placed pushed ⟨io, rest c List.mem_cons_self, rfl⟩, ?_⟩
      intro d member
      rw [queueIn_created pushed]
      exact rest d (List.mem_cons_of_mem c member)
  | wakeUp => exact ⟨setLoop_same_placed placed (by simp) (wakeUp_pending _), rest⟩
  | cleared =>
      exact ⟨⟨placed.next, placed.owners, placed.pooled, placed.frames, placed.opened,
        placed.tasks⟩, nofun⟩
  | quit => exact ⟨setLoop_same_placed placed (by simp) (wakeUp_pending _), nofun⟩
  | quitIgnored | quitReturn | joined => exact ⟨placed, nofun⟩

theorem mem_entries {s : TcpServer} {c : Nat} :
    c ∈ s.entries ↔ c < s.created ∧ s.connections (s.conns c).name = some c := by
  simp [entries]

theorem destroy_cases {s next : System} {order : List Nat}
    (called : step s (.destroy order) = some next) :
    s.life = .alive ∧ order.Perm s.server.entries ∧
      next = { s with life := .destroying order } := by
  simp only [step] at called
  split at called
  · rename_i alive
    obtain ⟨ready, made⟩ := Option.ite_none_right_eq_some.mp called
    cases made
    exact ⟨alive, List.isPerm_iff.mp (Bool.and_eq_true_iff.mp ready).2, rfl⟩
  · cases called

theorem advance_cases {s next : System} (advanced : step s .advance = some next) :
    Advanced s.server s.life (next.server, next.life) ∧ next.held = s.held := by
  obtain ⟨after, moved, rfl⟩ := Option.map_eq_some_iff.mp advanced
  exact ⟨advance_advanced moved, rfl⟩

theorem step_inv {s next : System} {action : Action} (inv : Inv s.server s.life)
    (stepped : step s action = some next) : Inv next.server next.life := by
  cases action with
  | server action =>
      obtain ⟨-, answered⟩ := Option.ite_none_right_eq_some.mp stepped
      obtain ⟨server, moved, rfl⟩ := Option.map_eq_some_iff.mp answered
      have happened := step_stepped moved
      refine ⟨stepped_placed inv.placed happened, ?_⟩
      intro c member
      rw [happened.created]
      exact Nat.lt_add_right _ (inv.rest c member)
  | destroy order =>
      obtain ⟨-, same, rfl⟩ := destroy_cases stepped
      exact ⟨inv.placed, fun c member => (mem_entries.mp (same.mem_iff.mp member)).1⟩
  | advance => exact (advance_cases stepped).1.inv inv
  | hold c =>
      obtain ⟨-, made⟩ := Option.ite_none_right_eq_some.mp stepped
      cases made
      exact inv
  | release c =>
      cases stepped
      exact inv

/-! After the destructor. -/

def PoolDone (s : TcpServer) : Prop := ∀ i, i ≠ 0 → i ≤ s.threadNums → (s.loops i).Done

theorem Advanced.poolDone {s : TcpServer} {life : Life} {final : TcpServer × Life}
    (advanced : Advanced s life final) (gone : final.2 = .destroyed) : PoolDone final.1 := by
  cases advanced with
  | joined left =>
      intro i io (within : i ≤ s.threadNums)
      apply left i
      simp only [pool, List.mem_range'_1]
      omega
  | destroyInline | destroyQueued | wakeUp | cleared | quitIgnored | quit | quitReturn => cases gone

structure Quiet (s : System) : Prop where
  placed : Placed s.server
  pool : PoolDone s.server
  drained : Drained s.server
  released : Released s

section Quiet
variable {s : System} (quiet : Quiet s)
include quiet

theorem Quiet.base {i c : Nat} {task : Task} {rest : List Task}
    (functors : (s.server.loops i).curFunctors = task :: rest) (inside : c < s.server.created)
    (own : (s.server.conns c).loop = i) : i = 0 := by
  by_contra io
  have done := quiet.pool i io (own ▸ quiet.placed.owners c inside)
  rw [done.curFunctors] at functors
  cases functors

theorem Quiet.task {i : Nat} {task : Task} {rest : List Task}
    (functors : (s.server.loops i).curFunctors = task :: rest) : task = .other := by
  have first : task ∈ (s.server.loops i).curFunctors := functors ▸ List.mem_cons_self
  have pending : task ∈ (s.server.loops i).pending := List.mem_append_left _ first
  have placed := quiet.placed.tasks i task pending
  cases task with
  | establishConnection c | destroyConnection c =>
      exact absurd (quiet.base functors placed.2.1 placed.2.2) placed.1
  | removeConnectionInLoop c =>
      obtain ⟨rfl, -⟩ := placed
      have none := quiet.drained.2 _ (EventLoop.mem_ahead.mpr (.inl first))
      cases none
  | forceCloseInLoop c =>
      -- The functor has a pointer.
      obtain rfl := quiet.base functors placed.1 placed.2
      have released := quiet.released c placed.1 placed.2
      have kept : ((s.server.loops 0).pending.any (Task.keeps c)) = true :=
        List.any_eq_true.mpr ⟨_, pending, by simp [Task.keeps]⟩
      simp [pointed, kept] at released
  | other => rfl

theorem Quiet.not_looping {c : Nat} (inside : c < s.server.created)
    (io : (s.server.conns c).loop ≠ 0) :
    (s.server.loops (s.server.conns c).loop).phase.looping = false :=
  (quiet.pool _ io (quiet.placed.owners c inside)).1

theorem Quiet.frames (i : Nat) : s.server.frames i = [] := by
  cases frames : s.server.frames i with
  | nil => rfl
  | cons c rest =>
      obtain ⟨inside, rfl⟩ := quiet.placed.frames i c (frames ▸ List.mem_cons_self)
      by_cases base : (s.server.conns c).loop = 0
      · rw [base, quiet.drained.1] at frames
        cases frames
      · have looping := quiet.placed.opened _ base (frames ▸ List.cons_ne_nil c rest)
        rw [quiet.not_looping inside base] at looping
        cases looping

end Quiet

theorem pointed_base {s : System} {c : Nat} (own : (s.server.conns c).loop = 0) :
    pointed s c = false ↔ s.held c = false ∧
      s.server.connections (s.server.conns c).name ≠ some c ∧ c ∉ s.server.frames 0 ∧
        ∀ task ∈ (s.server.loops 0).pending, task.keeps c = false := by
  simp [pointed, own, and_assoc]

theorem Released.mono {s next : System} (released : Released s)
    (created : next.server.created = s.server.created)
    (record : ∀ c, (next.server.conns c).name = (s.server.conns c).name ∧
      (next.server.conns c).loop = (s.server.conns c).loop)
    (connections : next.server.connections = s.server.connections)
    (frames : next.server.frames 0 = s.server.frames 0)
    (tasks : ∀ task ∈ (next.server.loops 0).pending,
      task ∈ (s.server.loops 0).pending ∨ task = .other)
    (held : ∀ c < s.server.created, (s.server.conns c).loop = 0 → s.held c = false →
      next.held c = false) : Released next := by
  intro c inside own
  rw [(record c).2] at own
  obtain ⟨free, unlisted, closed, none⟩ :=
    (pointed_base own).mp (released c (created ▸ inside) own)
  refine (pointed_base ((record c).2.trans own)).mpr
    ⟨held c (created ▸ inside) own free, ?_, frames ▸ closed, ?_⟩
  · rwa [(record c).1, connections]
  · intro task member
    rcases tasks task member with old | rfl
    · exact none task old
    · rfl

section Quiet
variable {s : System} {next : TcpServer} (quiet : Quiet s)
include quiet

theorem Quiet.loop {i : Nat} {action : EventLoop.Action Task} {loop : EventLoop Task}
    (moved : (s.server.loops i).step action = some loop)
    (placed : Placed (s.server.setLoop i loop))
    (once : i ≠ 0 → (s.server.loops i).quit = true → action ≠ .loop .enter)
    (calm : i = 0 → ∀ task ∈ action.appended, task = .other) :
    Quiet { s with server := s.server.setLoop i loop } := by
  refine ⟨placed, fun j io within => ?_, ⟨quiet.drained.1, ?_⟩, ?_⟩
  · have done := quiet.pool j io within
    by_cases same : j = i
    · subst same
      simpa [setLoop] using done.step moved (once io done.2)
    · simpa [setLoop, same] using done
  · by_cases base : i = 0
    · subst base
      intro task member
      rcases EventLoop.step_ahead moved (by simpa [setLoop] using member) with before | appended
      · exact quiet.drained.2 task before
      · rw [calm rfl task appended]
        rfl
    · simpa [setLoop, Ne.symm base] using quiet.drained.2
  · refine quiet.released.mono rfl (fun _ => ⟨rfl, rfl⟩) rfl rfl ?_ fun _ _ _ free => free
    by_cases base : i = 0
    · subst base
      intro task member
      have order := EventLoop.step_pending moved
      have inside : task ∈ (s.server.loops 0).started action ++ loop.pending :=
        List.mem_append_right _ (by simpa [setLoop] using member)
      rw [order] at inside
      rcases List.mem_append.mp inside with old | new
      · exact .inl old
      · exact .inr (calm rfl task new)
    · intro task member
      exact .inl (by simpa [setLoop, Ne.symm base] using member)

theorem Quiet.stepped {action : TcpServer.Action} (allowed : may s action = true)
    (old : action ≠ .newConnection) (stepped : Stepped s.server action next) :
    s.server.enters action = false ∧ Quiet { s with server := next } := by
  have placed := stepped_placed quiet.placed stepped
  have may := Bool.and_eq_true_iff.mp (Bool.and_eq_true_iff.mp allowed).1
  cases stepped with
  | @machine i action _ moved =>
      obtain ⟨allowed, answered⟩ := Option.ite_none_right_eq_some.mp moved
      obtain ⟨loop, inner, rfl⟩ := Option.map_eq_some_iff.mp answered
      refine ⟨rfl, quiet.loop inner placed ?_ fun _ task member => ?_⟩
      · rintro io quit rfl
        have once := may.1
        simp [loopsOnce, io, quit] at once
      · rcases (machineMay_tasks allowed (s.server.loops i)).2 with none | one
        · rw [none] at member
          cases member
        · rw [one] at member
          exact List.mem_singleton.mp member
  | newConnection made => exact absurd rfl old
  | runFunctor functors moved ran =>
      obtain rfl := quiet.task functors
      cases ran
      refine ⟨by simp [enters, functors, Task.removes], quiet.loop moved placed ?_ ?_⟩
      · intro _ _ same
        cases same
      · intro _ task member
        cases member
  | @handleClose c inside user established =>
      by_cases base : (s.server.conns c).loop = 0
      · have there : pointed s c = true := may.2
        rw [quiet.released c inside base] at there
        cases there
      · have looping := userCode_looping user base
        rw [quiet.not_looping inside base] at looping
        cases looping
  | callbackReturn frames returned =>
      rw [quiet.frames] at frames
      cases frames
  | @shutDown c inside connected =>
      refine ⟨rfl, placed, quiet.pool, quiet.drained, ?_⟩
      exact quiet.released.mono rfl ((setState_moves s.server c _).record) rfl rfl
        (fun _ member => .inl member) fun _ _ _ free => free
  | @forceClose thread c _ inside up queued =>
      obtain ⟨loop, moved, rfl⟩ := Option.map_eq_some_iff.mp queued
      refine ⟨rfl, quiet.loop moved placed ?_ fun base => ?_⟩
      · intro _ _ same
        cases same
      · have there : pointed s c = true := may.2
        rw [quiet.released c inside base] at there
        cases there
  | shutDownIgnored | forceCloseIgnored => exact ⟨rfl, quiet⟩

theorem Quiet.never : s.life = .destroyed → ¬Reaches step Calls s := by
  intro gone
  refine not_reaches_of_invariant (fun s => s.life = .destroyed ∧ Quiet s) ?_ ⟨gone, quiet⟩
  rintro s action next ⟨gone, quiet⟩ stepped
  cases action with
  | server action =>
      obtain ⟨allowed, answered⟩ := Option.ite_none_right_eq_some.mp stepped
      obtain ⟨after, moved, rfl⟩ := Option.map_eq_some_iff.mp answered
      have old : action ≠ .newConnection := by
        rintro rfl
        simp [may, gone] at allowed
      have kept := quiet.stepped allowed old (step_stepped moved)
      refine ⟨fun calls => ?_, gone, kept.2⟩
      cases kept.1.symm.trans calls.2
  | destroy order => cases gone.symm.trans (destroy_cases stepped).1
  | advance =>
      obtain ⟨after, moved, rfl⟩ := Option.map_eq_some_iff.mp stepped
      rw [gone] at moved
      cases moved
  | hold c =>
      obtain ⟨there, made⟩ := Option.ite_none_right_eq_some.mp stepped
      cases made
      refine ⟨nofun, gone, quiet.placed, quiet.pool, quiet.drained, ?_⟩
      refine quiet.released.mono rfl (fun _ => ⟨rfl, rfl⟩) rfl rfl (fun _ member => .inl member) ?_
      intro d inside own free
      have apart : d ≠ c := by
        rintro rfl
        cases (quiet.released d inside own).symm.trans there
      simpa [apart] using free
  | release c =>
      cases stepped
      refine ⟨nofun, gone, quiet.placed, quiet.pool, quiet.drained, ?_⟩
      refine quiet.released.mono rfl (fun _ => ⟨rfl, rfl⟩) rfl rfl (fun _ member => .inl member) ?_
      intro d _ _ free
      by_cases same : d = c
      · simp [same]
      · simpa [same] using free

end Quiet

/-! What is not settled comes. -/

section CallsLater
variable {held : Nat → Bool}

/-- Some run of what is left calls the destroyed server. -/
def CallsLater (held : Nat → Bool) (s : TcpServer) : Prop :=
  Reaches step Calls ⟨s, .destroyed, held⟩

theorem destroyed_step {s next : TcpServer} {action : TcpServer.Action}
    (allowed : may ⟨s, .destroyed, held⟩ action = true) (stepped : s.step action = some next) :
    step ⟨s, .destroyed, held⟩ (.server action) = some ⟨next, .destroyed, held⟩ := by
  simp [step, allowed, stepped]

theorem callsLater_here {s next : TcpServer} {action : TcpServer.Action}
    (allowed : may ⟨s, .destroyed, held⟩ action = true) (stepped : s.step action = some next)
    (enters : s.enters action = true) : CallsLater held s :=
  .here (destroyed_step allowed stepped) ⟨rfl, enters⟩

theorem callsLater_step {s next : TcpServer} {action : TcpServer.Action}
    (allowed : may ⟨s, .destroyed, held⟩ action = true) (stepped : s.step action = some next)
    (later : CallsLater held next) : CallsLater held s :=
  .later (destroyed_step allowed stepped) later

@[simp] theorem setLoop_self (s : TcpServer) (i : Nat) : s.setLoop i (s.loops i) = s := by
  simp [setLoop]

@[simp] theorem setLoop_loops (s : TcpServer) (i : Nat) (loop : EventLoop Task) :
    (s.setLoop i loop).loops i = loop := by
  simp [setLoop]

@[simp] theorem setLoop_setLoop (s : TcpServer) (i : Nat) (loop later : EventLoop Task) :
    (s.setLoop i loop).setLoop i later = s.setLoop i later := by
  simp [setLoop]

theorem callsLater_pushed {s : TcpServer} {i n : Nat} {l : EventLoop Task}
    (count : l.waking.count 0 = n)
    (free : ∀ loop : EventLoop Task, 0 ∉ loop.waking → CallsLater held (s.setLoop i loop)) :
    CallsLater held (s.setLoop i l) := by
  induction n generalizing l with
  | zero => exact free l (List.count_eq_zero.mp count)
  | succ n ih =>
      have behind : 0 ∈ l.waking := by
        rw [← List.count_pos_iff, count]
        exact Nat.succ_pos n
      have moved : (s.setLoop i l).step (.machine i (.pushed 0)) = some (s.setLoop i
          { l.wakeAfterPush false with waking := l.waking.erase 0 }) := by
        simp [TcpServer.step, machineMay, EventLoop.step, behind]
      apply callsLater_step rfl moved
      apply ih
      simp [List.count_erase_self, count]

theorem callsLater_free {s : TcpServer} (c : Nat)
    (free : ∀ next : TcpServer, next.frames = s.frames → next.loops 0 = s.loops 0 →
      next.conns = s.conns →
      ((s.conns c).loop ≠ 0 → 0 ∉ (next.loops (s.conns c).loop).waking) → CallsLater held next) :
    CallsLater held s := by
  by_cases own : (s.conns c).loop = 0
  · exact free s rfl rfl rfl fun io => absurd own io
  · rw [← setLoop_self s (s.conns c).loop]
    apply callsLater_pushed rfl
    intro loop awake
    refine free (s.setLoop (s.conns c).loop loop) rfl ?_ rfl fun _ => ?_
    · simp [setLoop, Ne.symm own]
    · simpa using awake

theorem removeConnectionInLoop_total {s : TcpServer} {c : Nat}
    (free : (s.conns c).loop ≠ 0 → 0 ∉ (s.loops (s.conns c).loop).waking) :
    ∃ next, s.removeConnectionInLoop c 0 = some next := by
  unfold removeConnectionInLoop
  by_cases own : (s.conns c).loop = 0
  · simp [own]
  · have awake : 0 ∉ ((s.erase c).loops (s.conns c).loop).waking := free own
    simp [own, queueIn, EventLoop.step, awake]

theorem callsLater_frame {s : TcpServer} {c : Nat} {rest : List Nat}
    (frames : s.frames 0 = c :: rest) (free : (s.loops 0).queueing = false) :
    CallsLater held s := by
  apply callsLater_free c
  intro next sameFrames sameLoop sameConns awake
  have ready : ((next.setFrames 0 rest).conns c).loop ≠ 0 →
      0 ∉ ((next.setFrames 0 rest).loops ((next.setFrames 0 rest).conns c).loop).waking := by
    simpa [setFrames, sameConns] using awake
  obtain ⟨after, removed⟩ := removeConnectionInLoop_total ready
  have stepped : next.step (.callbackReturn 0) = some after := by
    simp [TcpServer.step, sameLoop, free, sameFrames, frames, removeConnection, removed]
  exact callsLater_here rfl stepped rfl

theorem callsLater_closed {s : TcpServer} (c : Nat) (free : (s.loops 0).queueing = false) :
    CallsLater held (s.handleClose c 0) := by
  have frames : (s.handleClose c 0).frames 0 = c :: s.frames 0 := by simp [handleClose, setFrames]
  exact callsLater_frame frames free

theorem runFunctor_step {s : TcpServer} {task : Task} {rest : List Task}
    (idle : s.frames 0 = []) (phase : (s.loops 0).phase = .running (task :: rest))
    (free : (s.loops 0).queueing = false) :
    s.step (.runFunctor 0) =
      (s.setLoop 0 { s.loops 0 with phase := .inFunctor rest }).runTask 0 task := by
  simp [TcpServer.step, idle, EventLoop.curFunctors, EventLoop.step, EventLoop.loopStep, phase,
    free]

theorem callsLater_functor {s : TcpServer} {c : Nat} {rest : List Task} (idle : s.frames 0 = [])
    (phase : (s.loops 0).phase = .running (.removeConnectionInLoop c :: rest))
    (free : (s.loops 0).queueing = false) : CallsLater held s := by
  apply callsLater_free c
  intro next frames loop conns awake
  have idleStill : next.frames 0 = [] := frames ▸ idle
  rw [← loop] at phase free
  have stepped := runFunctor_step idleStill phase free
  generalize popped : next.setLoop 0 { next.loops 0 with phase := .inFunctor rest } = after
    at stepped
  have ready : (after.conns c).loop ≠ 0 → 0 ∉ (after.loops (after.conns c).loop).waking := by
    subst popped
    intro io
    simp only [setLoop, conns] at io ⊢
    simpa [io] using awake io
  obtain ⟨last, removed⟩ := removeConnectionInLoop_total ready
  apply callsLater_here rfl (stepped.trans removed)
  simp [enters, EventLoop.curFunctors, phase, Task.removes]

section

variable {s : TcpServer} (idle : s.frames 0 = [])
include idle

theorem callsLater_loop {action : EventLoop.LoopAction Task} {l next : EventLoop Task}
    (moved : EventLoop.LoopMoves l action next) (free : l.queueing = false)
    (calm : ∀ server : TcpServer,
      server.machineMay 0 (.loop action) = (server.frames 0).isEmpty)
    (later : CallsLater held (s.setLoop 0 next)) : CallsLater held (s.setLoop 0 l) := by
  have stepped : (s.setLoop 0 l).step (.machine 0 (.loop action)) = some (s.setLoop 0 next) := by
    have frames : (s.setLoop 0 l).frames 0 = [] := idle
    simp [TcpServer.step, calm, frames, EventLoop.step, free, moved.loopStep]
  refine callsLater_step ?_ stepped later
  cases action <;> rfl

theorem callsLater_batch {batch : List Task} {l : EventLoop Task}
    (phase : l.phase = .running batch) (free : l.queueing = false)
    (placed : ∀ task ∈ batch, PlacedTask s 0 task)
    (later : (∃ task ∈ batch, task.removes = true) ∨
      CallsLater held (s.setLoop 0 { l with phase := .running [] })) :
    CallsLater held (s.setLoop 0 l) := by
  induction batch generalizing l with
  | nil =>
      rcases later with ⟨task, member, -⟩ | later
      · cases member
      · rw [← phase] at later
        exact later
  | cons task rest ih =>
      have here := placed task List.mem_cons_self
      have running : ((s.setLoop 0 l).loops 0).phase = .running (task :: rest) := by
        simpa using phase
      have unlocked : ((s.setLoop 0 l).loops 0).queueing = false := by simpa using free
      have idleStill : (s.setLoop 0 l).frames 0 = [] := idle
      have started := runFunctor_step idleStill running unlocked
      simp only [setLoop_loops, setLoop_setLoop] at started
      -- A functor that leaves the connections alone returns to the batch.
      have go : task.removes = false →
          (s.setLoop 0 { l with phase := .inFunctor rest }).runTask 0 task =
            some (s.setLoop 0 { l with phase := .inFunctor rest }) →
          CallsLater held (s.setLoop 0 l) := by
        intro calm ran
        have left : (∃ found ∈ rest, found.removes = true) ∨
            CallsLater held (s.setLoop 0 { l with phase := .running [] }) := by
          rcases later with ⟨found, member, removes⟩ | later
          · rcases List.mem_cons.mp member with rfl | member
            · rw [calm] at removes
              cases removes
            · exact .inl ⟨found, member, removes⟩
          · exact .inr later
        apply callsLater_step rfl (started.trans ran)
        refine callsLater_loop idle (.functorReturn _ rest rfl) free (fun _ => rfl) ?_
        exact ih rfl free (fun task member => placed task (List.mem_cons_of_mem _ member)) left
      cases task with
      | establishConnection c | destroyConnection c => exact absurd rfl here.1
      | removeConnectionInLoop c => exact callsLater_functor idleStill running unlocked
      | forceCloseInLoop c =>
          by_cases up : (s.setLoop 0 { l with phase := .inFunctor rest }).up c = true
          · have closed : (s.setLoop 0 l).step (.runFunctor 0) =
                some ((s.setLoop 0 { l with phase := .inFunctor rest }).handleClose c 0) := by
              rw [started]
              simp [runTask, up]
            exact callsLater_step rfl closed (callsLater_closed c (by simpa using free))
          · apply go rfl
            simp [runTask, up]
      | other => exact go rfl rfl

/-- A `RemoveConnectionInLoop` waits in `functors_`. -/
def Waits (s : TcpServer) (l : EventLoop Task) : Prop :=
  l.queueing = false ∧ (∀ task ∈ l.functors, PlacedTask s 0 task) ∧
    ∃ task ∈ l.functors, task.removes = true

theorem waits_swapping {l : EventLoop Task} (phase : l.phase = .swapping) (waits : Waits s l) :
    CallsLater held (s.setLoop 0 l) := by
  obtain ⟨free, placed, found⟩ := waits
  apply callsLater_loop idle (.swap l phase) free fun _ => rfl
  exact callsLater_batch idle rfl free placed (.inl found)

theorem waits_handling {l : EventLoop Task} (phase : l.phase = .handling) (waits : Waits s l) :
    CallsLater held (s.setLoop 0 l) := by
  apply callsLater_loop idle (.beginExecute l phase) waits.1 fun _ => rfl
  exact waits_swapping idle rfl waits

theorem waits_polling {l : EventLoop Task} (phase : l.phase = .polling) (waits : Waits s l) :
    CallsLater held (s.setLoop 0 l) := by
  apply callsLater_loop idle (.pollReturn l phase) waits.1 fun _ => rfl
  exact waits_handling idle rfl waits

theorem waits_testing {l : EventLoop Task} (phase : l.phase = .testing) (stays : l.quit = false)
    (waits : Waits s l) : CallsLater held (s.setLoop 0 l) := by
  apply callsLater_loop idle (.poll l phase stays) waits.1 fun _ => rfl
  exact waits_polling idle rfl waits

theorem waits_running {l : EventLoop Task} {batch : List Task} (phase : l.phase = .running batch)
    (stays : l.quit = false) (batched : ∀ task ∈ batch, PlacedTask s 0 task)
    (waits : Waits s l) : CallsLater held (s.setLoop 0 l) := by
  apply callsLater_batch idle phase waits.1 batched
  right
  refine callsLater_loop idle (.finish _ rfl) waits.1 (fun _ => rfl) ?_
  exact waits_testing idle rfl stays waits

theorem callsLater_ahead {l : EventLoop Task} (free : l.queueing = false)
    (placed : ∀ task ∈ l.pending, PlacedTask s 0 task) {task : Task} (member : task ∈ l.ahead)
    (removes : task.removes = true) : CallsLater held (s.setLoop 0 l) := by
  have batched : ∀ task ∈ l.curFunctors, PlacedTask s 0 task := fun task member =>
    placed task (List.mem_append_left _ member)
  have queued : ∀ task ∈ l.functors, PlacedTask s 0 task := fun task member =>
    placed task (List.mem_append_right _ member)
  rcases EventLoop.mem_ahead.mp member with first | ⟨comes, later⟩
  · cases phase : l.phase with
    | running batch =>
        simp only [EventLoop.curFunctors, phase] at batched first
        exact callsLater_batch idle phase free batched (.inl ⟨task, first, removes⟩)
    | inFunctor rest =>
        simp only [EventLoop.curFunctors, phase] at batched first
        apply callsLater_loop idle (.functorReturn l rest phase) free fun _ => rfl
        exact callsLater_batch idle rfl free batched (.inl ⟨task, first, removes⟩)
    | outside | testing | polling | handling | swapping =>
        simp [EventLoop.curFunctors, phase] at first
  · have waits : Waits s l := ⟨free, queued, task, later, removes⟩
    cases phase : l.phase with
    | swapping => exact waits_swapping idle phase waits
    | handling => exact waits_handling idle phase waits
    | polling => exact waits_polling idle phase waits
    | outside =>
        have stays : l.quit = false := by simpa [phase, Phase.beforeSwap] using comes
        apply callsLater_loop idle (.enter l phase) free fun _ => rfl
        exact waits_testing idle rfl stays waits
    | testing =>
        have stays : l.quit = false := by simpa [phase, Phase.beforeSwap] using comes
        exact waits_testing idle phase stays waits
    | running batch =>
        have stays : l.quit = false := by simpa [phase, Phase.beforeSwap] using comes
        simp only [EventLoop.curFunctors, phase] at batched
        exact waits_running idle phase stays batched waits
    | inFunctor rest =>
        have stays : l.quit = false := by simpa [phase, Phase.beforeSwap] using comes
        simp only [EventLoop.curFunctors, phase] at batched
        apply callsLater_loop idle (.functorReturn l rest phase) free fun _ => rfl
        exact waits_running idle rfl stays batched waits

end

theorem undrained_free {s : TcpServer} (placed : Placed s) (free : (s.loops 0).queueing = false)
    (undrained : ¬Drained s) : CallsLater held s := by
  cases frames : s.frames 0 with
  | cons c rest => exact callsLater_frame frames free
  | nil =>
      rw [← setLoop_self s 0]
      have ahead : ∃ task ∈ (s.loops 0).ahead, task.removes = true := by
        by_contra none
        push Not at none
        exact undrained ⟨frames, fun task member => Bool.eq_false_iff.mpr (none task member)⟩
      obtain ⟨task, member, removes⟩ := ahead
      exact callsLater_ahead frames free (placed.tasks 0) member removes

theorem callsLater_of_undrained {s : TcpServer} (placed : Placed s) (undrained : ¬Drained s) :
    CallsLater held s := by
  cases free : (s.loops 0).queueing with
  | false => exact undrained_free placed free undrained
  | true =>
      -- First `QueueInLoop` returns.
      have stepped : s.step (.machine 0 .queued) = some (s.setLoop 0
          { (s.loops 0).wakeAfterPush true with queueing := false }) := by
        simp [TcpServer.step, machineMay, EventLoop.step, free]
      apply callsLater_step rfl stepped
      apply undrained_free (machine_placed placed stepped)
      · simp
      · rintro ⟨frames, ahead⟩
        exact undrained ⟨frames, by simpa [EventLoop.ahead, EventLoop.curFunctors] using ahead⟩

end CallsLater

def init (start : Start) : System := ⟨start.server, .alive, fun _ => false⟩

theorem run_inv {start : Start} {actions : List Action} {final : System}
    (ran : run step (init start) actions = some final) : Inv final.server final.life :=
  run_invariant (fun s => Inv s.server s.life) (fun _ _ _ inv stepped => step_inv inv stepped)
    ⟨start_placed start, fun _ member => absurd member List.not_mem_nil⟩ ran

/-- What is left behind when `~TcpServer` completes does not lead back to it. -/
def Settled (s : System) : Prop := Drained s.server ∧ (s.server.threadNums = 0 → Released s)

instance (s : System) : Decidable (Settled s) := inferInstanceAs (Decidable (_ ∧ (_ → _)))

/-- When `~TcpServer` has completed and everything was settled, the server is
never called again. Of what settles it the base loop's part is needed too: for a
server with a pool that is all. -/
theorem no_call_when_settled {start : Start} {actions : List Action} {last final : System}
    (ran : run step (init start) actions = some last)
    (completed : step last .advance = some final) (gone : final.life = .destroyed) :
    (Settled final → ∀ later after, run step final later = some after →
        Along step (fun s action => ¬Calls s action) final later) ∧
      ((∀ later after, run step final later = some after →
        Along step (fun s action => ¬Calls s action) final later) → Drained final.server) := by
  have placed : Placed final.server := (step_inv (run_inv ran) completed).placed
  have pool := (advance_cases completed).1.poolDone gone
  rw [← not_reaches_iff]
  refine ⟨fun ⟨drained, released⟩ => ?_, fun never => ?_⟩
  · refine Quiet.never ⟨placed, pool, drained, fun c inside own => ?_⟩ gone
    by_cases some : final.server.threadNums = 0
    · exact released some c inside own
    · exact absurd own (placed.pooled some c inside)
  · by_contra undrained
    have later : CallsLater final.held final.server := callsLater_of_undrained placed undrained
    rw [CallsLater, ← gone] at later
    exact never later

/-- A connection on the only loop of the pool, which polls again; the thread of
the base loop is in a handler. -/
def connected : List Action :=
  List.map .server <| List.flatten
    [turn 0 [.enter, .poll, .pollReturn], [.newConnection, .machine 1 (.pushed 0)],
      turn 1 [.enter, .poll, .pollReturn, .beginExecute, .swap], [.runFunctor 1],
      turn 1 [.functorReturn, .finish, .poll, .pollReturn]]

def destroyed : List Action :=
  List.flatten
    [[.advance, .server (.machine 1 (.pushed 0)), .advance, .advance, .advance],
      (turn 1 [.beginExecute, .swap]).map .server, [.server (.runFunctor 1)],
      (turn 1 [.functorReturn, .finish, .leave]).map .server, [.advance]]

/-- No connection closes while the server is destroyed. -/
theorem quiet_destruction_settled :
    ∃ last final, run step (init (Start.fresh "echo" 1)) (connected ++ .destroy [0] :: destroyed) =
        some last ∧
      step last .advance = some final ∧ final.life = .destroyed ∧
      ∀ later after, run step final later = some after →
        Along step (fun s action => ¬Calls s action) final later := by
  refine ⟨_, _, rfl, rfl, rfl, ?_⟩
  have ran : run step (init (Start.fresh "echo" 1)) (connected ++ .destroy [0] :: destroyed) =
    some _ := rfl
  exact (no_call_when_settled ran rfl rfl).1 (by decide)

/-- The peer closes when `~TcpServer` has begun; the base loop comes to the
functor when it has completed. -/
theorem close_during_destruction_calls :
    ∃ last final after, run step (init (Start.fresh "echo" 1))
        (connected ++ .destroy [0] :: .server (.handleClose 0) :: .server (.callbackReturn 1) ::
          .server (.machine 0 (.pushed 1)) :: destroyed) = some last ∧
      step last .advance = some final ∧ final.life = .destroyed ∧
      run step final ((turn 0 [.beginExecute, .swap]).map .server) = some after ∧
      Calls after (.server (.runFunctor 0)) ∧
      (step after (.server (.runFunctor 0))).isSome = true :=
  ⟨_, _, _, rfl, rfl, rfl, rfl, ⟨rfl, rfl⟩, rfl⟩

/-- Without a pool. A handler destroys the server while user code keeps the connection, whose
channel is still among the active ones. -/
def keptBehindServer : List Action :=
  List.flatten
    [(turn 0 [.enter, .poll, .pollReturn]).map .server, [.server .newConnection, .hold 0,
      .destroy [0], .advance, .advance, .advance, .advance, .server (.handleClose 0)]]

-- `close_callback_` of the connection is next.
example : (run step (init (Start.fresh "echo" 0)) keptBehindServer).map
    (fun s => (s.life, s.server.enters (.callbackReturn 0),
      (step s (.server (.callbackReturn 0))).isSome)) = some (.destroyed, true, true) := by
  decide +kernel

end ServerDestruction

end Muzi
