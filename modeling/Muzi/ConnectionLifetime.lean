import Muzi.TcpServer

/-!
How long a server keeps a connection. A `TcpConnection` lives while somebody has a
`TcpConnectionPtr`: `connections_` has one, and so has every functor that was bound to
the connection. `~TcpConnection` and `~Channel` assert that `DestroyConnection` has been
called, so the server must not let go before.
-/

namespace Muzi.TcpServer

open Execution

def Followed (s : TcpServer) (c : Nat) : Prop :=
  (∃ i, .destroyConnection c i ∈ s.log) ∨ ∃ i, .destroyConnection c ∈ (s.loops i).pending

/-- `DestroyConnection` is not lost, and who is erased gets one. -/
structure Hands (s next : TcpServer) : Prop where
  follows : ∀ c, Followed s c → Followed next c
  removed : ∀ c n, .removeConnectionInLoop c n ∈ next.log →
    .removeConnectionInLoop c n ∈ s.log ∨ Followed next c

namespace Hands

theorem trans {s middle next : TcpServer} (first : Hands s middle) (second : Hands middle next) :
    Hands s next where
  follows c followed := second.follows c (first.follows c followed)
  removed c n noted := by
    rcases second.removed c n noted with before | followed
    · exact (first.removed c n before).imp id (second.follows c)
    · exact .inr followed

theorem of_grows {s next : TcpServer} (log : ∀ event ∈ s.log, event ∈ next.log)
    (erased : ∀ c n, .removeConnectionInLoop c n ∈ next.log →
      .removeConnectionInLoop c n ∈ s.log)
    (pending : ∀ c i, .destroyConnection c ∈ (s.loops i).pending →
      .destroyConnection c ∈ (next.loops i).pending) : Hands s next where
  follows c := by
    rintro (⟨i, noted⟩ | ⟨i, member⟩)
    · exact .inl ⟨i, log _ noted⟩
    · exact .inr ⟨i, pending c i member⟩
  removed c n noted := .inl (erased c n noted)

theorem same {s next : TcpServer} (log : next.log = s.log) (loops : next.loops = s.loops) :
    Hands s next :=
  of_grows (fun _ noted => log ▸ noted) (fun _ _ noted => log ▸ noted)
    (fun _ _ member => loops ▸ member)

theorem note {s : TcpServer} {event : Event} (other : ∀ c n, event ≠ .removeConnectionInLoop c n) :
    Hands s (s.note event) := by
  refine of_grows (fun _ noted => List.mem_append_left _ noted) (fun c n noted => ?_)
    (fun _ _ member => member)
  rcases List.mem_append.mp noted with before | new
  · exact before
  · exact absurd (List.mem_singleton.mp new).symm (other c n)

theorem queueIn {s next : TcpServer} {thread target : Nat} {task : Task}
    (queued : s.queueIn thread target task = some next) : Hands s next := by
  obtain ⟨rest, pending⟩ := queueIn_pending queued
  have log : next.log = s.log := by rw [rest]
  refine of_grows (fun _ noted => log ▸ noted) (fun _ _ noted => log ▸ noted) (fun c i member => ?_)
  rw [pending i]
  exact List.mem_append_left _ member

theorem setState (s : TcpServer) (c : Nat) (state : ConnectionState) :
    Hands s (s.setState c state) := same rfl rfl

theorem establishConnection (s : TcpServer) (c i : Nat) : Hands s (s.establishConnection c i) :=
  (setState s c .kConnected).trans (note fun _ _ => Event.noConfusion)

theorem destroyConnection (s : TcpServer) (c i : Nat) : Hands s (s.destroyConnection c i) :=
  (setState s c .kDisConnected).trans (note fun _ _ => Event.noConfusion)

theorem destroyConnection_followed (s : TcpServer) (c i : Nat) :
    Followed (s.destroyConnection c i) c :=
  .inl ⟨i, List.mem_append_right _ (List.mem_singleton_self _)⟩

theorem handleClose (s : TcpServer) (c i : Nat) : Hands s (s.handleClose c i) := same rfl rfl

theorem removeConnectionInLoop {s next : TcpServer} {c i : Nat}
    (removed : s.removeConnectionInLoop c i = some next) : Hands s next := by
  have erased {after : TcpServer} (later : Hands (s.erase c) after) (followed : Followed after c) :
      Hands s after := by
    refine ⟨fun d before => later.follows d ?_, fun d n noted => ?_⟩
    · exact before.imp (fun ⟨j, noted⟩ => ⟨j, List.mem_append_left _ noted⟩) id
    · rcases later.removed d n noted with inside | known
      · rcases List.mem_append.mp inside with old | new
        · exact .inl old
        · cases List.mem_singleton.mp new
          exact .inr followed
      · exact .inr known
  unfold TcpServer.removeConnectionInLoop at removed
  split at removed
  · cases removed
    exact erased (destroyConnection _ c i) (destroyConnection_followed _ c i)
  · refine erased (queueIn removed) (.inr ⟨(s.conns c).loop, ?_⟩)
    rw [(queueIn_pending removed).2]
    simp

theorem popped {s : TcpServer} {i : Nat} {task : Task} {loop : EventLoop Task}
    (pending : (s.loops i).pending = task :: loop.pending)
    (other : ∀ c, task ≠ .destroyConnection c) : Hands s (s.setLoop i loop) := by
  refine of_grows (fun _ noted => noted) (fun _ _ noted => noted) (fun c j member => ?_)
  by_cases same : j = i
  · subst same
    rw [pending] at member
    rcases List.mem_cons.mp member with first | later
    · exact absurd first.symm (other c)
    · simpa [setLoop] using later
  · simpa [setLoop, same] using member

theorem destroyed {s : TcpServer} {c i : Nat} {loop : EventLoop Task}
    (pending : (s.loops i).pending = .destroyConnection c :: loop.pending) :
    Hands s ((s.setLoop i loop).destroyConnection c i) := by
  refine ⟨fun d followed => ?_, fun d n noted => ?_⟩
  · rcases followed with ⟨j, noted⟩ | ⟨j, member⟩
    · exact .inl ⟨j, List.mem_append_left _ noted⟩
    · by_cases own : d = c
      · subst own
        exact destroyConnection_followed _ d i
      · refine .inr ⟨j, ?_⟩
        change _ ∈ ((s.setLoop i loop).loops j).pending
        by_cases same : j = i
        · subst same
          rw [pending] at member
          rcases List.mem_cons.mp member with first | later
          · cases first
            exact absurd rfl own
          · simpa [setLoop] using later
        · simpa [setLoop, same] using member
  · exact (destroyConnection (s.setLoop i loop) c i).removed d n noted

theorem runFunctor {s next : TcpServer} {i : Nat} {task : Task} {loop : EventLoop Task}
    (pending : (s.loops i).pending = task :: loop.pending)
    (ran : (s.setLoop i loop).runTask i task = some next) : Hands s next := by
  cases task with
  | establishConnection c =>
      cases ran
      exact (popped pending fun _ => Task.noConfusion).trans (establishConnection _ c i)
  | removeConnectionInLoop c =>
      exact (popped pending fun _ => Task.noConfusion).trans (removeConnectionInLoop ran)
  | destroyConnection c =>
      cases ran
      exact destroyed pending
  | forceCloseInLoop c =>
      cases ran
      refine (popped pending fun _ => Task.noConfusion).trans ?_
      split
      · exact handleClose _ c i
      · exact same rfl rfl
  | other =>
      cases ran
      exact popped pending fun _ => Task.noConfusion

end Hands

theorem Stepped.hands {s next : TcpServer} {action : Action} (stepped : Stepped s action next) :
    Hands s next := by
  cases stepped with
  | machine moved =>
      obtain ⟨may, ran⟩ := Option.ite_none_right_eq_some.mp moved
      obtain ⟨loop, inner, rfl⟩ := Option.map_eq_some_iff.mp ran
      rename_i i action
      refine Hands.of_grows (fun _ noted => noted) (fun _ _ noted => noted) (fun c j member => ?_)
      by_cases same : j = i
      · subst same
        rcases machine_pending may inner with equal | more
        · simpa [setLoop, equal] using member
        · simp [setLoop, more, member]
      · simpa [setLoop, same] using member
  | newConnection made =>
      have accepted : Hands s s.accept := Hands.of_grows
        (fun _ noted => List.mem_append_left _ noted)
        (fun c n noted => by simpa [accept] using noted) (fun _ _ member => member)
      unfold TcpServer.newConnection at made
      split at made
      · cases made
        exact accepted.trans (Hands.establishConnection _ _ _)
      · exact accepted.trans (Hands.queueIn made)
  | runFunctor functors moved ran =>
      exact Hands.runFunctor (EventLoop.runNext_pending functors moved) ran
  | handleClose inside user established => exact Hands.handleClose s _ _
  | callbackReturn frames returned =>
      have left : ∀ i rest, Hands s (s.setFrames i rest) := fun _ _ => Hands.same rfl rfl
      unfold removeConnection at returned
      split at returned
      · exact (left _ _).trans (Hands.removeConnectionInLoop returned)
      · exact (left _ _).trans (Hands.queueIn returned)
  | shutDown inside connected => exact Hands.setState s _ _
  | forceClose inside up queued => exact Hands.queueIn queued
  | shutDownIgnored | forceCloseIgnored => exact Hands.same rfl rfl

/-- Between two steps every erased connection is followed up. -/
def FollowsUp (s : TcpServer) : Prop :=
  ∀ c n, .removeConnectionInLoop c n ∈ s.log → Followed s c

theorem step_followsUp (s : TcpServer) (action : Action) (next : TcpServer)
    (followsUp : FollowsUp s) (stepped : s.step action = some next) : FollowsUp next := by
  have hands := (step_stepped stepped).hands
  intro c n noted
  rcases hands.removed c n noted with before | followed
  · exact hands.follows c (followsUp c n before)
  · exact followed

/-- The server has a `TcpConnectionPtr`: in `connections_`, or bound to a functor that moves the
connection along. -/
def Kept (s : TcpServer) (c : Nat) : Prop :=
  s.connections (s.conns c).name = some c ∨
    ∃ i, ∃ task ∈ (s.loops i).pending, task.of c = true

theorem Stage.gone_of_destroyed {stage : Stage} {c own i : Nat}
    (noted : Event.destroyConnection c i ∈ stage.history c own) : stage = .gone := by
  cases stage with
  | gone => rfl
  | entering | queued | up | closing | leaving | removing | left | destroying =>
      simp [history] at noted

theorem Stage.history_new (stage : Stage) (c own : Nat) :
    Event.newConnection c ∈ stage.history c own := by
  cases stage <;> exact List.mem_cons_self

theorem At.let_go {s : TcpServer} {c i : Nat} {stage : Stage} (here : At s c stage)
    (destroyed : .destroyConnection c i ∈ s.log) : ¬Kept s c := by
  have own : (Event.destroyConnection c i).of c = true := beq_self_eq_true c
  have noted := (mem_log_iff own).mp destroyed
  rw [here.events] at noted
  obtain rfl := Stage.gone_of_destroyed noted
  rintro (listed | ⟨j, task, member, mine⟩)
  · cases here.listed.mp listed
  · have held : task ∈ (s.loops j).pending.filter (Task.of c) :=
      List.mem_filter.mpr ⟨member, mine⟩
    rw [here.tasks] at held
    cases held

/-- A connection that was not destroyed is in `connections_`, or its `DestroyConnection` is
under way. -/
theorem At.kept {s : TcpServer} {c : Nat} {stage : Stage} (here : At s c stage)
    (followsUp : FollowsUp s) (alive : ∀ i, .destroyConnection c i ∉ s.log) : Kept s c := by
  by_cases removed : ∃ n, .removeConnectionInLoop c n ∈ s.log
  · obtain ⟨n, noted⟩ := removed
    rcases followsUp c n noted with ⟨i, destroyed⟩ | ⟨i, member⟩
    · exact absurd destroyed (alive i)
    · exact .inr ⟨i, _, member, beq_self_eq_true c⟩
  · refine .inl (here.listed_iff.mpr ⟨?_, fun n noted => removed ⟨n, noted⟩⟩)
    rw [mem_log_iff (Event.newConnection_of c), here.events]
    exact stage.history_new c _

/-- However the loops interleave, where `HandleClose` runs at most once on a connection the
server keeps it exactly until its `DestroyConnection` has been called: no connection is freed
before, and none is left behind. -/
theorem kept_until_destroyed (start : Start) (actions : List Action) (final : TcpServer) (c : Nat)
    (ran : run step start.server actions = some final) (few : final.created < maxConnections)
    (accepted : c < final.created) (once : Along step Asserted start.server actions) :
    Kept final c ↔ ∀ i, .destroyConnection c i ∉ final.log := by
  obtain ⟨stages, inv⟩ := run_inv ran few once
  have followsUp := run_invariant FollowsUp step_followsUp
    (fun _ _ noted => absurd noted List.not_mem_nil) ran
  have here := inv.here c accepted
  exact ⟨fun kept i destroyed => here.let_go destroyed kept, fun alive => here.kept followsUp alive⟩

/-- The peer has closed; the connection is out of `connections_`, and its loop has not come to
`DestroyConnection`. -/
theorem closed_connection_kept : ∃ final,
    run step (Start.fresh "echo" 1).server (peerCloses.take 21) = some final ∧
      final.connections "echo#0" = none ∧ Kept final 0 := by
  obtain ⟨final, ran, one, gone, log⟩ : ∃ final,
      run step (Start.fresh "echo" 1).server (peerCloses.take 21) = some final ∧
        final.created = 1 ∧ final.connections "echo#0" = none ∧
          final.log = [.newConnection 0, .establishConnection 0 1, .removeConnectionInLoop 0 1] :=
    ⟨_, rfl, rfl, rfl, rfl⟩
  refine ⟨final, ran, gone, (kept_until_destroyed (Start.fresh "echo" 1) _ final 0 ran
    (by rw [one]; decide) (by rw [one]; decide) (by decide)).mpr fun i => ?_⟩
  simp [log]

end Muzi.TcpServer
