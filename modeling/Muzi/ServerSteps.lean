import Muzi.ConnectionLifetime
import Muzi.EventLoopThreadPool

/-!
What one step of the server of TcpServer.lean does to the phases of the loops, to the
history and to the calls of `HandleClose` that are open.
-/

namespace Muzi

namespace EventLoop

variable {Task : Type}

theorem handling_stays {l next : EventLoop Task} {action : Action Task}
    (handling : l.phase = .handling) (other : action ≠ .loop .beginExecute)
    (stepped : l.step action = some next) : next.phase = .handling := by
  cases EventLoop.step_moves stepped with
  | push | quitIgnored | quit => exact handling
  | pushed | queued | wakeUp => simpa using handling
  | loop _ _ _ moved =>
      cases moved with
      | queue => exact handling
      | handleWakeupRead => exact handling
      | beginExecute => exact absurd rfl other
      | enter phase | leave phase | poll phase | pollReturn phase | functorReturn _ phase
      | swap phase | runNext _ _ phase | finish phase => cases handling.symm.trans phase

theorem runNext_phase {l next : EventLoop Task} (moved : l.step (.loop .runNext) = some next) :
    ∃ before after, l.phase = .running before ∧ next.phase = .inFunctor after := by
  cases EventLoop.step_moves moved with
  | loop _ _ _ inner =>
      cases inner with
      | runNext _ _ phase => exact ⟨_, _, phase, rfl⟩

end EventLoop

namespace TcpServer

open Execution

theorem queueIn_phase {s next : TcpServer} {thread target : Nat} {task : Task}
    (queued : s.queueIn thread target task = some next) (i : Nat) :
    (next.loops i).phase = (s.loops i).phase := by
  obtain ⟨loop, pushed, rfl⟩ := Option.map_eq_some_iff.mp queued
  obtain ⟨-, made⟩ := Option.ite_none_left_eq_some.mp pushed
  by_cases same : i = target
  · subst same
    simp only [setLoop, Function.update_self]
    rw [← Option.some.inj made]
    rfl
  · simp [setLoop, same]

theorem removeConnectionInLoop_phase {s next : TcpServer} {c j : Nat}
    (removed : s.removeConnectionInLoop c j = some next) (i : Nat) :
    (next.loops i).phase = (s.loops i).phase := by
  unfold removeConnectionInLoop at removed
  split at removed
  · cases removed
    rfl
  · exact queueIn_phase removed i

theorem removeConnection_phase {s next : TcpServer} {c j : Nat}
    (removed : s.removeConnection c j = some next) (i : Nat) :
    (next.loops i).phase = (s.loops i).phase := by
  unfold removeConnection at removed
  split at removed
  · exact removeConnectionInLoop_phase removed i
  · exact queueIn_phase removed i

theorem newConnection_phase {s next : TcpServer} (made : s.newConnection = some next) (i : Nat) :
    (next.loops i).phase = (s.loops i).phase := by
  unfold newConnection at made
  split at made
  · cases made
    rfl
  · exact queueIn_phase made i

theorem runTask_phase {s next : TcpServer} {j : Nat} {task : Task}
    (ran : s.runTask j task = some next) (i : Nat) :
    (next.loops i).phase = (s.loops i).phase := by
  cases task with
  | removeConnectionInLoop c => exact removeConnectionInLoop_phase ran i
  | forceCloseInLoop c =>
      cases ran
      split <;> rfl
  | establishConnection c | destroyConnection c | other =>
      cases ran
      rfl

theorem Stepped.handling {s next : TcpServer} {action : Action} {i : Nat}
    (stepped : Stepped s action next) (handling : (s.loops i).phase = .handling)
    (other : action ≠ .machine i (.loop .beginExecute)) : (next.loops i).phase = .handling := by
  cases stepped with
  | machine moved =>
      rename_i j action
      obtain ⟨-, ran⟩ := Option.ite_none_right_eq_some.mp moved
      obtain ⟨loop, inner, rfl⟩ := Option.map_eq_some_iff.mp ran
      by_cases same : i = j
      · subst same
        simp only [setLoop, Function.update_self]
        exact EventLoop.handling_stays handling (fun begins => other (by rw [begins])) inner
      · simpa [setLoop, same] using handling
  | newConnection made => exact (newConnection_phase made i).trans handling
  | runFunctor functors moved ran =>
      rename_i j task rest loop
      rw [runTask_phase ran i]
      by_cases same : i = j
      · subst same
        obtain ⟨_, _, running, -⟩ := EventLoop.runNext_phase moved
        cases handling.symm.trans running
      · simpa [setLoop, same] using handling
  | callbackReturn frames returned => exact (removeConnection_phase returned i).trans handling
  | forceClose inside up queued => exact (queueIn_phase queued i).trans handling
  | handleClose | shutDown | shutDownIgnored | forceCloseIgnored => exact handling

theorem queueIn_log {s next : TcpServer} {thread target : Nat} {task : Task}
    (queued : s.queueIn thread target task = some next) : next.log = s.log := by
  rw [(queueIn_pending queued).1]

theorem mem_destroyConnection {s : TcpServer} {c j d i : Nat}
    (noted : .destroyConnection d i ∈ (s.destroyConnection c j).log) :
    .destroyConnection d i ∈ s.log ∨ d = c ∧ i = j := by
  rcases List.mem_append.mp noted with old | new
  · exact .inl old
  · cases List.mem_singleton.mp new
    exact .inr ⟨rfl, rfl⟩

theorem removeConnectionInLoop_destroys {s next : TcpServer} {c j d i : Nat}
    (removed : s.removeConnectionInLoop c j = some next)
    (noted : .destroyConnection d i ∈ next.log) :
    .destroyConnection d i ∈ s.log ∨ i = j ∧ d = c ∧ (s.conns d).loop = j := by
  have erased (inside : .destroyConnection d i ∈ (s.erase c).log) :
      .destroyConnection d i ∈ s.log := by simpa [erase] using inside
  unfold removeConnectionInLoop at removed
  split at removed
  · rename_i own
    cases removed
    rcases mem_destroyConnection noted with old | ⟨rfl, rfl⟩
    · exact .inl (erased old)
    · exact .inr ⟨rfl, rfl, own⟩
  · rw [queueIn_log removed] at noted
    exact .inl (erased noted)

/-- A connection is destroyed in its own loop: by a functor or, in the base loop, when the callback
of its `HandleClose` returns. -/
theorem Stepped.destroys {stages : Nat → Stage} {s next : TcpServer} {action : Action} {c j : Nat}
    (inv : Inv stages s) (stepped : Stepped s action next)
    (noted : .destroyConnection c j ∈ next.log) :
    .destroyConnection c j ∈ s.log ∨
      (s.conns c).loop = j ∧
        (j = 0 ∧ c ∈ s.frames j ∨ ∃ rest, (s.loops j).phase = .running rest) := by
  cases stepped with
  | machine moved =>
      obtain ⟨-, ran⟩ := Option.ite_none_right_eq_some.mp moved
      obtain ⟨loop, -, rfl⟩ := Option.map_eq_some_iff.mp ran
      exact .inl noted
  | newConnection made =>
      unfold TcpServer.newConnection at made
      split at made
      · cases made
        exact .inl (by simpa [establishConnection, note, setState, accept] using noted)
      · rw [queueIn_log made] at noted
        exact .inl (by simpa [accept] using noted)
  | runFunctor functors moved ran =>
      rename_i i task rest loop
      obtain ⟨before, -, phase, -⟩ := EventLoop.runNext_phase moved
      have running : ∃ rest, (s.loops i).phase = .running rest := ⟨before, phase⟩
      cases task with
      | establishConnection d =>
          cases ran
          exact .inl (by simpa [establishConnection, note, setState, setLoop] using noted)
      | removeConnectionInLoop d =>
          rcases removeConnectionInLoop_destroys ran noted with old | ⟨rfl, -, own⟩
          · exact .inl old
          · exact .inr ⟨own, .inr running⟩
      | destroyConnection d =>
          cases ran
          rcases mem_destroyConnection noted with old | ⟨rfl, rfl⟩
          · exact .inl old
          · obtain ⟨-, stage, -, -, found⟩ :=
              inv.popped (c := c) (EventLoop.runNext_pending functors moved) (by simp [Task.of])
            rcases found with ⟨-, own, -⟩ | ⟨-, wrong⟩ | ⟨-, own, -⟩
            · exact .inr ⟨own, .inr running⟩
            · cases wrong
            · exact .inr ⟨own, .inr running⟩
      | forceCloseInLoop d =>
          cases ran
          refine .inl ?_
          split at noted <;> exact noted
      | other =>
          cases ran
          exact .inl noted
  | callbackReturn frames returned =>
      rename_i d i rest
      unfold removeConnection at returned
      split at returned
      · rename_i base
        rcases removeConnectionInLoop_destroys returned noted with old | ⟨rfl, rfl, own⟩
        · exact .inl old
        · exact .inr ⟨own, .inl ⟨base, frames ▸ List.mem_cons_self⟩⟩
      · rw [queueIn_log returned] at noted
        exact .inl noted
  | forceClose inside up queued =>
      rw [queueIn_log queued] at noted
      exact .inl noted
  | handleClose | shutDown | shutDownIgnored | forceCloseIgnored => exact .inl noted

theorem queueIn_frames {s next : TcpServer} {thread target : Nat} {task : Task}
    (queued : s.queueIn thread target task = some next) : next.frames = s.frames := by
  rw [(queueIn_pending queued).1]

theorem removeConnectionInLoop_frames {s next : TcpServer} {c j : Nat}
    (removed : s.removeConnectionInLoop c j = some next) : next.frames = s.frames := by
  unfold removeConnectionInLoop at removed
  split at removed
  · cases removed
    rfl
  · exact (queueIn_frames removed).trans rfl

theorem removeConnection_frames {s next : TcpServer} {c j : Nat}
    (removed : s.removeConnection c j = some next) : next.frames = s.frames := by
  unfold removeConnection at removed
  split at removed
  · exact removeConnectionInLoop_frames removed
  · exact queueIn_frames removed

theorem newConnection_frames {s next : TcpServer} (made : s.newConnection = some next) :
    next.frames = s.frames := by
  unfold newConnection at made
  split at made
  · cases made
    rfl
  · exact (queueIn_frames made).trans rfl

theorem runTask_frames {s next : TcpServer} {i j : Nat} {task : Task}
    (ran : s.runTask j task = some next) (other : i ≠ j) : next.frames i = s.frames i := by
  cases task with
  | removeConnectionInLoop c => rw [removeConnectionInLoop_frames ran]
  | forceCloseInLoop c =>
      cases ran
      split
      · simp [handleClose, setFrames, setState, other]
      · rfl
  | establishConnection c | destroyConnection c | other =>
      cases ran
      rfl

theorem Stepped.framed {s next : TcpServer} {action : Action} {i c : Nat}
    (stepped : Stepped s action next) (handling : (next.loops i).phase = .handling)
    (frame : c ∈ next.frames i) : (s.loops i).phase = .handling ∧
      (c ∈ s.frames i ∨ action = .handleClose c ∧ (s.conns c).loop = i) := by
  cases stepped with
  | machine moved =>
      rename_i j action
      obtain ⟨may, ran⟩ := Option.ite_none_right_eq_some.mp moved
      obtain ⟨loop, inner, rfl⟩ := Option.map_eq_some_iff.mp ran
      refine ⟨?_, .inl frame⟩
      by_cases same : i = j
      · subst same
        simp only [setLoop, Function.update_self] at handling
        have busy : (s.frames i).isEmpty = false :=
          List.isEmpty_eq_false_iff.mpr (List.ne_nil_of_mem frame)
        cases EventLoop.step_moves inner with
        | push | quitIgnored | quit => exact handling
        | pushed | queued | wakeUp => simpa using handling
        | loop _ _ _ moved =>
            cases moved with
            | queue => exact handling
            | runNext => cases may
            | _ => exact absurd (busy.symm.trans may) Bool.false_ne_true
      · simpa [setLoop, same] using handling
  | newConnection made =>
      rw [newConnection_phase made i] at handling
      rw [newConnection_frames made] at frame
      exact ⟨handling, .inl frame⟩
  | runFunctor functors moved ran =>
      rename_i j task rest loop
      rw [runTask_phase ran i] at handling
      by_cases same : i = j
      · subst same
        obtain ⟨-, after, -, inside⟩ := EventLoop.runNext_phase moved
        simp only [setLoop, Function.update_self] at handling
        cases handling.symm.trans inside
      · rw [runTask_frames ran same] at frame
        exact ⟨by simpa [setLoop, same] using handling, .inl frame⟩
  | callbackReturn frames returned =>
      rename_i d j rest
      have before : (s.loops i).phase = .handling :=
        (removeConnection_phase returned i).symm.trans handling
      rw [removeConnection_frames returned] at frame
      refine ⟨before, .inl ?_⟩
      by_cases same : i = j
      · subst same
        simp only [setFrames, Function.update_self] at frame
        exact frames ▸ List.mem_cons_of_mem _ frame
      · simpa [setFrames, same] using frame
  | handleClose =>
      rename_i d _ _ _
      refine ⟨handling, ?_⟩
      by_cases same : i = (s.conns d).loop
      · subst same
        simp only [TcpServer.handleClose, setFrames, setState, Function.update_self] at frame
        rcases List.mem_cons.mp frame with rfl | old
        · exact .inr ⟨rfl, rfl⟩
        · exact .inl old
      · exact .inl (by simpa [TcpServer.handleClose, setFrames, setState, same] using frame)
  | forceClose _ _ queued =>
      rw [queueIn_phase queued i] at handling
      rw [queueIn_frames queued] at frame
      exact ⟨handling, .inl frame⟩
  | shutDown | shutDownIgnored | forceCloseIgnored => exact ⟨handling, .inl frame⟩

theorem Stepped.owner {s next : TcpServer} {action : Action} {c : Nat}
    (stepped : Stepped s action next) (inside : c < s.created) :
    c < next.created ∧ (next.conns c).loop = (s.conns c).loop := by
  refine ⟨stepped.created ▸ Nat.lt_add_right _ inside, ?_⟩
  rcases stepped.places with same | accepted
  · exact same.loops c
  · rw [accepted.loops c]
    simp [accept, Nat.ne_of_lt inside]

theorem Stepped.machine_same {s next : TcpServer} {i : Nat} {action : EventLoop.Action Task}
    (stepped : Stepped s (.machine i action) next) : next.log = s.log ∧ next.conns = s.conns := by
  cases stepped with
  | machine moved =>
      obtain ⟨-, ran⟩ := Option.ite_none_right_eq_some.mp moved
      obtain ⟨loop, -, rfl⟩ := Option.map_eq_some_iff.mp ran
      exact ⟨rfl, rfl⟩

theorem pollReturn_phase {s next : TcpServer} {i : Nat}
    (stepped : Stepped s (.machine i (.loop .pollReturn)) next) :
    (s.loops i).phase = .polling ∧ (next.loops i).phase = .handling := by
  cases stepped with
  | machine moved =>
      obtain ⟨-, ran⟩ := Option.ite_none_right_eq_some.mp moved
      obtain ⟨loop, inner, rfl⟩ := Option.map_eq_some_iff.mp ran
      cases EventLoop.step_moves inner with
      | loop _ _ _ polled =>
          cases polled with
          | pollReturn phase => exact ⟨phase, by simp [setLoop]⟩

def destroyed (s : TcpServer) (c : Nat) : Bool :=
  s.log.any fun
    | .destroyConnection d _ => d == c
    | _ => false

theorem destroyed_iff {s : TcpServer} {c : Nat} :
    s.destroyed c = true ↔ ∃ i, .destroyConnection c i ∈ s.log := by
  refine List.any_eq_true.trans ⟨fun ⟨event, noted, own⟩ => ?_, fun ⟨i, noted⟩ => ?_⟩
  · cases event with
    | destroyConnection d i => exact ⟨i, beq_iff_eq.mp own ▸ noted⟩
    | newConnection | establishConnection | removeConnectionInLoop => cases own
  · exact ⟨_, noted, beq_self_eq_true c⟩

theorem At.up_alive {s : TcpServer} {c : Nat} {stage : Stage} (here : At s c stage)
    (up : s.up c = true) : s.destroyed c = false := by
  by_contra dead
  obtain ⟨i, noted⟩ := destroyed_iff.mp (Bool.not_eq_false _ ▸ dead)
  have own : (Event.destroyConnection c i).of c = true := beq_self_eq_true c
  rw [mem_log_iff own, here.events] at noted
  obtain rfl := Stage.gone_of_destroyed noted
  have state : (s.conns c).state = .kDisConnected := here.state
  simp [TcpServer.up, state] at up

end TcpServer

end Muzi
