import Muzi.GracefulShutdown

/-!
Write interest and half-close. The system is the one of `Send` and `ShutDown`
from any thread, with `StartRead` and `StopRead` besides: called in the loop
thread, or as a functor that another thread queued. Data pending is kept in the
output buffer, in the events of the channel and in `state_`; every path through
the connection restores the relation between the three.
-/

namespace Muzi.WriteInterest

open TcpConnection Execution
open OutputStream (Payload Source)
open GracefulShutdown (System Task Pc Frame Start issuer)

inductive Action where
  | connection (action : GracefulShutdown.Action)
  | startReadInLoop
  | stopReadInLoop

def step (s : System) : Action → Option System
  | .connection action => s.step action
  | .startReadInLoop =>
      if s.userCode then some { s with conn := s.conn.startReadInLoop } else none
  | .stopReadInLoop =>
      if s.userCode then some { s with conn := s.conn.stopReadInLoop } else none

def Requested (s : System) : Prop :=
  (∃ thread, s.threads thread = .shutting) ∨
    ∃ thread, Task.shutDownInLoop thread ∈ s.loop.pending

/-- The step calls `ShutDownOnWrite`, for the first time or again. -/
def Issues (s : System) : Action → Prop
  | .connection action => ∃ who, issuer s action = some who
  | _ => False

/-- The half-close is asked for, waits for the output, or is done. -/
structure Interest (s : System) : Prop where
  state : s.conn.state = .kConnected ∨ s.conn.state = .kDisConnecting
  output : s.conn.channel.isWritting = false → s.conn.ouputBuffer.readableBytes = 0
  asked : s.conn.state = .kDisConnecting → Requested s ∨ s.conn.channel.isWritting = true ∨
    s.conn.socket.shutWr = true ∨ Frame.finishing ∈ s.frames

structure Stepped (s : System) (action : Action) (next : System) : Prop where
  interest : Interest next
  shut : next.conn.socket.shutWr = true → s.conn.socket.shutWr = true ∨ Issues s action

structure Sends (s next : System) : Prop where
  loop : next.loop = s.loop
  threads : next.threads = s.threads
  state : next.conn.state = s.conn.state
  shut : next.conn.socket.shutWr = s.conn.socket.shutWr
  frames : ∀ frame ∈ s.frames, frame ∈ next.frames
  writing : s.conn.channel.isWritting = true → next.conn.channel.isWritting = true
  output : next.conn.channel.isWritting = false →
    next.conn.ouputBuffer.readableBytes = s.conn.ouputBuffer.readableBytes

theorem Sends.stepped {before s next : System} {action : Action} (interest : Interest s)
    (conn : s.conn = before.conn) (sends : Sends s next) : Stepped before action next := by
  refine ⟨⟨?_, ?_, ?_⟩, ?_⟩
  · rw [sends.state]
    exact interest.state
  · intro idle
    have idleBefore : s.conn.channel.isWritting = false := by
      cases writing : s.conn.channel.isWritting with
      | false => rfl
      | true =>
          rw [sends.writing writing] at idle
          cases idle
    rw [sends.output idle]
    exact interest.output idleBefore
  · intro leaving
    rw [sends.state] at leaving
    rcases interest.asked leaving with asked | writing | shut | finishing
    · left
      rwa [Requested, sends.threads, sends.loop]
    · exact .inr (.inl (sends.writing writing))
    · exact .inr (.inr (.inl (sends.shut.trans shut)))
    · exact .inr (.inr (.inr (sends.frames _ finishing)))
  · intro shut
    rw [sends.shut, conn] at shut
    exact .inl shut

theorem Sends.of_conn {s next : System} {conn : TcpConnection}
    (sends : Sends { s with conn := conn } next) (state : conn.state = s.conn.state)
    (channel : conn.channel = s.conn.channel) (output : conn.ouputBuffer = s.conn.ouputBuffer)
    (shut : conn.socket.shutWr = s.conn.socket.shutWr) : Sends s next where
  loop := sends.loop
  threads := sends.threads
  state := sends.state.trans state
  shut := sends.shut.trans shut
  frames := sends.frames
  writing before := sends.writing (channel ▸ before)
  output idle := (sends.output idle).trans (congrArg ChainBuffer.readableBytes output)

theorem append_sends {s next : System} {call first : Nat} {source : Source}
    (appended : s.append call first source = some next) : Sends s next := by
  rcases Option.map_eq_some_iff.mp appended with ⟨conn, grown, rfl⟩
  rcases growOutput_frame grown with ⟨state, writing, socket⟩
  refine ⟨rfl, rfl, state, congrArg Socket.shutWr socket, fun _ member => member,
    fun _ => writing, ?_⟩
  intro idle
  change conn.channel.isWritting = false at idle
  rw [writing] at idle
  cases idle

theorem queue_sends {s next : System} {call first added : Nat} {source : Source}
    (queued : s.queue call first added source = some next) : Sends s next := by
  unfold System.queue at queued
  split at queued
  · cases queued
    exact ⟨rfl, rfl, rfl, rfl, fun _ member => List.mem_cons_of_mem _ member, id, fun _ => rfl⟩
  · exact append_sends queued

theorem sendInLoop_sends {s next : System} {call : Nat} {payload : Payload} {result : IoResult}
    (sent : s.sendInLoop call payload result = some next) : Sends s next := by
  have stays : Sends s s := ⟨rfl, rfl, rfl, rfl, fun _ member => member, id, fun _ => rfl⟩
  unfold System.sendInLoop at sent
  split at sent
  · cases sent
    exact stays
  · cases payload with
    | buffer buf => exact queue_sends sent
    | block m =>
        rcases Option.bind_eq_some_iff.mp sent with ⟨⟨conn, noticed, remaining⟩, wrote, finished⟩
        rcases directWrite_frame wrote with ⟨state, channel, output, shut⟩
        dsimp only at finished
        split at finished
        · exact (queue_sends finished).of_conn state channel output shut
        · cases finished
          exact ⟨rfl, rfl, state, shut, fun _ member => member, fun before => channel ▸ before,
            fun _ => congrArg ChainBuffer.readableBytes output⟩

theorem stepped_still {s next : System} {action : Action} (interest : Interest s)
    (conn : next.conn = s.conn) (frames : next.frames = s.frames)
    (requests : Requested s → Requested next) : Stepped s action next := by
  refine ⟨⟨?_, ?_, ?_⟩, ?_⟩
  · rw [conn]
    exact interest.state
  · rw [conn]
    exact interest.output
  · rw [conn, frames]
    exact fun leaving => (interest.asked leaving).imp_left requests
  · rw [conn]
    exact .inl

theorem Requested.pushed {s : System} {loop : EventLoop Task} {threads : Nat → Pc}
    {tasks : List Task} (requested : Requested s)
    (pending : loop.pending = s.loop.pending ++ tasks)
    (carries : ∀ thread, s.threads thread = .shutting →
      threads thread = .shutting ∨ Task.shutDownInLoop thread ∈ tasks) :
    Requested { s with loop := loop, threads := threads } := by
  rcases requested with ⟨thread, shutting⟩ | ⟨thread, queued⟩
  · rcases carries thread shutting with stays | handed
    · exact .inl ⟨thread, stays⟩
    · exact .inr ⟨thread, pending ▸ List.mem_append_right _ handed⟩
  · exact .inr ⟨thread, pending ▸ List.mem_append_left _ queued⟩

theorem checkSend_stepped {s next : System} {thread : Nat} {message : OutputStream.Message}
    (interest : Interest s) (stepped : s.step (.checkSend thread message) = some next) :
    Stepped s (.connection (.checkSend thread message)) next := by
  simp only [System.step] at stepped
  rcases Option.ite_none_right_eq_some.mp stepped with ⟨free, made⟩
  have idle := System.free_idle free
  cases made
  split
  · refine stepped_still interest rfl rfl ?_
    rintro (⟨other, shutting⟩ | queued)
    · have apart : other ≠ thread := by
        rintro rfl
        rw [idle] at shutting
        cases shutting
      exact .inl ⟨other, (GracefulShutdown.setThread_other apart).trans shutting⟩
    · exact .inr queued
  · exact stepped_still interest rfl rfl id

theorem pushSend_stepped {s next : System} {thread : Nat} (interest : Interest s)
    (stepped : s.step (.pushSend thread) = some next) :
    Stepped s (.connection (.pushSend thread)) next := by
  simp only [System.step] at stepped
  split at stepped
  · rename_i call message found
    rcases Option.map_eq_some_iff.mp stepped with ⟨loop, pushed, rfl⟩
    refine stepped_still interest rfl rfl fun requested => ?_
    apply requested.pushed (EventLoop.push_pending pushed)
    intro other shutting
    have apart : other ≠ thread := by
      rintro rfl
      rw [found] at shutting
      cases shutting
    exact .inl ((GracefulShutdown.setThread_other apart).trans shutting)
  · cases stepped

theorem exchangeShutDown_stepped {s next : System} {thread : Nat} (interest : Interest s)
    (stepped : s.step (.exchangeShutDown thread) = some next) :
    Stepped s (.connection (.exchangeShutDown thread)) next := by
  simp only [System.step] at stepped
  rcases Option.ite_none_right_eq_some.mp stepped with ⟨free, made⟩
  cases made
  split
  · refine ⟨⟨.inr rfl, interest.output, fun _ => ?_⟩, .inl⟩
    exact .inl (.inl ⟨thread, GracefulShutdown.setThread_self s thread .shutting⟩)
  · exact stepped_still interest rfl rfl id

theorem pushShutDown_stepped {s next : System} {thread : Nat} (interest : Interest s)
    (stepped : s.step (.pushShutDown thread) = some next) :
    Stepped s (.connection (.pushShutDown thread)) next := by
  simp only [System.step] at stepped
  split at stepped
  · rcases Option.map_eq_some_iff.mp stepped with ⟨loop, pushed, rfl⟩
    refine stepped_still interest rfl rfl fun requested => ?_
    apply requested.pushed (EventLoop.push_pending pushed)
    intro other shutting
    by_cases same : other = thread
    · subst same
      exact .inr List.mem_cons_self
    · exact .inl ((GracefulShutdown.setThread_other same).trans shutting)
  · cases stepped

theorem machine_stepped {s next : System} {action : EventLoop.Action Task}
    (interest : Interest s) (stepped : s.step (.machine action) = some next) :
    Stepped s (.connection (.machine action)) next := by
  simp only [System.step] at stepped
  rcases Option.ite_none_right_eq_some.mp stepped with ⟨may, moved⟩
  rcases Option.map_eq_some_iff.mp moved with ⟨loop, inner, rfl⟩
  refine stepped_still interest rfl rfl fun requested => ?_
  rcases GracefulShutdown.machine_pending may inner with same | more
  · exact requested.pushed (same.trans (List.append_nil _).symm) fun _ => .inl
  · exact requested.pushed more fun _ => .inl

theorem shutDownInLoop_asked (c : TcpConnection) :
    c.shutDownInLoop.channel.isWritting = true ∨ c.shutDownInLoop.socket.shutWr = true := by
  rcases shutDownInLoop_frame c with ⟨-, channel, -, -, shut⟩
  rw [channel, shut]
  cases c.channel.isWritting <;> simp

theorem issue_stepped {s middle : System} {action : Action} {c : TcpConnection}
    (interest : Interest s) (state : c.state = .kConnected ∨ c.state = .kDisConnecting)
    (channel : c.channel = s.conn.channel) (output : c.ouputBuffer = s.conn.ouputBuffer)
    (socket : c.socket = s.conn.socket)
    (issues : c.channel.isWritting = false → Issues s action) :
    Stepped s action (middle.issue c.shutDownInLoop) := by
  rcases shutDownInLoop_frame c with ⟨same, keeps, holds, -, shut⟩
  refine ⟨⟨?_, ?_, fun _ => ?_⟩, ?_⟩
  · change c.shutDownInLoop.state = _ ∨ c.shutDownInLoop.state = _
    rwa [same]
  · change c.shutDownInLoop.channel.isWritting = false →
      c.shutDownInLoop.ouputBuffer.readableBytes = 0
    rw [keeps, holds, channel, output]
    exact interest.output
  · right
    exact (shutDownInLoop_asked c).imp_right .inl
  · change c.shutDownInLoop.socket.shutWr = true → _
    rw [shut, socket]
    intro closed
    cases writing : c.channel.isWritting with
    | true => exact .inl (by simpa [writing] using closed)
    | false => exact .inr (issues writing)

theorem shutDown_stepped {s next : System} (interest : Interest s)
    (stepped : s.step .shutDown = some next) : Stepped s (.connection .shutDown) next := by
  simp only [System.step] at stepped
  rcases Option.ite_none_right_eq_some.mp stepped with ⟨-, made⟩
  cases made
  split
  · rename_i connected
    refine issue_stepped interest (.inr rfl) rfl rfl rfl fun idle => ?_
    exact ⟨.loopThread,
      by simp [issuer, connected, show s.conn.channel.isWritting = false from idle]⟩
  · exact stepped_still interest rfl rfl id

theorem Requested.started {s : System} {loop : EventLoop Task} {task : Task}
    (requested : Requested s) (pending : s.loop.pending = task :: loop.pending)
    (other : ∀ thread, task ≠ .shutDownInLoop thread) : Requested { s with loop := loop } := by
  rcases requested with shutting | ⟨thread, queued⟩
  · exact .inl shutting
  · rw [pending] at queued
    rcases List.mem_cons.mp queued with head | tail
    · exact absurd head.symm (other thread)
    · exact .inr ⟨thread, tail⟩

theorem runFunctor_stepped {s next : System} {result : IoResult} (interest : Interest s)
    (stepped : s.step (.runFunctor result) = some next) :
    Stepped s (.connection (.runFunctor result)) next := by
  simp only [System.step] at stepped
  rcases Option.ite_none_right_eq_some.mp stepped with ⟨-, ran⟩
  rcases Option.bind_eq_some_iff.mp ran with ⟨loop, moved, finished⟩
  rcases EventLoop.runNext_cur moved with ⟨task, cur⟩
  have pending := EventLoop.runNext_pending cur moved
  have started : (∀ thread, task ≠ .shutDownInLoop thread) →
      Interest { s with loop := loop } := fun other =>
    { state := interest.state
      output := interest.output
      asked := fun leaving =>
        (interest.asked leaving).imp_left fun requested => requested.started pending other }
  rw [cur] at finished
  cases task with
  | sendInLoop call message =>
      refine (sendInLoop_sends finished).stepped (started ?_) rfl
      intro thread same
      cases same
  | shutDownInLoop thread =>
      cases finished
      refine issue_stepped interest interest.state rfl rfl rfl fun idle => ?_
      exact ⟨.functor thread, by simp [issuer, cur, idle]⟩
  | other =>
      cases finished
      refine ⟨started ?_, .inl⟩
      intro thread same
      cases same

theorem handleWrite_stepped {s next : System} {result : IoResult} (interest : Interest s)
    (stepped : s.step (.handleWrite result) = some next) :
    Stepped s (.connection (.handleWrite result)) next := by
  simp only [System.step] at stepped
  split at stepped
  · split at stepped
    · cases stepped
    · split at stepped
      · rename_i writing
        rcases Option.bind_eq_some_iff.mp stepped with ⟨⟨conn, drained⟩, wrote, finished⟩
        cases finished
        rcases drainOutput_frame writing wrote with ⟨state, shut, idle⟩
        refine ⟨⟨state ▸ interest.state, idle, fun _ => ?_⟩, ?_⟩
        · cases drained with
          | true => exact .inr (.inr (.inr List.mem_cons_self))
          | false => exact .inr (.inl (drainOutput_channel wrote ▸ writing))
        · change conn.socket.shutWr = true → _
          rw [shut]
          exact .inl
      · cases stepped
        exact stepped_still interest rfl rfl id
  · cases stepped

theorem callbackReturn_stepped {s next : System} (interest : Interest s)
    (stepped : s.step .callbackReturn = some next) :
    Stepped s (.connection .callbackReturn) next := by
  simp only [System.step] at stepped
  split at stepped
  · cases stepped
  · split at stepped
    · rename_i call first source rest frames
      have popped : Interest { s with frames := rest } := by
        refine ⟨interest.state, interest.output, fun leaving => ?_⟩
        have asked := interest.asked leaving
        rw [frames] at asked
        simpa [Requested] using asked
      exact (append_sends stepped).stepped popped rfl
    · rename_i rest frames
      cases stepped
      by_cases leaving : s.conn.state = .kDisConnecting
      · rw [show s.conn.finishWrite = s.conn.shutDownInLoop from if_pos leaving]
        refine issue_stepped interest interest.state rfl rfl rfl fun idle => ?_
        exact ⟨.handleWrite, by simp [issuer, frames, leaving, idle]⟩
      · rw [show s.conn.finishWrite = s.conn from if_neg leaving]
        exact ⟨⟨interest.state, interest.output, fun state => absurd state leaving⟩, .inl⟩
    · cases stepped

theorem send_stepped {s next : System} {payload : Payload} {result : IoResult}
    (interest : Interest s) (stepped : s.step (.send payload result) = some next) :
    Stepped s (.connection (.send payload result)) next := by
  simp only [System.step] at stepped
  rcases Option.ite_none_right_eq_some.mp stepped with ⟨-, made⟩
  split at made
  · have called : Interest (s.call none payload.bytes) :=
      ⟨interest.state, interest.output, interest.asked⟩
    exact (sendInLoop_sends made).stepped called rfl
  · cases made
    exact stepped_still interest rfl rfl id

theorem reading_stepped {s : System} {action : Action} {conn : TcpConnection}
    (interest : Interest s) (state : conn.state = s.conn.state)
    (writing : conn.channel.isWritting = s.conn.channel.isWritting)
    (output : conn.ouputBuffer = s.conn.ouputBuffer) (socket : conn.socket = s.conn.socket) :
    Stepped s action { s with conn := conn } := by
  refine ⟨⟨?_, ?_, ?_⟩, ?_⟩
  · exact state ▸ interest.state
  · exact writing ▸ output ▸ interest.output
  · exact state ▸ writing ▸ socket ▸ interest.asked
  · exact socket ▸ .inl

theorem startReadInLoop_stepped {s next : System} (interest : Interest s)
    (stepped : step s .startReadInLoop = some next) : Stepped s .startReadInLoop next := by
  rcases Option.ite_none_right_eq_some.mp stepped with ⟨-, made⟩
  cases made
  apply reading_stepped interest <;> unfold startReadInLoop <;> split <;> simp

theorem stopReadInLoop_stepped {s next : System} (interest : Interest s)
    (stepped : step s .stopReadInLoop = some next) : Stepped s .stopReadInLoop next := by
  rcases Option.ite_none_right_eq_some.mp stepped with ⟨-, made⟩
  cases made
  apply reading_stepped interest <;> unfold stopReadInLoop <;> split <;> simp

theorem step_stepped {s next : System} {action : Action} (interest : Interest s)
    (stepped : step s action = some next) : Stepped s action next := by
  cases action with
  | startReadInLoop => exact startReadInLoop_stepped interest stepped
  | stopReadInLoop => exact stopReadInLoop_stepped interest stepped
  | connection action =>
      cases action with
      | checkSend thread message => exact checkSend_stepped interest stepped
      | pushSend thread => exact pushSend_stepped interest stepped
      | exchangeShutDown thread => exact exchangeShutDown_stepped interest stepped
      | pushShutDown thread => exact pushShutDown_stepped interest stepped
      | machine action => exact machine_stepped interest stepped
      | runFunctor result => exact runFunctor_stepped interest stepped
      | handleWrite result => exact handleWrite_stepped interest stepped
      | callbackReturn => exact callbackReturn_stepped interest stepped
      | send payload result => exact send_stepped interest stepped
      | shutDown => exact shutDown_stepped interest stepped

/-! Whole runs. -/

theorem start_interest (start : Start) : Interest start.system where
  state := .inl start.connected
  output _ := by
    change start.opened.conn.ouputBuffer.readableBytes = 0
    rw [start.opened.noOutput]
    rfl
  asked leaving := by
    change start.opened.conn.state = _ at leaving
    rw [start.connected] at leaving
    cases leaving

theorem run_interest {start : Start} {actions : List Action} {final : System}
    (ran : run step start.system actions = some final) : Interest final :=
  run_invariant Interest (fun _ _ _ interest stepped => (step_stepped interest stepped).interest)
    (start_interest start) ran

/-- Every issuer of `SHUT_WR` tests the channel first. -/
theorem Issues.idle {s : System} {action : Action} (issues : Issues s action) :
    s.conn.channel.isWritting = false := by
  cases action with
  | startReadInLoop => cases issues
  | stopReadInLoop => cases issues
  | connection action =>
      rcases issues with ⟨who, issued⟩
      unfold issuer at issued
      split at issued
      · split at issued
        · exact (Option.ite_none_right_eq_some.mp issued).1.2
        · cases issued
      · exact (Option.ite_none_right_eq_some.mp issued).1.2
      · split at issued
        · exact (Option.ite_none_right_eq_some.mp issued).1
        · cases issued
      · cases issued

/-- Data pending means write interest; the half-close waits for the output, and
once asked for it is never forgotten. -/
theorem half_close_follows_output (start : Start) (actions : List Action) (final : System)
    (ran : run step start.system actions = some final) :
    (final.conn.ouputBuffer.readableBytes ≠ 0 → final.conn.channel.isWritting = true) ∧
      (∀ action next, step final action = some next →
        Issues final action ∨
          (final.conn.socket.shutWr = false ∧ next.conn.socket.shutWr = true) →
        final.conn.ouputBuffer.readableBytes = 0) ∧
      (final.conn.state = .kDisConnecting → ¬Requested final → Frame.finishing ∉ final.frames →
        final.conn.channel.isWritting = true ∨ final.conn.socket.shutWr = true) := by
  have interest := run_interest ran
  refine ⟨fun pending => ?_, fun action next stepped shut => ?_, fun leaving settled closed => ?_⟩
  · cases writing : final.conn.channel.isWritting with
    | true => rfl
    | false => exact absurd (interest.output writing) pending
  · have issues : Issues final action := by
      rcases shut with issues | ⟨before, after⟩
      · exact issues
      · rcases (step_stepped interest stepped).shut after with already | issues
        · rw [before] at already
          cases already
        · exact issues
    exact interest.output issues.idle
  · rcases interest.asked leaving with asked | writing | shut | finishing
    · exact absurd asked settled
    · exact .inl writing
    · exact .inr shut
    · exact absurd finishing closed

/-- Part of a message is left to the output buffer, another thread shuts down,
reading is stopped meanwhile; the drain half-closes. -/
def drained : List Action :=
  [.connection (.machine (.loop .enter)), .connection (.machine (.loop .poll)),
    .connection (.machine (.loop .pollReturn)),
    .connection (.send (.block ⟨OutputStream.counting, 0, 2⟩) (.error 11)),
    .connection (.exchangeShutDown 7), .connection (.pushShutDown 7),
    .connection (.machine (.pushed 7)), .stopReadInLoop,
    .connection (.machine (.loop .beginExecute)), .connection (.machine (.loop .swap)),
    .connection (.runFunctor (.count 0))]

theorem buffered_shutdown_waits : ∃ final,
    run step GracefulShutdown.established.system drained = some final ∧
      final.conn.state = .kDisConnecting ∧ final.conn.ouputBuffer.readableBytes ≠ 0 ∧
      final.conn.channel.isWritting = true :=
  ⟨_, rfl, rfl, by decide,
    (half_close_follows_output GracefulShutdown.established drained _ rfl).1 (by decide)⟩

end Muzi.WriteInterest
