import Muzi.ShutdownStream

/-!
Graceful shutdown over whole runs. A call that was made and is not in the output
stream yet is in its thread, in the functor queue or in a frame of the loop
thread; the queue keeps a thread's `ShutDownInLoop` behind its sends. What
remains are the parties that issue `SHUT_WR` without looking at the queue.
-/

namespace Muzi.GracefulShutdown

open Storage TcpConnection Execution
open OutputStream (Holds Message Payload Source)

def Open (k : Nat) (s : System) : Prop :=
  ∃ first source, .appending k first source ∈ s.frames

structure Control (k : Nat) (s : System) : Prop where
  connected : s.conn.state ≠ .kDisConnected
  located : s.Waiting k → (∃ thread message, s.threads thread = .sending k message) ∨
    (∃ message, .sendInLoop k message ∈ s.loop.pending) ∨ Open k s
  /-- A thread's `ShutDownInLoop` is queued behind its own sends. -/
  fifo : ∀ thread before after bytes,
    s.loop.pending = before ++ .shutDownInLoop thread :: after →
    s.givenOf k = some (some thread, bytes) → s.Waiting k →
    (∃ message, .sendInLoop k message ∈ before) ∨ Open k s
  /-- A thread that called `ShutDown` sends no more. -/
  shutting : ∀ thread, (s.threads thread = .shutting ∨ .shutDownInLoop thread ∈ s.loop.pending) →
    s.conn.state ≠ .kConnected ∧ ∀ j message, s.threads thread ≠ .sending j message

theorem Control.transfer {k : Nat} {s next : System} (control : Control k s)
    (state : next.conn.state = s.conn.state ∨ next.conn.state = .kDisConnecting)
    (threads : next.threads = s.threads) (pending : next.loop.pending = s.loop.pending)
    (given : next.givenOf k = s.givenOf k)
    (waits : next.Waiting k → s.Waiting k ∧ (Open k s → Open k next)) : Control k next where
  connected := by
    rcases state with same | leaving
    · exact same ▸ control.connected
    · exact leaving ▸ nofun
  located waiting := by
    rcases waits waiting with ⟨before, opens⟩
    rw [threads, pending]
    exact (control.located before).imp_right (Or.imp_right opens)
  fifo thread before after bytes split known waiting := by
    rw [pending] at split
    rw [given] at known
    rcases waits waiting with ⟨still, opens⟩
    exact (control.fifo thread before after bytes split known still).imp_right opens
  shutting thread shut := by
    rw [threads, pending] at shut
    rw [threads]
    rcases control.shutting thread shut with ⟨left, quiet⟩
    rcases state with same | leaving
    · exact ⟨same ▸ left, quiet⟩
    · exact ⟨leaving ▸ nofun, quiet⟩

/-! One step, action by action. -/

inductive Issuer where
  | handleWrite
  | loopThread
  | functor (thread : Nat)

/-- Who issues `SHUT_WR` in a step: `HandleWrite` after a drain, a `ShutDown`
called in the loop thread, or the `ShutDownInLoop` queued by a thread. -/
def issuer (s : System) : Action → Option Issuer
  | .callbackReturn =>
      match s.frames with
      | .finishing :: _ =>
          if s.conn.state = .kDisConnecting ∧ s.conn.channel.isWritting = false then
            some .handleWrite
          else none
      | _ => none
  | .shutDown =>
      if s.conn.state = .kConnected ∧ s.conn.channel.isWritting = false then some .loopThread
      else none
  | .runFunctor _ =>
      match s.loop.curFunctors with
      | .shutDownInLoop thread :: _ =>
          if s.conn.channel.isWritting = false then some (.functor thread) else none
      | _ => none
  | _ => none

/-- The first `SHUT_WR` is issued while call `k` is still on its way, by another
than the thread that made the call. -/
def Overtakes (k : Nat) (s : System) (action : Action) : Prop :=
  s.conn.socket.shutWr = false ∧ s.Waiting k ∧ ∃ who, issuer s action = some who ∧
    ∀ thread bytes, s.givenOf k = some (some thread, bytes) → who ≠ .functor thread

structure Inv (k : Nat) (s : System) : Prop where
  content : ∃ stream, Content k s stream
  control : Control k s

structure Stepped (k : Nat) (s : System) (action : Action) (next : System) : Prop where
  inv : Inv k next
  late : next.lateOf k = true ↔ s.lateOf k = true ∨ Overtakes k s action

theorem stepped_silent {k : Nat} {s next : System} {action : Action} (inv : Inv k next)
    (late : next.lateOf k = s.lateOf k) (silent : issuer s action = none) :
    Stepped k s action next := by
  refine ⟨inv, ?_⟩
  rw [late]
  constructor
  · exact .inl
  · rintro (before | ⟨-, -, who, issued, -⟩)
    · exact before
    · rw [silent] at issued
      cases issued

theorem append_singleton_split {α : Type} {list front back : List α} {last middle : α}
    (same : list ++ [last] = front ++ middle :: back) :
    (∃ rest, list = front ++ middle :: rest) ∨ last = middle ∧ front = list := by
  rcases List.eq_nil_or_concat back with rfl | ⟨rest, final, rfl⟩
  · rcases List.append_inj' same rfl with ⟨fronts, lasts⟩
    exact .inr ⟨(List.cons.inj lasts).1, fronts.symm⟩
  · have shifted : list ++ [last] = (front ++ middle :: rest) ++ [final] := by
      rw [same]
      simp
    exact .inl ⟨rest, (List.append_inj' shifted rfl).1⟩

theorem System.free_idle {s : System} {thread : Nat} (free : s.free thread = true) :
    s.threads thread = .idle := by
  unfold System.free at free
  split at free
  · assumption
  · cases free

theorem setThread_other {s : System} {thread other : Nat} {pc : Pc} (apart : other ≠ thread) :
    (s.setThread thread pc).threads other = s.threads other :=
  if_neg apart

theorem setThread_self (s : System) (thread : Nat) (pc : Pc) :
    (s.setThread thread pc).threads thread = pc :=
  if_pos rfl

theorem Content.call {k : Nat} {s : System} {stream : List Byte} (content : Content k s stream)
    (thread : Option Nat) (bytes : List Byte) : Content k (s.call thread bytes) stream where
  holds := content.holds
  writing := content.writing
  settled first last place := by
    rw [System.call_place] at place
    rcases content.settled first last place with ⟨inside, owner, data, given, covered⟩
    exact ⟨inside, owner, data, System.call_given_old given thread bytes, covered⟩
  open_ first source member := by
    rcases content.open_ first source member with ⟨inside, owner, data, front, given, rest⟩
    exact ⟨inside, owner, data, front, System.call_given_old given thread bytes, rest⟩
  queued message member := by
    rcases content.queued message member with ⟨owner, given⟩
    exact ⟨owner, System.call_given_old given thread bytes⟩
  sending owner message pc :=
    System.call_given_old (content.sending owner message pc) thread bytes

theorem System.call_waiting {s : System} {thread : Option Nat} {bytes : List Byte} {k : Nat}
    (waits : (s.call thread bytes).Waiting k) : k = s.calls.length ∨ s.Waiting k := by
  rcases waits with ⟨inside, place⟩
  rw [System.call_place] at place
  have length : (s.call thread bytes).calls.length = s.calls.length + 1 := by
    simp [System.call]
  rw [length] at inside
  by_cases new : k = s.calls.length
  · exact .inl new
  · exact .inr ⟨by omega, place⟩

theorem Content.setThread {k : Nat} {s : System} {stream : List Byte}
    (content : Content k s stream) (thread : Nat) (pc : Pc)
    (known : ∀ message, pc = .sending k message →
      s.givenOf k = some (some thread, message.bytes)) :
    Content k (s.setThread thread pc) stream :=
  { content with
    sending := by
      intro other message found
      by_cases same : other = thread
      · subst same
        rw [setThread_self] at found
        exact known message found
      · rw [setThread_other same] at found
        exact content.sending other message found }

theorem Content.push {k : Nat} {s : System} {stream : List Byte} (content : Content k s stream)
    {loop : EventLoop Task} {tasks : List Task}
    (pending : loop.pending = s.loop.pending ++ tasks)
    (known : ∀ message, .sendInLoop k message ∈ tasks →
      ∃ thread, s.givenOf k = some (some thread, message.bytes)) :
    Content k { s with loop := loop } stream :=
  { content with
    queued := by
      intro message member
      change _ ∈ loop.pending at member
      rw [pending] at member
      rcases List.mem_append.mp member with old | new
      · exact content.queued message old
      · exact known message new }

theorem checkSend_stepped {k : Nat} {s next : System} {thread : Nat} {message : Message}
    (inv : Inv k s) (stepped : s.step (.checkSend thread message) = some next) :
    Stepped k s (.checkSend thread message) next := by
  rcases inv with ⟨⟨stream, content⟩, control⟩
  simp only [System.step] at stepped
  split at stepped
  · rename_i free
    have idle := System.free_idle free
    split at stepped
    · rename_i connected
      cases stepped
      -- While the connection is connected no thread is behind its exchange.
      have nobody : ∀ other, ¬(s.threads other = .shutting ∨
          .shutDownInLoop other ∈ s.loop.pending) :=
        fun other shut => (control.shutting other shut).1 connected
      refine stepped_silent ⟨⟨stream, ?_⟩, ?_⟩
        (System.call_late s (some thread) message.bytes k) rfl
      · apply (content.call _ _).setThread
        intro sent same
        cases same
        rw [System.call_given, if_pos rfl]
      · constructor
        · exact control.connected
        · intro waits
          rcases System.call_waiting waits with rfl | before
          · exact .inl ⟨thread, message, setThread_self _ _ _⟩
          · refine (control.located before).imp_left ?_
            rintro ⟨other, sent, found⟩
            have apart : other ≠ thread := by
              rintro rfl
              rw [idle] at found
              cases found
            exact ⟨other, sent, (setThread_other apart).trans found⟩
        · intro other before after bytes split
          exact absurd (.inr (split ▸ by simp)) (nobody other)
        · rintro other (shut | queued)
          · by_cases same : other = thread
            · subst same
              rw [setThread_self] at shut
              cases shut
            · exact absurd (.inl ((setThread_other same).symm.trans shut)) (nobody other)
          · exact absurd (.inr queued) (nobody other)
    · cases stepped
      exact stepped_silent ⟨⟨stream, content⟩, control⟩ rfl rfl
  · cases stepped

theorem Control.push {k : Nat} {s : System} (control : Control k s) {threads : Nat → Pc}
    {task : Task} {loop : EventLoop Task} (pending : loop.pending = s.loop.pending ++ [task])
    (pcs : ∀ thread, threads thread = s.threads thread ∨ threads thread = .idle)
    (carries : ∀ thread message, s.threads thread = .sending k message →
      threads thread = .sending k message ∨ task = .sendInLoop k message)
    (behind : ∀ thread bytes, task = .shutDownInLoop thread →
      s.givenOf k = some (some thread, bytes) → s.Waiting k →
      (∃ message, .sendInLoop k message ∈ s.loop.pending) ∨ Open k s)
    (exchanged : ∀ thread, task = .shutDownInLoop thread → s.threads thread = .shutting) :
    Control k { s with loop := loop, threads := threads } where
  connected := control.connected
  located waits := by
    change _ ∨ (∃ sent, _ ∈ loop.pending) ∨ _
    rw [pending]
    rcases control.located waits with ⟨thread, message, sending⟩ | ⟨message, queued⟩ | opened
    · rcases carries thread message sending with stays | rfl
      · exact .inl ⟨thread, message, stays⟩
      · exact .inr (.inl ⟨message, by simp⟩)
    · exact .inr (.inl ⟨message, List.mem_append_left _ queued⟩)
    · exact .inr (.inr opened)
  fifo thread before after bytes split given waits := by
    change loop.pending = _ at split
    rw [pending] at split
    rcases append_singleton_split split with ⟨rest, old⟩ | ⟨same, front⟩
    · exact control.fifo thread before rest bytes old given waits
    · rw [front]
      exact behind thread bytes same given waits
  shutting thread shut := by
    have before : s.threads thread = .shutting ∨ .shutDownInLoop thread ∈ s.loop.pending := by
      rcases shut with shut | queued
      · rcases pcs thread with same | idle
        · exact .inl (same.symm.trans shut)
        · cases idle.symm.trans shut
      · change _ ∈ loop.pending at queued
        rw [pending] at queued
        rcases List.mem_append.mp queued with old | new
        · exact .inr old
        · exact .inl (exchanged thread (List.mem_singleton.mp new).symm)
    rcases control.shutting thread before with ⟨left, quiet⟩
    refine ⟨left, fun j message sending => ?_⟩
    rcases pcs thread with same | idle
    · exact quiet j message (same.symm.trans sending)
    · cases idle.symm.trans sending

theorem setThread_cases (s : System) (thread : Nat) (pc : Pc) (other : Nat) :
    (s.setThread thread pc).threads other = s.threads other ∨
      other = thread ∧ (s.setThread thread pc).threads other = pc := by
  by_cases same : other = thread
  · subst same
    exact .inr ⟨rfl, setThread_self s other pc⟩
  · exact .inl (setThread_other same)

theorem Control.threadPush {k : Nat} {s : System} (control : Control k s) {thread : Nat}
    {task : Task} {loop : EventLoop Task} (pending : loop.pending = s.loop.pending ++ [task])
    (carries : ∀ message, s.threads thread = .sending k message → task = .sendInLoop k message)
    (behind : ∀ thread bytes, task = .shutDownInLoop thread →
      s.givenOf k = some (some thread, bytes) → s.Waiting k →
      (∃ message, .sendInLoop k message ∈ s.loop.pending) ∨ Open k s)
    (exchanged : ∀ thread, task = .shutDownInLoop thread → s.threads thread = .shutting) :
    Control k { s with loop := loop, threads := (s.setThread thread .idle).threads } := by
  apply control.push pending _ _ behind exchanged
  · exact fun other => (setThread_cases s thread .idle other).imp_right And.right
  · intro other sent sending
    rcases setThread_cases s thread .idle other with stays | ⟨rfl, -⟩
    · exact .inl (stays.trans sending)
    · exact .inr (carries sent sending)

theorem pushSend_stepped {k : Nat} {s next : System} {thread : Nat}
    (inv : Inv k s) (stepped : s.step (.pushSend thread) = some next) :
    Stepped k s (.pushSend thread) next := by
  rcases inv with ⟨⟨stream, content⟩, control⟩
  simp only [System.step] at stepped
  split at stepped
  · rename_i j message found
    rcases Option.map_eq_some_iff.mp stepped with ⟨loop, pushed, rfl⟩
    have pending := EventLoop.push_pending pushed
    refine stepped_silent ⟨⟨stream, ?_⟩, ?_⟩ rfl rfl
    · apply (content.push pending _).setThread thread .idle
      · intro sent same
        cases same
      · intro sent member
        cases List.mem_singleton.mp member
        exact ⟨thread, content.sending thread message found⟩
    · apply control.threadPush pending
      · intro sent sending
        cases found.symm.trans sending
        rfl
      · intro owner bytes same
        cases same
      · intro owner same
        cases same
  · cases stepped

theorem exchangeShutDown_stepped {k : Nat} {s next : System} {thread : Nat}
    (inv : Inv k s) (stepped : s.step (.exchangeShutDown thread) = some next) :
    Stepped k s (.exchangeShutDown thread) next := by
  rcases inv with ⟨⟨stream, content⟩, control⟩
  simp only [System.step] at stepped
  split at stepped
  · rename_i free
    have idle := System.free_idle free
    split at stepped
    · cases stepped
      refine stepped_silent ⟨⟨stream, ?_⟩, ?_⟩ rfl rfl
      · have moved := content.setThread thread .shutting (by intro sent same; cases same)
        exact { moved with holds := content.holds, writing := content.writing }
      · have still : ∀ other j message, s.threads other = .sending j message →
            (s.setThread thread .shutting).threads other = .sending j message := by
          intro other j message found
          have apart : other ≠ thread := by
            rintro rfl
            rw [idle] at found
            cases found
          exact (setThread_other apart).trans found
        constructor
        · nofun
        · intro waits
          refine (control.located waits).imp_left ?_
          rintro ⟨other, message, found⟩
          exact ⟨other, message, still other k message found⟩
        · exact control.fifo
        · intro other shut
          refine ⟨nofun, fun j message found => ?_⟩
          by_cases same : other = thread
          · subst same
            cases (setThread_self s other .shutting).symm.trans found
          · have before : s.threads other = .shutting ∨
                .shutDownInLoop other ∈ s.loop.pending :=
              shut.imp_left (setThread_other same).symm.trans
            exact (control.shutting other before).2 j message
              ((setThread_other same).symm.trans found)
    · cases stepped
      exact stepped_silent ⟨⟨stream, content⟩, control⟩ rfl rfl
  · cases stepped

theorem pushShutDown_stepped {k : Nat} {s next : System} {thread : Nat}
    (inv : Inv k s) (stepped : s.step (.pushShutDown thread) = some next) :
    Stepped k s (.pushShutDown thread) next := by
  rcases inv with ⟨⟨stream, content⟩, control⟩
  simp only [System.step] at stepped
  split at stepped
  · rename_i found
    rcases Option.map_eq_some_iff.mp stepped with ⟨loop, pushed, rfl⟩
    have pending := EventLoop.push_pending pushed
    refine stepped_silent ⟨⟨stream, ?_⟩, ?_⟩ rfl rfl
    · apply (content.push pending _).setThread thread .idle
      · intro sent same
        cases same
      · intro sent member
        cases List.mem_singleton.mp member
    · apply control.threadPush pending
      · intro sent sending
        cases found.symm.trans sending
      · -- The thread's own sends are in the queue by now, or in execution.
        intro owner bytes same given waits
        cases same
        rcases control.located waits with ⟨other, sent, sending⟩ | located
        · have owned := content.sending other sent sending
          rw [given] at owned
          cases owned
          rw [found] at sending
          cases sending
        · exact located
      · intro owner same
        cases same
        exact found
  · cases stepped

theorem machine_pending {s : System} {action : EventLoop.Action Task} {loop : EventLoop Task}
    (may : s.machineMay action = true) (moved : s.loop.step action = some loop) :
    loop.pending = s.loop.pending ∨ loop.pending = s.loop.pending ++ [.other] := by
  have order := EventLoop.step_pending moved
  cases action with
  | push thread task =>
      cases task with
      | other => exact .inr order
      | sendInLoop | shutDownInLoop => cases may
  | pushed | wakeUp | quit | queued => exact .inl (order.trans (List.append_nil _))
  | loop action =>
      cases action with
      | queue task =>
          cases task with
          | other => exact .inr order
          | sendInLoop | shutDownInLoop => cases may
      | runNext => cases may
      | enter | leave | poll | pollReturn | handleWakeupRead | beginExecute | swap
      | functorReturn | finish => exact .inl (order.trans (List.append_nil _))

theorem machine_stepped {k : Nat} {s next : System} {action : EventLoop.Action Task}
    (inv : Inv k s) (stepped : s.step (.machine action) = some next) :
    Stepped k s (.machine action) next := by
  rcases inv with ⟨⟨stream, content⟩, control⟩
  simp only [System.step] at stepped
  split at stepped
  · rename_i may
    rcases Option.map_eq_some_iff.mp stepped with ⟨loop, moved, rfl⟩
    refine stepped_silent ⟨⟨stream, ?_⟩, ?_⟩ rfl rfl
    · rcases machine_pending may moved with same | more
      · exact content.push (same.trans (List.append_nil _).symm) (by simp)
      · exact content.push more (by simp)
    · rcases machine_pending may moved with same | more
      · exact control.transfer (.inl rfl) rfl same rfl fun waits => ⟨waits, id⟩
      · apply control.push more (fun _ => .inl rfl) (fun _ _ sending => .inl sending)
        · intro thread bytes same
          cases same
        · intro thread same
          cases same
  · cases stepped

theorem handleWrite_stepped {k : Nat} {s next : System} {result : IoResult}
    (inv : Inv k s) (stepped : s.step (.handleWrite result) = some next) :
    Stepped k s (.handleWrite result) next := by
  rcases inv with ⟨⟨stream, content⟩, control⟩
  simp only [System.step] at stepped
  split at stepped
  · rename_i noFrames
    split at stepped
    · cases stepped
    · split at stepped
      · rename_i writing
        rcases Option.bind_eq_some_iff.mp stepped with ⟨⟨conn, drained⟩, wrote, finished⟩
        cases finished
        rcases drainOutput_frame writing wrote with ⟨state, shut, idle⟩
        refine stepped_silent ⟨⟨stream, ?_⟩, ?_⟩ rfl rfl
        · have holds := OutputStream.drainOutput_holds result s.conn conn drained stream
            content.holds wrote
          refine { content with holds := holds, writing := idle, open_ := ?_ }
          intro first source member
          cases drained <;> simp at member
        · refine control.transfer (.inl state) rfl rfl rfl ?_
          intro waits
          refine ⟨waits, ?_⟩
          rintro ⟨first, source, member⟩
          rw [noFrames] at member
          cases member
      · cases stepped
        exact stepped_silent ⟨⟨stream, content⟩, control⟩ rfl rfl
  · cases stepped

theorem issue_stepped {k : Nat} {s middle : System} {action : Action} {conn : TcpConnection}
    {stream : List Byte} (content : Content k middle stream)
    (control : Control k (middle.issue conn))
    (closing : Closing middle.conn conn) (late : middle.lateOf k = s.lateOf k)
    (shut : middle.conn.socket.shutWr = s.conn.socket.shutWr)
    (waits : middle.Waiting k ↔ s.Waiting k)
    (issued : s.conn.socket.shutWr = false →
      (conn.socket.shutWr = true ↔ ∃ who, issuer s action = some who))
    (foreign : s.Waiting k → ∀ who, issuer s action = some who →
      ∀ thread bytes, s.givenOf k = some (some thread, bytes) → who ≠ .functor thread) :
    Stepped k s action (middle.issue conn) := by
  refine ⟨⟨⟨stream, content.issue closing⟩, control⟩, ?_⟩
  rw [content.issue_late closing, late, shut, waits]
  apply or_congr_right
  constructor
  · rintro ⟨⟨closed, before⟩, waiting⟩
    rcases (issued before).mp closed with ⟨who, named⟩
    exact ⟨before, waiting, who, named, foreign waiting who named⟩
  · rintro ⟨before, waiting, who, named, -⟩
    exact ⟨⟨(issued before).mpr ⟨who, named⟩, before⟩, waiting⟩

theorem shutDown_stepped {k : Nat} {s next : System} (inv : Inv k s)
    (stepped : s.step .shutDown = some next) : Stepped k s .shutDown next := by
  rcases inv with ⟨⟨stream, content⟩, control⟩
  simp only [System.step] at stepped
  split at stepped
  · split at stepped
    · rename_i connected
      cases stepped
      rcases shutDownInLoop_frame { s.conn with state := .kDisConnecting } with
        ⟨state, -, -, -, shut⟩
      refine issue_stepped content ?_ (closing_shutDown s.conn _) rfl rfl Iff.rfl ?_ ?_
      · exact control.transfer (.inr state) rfl rfl (System.issue_given _ _ _)
          fun waits => ⟨(System.issue_waiting _ _ _).mp waits, id⟩
      · intro before
        rw [shut]
        simp [issuer, connected, before]
      · intro _ who named thread bytes _
        rw [issuer] at named
        split at named
        · cases named
          nofun
        · cases named
    · rename_i left
      cases stepped
      refine stepped_silent ⟨⟨stream, content⟩, control⟩ rfl ?_
      rw [issuer, if_neg (fun both => left both.1)]
  · cases stepped

theorem closing_finish (c : TcpConnection) : Closing c c.finishWrite := by
  unfold finishWrite
  split
  · exact closing_shutDown c c.state
  · refine ⟨rfl, rfl, rfl, fun issued before => ?_⟩
    rw [before] at issued
    cases issued

theorem Content.fewer {k : Nat} {s : System} {stream : List Byte} {frame : Frame}
    {rest : List Frame} (content : Content k s stream) (frames : s.frames = frame :: rest) :
    Content k { s with frames := rest } stream :=
  { content with
    open_ := fun start data member =>
      content.open_ start data (frames ▸ List.mem_cons_of_mem _ member) }

theorem append_stepped {k j first : Nat} {s next : System} {source : Source} {rest : List Frame}
    (inv : Inv k s) (frames : s.frames = .appending j first source :: rest)
    (appended : ({ s with frames := rest } : System).append j first source = some next) :
    Stepped k s .callbackReturn next := by
  rcases inv with ⟨⟨stream, content⟩, control⟩
  have missing : Missing k { s with frames := rest } stream j first source := by
    rintro rfl
    exact content.open_ first source (frames ▸ List.mem_cons_self)
  rcases append_spec (content.fewer frames) missing appended with ⟨later, handled⟩
  refine stepped_silent ⟨later, ?_⟩ handled.late (by simp [issuer, frames])
  refine control.transfer (.inl handled.state) handled.threads (by rw [handled.loop])
    handled.given ?_
  intro waits
  rcases handled.waiting waits with ⟨before, mine⟩
  refine ⟨before, ?_⟩
  rintro ⟨start, data, member⟩
  rw [frames] at member
  rcases List.mem_cons.mp member with head | tail
  · cases head
    exact mine rfl
  · exact ⟨start, data, handled.frames _ tail⟩

theorem finish_stepped {k : Nat} {s : System} {rest : List Frame} (inv : Inv k s)
    (frames : s.frames = .finishing :: rest) :
    Stepped k s .callbackReturn
      (({ s with frames := rest } : System).issue s.conn.finishWrite) := by
  rcases inv with ⟨⟨stream, content⟩, control⟩
  rcases finishWrite_frame s.conn with ⟨state, shut⟩
  refine issue_stepped (content.fewer frames) ?_ (closing_finish s.conn) rfl rfl Iff.rfl ?_ ?_
  · refine control.transfer (.inl state) rfl rfl (System.issue_given _ _ _) ?_
    intro waits
    refine ⟨(System.issue_waiting _ _ _).mp waits, ?_⟩
    rintro ⟨start, data, member⟩
    rw [frames] at member
    rcases List.mem_cons.mp member with head | tail
    · cases head
    · exact ⟨start, data, tail⟩
  · intro before
    rw [shut before]
    simp [issuer, frames]
  · intro _ who named thread bytes _
    simp only [issuer, frames] at named
    split at named
    · cases named
      nofun
    · cases named

theorem callbackReturn_stepped {k : Nat} {s next : System} (inv : Inv k s)
    (stepped : s.step .callbackReturn = some next) : Stepped k s .callbackReturn next := by
  simp only [System.step] at stepped
  split at stepped
  · cases stepped
  · split at stepped
    · rename_i frames
      exact append_stepped inv frames stepped
    · rename_i frames
      cases stepped
      exact finish_stepped inv frames
    · cases stepped

theorem send_stepped {k : Nat} {s next : System} {payload : Payload} {result : IoResult}
    (inv : Inv k s) (stepped : s.step (.send payload result) = some next) :
    Stepped k s (.send payload result) next := by
  rcases inv with ⟨⟨stream, content⟩, control⟩
  simp only [System.step] at stepped
  split at stepped
  · split at stepped
    · rename_i connected
      rcases sendInLoop_spec (content.call none payload.bytes) control.connected (by
        rintro rfl
        exact ⟨none, by rw [System.call_given, if_pos rfl]⟩) stepped with ⟨later, handled⟩
      refine stepped_silent ⟨later, ?_⟩ (handled.late.trans (System.call_late _ _ _ _)) rfl
      have keepsOpen : Open k s → Open k next := by
        rintro ⟨first, source, member⟩
        exact ⟨first, source, handled.frames _ member⟩
      have nobody : ∀ thread, ¬(s.threads thread = .shutting ∨
          .shutDownInLoop thread ∈ s.loop.pending) :=
        fun thread shut => (control.shutting thread shut).1 connected
      constructor
      · rw [handled.state]
        exact control.connected
      · intro waits
        rcases handled.waiting waits with ⟨before, mine⟩
        rw [handled.threads, handled.loop]
        rcases System.call_waiting before with new | old
        · exact .inr (.inr (mine new.symm))
        · exact (control.located old).imp_right (Or.imp_right keepsOpen)
      · intro thread before after bytes split
        rw [handled.loop] at split
        exact absurd (.inr (split ▸ by simp)) (nobody thread)
      · intro thread shut
        rw [handled.threads, handled.loop] at shut
        exact absurd shut (nobody thread)
    · cases stepped
      exact stepped_silent ⟨⟨stream, content⟩, control⟩ rfl rfl
  · cases stepped

theorem Control.start {k : Nat} {s : System} (control : Control k s) {loop : EventLoop Task}
    {task : Task} (pending : s.loop.pending = task :: loop.pending)
    (other : ∀ message, task ≠ .sendInLoop k message) : Control k { s with loop := loop } where
  connected := control.connected
  located waits := by
    refine (control.located waits).imp_right (Or.imp_left ?_)
    rintro ⟨message, queued⟩
    rw [pending] at queued
    rcases List.mem_cons.mp queued with head | tail
    · exact absurd head.symm (other message)
    · exact ⟨message, tail⟩
  fifo thread before after bytes split given waits := by
    have whole : s.loop.pending = (task :: before) ++ .shutDownInLoop thread :: after := by
      rw [pending, show loop.pending = _ from split]
      rfl
    refine (control.fifo thread _ after bytes whole given waits).imp_left ?_
    rintro ⟨message, queued⟩
    rcases List.mem_cons.mp queued with head | tail
    · exact absurd head.symm (other message)
    · exact ⟨message, tail⟩
  shutting thread shut := by
    refine control.shutting thread (shut.imp_right ?_)
    intro queued
    rw [pending]
    exact List.mem_cons_of_mem _ queued

theorem Content.start {k : Nat} {s : System} {stream : List Byte} (content : Content k s stream)
    {loop : EventLoop Task} (fewer : ∀ task ∈ loop.pending, task ∈ s.loop.pending) :
    Content k { s with loop := loop } stream :=
  { content with queued := fun message member => content.queued message (fewer _ member) }

theorem runSend_stepped {k j : Nat} {s next : System} {stream : List Byte} {message : Message}
    {result : IoResult} {loop : EventLoop Task} (content : Content k s stream)
    (control : Control k s) (pending : s.loop.pending = .sendInLoop j message :: loop.pending)
    (silent : issuer s (.runFunctor result) = none)
    (sent : ({ s with loop := loop } : System).sendInLoop j (.block message) result = some next) :
    Stepped k s (.runFunctor result) next := by
  have fewer : ∀ task ∈ loop.pending, task ∈ s.loop.pending := by
    intro task member
    rw [pending]
    exact List.mem_cons_of_mem _ member
  rcases sendInLoop_spec (content.start fewer) control.connected (by
    rintro rfl
    rcases content.queued message (pending ▸ List.mem_cons_self) with ⟨thread, given⟩
    exact ⟨some thread, given⟩) sent with ⟨later, handled⟩
  refine stepped_silent ⟨later, ?_⟩ handled.late silent
  by_cases mine : j = k
  · -- The tracked call leaves the queue: it is settled now, or in a frame.
    constructor
    · rw [handled.state]
      exact control.connected
    · exact fun waits => .inr (.inr ((handled.waiting waits).2 mine))
    · exact fun _ _ _ _ _ _ waits => .inr ((handled.waiting waits).2 mine)
    · intro thread shut
      rw [handled.threads, handled.loop] at shut
      rw [handled.state, handled.threads]
      exact control.shutting thread (shut.imp_right (fewer _))
  · have apart : ∀ other, Task.sendInLoop j message ≠ .sendInLoop k other := by
      rintro other same
      cases same
      exact mine rfl
    refine (control.start pending apart).transfer (.inl handled.state) handled.threads
      (by rw [handled.loop]) handled.given ?_
    intro waits
    refine ⟨(handled.waiting waits).1, ?_⟩
    rintro ⟨first, source, member⟩
    exact ⟨first, source, handled.frames _ member⟩

theorem runShutDown_stepped {k thread : Nat} {s : System} {stream : List Byte} {result : IoResult}
    {loop : EventLoop Task} (content : Content k s stream) (control : Control k s)
    (noFrames : s.frames = [])
    (cur : s.loop.curFunctors = .shutDownInLoop thread :: loop.curFunctors)
    (pending : s.loop.pending = .shutDownInLoop thread :: loop.pending) :
    Stepped k s (.runFunctor result)
      (({ s with loop := loop } : System).issue s.conn.shutDownInLoop) := by
  rcases shutDownInLoop_frame s.conn with ⟨state, -, -, -, shut⟩
  have apart : ∀ message, Task.shutDownInLoop thread ≠ .sendInLoop k message := by
    intro message same
    cases same
  have after : Content k { s with loop := loop } stream := by
    apply content.start
    intro task member
    rw [pending]
    exact List.mem_cons_of_mem _ member
  refine issue_stepped after ?_ (closing_shutDown s.conn s.conn.state) rfl rfl Iff.rfl ?_ ?_
  · exact (control.start pending apart).transfer (.inl state) rfl rfl
      (System.issue_given _ _ _) fun waits => ⟨(System.issue_waiting _ _ _).mp waits, id⟩
  · intro before
    rw [shut, before]
    simp [issuer, cur]
  · intro waits who named owner bytes given same
    simp only [issuer, cur] at named
    split at named
    · cases named
      cases same
      rcases control.fifo thread [] _ bytes pending given waits with ⟨_, none⟩ | ⟨_, _, none⟩
      · cases none
      · rw [noFrames] at none
        cases none
    · cases named

theorem runFunctor_stepped {k : Nat} {s next : System} {result : IoResult} (inv : Inv k s)
    (stepped : s.step (.runFunctor result) = some next) :
    Stepped k s (.runFunctor result) next := by
  rcases inv with ⟨⟨stream, content⟩, control⟩
  simp only [System.step] at stepped
  rw [Option.ite_none_right_eq_some] at stepped
  rcases stepped with ⟨noFrames, ran⟩
  rcases Option.bind_eq_some_iff.mp ran with ⟨loop, moved, finished⟩
  rcases EventLoop.runNext_cur moved with ⟨task, cur⟩
  have pending := EventLoop.runNext_pending cur moved
  rw [cur] at finished
  cases task with
  | sendInLoop j message =>
      exact runSend_stepped content control pending (by simp [issuer, cur]) finished
  | shutDownInLoop thread =>
      cases finished
      exact runShutDown_stepped content control (List.isEmpty_iff.mp noFrames) cur pending
  | other =>
      cases finished
      have apart : ∀ message, Task.other ≠ .sendInLoop k message := by
        intro message same
        cases same
      refine stepped_silent ⟨⟨stream, content.start ?_⟩, control.start pending apart⟩ rfl
        (by simp [issuer, cur])
      intro task member
      rw [pending]
      exact List.mem_cons_of_mem _ member

theorem step_stepped {k : Nat} {s next : System} {action : Action} (inv : Inv k s)
    (stepped : s.step action = some next) : Stepped k s action next := by
  cases action with
  | checkSend thread message => exact checkSend_stepped inv stepped
  | pushSend thread => exact pushSend_stepped inv stepped
  | exchangeShutDown thread => exact exchangeShutDown_stepped inv stepped
  | pushShutDown thread => exact pushShutDown_stepped inv stepped
  | machine action => exact machine_stepped inv stepped
  | runFunctor result => exact runFunctor_stepped inv stepped
  | handleWrite result => exact handleWrite_stepped inv stepped
  | callbackReturn => exact callbackReturn_stepped inv stepped
  | send payload result => exact send_stepped inv stepped
  | shutDown => exact shutDown_stepped inv stepped

/-! Whole runs. -/

/-- A connection that was just established, in a loop that holds none of its
functors. -/
structure Start where
  opened : OutputStream.Opened
  connected : opened.conn.state = .kConnected
  loop : EventLoop Task
  others : ∀ task ∈ loop.pending, task = .other

def Start.system (start : Start) : System where
  loop := start.loop
  conn := start.opened.conn
  threads := fun _ => .idle
  frames := []
  calls := []

theorem Start.inv (start : Start) (k : Nat) : Inv k start.system where
  content := by
    refine ⟨[], ?_⟩
    constructor
    · exact start.opened.holds
    · intro _
      change start.opened.conn.ouputBuffer.readableBytes = 0
      rw [start.opened.noOutput]
      rfl
    · intro first last place
      cases place
    · intro first source member
      cases member
    · intro message member
      cases start.others _ member
    · intro thread message pc
      cases pc
  control := by
    constructor
    · change start.opened.conn.state ≠ _
      rw [start.connected]
      nofun
    · intro waits
      exact absurd waits.1 (Nat.not_lt_zero k)
    · intro thread before after bytes _ _ waits
      exact absurd waits.1 (Nat.not_lt_zero k)
    · rintro thread (shut | queued)
      · cases shut
      · cases start.others _ queued

/-- Every byte of call `k` was with the kernel when `SHUT_WR` was issued. -/
def Flushed (k : Nat) (s : System) : Prop := s.lateOf k = false

def established : Start where
  opened := OutputStream.established
  connected := rfl
  loop := EventLoop.init
  others := by simp [EventLoop.pending, EventLoop.curFunctors, EventLoop.init]

def orderly : List Action :=
  [.machine (.loop .enter), .machine (.loop .poll),
    .checkSend 7 ⟨OutputStream.counting, 2, 1⟩, .pushSend 7, .machine (.pushed 7),
    .exchangeShutDown 7, .pushShutDown 7, .machine (.pushed 7),
    .machine (.loop .pollReturn), .machine (.loop .handleWakeupRead),
    .machine (.loop .beginExecute), .machine (.loop .swap),
    .runFunctor (.count 1), .machine (.loop .functorReturn), .runFunctor (.count 0)]

/-- Earlier output is still buffered when thread 7 sends and shuts down; the
channel turns writable before the loop gets to the functors. -/
def race : List Action :=
  [.machine (.loop .enter), .machine (.loop .poll), .machine (.loop .pollReturn),
    .send (.block ⟨OutputStream.counting, 0, 2⟩) (.error 11),
    .machine (.loop .beginExecute), .machine (.loop .swap), .machine (.loop .finish),
    .machine (.loop .poll), .machine (.loop .pollReturn),
    .checkSend 7 ⟨OutputStream.counting, 2, 1⟩, .pushSend 7, .machine (.pushed 7),
    .exchangeShutDown 7, .pushShutDown 7, .machine (.pushed 7),
    .handleWrite (.count 2), .callbackReturn]

end Muzi.GracefulShutdown
