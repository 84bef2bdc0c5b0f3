import Muzi.ConnectionSteps

/-!
The order of the values of `state_`. The loop thread of ConnectionClose.lean is
given what TcpServer and TcpClient add to it: connections are created one by
one, `EstablishConnection` runs for a new one at once or as a functor, the
functors run in the order in which they were queued, and a connection is out of
the user's reach until its `connection_callback_`. So a connection is
established before anything else happens to it, and from then on every store
to `state_` goes forward.
-/

namespace Muzi.ConnectionStates

open ConnectionClose ConnectionClose.Reactor TcpConnection Execution
open OutputStream (Payload)

/-! The functors and the connections of one loop. -/

structure System where
  reactor : Reactor
  /-- The connections below were created. -/
  created : Nat
  /-- `NewConnection` runs in the loop thread, and is about to establish this one. -/
  creating : Option Nat
  /-- `pending_functors_`, and before them what `ExecuteFunctors` has swapped out; `none`
  is a functor of the user. -/
  queue : List (Option Call)

inductive Action where
  -- a step of the loop thread, or a `ShutDown` elsewhere
  | loop (action : ConnectionClose.Action)
  -- `NewConnection` of a TcpClient, or of a TcpServer for its own loop
  | newConnection
  | establishConnection
  -- `NewConnection` of a TcpServer in another loop
  | queueConnection
  -- `RunInLoop` or `QueueInLoop`: `ForceClose`, `Send`, `ShutDown` behind its exchange,
  -- `StartRead` and `StopRead` in another thread; `DestroyConnection` for
  -- `RemoveConnection` or `~TcpServer`
  | push (what : Option Call)
  | runFunctor

structure Settings where
  highWaterMark : Nat
  messageCallback : Bool
  writeCompleteCallback : Bool
  highWaterCallback : Bool

def create (settings : Settings) : TcpConnection where
  state := .kConnecting
  channel := .init
  socket := ⟨[], false⟩
  ouputBuffer := .init
  highWaterMark := settings.highWaterMark
  isReading := true
  messageCallback := settings.messageCallback
  writeCompleteCallback := settings.writeCompleteCallback
  highWaterCallback := settings.highWaterCallback

namespace System

def conn (s : System) (d : Nat) : TcpConnection := s.reactor.conns d

/-- Functors wait for their turn, and nothing runs in the loop thread between the
two halves of `NewConnection`. Code in the loop thread gets a connection from its
`connection_callback_` on: TcpServer and TcpClient keep a new one to themselves. -/
def permits (s : System) : ConnectionClose.Action → Bool
  | .exchange _ => true
  | .functor _ => false
  | .call what =>
      s.creating.isNone && !what.establishes && (s.conn what.conn).state ≠ .kConnecting
  | _ => s.creating.isNone

def accepts (s : System) : Option Call → Bool
  | some what => !what.establishes && what.conn < s.created
  | none => true

def step (s : System) : Action → Option System
  | .loop action =>
      if s.permits action then (s.reactor.step action).map fun r => { s with reactor := r }
      else none
  | .newConnection =>
      match s.creating, s.reactor.frames with
      | none, .user :: _ => some { s with creating := some s.created, created := s.created + 1 }
      | _, _ => none
  | .establishConnection =>
      s.creating.map fun d => { s with reactor := s.reactor.establish d, creating := none }
  | .queueConnection =>
      some { s with
        created := s.created + 1
        queue := s.queue ++ [some (.establishConnection s.created)] }
  | .push what => if s.accepts what then some { s with queue := s.queue ++ [what] } else none
  | .runFunctor =>
      match s.creating, s.queue with
      | none, what :: rest =>
          (s.reactor.execute what).map fun r => { s with reactor := r, queue := rest }
      | _, _ => none

/-- The step begins `SendInLoop`, `StartReadInLoop` or `StopReadInLoop` of `d`, or is
one of `HandleWrite`. -/
def begins (s : System) (d : Nat) : Action → Bool
  | .loop (.call what) => what.transfers d
  | .loop (.write _) =>
      match s.reactor.frames with
      | .event c revents .write :: _ => c = d && Channel.has revents Channel.pollOut
      | _ => false
  | .loop .callbackReturn =>
      match s.reactor.frames with
      | .finishing c :: _ => c = d
      | _ => false
  | .runFunctor =>
      match s.queue with
      | some what :: _ => what.transfers d
      | _ => false
  | _ => false

end System

def start (settings : Nat → Settings) : System :=
  ⟨ConnectionClose.start fun d => create (settings d), 0, none, []⟩

structure Advances (d : Nat) (s : System) (action : Action) (next : System) : Prop where
  forward : (s.conn d).state.rank ≤ (next.conn d).state.rank
  stays : (s.conn d).state = .kDisConnected → (next.conn d).state = .kDisConnected
  silent : (s.conn d).state = .kDisConnected → s.begins d action = true →
    Channel.enabled (s.conn d).channel (next.conn d).channel = false

/-! A connection is established before anything else happens to it. -/

def Waiting (s : System) (d : Nat) : Prop :=
  s.created ≤ d ∨ s.creating = some d ∨ some (.establishConnection d) ∈ s.queue

structure Untouched (r : Reactor) (d : Nat) : Prop where
  connecting : (r.conns d).state = .kConnecting
  unwatched : (r.conns d).channel.watched = false
  frames : ∀ frame ∈ r.frames, frame.conn ≠ some d
  unreported : ¬r.Reports d

/-- A functor of a connection does not wait before its `EstablishConnection`. -/
def Before : Option Call → Option Call → Prop
  | some what, later => later ≠ some (.establishConnection what.conn)
  | none, _ => True

structure Inv (s : System) : Prop where
  sane : ∀ d, (s.conn d).channel.Sane
  untouched : ∀ d, Waiting s d → Untouched s.reactor d
  known : ∀ what, some what ∈ s.queue → what.conn < s.created
  creating : ∀ d, s.creating = some d →
    d < s.created ∧ some (.establishConnection d) ∉ s.queue
  ordered : s.queue.Pairwise Before

theorem start_inv (settings : Nat → Settings) : Inv (start settings) where
  sane _ idle := absurd rfl idle
  untouched _ _ := ⟨rfl, rfl, fun _ member => (nomatch member), id⟩
  known _ member := nomatch member
  creating _ impossible := nomatch impossible
  ordered := .nil

theorem Untouched.step {r next : Reactor} {d : Nat} {target : Option Nat}
    (fresh : Untouched r d) (touches : Touches target r next) (other : target ≠ some d) :
    Untouched next d where
  connecting := touches.others d other ▸ fresh.connecting
  unwatched := touches.others d other ▸ fresh.unwatched
  frames frame member same := by
    rcases touches.frames frame member with old | new
    · exact fresh.frames frame old same
    · exact other (new d same)
  unreported reported := by
    rcases touches.reports d other reported with old | watched
    · exact fresh.unreported old
    · rw [fresh.unwatched] at watched
      cases watched

theorem Untouched.not_touched {s : System} {action : ConnectionClose.Action} {d : Nat}
    (fresh : Untouched s.reactor d) (permitted : s.permits action = true) :
    s.reactor.touched action ≠ some d := by
  have top : s.reactor.frames.head?.bind Frame.conn ≠ some d := by
    intro same
    rcases Option.bind_eq_some_iff.mp same with ⟨frame, first, about⟩
    exact fresh.frames frame (List.mem_of_head? first) about
  cases action with
  | poll _ | endHandling | endExecuting =>
      intro same
      cases same
  | nextChannel =>
      simp only [touched]
      split
      · rename_i c revents active phase
        intro same
        cases same
        apply fresh.unreported
        rw [Reports, phase]
        exact ⟨revents, List.mem_cons_self⟩
      · intro same
        cases same
  | error | read _ | write _ | hangup | callbackReturn => exact top
  | call what =>
      intro same
      cases same
      simp [System.permits, System.conn, fresh.connecting] at permitted
  | functor what => cases permitted
  | exchange c =>
      simp only [touched]
      split
      · rename_i connected
        intro same
        cases same
        rw [fresh.connecting] at connected
        cases connected
      · intro same
        cases same

inductive Stepped (s : System) : Action → System → Prop where
  | loop {action : ConnectionClose.Action} {r : Reactor} (permitted : s.permits action = true)
      (stepped : s.reactor.step action = some r) :
      Stepped s (.loop action) { s with reactor := r }
  | newConnection (idle : s.creating = none) :
      Stepped s .newConnection { s with creating := some s.created, created := s.created + 1 }
  | establishConnection {d : Nat} (creating : s.creating = some d) :
      Stepped s .establishConnection
        { s with reactor := s.reactor.establish d, creating := none }
  | queueConnection :
      Stepped s .queueConnection { s with
        created := s.created + 1
        queue := s.queue ++ [some (.establishConnection s.created)] }
  | push {what : Option Call} (accepted : s.accepts what = true) :
      Stepped s (.push what) { s with queue := s.queue ++ [what] }
  | establishFunctor {d : Nat} {rest : List (Option Call)} (idle : s.creating = none)
      (queue : s.queue = some (.establishConnection d) :: rest) :
      Stepped s .runFunctor { s with reactor := s.reactor.establish d, queue := rest }
  | functor {what : Option Call} {rest : List (Option Call)} {r : Reactor}
      (idle : s.creating = none) (queue : s.queue = what :: rest)
      (other : ∀ d, what ≠ some (.establishConnection d))
      (stepped : s.reactor.step (.functor what) = some r) :
      Stepped s .runFunctor { s with reactor := r, queue := rest }

theorem System.stepped {s next : System} {action : Action} (moved : s.step action = some next) :
    Stepped s action next := by
  cases action with
  | loop action =>
      simp only [System.step] at moved
      split at moved
      · rename_i permitted
        rcases Option.map_eq_some_iff.mp moved with ⟨r, stepped, rfl⟩
        exact .loop permitted stepped
      · cases moved
  | newConnection =>
      simp only [System.step] at moved
      split at moved
      · rename_i idle frames
        cases moved
        exact .newConnection idle
      · cases moved
  | establishConnection =>
      rcases Option.map_eq_some_iff.mp moved with ⟨d, creating, rfl⟩
      exact .establishConnection creating
  | queueConnection =>
      cases moved
      exact .queueConnection
  | push what =>
      simp only [System.step] at moved
      split at moved
      · rename_i accepted
        cases moved
        exact .push accepted
      · cases moved
  | runFunctor =>
      simp only [System.step] at moved
      split at moved
      · rename_i what rest idle queue
        rcases Option.map_eq_some_iff.mp moved with ⟨r, executed, rfl⟩
        unfold execute at executed
        split at executed
        · split at executed
          · cases executed
            exact .establishFunctor idle queue
          · cases executed
        · rename_i other
          exact .functor idle queue other executed
      · cases moved

theorem Inv.head_not_waiting {s : System} (inv : Inv s) {what : Option Call}
    {rest : List (Option Call)} (queue : s.queue = what :: rest) {d : Nat}
    (waiting : s.created ≤ d ∨ some (.establishConnection d) ∈ rest) :
    what.map Call.conn ≠ some d := by
  cases what with
  | none => exact nofun
  | some what =>
      intro same
      cases same
      rcases waiting with unborn | behind
      · have born := inv.known what (queue ▸ List.mem_cons_self)
        exact absurd born (Nat.not_lt.mpr unborn)
      · have ordered := inv.ordered
        rw [queue] at ordered
        exact List.rel_of_pairwise_cons ordered behind rfl

theorem Inv.pop {s : System} (inv : Inv s) {what : Option Call} {rest : List (Option Call)}
    {r : Reactor} (idle : s.creating = none) (queue : s.queue = what :: rest)
    (touches : Touches (what.map Call.conn) s.reactor r) :
    Inv { s with reactor := r, queue := rest } where
  sane d := (touches.forward d).sane (inv.sane d)
  untouched d waiting := by
    have ahead : s.created ≤ d ∨ some (.establishConnection d) ∈ rest := by
      rcases waiting with unborn | creating | behind
      · exact .inl unborn
      · change s.creating = some d at creating
        rw [idle] at creating
        cases creating
      · exact .inr behind
    have before : Waiting s d := by
      rcases ahead with unborn | behind
      · exact .inl unborn
      · exact .inr (.inr (queue ▸ List.mem_cons_of_mem what behind))
    exact (inv.untouched d before).step touches (inv.head_not_waiting queue ahead)
  known other member := inv.known other (queue ▸ List.mem_cons_of_mem what member)
  creating d creating := by
    change s.creating = some d at creating
    rw [idle] at creating
    cases creating
  ordered := by
    have ordered := inv.ordered
    rw [queue] at ordered
    exact ordered.of_cons

theorem ordered_concat {queue : List (Option Call)} {last : Option Call}
    (ordered : queue.Pairwise Before)
    (behind : ∀ what, some what ∈ queue → last ≠ some (.establishConnection what.conn)) :
    (queue ++ [last]).Pairwise Before := by
  rw [List.pairwise_append]
  refine ⟨ordered, List.pairwise_singleton _ _, ?_⟩
  intro first member other same
  cases List.mem_singleton.mp same
  cases first with
  | none => trivial
  | some what => exact behind what member

theorem Inv.looped {s : System} {action : ConnectionClose.Action} {r : Reactor} (inv : Inv s)
    (permitted : s.permits action = true) (stepped : s.reactor.step action = some r) :
    Inv { s with reactor := r } := by
  have touches := step_touches stepped
  refine ⟨fun d => (touches.forward d).sane (inv.sane d), ?_, inv.known, inv.creating,
    inv.ordered⟩
  intro d waiting
  have fresh := inv.untouched d waiting
  exact fresh.step touches (fresh.not_touched permitted)

theorem Inv.newConnection {s : System} (inv : Inv s) :
    Inv { s with creating := some s.created, created := s.created + 1 } := by
  refine ⟨inv.sane, ?_, fun what member => Nat.lt_succ_of_lt (inv.known what member), ?_,
    inv.ordered⟩
  · intro d waiting
    apply inv.untouched d
    rcases waiting with unborn | creating | queued
    · exact .inl (Nat.le_of_succ_le unborn)
    · cases creating
      exact .inl (Nat.le_refl _)
    · exact .inr (.inr queued)
  · intro d creating
    cases creating
    exact ⟨Nat.lt_succ_self _, fun queued => Nat.lt_irrefl _ (inv.known _ queued)⟩

theorem Inv.established {s : System} {d : Nat} (inv : Inv s) (creating : s.creating = some d) :
    Inv { s with reactor := s.reactor.establish d, creating := none } := by
  rcases inv.creating d creating with ⟨born, unqueued⟩
  have fresh := inv.untouched d (.inr (.inl creating))
  have touches := establish_touches fresh.connecting
  refine ⟨fun e => (touches.forward e).sane (inv.sane e), ?_, inv.known, nofun, inv.ordered⟩
  intro e waiting
  rcases waiting with unborn | impossible | queued
  · refine (inv.untouched e (.inl unborn)).step touches ?_
    intro same
    cases same
    exact absurd born (Nat.not_lt.mpr unborn)
  · cases impossible
  · refine (inv.untouched e (.inr (.inr queued))).step touches ?_
    intro same
    cases same
    exact unqueued queued

theorem Inv.queueConnection {s : System} (inv : Inv s) :
    Inv { s with
      created := s.created + 1
      queue := s.queue ++ [some (.establishConnection s.created)] } := by
  refine ⟨inv.sane, ?_, ?_, ?_, ordered_concat inv.ordered ?_⟩
  · intro d waiting
    apply inv.untouched d
    rcases waiting with unborn | creating | queued
    · exact .inl (Nat.le_of_succ_le unborn)
    · exact .inr (.inl creating)
    · rcases List.mem_append.mp queued with old | new
      · exact .inr (.inr old)
      · cases List.mem_singleton.mp new
        exact .inl (Nat.le_refl _)
  · intro what member
    rcases List.mem_append.mp member with old | new
    · exact Nat.lt_succ_of_lt (inv.known what old)
    · cases List.mem_singleton.mp new
      exact Nat.lt_succ_self _
  · intro d creating
    rcases inv.creating d creating with ⟨born, unqueued⟩
    refine ⟨Nat.lt_succ_of_lt born, fun queued => ?_⟩
    rcases List.mem_append.mp queued with old | new
    · exact unqueued old
    · cases List.mem_singleton.mp new
      exact Nat.lt_irrefl _ born
  · intro what member same
    have born := inv.known what member
    injection same with same
    injection same with same
    exact Nat.lt_irrefl _ (same ▸ born)

theorem Inv.pushed {s : System} {what : Option Call} (inv : Inv s)
    (accepted : s.accepts what = true) : Inv { s with queue := s.queue ++ [what] } := by
  have other : ∀ d, what ≠ some (.establishConnection d) := by
    rintro d rfl
    cases accepted
  have older : ∀ d, some (.establishConnection d) ∈ s.queue ++ [what] →
      some (.establishConnection d) ∈ s.queue := by
    intro d queued
    rcases List.mem_append.mp queued with old | new
    · exact old
    · exact absurd (List.mem_singleton.mp new).symm (other d)
  refine ⟨inv.sane, ?_, ?_, ?_, ordered_concat inv.ordered fun what _ => other what.conn⟩
  · intro d waiting
    apply inv.untouched d
    rcases waiting with unborn | creating | queued
    · exact .inl unborn
    · exact .inr (.inl creating)
    · exact .inr (.inr (older d queued))
  · intro call member
    rcases List.mem_append.mp member with old | new
    · exact inv.known call old
    · cases List.mem_singleton.mp new
      simp only [System.accepts, Bool.and_eq_true, decide_eq_true_eq] at accepted
      exact accepted.2
  · intro d creating
    rcases inv.creating d creating with ⟨born, unqueued⟩
    exact ⟨born, fun queued => unqueued (older d queued)⟩

theorem Inv.stepped {s next : System} {action : Action} (inv : Inv s)
    (moved : s.step action = some next) : Inv next := by
  cases System.stepped moved with
  | loop permitted stepped => exact inv.looped permitted stepped
  | newConnection idle => exact inv.newConnection
  | establishConnection creating => exact inv.established creating
  | queueConnection => exact inv.queueConnection
  | push accepted => exact inv.pushed accepted
  | @establishFunctor d rest idle queue =>
      have fresh := inv.untouched d (.inr (.inr (queue ▸ List.mem_cons_self)))
      exact inv.pop idle queue (establish_touches fresh.connecting)
  | functor idle queue other stepped => exact inv.pop idle queue (step_touches stepped)

/-! A disconnected connection keeps its channel as it is. -/

theorem sendInLoop_gone {r next : Reactor} {d : Nat} {payload : Payload} {result : IoResult}
    (gone : (r.conns d).state = .kDisConnected)
    (sent : r.sendInLoop d payload result = some next) : next = r := by
  unfold Reactor.sendInLoop at sent
  rw [if_pos gone] at sent
  cases sent
  rfl

theorem call_gone {r next : Reactor} {d : Nat} {what : Call} (transfers : what.transfers d = true)
    (gone : (r.conns d).state = .kDisConnected) (called : r.call what = some next) :
    next.conns d = r.conns d := by
  cases what with
  | send c payload result =>
      cases of_decide_eq_true transfers
      simp only [Reactor.call] at called
      split at called
      · rw [sendInLoop_gone gone called]
      · cases called
        rfl
  | startRead c =>
      cases of_decide_eq_true transfers
      cases called
      simp [Reactor.set, startReadInLoop, gone]
  | stopRead c =>
      cases of_decide_eq_true transfers
      cases called
      simp [Reactor.set, stopReadInLoop, gone]
  | forceClose _ | shutDown _ | establishConnection _ | destroyConnection _ => cases transfers

theorem functor_gone {r next : Reactor} {d : Nat} {what : Call}
    (transfers : what.transfers d = true) (gone : (r.conns d).state = .kDisConnected)
    (ran : r.functor what = some next) : next.conns d = r.conns d := by
  cases what with
  | send c payload result =>
      cases of_decide_eq_true transfers
      rw [sendInLoop_gone gone ran]
  | startRead c => exact call_gone transfers gone ran
  | stopRead c => exact call_gone transfers gone ran
  | forceClose _ | shutDown _ | establishConnection _ | destroyConnection _ => cases transfers

theorem handleWrite_not_enabled {r next : Reactor} {d : Nat} {result : IoResult}
    (sane : (r.conns d).channel.Sane) (wrote : r.handleWrite d result = some next) :
    Channel.enabled (r.conns d).channel (next.conns d).channel = false := by
  unfold Reactor.handleWrite at wrote
  split at wrote
  · rename_i writing
    rcases Option.bind_eq_some_iff.mp wrote with ⟨⟨conn, drained⟩, ran, finished⟩
    have channel : (next.conns d).channel = conn.channel := by
      cases finished
      split <;> simp [Reactor.set, Reactor.enter]
    rw [channel]
    rcases (drainOutput_interest ran).2 with same | fewer
    · rw [same, Channel.enabled_self]
    · rw [fewer, Channel.disableWritting_enabled sane writing]
  · cases wrote
    exact Channel.enabled_self _

theorem loop_silent {s : System} {action : ConnectionClose.Action} {r : Reactor} {d : Nat}
    (sane : (s.conn d).channel.Sane) (gone : (s.conn d).state = .kDisConnected)
    (begins : s.begins d (.loop action) = true) (stepped : s.reactor.step action = some r) :
    Channel.enabled (s.conn d).channel (r.conns d).channel = false := by
  cases step_stepped stepped with
  | call called =>
      rw [call_gone begins gone called]
      exact Channel.enabled_self _
  | @write result c revents rest _ frames wrote =>
      simp only [System.begins, frames, Bool.and_eq_true, decide_eq_true_eq] at begins
      cases begins.1
      -- the frame moved on, the connections are the same
      have silent : Channel.enabled
          ((s.reactor.atStage d revents .hangup rest).conns d).channel
          (r.conns d).channel = false :=
        handleWrite_not_enabled sane wrote
      exact silent
  | unwritable frames => exact Channel.enabled_self _
  | callbackReturn returned =>
      simp only [System.begins] at begins
      split at begins
      · rename_i c rest frames
        cases of_decide_eq_true begins
        simp only [Reactor.callbackReturn, frames] at returned
        cases returned
        have channel : (s.reactor.conns d).finishWrite.channel = (s.conn d).channel :=
          finishWrite_channel _
        simp [Reactor.set, channel]
      · cases begins
  | poll _ | nextChannel _ _ | otherChannel _ _ | endHandling | error _ | read _ | hangup _
  | functor _ | userFunctor | endExecuting | exchange _ | lateExchange _ => cases begins

/-! Whole runs. -/

theorem Advances.of_forward {d : Nat} {s next : System} {action : Action}
    (forward : Forward (s.conn d) (next.conn d))
    (silent : (s.conn d).state = .kDisConnected → s.begins d action = true →
      Channel.enabled (s.conn d).channel (next.conn d).channel = false) :
    Advances d s action next where
  forward := forward.rank
  stays gone := ConnectionState.gone_of_rank_le (gone ▸ forward.rank)
  silent := silent

theorem Advances.of_same {d : Nat} {s next : System} {action : Action}
    (same : next.reactor = s.reactor) : Advances d s action next := by
  have conn : next.conn d = s.conn d := congrArg (fun r : Reactor => r.conns d) same
  apply Advances.of_forward
  · rw [conn]
    exact Forward.refl _
  · intro _ _
    rw [conn]
    exact Channel.enabled_self _

theorem Inv.advances {s next : System} {action : Action} (inv : Inv s)
    (moved : s.step action = some next) (d : Nat) : Advances d s action next := by
  cases System.stepped moved with
  | newConnection idle => exact .of_same rfl
  | queueConnection => exact .of_same rfl
  | push accepted => exact .of_same rfl
  | loop permitted stepped =>
      refine .of_forward ((step_touches stepped).forward d) ?_
      intro gone begins
      exact loop_silent (inv.sane d) gone begins stepped
  | @establishConnection c creating =>
      have fresh := inv.untouched c (.inr (.inl creating))
      exact .of_forward ((establish_touches fresh.connecting).forward d) nofun
  | @establishFunctor c rest idle queue =>
      have fresh := inv.untouched c (.inr (.inr (queue ▸ List.mem_cons_self)))
      refine .of_forward ((establish_touches fresh.connecting).forward d) ?_
      intro _ begins
      simp [System.begins, queue, Call.transfers] at begins
  | @functor what rest r idle queue other stepped =>
      refine .of_forward ((step_touches stepped).forward d) ?_
      intro gone begins
      cases what with
      | none => simp [System.begins, queue] at begins
      | some what =>
          simp only [System.begins, queue] at begins
          cases step_stepped stepped with
          | functor ran =>
              have same := functor_gone begins gone ran
              simp [System.conn, same]

/-- In every interleaving of the loop thread with `ShutDown`, `ForceClose`, `Send` and
the others elsewhere, no step takes a connection back to an earlier state, and a
disconnected connection gets no new interest from a `SendInLoop`, `StartReadInLoop`,
`StopReadInLoop` or `HandleWrite` that begins then. -/
theorem connection_states_advance (settings : Nat → Settings) (actions : List Action) :
    Along System.step
      (fun s action => ∀ next, s.step action = some next → ∀ d, Advances d s action next)
      (start settings) actions :=
  along_of_invariant Inv (fun _ _ _ inv moved => inv.stepped moved)
    (fun _ _ inv _ moved => inv.advances moved) (start_inv settings) actions

-- A connection through all its states; `StartReadInLoop` comes too late for it.
example :
    (run System.step (start fun _ => ⟨kHighWaterMark, true, false, false⟩)
      [.queueConnection, .loop (.poll []), .loop .endHandling, .runFunctor,
        .loop .callbackReturn, .loop (.exchange 0), .push (some (.forceClose 0)),
        .push (some (.startRead 0)), .runFunctor, .loop .callbackReturn, .loop .callbackReturn,
        .runFunctor]).map (fun s => ((s.conn 0).state, (s.conn 0).channel)) =
      some (.kDisConnected, ⟨Channel.kNoneEvent, .kDeleted, false⟩) := by
  decide

end Muzi.ConnectionStates
