import Mathlib.Data.Int.CardIntervalMod
import Muzi.TcpServer

/-!
net/event_loop_thread_pool.cc: the loops of the pool are handed out in turn. The turn
is taken modulo `thread_nums_`, which `SetThreadNum` changes at any time, while the
loops are those of `Start`. The server takes a loop for each connection it accepts.
-/

namespace Muzi

universe u

structure EventLoopThreadPool (Loop : Type u) where
  baseLoop : Loop
  name : String
  threadNums : Nat
  next : Nat
  started : Bool
  eventLoops : List Loop

namespace EventLoopThreadPool

variable {Loop : Type u}

def new (baseLoop : Loop) (name : String) : EventLoopThreadPool Loop :=
  ⟨baseLoop, name, 0, 0, false, []⟩

def setThreadNum (num : Nat) (p : EventLoopThreadPool Loop) : EventLoopThreadPool Loop :=
  { p with threadNums := num }

/-- `Start`, with the loops that `callback` is called with. `startLoop` is what `StartLoop` of
the thread of that name returns. -/
def start (startLoop : String → Loop) (callback : Bool) (p : EventLoopThreadPool Loop) :
    Option (EventLoopThreadPool Loop × List Loop) :=
  if p.started then none
  else
    let loops := (List.range p.threadNums).map fun i => startLoop (p.name ++ toString i)
    let called := if !callback then [] else if p.threadNums = 0 then [p.baseLoop] else loops
    some ({ p with eventLoops := p.eventLoops ++ loops, started := true }, called)

/-- `none` where the code leaves the vector or divides by zero. -/
def getNextLoop (p : EventLoopThreadPool Loop) : Option (Loop × EventLoopThreadPool Loop) :=
  if !p.started then none
  else if p.eventLoops.isEmpty then some (p.baseLoop, p)
  else
    match p.eventLoops[p.next]?, p.threadNums with
    | some loop, num + 1 => some (loop, { p with next := (p.next + 1) % (num + 1) })
    | _, _ => none

def getLoopForHash (hashcode : Nat) (p : EventLoopThreadPool Loop) : Option Loop :=
  if !p.started then none
  else if p.eventLoops.isEmpty then some p.baseLoop
  else p.eventLoops[hashcode % p.eventLoops.length]?

def getAllLoops (p : EventLoopThreadPool Loop) : Option (List Loop) :=
  if !p.started then none
  else if p.eventLoops.isEmpty then some [p.baseLoop] else some p.eventLoops

def nextLoops : Nat → EventLoopThreadPool Loop → Option (List Loop × EventLoopThreadPool Loop)
  | 0, p => some ([], p)
  | calls + 1, p =>
      p.getNextLoop.bind fun (loop, p) =>
        (p.nextLoops calls).map fun (loops, p) => (loop :: loops, p)

section Turns
variable {p : EventLoopThreadPool Loop}

theorem getNextLoop_some (started : p.started = true) (inside : p.next < p.eventLoops.length)
    (threads : p.threadNums ≠ 0) :
    p.getNextLoop =
      some (p.eventLoops[p.next], { p with next := (p.next + 1) % p.threadNums }) := by
  have filled : p.eventLoops.isEmpty = false := by
    cases loops : p.eventLoops with
    | nil => simp [loops] at inside
    | cons loop rest => rfl
  obtain ⟨num, nums⟩ := Nat.exists_eq_succ_of_ne_zero threads
  simp [getNextLoop, started, filled, nums, inside]

/-- While `thread_nums_` is not larger than the pool, every call finds a loop, and the turn goes
round. -/
theorem nextLoops_some (started : p.started = true) (inside : p.next < p.threadNums)
    (enough : p.threadNums ≤ p.eventLoops.length) (calls : Nat) :
    ∃ loops, p.nextLoops calls =
        some (loops, { p with next := (p.next + calls) % p.threadNums }) ∧
      loops.length = calls ∧
      ∀ i < calls, loops[i]? = p.eventLoops[(p.next + i) % p.threadNums]? := by
  induction calls generalizing p with
  | zero => exact ⟨[], by simp [nextLoops, Nat.mod_eq_of_lt inside], rfl, by simp⟩
  | succ calls ih =>
      have first := getNextLoop_some started (Nat.lt_of_lt_of_le inside enough) (by omega)
      obtain ⟨loops, later, length, each⟩ := ih
        (p := { p with next := (p.next + 1) % p.threadNums }) started
        (Nat.mod_lt _ (by omega)) enough
      refine ⟨p.eventLoops[p.next] :: loops, ?_, by simp [length], fun i bound => ?_⟩
      · rw [nextLoops, first, Option.bind_some]
        simp only [later, Option.map_some]
        rw [Nat.mod_add_mod, Nat.add_assoc, Nat.add_comm 1]
      · cases i with
        | zero => simp [Nat.mod_eq_of_lt inside]
        | succ i =>
            rw [List.getElem?_cons_succ, each i (by omega)]
            simp only [Nat.mod_add_mod]
            rw [Nat.add_assoc, Nat.add_comm 1]

/-- With `thread_nums_` larger than the pool the turn walks out of the vector. -/
theorem nextLoops_none (started : p.started = true) (filled : p.eventLoops ≠ [])
    (few : p.eventLoops.length < p.threadNums) {left : Nat}
    (turn : p.next + left = p.eventLoops.length) : p.nextLoops (left + 1) = none := by
  induction left generalizing p with
  | zero =>
      have outside : p.eventLoops[p.next]? = none := List.getElem?_eq_none (by omega)
      simp [nextLoops, getNextLoop, started, filled, outside]
  | succ left ih =>
      have next : (p.next + 1) % p.threadNums = p.next + 1 := Nat.mod_eq_of_lt (by omega)
      rw [nextLoops, getNextLoop_some started (by omega) (by omega), Option.bind_some, next]
      simp only [ih (p := { p with next := p.next + 1 }) started filled few (by simp; omega),
        Option.map_none]

theorem nextLoops_safe_iff (started : p.started = true)
    (inside : p.next < p.eventLoops.length) :
    (∀ calls, p.nextLoops calls ≠ none) ↔
      0 < p.threadNums ∧ p.threadNums ≤ p.eventLoops.length := by
  constructor
  · intro safe
    refine ⟨Nat.pos_of_ne_zero fun zero => ?_, Nat.le_of_not_lt fun few => ?_⟩
    · apply safe 1
      have filled : p.eventLoops ≠ [] := List.ne_nil_of_length_pos (by omega)
      simp [nextLoops, getNextLoop, started, filled, zero]
    · obtain ⟨left, turn⟩ := Nat.exists_eq_add_of_le (Nat.le_of_lt inside)
      exact safe (left + 1)
        (nextLoops_none started (List.ne_nil_of_length_pos (by omega)) few turn.symm)
  · rintro ⟨positive, enough⟩ calls
    cases calls with
    | zero => exact Option.some_ne_none _
    | succ calls =>
        -- The turn is below `thread_nums_` behind the first call.
        obtain ⟨loops, later, -⟩ := nextLoops_some
          (p := { p with next := (p.next + 1) % p.threadNums }) started
          (Nat.mod_lt _ positive) enough calls
        rw [nextLoops, getNextLoop_some started inside (by omega), Option.bind_some]
        simp only [later, Option.map_some]
        exact Option.some_ne_none _

end Turns

theorem start_some {baseLoop : Loop} {name : String} {startLoop : String → Loop} {callback : Bool}
    {threads : Nat} {p : EventLoopThreadPool Loop} {called : List Loop}
    (began : ((new baseLoop name).setThreadNum threads).start startLoop callback =
      some (p, called)) :
    p.started = true ∧ p.next = 0 ∧ p.threadNums = threads ∧ p.eventLoops.length = threads := by
  cases began
  simp [new, setThreadNum]

theorem start_called {baseLoop : Loop} {name : String} {startLoop : String → Loop}
    {threads : Nat} {p : EventLoopThreadPool Loop} {called : List Loop}
    (began : ((new baseLoop name).setThreadNum threads).start startLoop true = some (p, called)) :
    p.getAllLoops = some called := by
  cases began
  cases threads with
  | zero => rfl
  | succ threads => simp [getAllLoops, new, setThreadNum]

theorem getLoopForHash_mem {p : EventLoopThreadPool Loop} (started : p.started = true)
    (hashcode : Nat) : ∃ loop loops, p.getLoopForHash hashcode = some loop ∧
      p.getAllLoops = some loops ∧ loop ∈ loops := by
  cases found : p.eventLoops with
  | nil => exact ⟨p.baseLoop, [p.baseLoop], by simp [getLoopForHash, getAllLoops, started, found]⟩
  | cons loop rest =>
      have inside : hashcode % p.eventLoops.length < p.eventLoops.length :=
        Nat.mod_lt _ (by simp [found])
      refine ⟨p.eventLoops[hashcode % p.eventLoops.length], p.eventLoops, ?_, ?_,
        List.getElem_mem inside⟩
      · simp [getLoopForHash, started, found]
      · simp [getAllLoops, started, found]

/-- `SetThreadNum` behind `Start`, at any time: `GetNextLoop` stays inside the pool from then on
exactly if the new number is not zero and not larger than the pool. -/
theorem set_thread_num_safe_iff (baseLoop : Loop) (name : String) (startLoop : String → Loop)
    (callback : Bool) (threads before num : Nat) (p q : EventLoopThreadPool Loop)
    (called loops : List Loop) (pooled : threads ≠ 0)
    (began : ((new baseLoop name).setThreadNum threads).start startLoop callback =
      some (p, called))
    (ran : p.nextLoops before = some (loops, q)) :
    (∀ calls, (q.setThreadNum num).nextLoops calls ≠ none) ↔ 0 < num ∧ num ≤ threads := by
  obtain ⟨started, first, threadNums, size⟩ := start_some began
  obtain ⟨handed, turned, -⟩ := nextLoops_some started (by omega) (Nat.le_of_eq (by omega)) before
  cases ran.symm.trans turned
  have inside : (p.next + before) % p.threadNums < p.eventLoops.length := by
    rw [size, threadNums]
    exact Nat.mod_lt _ (by omega)
  rw [nextLoops_safe_iff (by exact started) (by exact inside)]
  simp [setThreadNum, size]

theorem larger_thread_num_leaves_pool : ∃ (p q : EventLoopThreadPool Nat) (called loops : List Nat),
    ((new 0 "pool").setThreadNum 2).start String.length true = some (p, called) ∧
      p.nextLoops 3 = some (loops, q) ∧
        ¬∀ calls, (q.setThreadNum 3).nextLoops calls ≠ none := by
  obtain ⟨p, q, called, loops, began, ran⟩ : ∃ (p q : EventLoopThreadPool Nat)
      (called loops : List Nat),
      ((new 0 "pool").setThreadNum 2).start String.length true = some (p, called) ∧
        p.nextLoops 3 = some (loops, q) := ⟨_, _, _, _, rfl, rfl⟩
  refine ⟨p, q, called, loops, began, ran, ?_⟩
  rw [set_thread_num_safe_iff 0 "pool" String.length true 2 3 3 p q called loops (by decide) began
    ran]
  decide

end EventLoopThreadPool

namespace TcpServer

open Execution

/-- The pool of the server: its loops are those of the model. -/
def threadPool (s : TcpServer) : EventLoopThreadPool Nat where
  baseLoop := 0
  name := s.name ++ "EventThread"
  threadNums := s.threadNums
  next := s.next
  started := true
  eventLoops := List.range' 1 s.threadNums

theorem threadPool_getNextLoop {s : TcpServer} (inside : s.threadNums ≠ 0 → s.next < s.threadNums) :
    s.threadPool.getNextLoop =
      some (s.getNextLoop.1, { s with next := s.getNextLoop.2 }.threadPool) := by
  by_cases none : s.threadNums = 0
  · simp [EventLoopThreadPool.getNextLoop, threadPool, getNextLoop, none]
  · rw [EventLoopThreadPool.getNextLoop_some rfl (by simpa [threadPool] using inside none) none]
    simp [threadPool, getNextLoop, none, Nat.add_comm]

structure SamePlaces (s next : TcpServer) : Prop where
  threads : next.threadNums = s.threadNums
  turn : next.next = s.next
  created : next.created = s.created
  loops : ∀ c, (next.conns c).loop = (s.conns c).loop

namespace SamePlaces

theorem refl (s : TcpServer) : SamePlaces s s := ⟨rfl, rfl, rfl, fun _ => rfl⟩

theorem trans {s middle next : TcpServer} (first : SamePlaces s middle)
    (second : SamePlaces middle next) : SamePlaces s next :=
  ⟨second.threads.trans first.threads, second.turn.trans first.turn,
    second.created.trans first.created, fun c => (second.loops c).trans (first.loops c)⟩

theorem setState (s : TcpServer) (c : Nat) (state : ConnectionState) :
    SamePlaces s (s.setState c state) :=
  ⟨rfl, rfl, rfl, fun d => ((setState_moves s c state).record d).2⟩

theorem queueIn {s next : TcpServer} {thread target : Nat} {task : Task}
    (queued : s.queueIn thread target task = some next) : SamePlaces s next := by
  obtain ⟨loop, -, rfl⟩ := Option.map_eq_some_iff.mp queued
  exact ⟨rfl, rfl, rfl, fun _ => rfl⟩

theorem establishConnection (s : TcpServer) (c i : Nat) :
    SamePlaces s (s.establishConnection c i) :=
  (setState s c .kConnected).trans ⟨rfl, rfl, rfl, fun _ => rfl⟩

theorem destroyConnection (s : TcpServer) (c i : Nat) : SamePlaces s (s.destroyConnection c i) :=
  (setState s c .kDisConnected).trans ⟨rfl, rfl, rfl, fun _ => rfl⟩

theorem handleClose (s : TcpServer) (c i : Nat) : SamePlaces s (s.handleClose c i) :=
  (setState s c .kDisConnected).trans ⟨rfl, rfl, rfl, fun _ => rfl⟩

theorem removeConnectionInLoop {s next : TcpServer} {c i : Nat}
    (removed : s.removeConnectionInLoop c i = some next) : SamePlaces s next := by
  have erased : SamePlaces s (s.erase c) := ⟨rfl, rfl, rfl, fun _ => rfl⟩
  unfold TcpServer.removeConnectionInLoop at removed
  split at removed
  · cases removed
    exact erased.trans (destroyConnection _ c i)
  · exact erased.trans (queueIn removed)

theorem runTask {s next : TcpServer} {i : Nat} {task : Task} (ran : s.runTask i task = some next) :
    SamePlaces s next := by
  cases task with
  | establishConnection c =>
      cases ran
      exact establishConnection s c i
  | removeConnectionInLoop c => exact removeConnectionInLoop ran
  | destroyConnection c =>
      cases ran
      exact destroyConnection s c i
  | forceCloseInLoop c =>
      cases ran
      split
      · exact handleClose s c i
      · exact refl s
  | other =>
      cases ran
      exact refl s

end SamePlaces

theorem Stepped.places {s next : TcpServer} {action : Action} (stepped : Stepped s action next) :
    SamePlaces s next ∨ SamePlaces s.accept next := by
  cases stepped with
  | machine moved =>
      obtain ⟨-, ran⟩ := Option.ite_none_right_eq_some.mp moved
      obtain ⟨loop, -, rfl⟩ := Option.map_eq_some_iff.mp ran
      exact .inl ⟨rfl, rfl, rfl, fun _ => rfl⟩
  | newConnection made =>
      unfold TcpServer.newConnection at made
      split at made
      · cases made
        exact .inr (SamePlaces.establishConnection _ _ _)
      · exact .inr (SamePlaces.queueIn made)
  | runFunctor functors moved ran =>
      have popped : ∀ loop i, SamePlaces s (s.setLoop i loop) :=
        fun _ _ => ⟨rfl, rfl, rfl, fun _ => rfl⟩
      exact .inl ((popped _ _).trans (SamePlaces.runTask ran))
  | handleClose inside user established => exact .inl (SamePlaces.handleClose s _ _)
  | callbackReturn frames returned =>
      have popped : ∀ i rest, SamePlaces s (s.setFrames i rest) :=
        fun _ _ => ⟨rfl, rfl, rfl, fun _ => rfl⟩
      unfold removeConnection at returned
      split at returned
      · exact .inl ((popped _ _).trans (SamePlaces.removeConnectionInLoop returned))
      · exact .inl ((popped _ _).trans (SamePlaces.queueIn returned))
  | shutDown inside connected => exact .inl (SamePlaces.setState s _ _)
  | forceClose inside up queued => exact .inl (SamePlaces.queueIn queued)
  | shutDownIgnored | forceCloseIgnored => exact .inl (SamePlaces.refl s)

structure InTurn (pool : Nat) (s : TcpServer) : Prop where
  threads : s.threadNums = pool
  turn : s.next = if pool = 0 then 0 else s.created % pool
  loops : ∀ c < s.created, (s.conns c).loop = if pool = 0 then 0 else c % pool + 1

theorem InTurn.same {threads : Nat} {s next : TcpServer} (inTurn : InTurn threads s)
    (same : SamePlaces s next) : InTurn threads next := by
  refine ⟨same.threads.trans inTurn.threads, ?_, fun c bound => ?_⟩
  · rw [same.turn, inTurn.turn, same.created]
  · rw [same.loops, inTurn.loops c (same.created ▸ bound)]

theorem InTurn.accept {threads : Nat} {s : TcpServer} (inTurn : InTurn threads s) :
    InTurn threads s.accept := by
  have own : s.getNextLoop = if threads = 0 then (0, 0)
      else (s.created % threads + 1, (s.created + 1) % threads) := by
    unfold getNextLoop
    rw [inTurn.threads, inTurn.turn]
    split
    · rfl
    · simp only [Nat.mod_add_mod]
  refine ⟨inTurn.threads, ?_, fun c bound => ?_⟩
  · change s.getNextLoop.2 = _
    rw [own]
    split <;> rfl
  · by_cases new : c = s.created
    · subst new
      simp only [TcpServer.accept, Function.update_self, own]
      split <;> rfl
    · have old : c < s.created := Nat.lt_of_le_of_ne (Nat.le_of_lt_succ bound) new
      simp only [TcpServer.accept, Function.update_of_ne new]
      exact inTurn.loops c old

theorem step_inTurn {threads : Nat} (s : TcpServer) (action : Action) (next : TcpServer)
    (inTurn : InTurn threads s) (stepped : s.step action = some next) : InTurn threads next := by
  rcases (step_stepped stepped).places with same | accepted
  · exact inTurn.same same
  · exact inTurn.accept.same accepted

/-- Whatever happens to the connections, the server has given them to the loops of the pool in
turn: no loop of the pool got more than one connection more than another, and none of them is on
the base loop unless there is no other. -/
theorem connections_balanced (start : Start) (actions : List Action) (final : TcpServer)
    (ran : run step start.server actions = some final) :
    (start.threadNums = 0 → ∀ c < final.created, (final.conns c).loop = 0) ∧
      ∀ loop < start.threadNums,
        final.created.count (fun c => (final.conns c).loop = loop + 1) =
          final.created / start.threadNums +
            if loop < final.created % start.threadNums then 1 else 0 := by
  have begun : InTurn start.threadNums start.server := by
    refine ⟨rfl, ?_, fun c bound => absurd bound (Nat.not_lt_zero c)⟩
    split
    · rfl
    · exact (Nat.zero_mod _).symm
  have inTurn := run_invariant (InTurn start.threadNums) step_inTurn begun ran
  refine ⟨fun none c bound => ?_, fun loop bound => ?_⟩
  · rw [inTurn.loops c bound, if_pos none]
  · have some : start.threadNums ≠ 0 := by omega
    have turn : ∀ c < final.created,
        (final.conns c).loop = loop + 1 ↔ c ≡ loop [MOD start.threadNums] := by
      intro c inside
      rw [inTurn.loops c inside, if_neg some, Nat.add_right_cancel_iff, Nat.ModEq,
        Nat.mod_eq_of_lt bound]
    have same : final.created.count (fun c => (final.conns c).loop = loop + 1) =
        final.created.count (· ≡ loop [MOD start.threadNums]) :=
      Nat.le_antisymm (Nat.count_mono_left fun c inside => (turn c inside).mp)
        (Nat.count_mono_left fun c inside => (turn c inside).mpr)
    rw [same, Nat.count_modEq_card _ (by omega), Nat.mod_eq_of_lt bound]

def threeAccepted : List Action :=
  [turn 0 [.enter, .poll, .pollReturn], [.newConnection, .machine 1 (.pushed 0), .newConnection,
    .machine 2 (.pushed 0), .newConnection]].flatten

theorem three_accepted_balanced :
    ∃ final, run step (Start.fresh "echo" 2).server threeAccepted = some final ∧
      final.created.count (fun c => (final.conns c).loop = 1) = 2 ∧
        final.created.count (fun c => (final.conns c).loop = 2) = 1 := by
  obtain ⟨final, ran, three⟩ : ∃ final,
      run step (Start.fresh "echo" 2).server threeAccepted = some final ∧ final.created = 3 :=
    ⟨_, rfl, rfl⟩
  have shares := (connections_balanced (Start.fresh "echo" 2) threeAccepted final ran).2
  refine ⟨final, ran, (shares 0 (by decide)).trans ?_, (shares 1 (by decide)).trans ?_⟩ <;>
    rw [three] <;> rfl

end TcpServer

end Muzi
