import Muzi.EventLoop
import Muzi.TimerFiring

/-!
`AddTimer` and `Cancel` from any thread. Another thread than the loop's hands
`AddTimerInLoop` and `CancelTimerInLoop` to the functor queue; the loop thread
runs them at once. A call of `Cancel` is known when the `AddTimer` that returned
its id had returned before; the history keeps the known cancels that took effect,
and those that had when the batch began. The allocator does not hand out the
address of a timer that is alive; the insertion checks it.
-/

namespace Muzi

universe u

/-- A queue in which each item finds what it needs in front of it, unless it is
settled already. -/
def Preceded {α : Type u} (need : α → α → Prop) : (α → Prop) → List α → Prop
  | _, [] => True
  | settled, item :: rest =>
      settled item ∧ Preceded need (fun later => settled later ∨ need item later) rest

namespace Preceded

variable {α : Type u} {need : α → α → Prop}

theorem mono {settled further : α → Prop} {queue : List α}
    (preceded : Preceded need settled queue) (more : ∀ item, settled item → further item) :
    Preceded need further queue := by
  induction queue generalizing settled further with
  | nil => trivial
  | cons first rest ih =>
      refine ⟨more first preceded.1, ih preceded.2 ?_⟩
      intro item
      exact Or.imp_left (more item)

theorem push {settled : α → Prop} {queue : List α} {item : α}
    (preceded : Preceded need settled queue)
    (behind : settled item ∨ ∃ earlier ∈ queue, need earlier item) :
    Preceded need settled (queue ++ [item]) := by
  induction queue generalizing settled with
  | nil =>
      rcases behind with done | ⟨earlier, member, -⟩
      · exact ⟨done, trivial⟩
      · cases member
  | cons first rest ih =>
      refine ⟨preceded.1, ih preceded.2 ?_⟩
      rcases behind with done | ⟨earlier, member, needed⟩
      · exact .inl (.inl done)
      · rcases List.mem_cons.mp member with same | later
        · subst earlier
          exact .inl (.inr needed)
        · exact .inr ⟨earlier, later, needed⟩

end Preceded

namespace TimerThreads

open Execution

/-- The functors of the timer queue; `known` is the call's, not the code's. -/
inductive Task where
  | addTimerInLoop (timer : Timer)
  | cancelTimerInLoop (timerId : Nat) (known : Bool)
  | other

inductive Pc where
  -- outside `AddTimer` and `Cancel`, or in `QueueInLoop` behind the push
  | idle
  -- in `AddTimer`, behind `new Timer`
  | adding (timer : Timer)
  -- in `AddTimer`, behind the push
  | added (timerId : Nat)
  -- in `Cancel`, before the push
  | cancelling (timerId : Nat) (known : Bool)

structure System where
  loop : EventLoop Task
  history : TimerHistory
  threads : Nat → Pc
  /-- `Timer::s_num_created_`. -/
  numCreated : Nat
  /-- The timers whose `AddTimer` has returned. -/
  returned : List Nat
  /-- The known cancels whose `CancelTimerInLoop` was executed. -/
  effective : List Nat
  /-- Those of them that were when the batch began. -/
  dead : List Nat

inductive Action where
  -- other threads
  | newTimer (thread addr : Nat) (time : Int) (interval : Interval)
  | pushAdd (thread : Nat)
  | beginCancel (thread timerId : Nat)
  | pushCancel (thread : Nat)
  -- a timer of another loop
  | newElsewhere
  -- the loop, and all that has nothing to do with the timers
  | machine (action : EventLoop.Action Task)
  -- the loop thread
  | runFunctor (clock : Int)
  | addTimer (addr : Nat) (time : Int) (interval : Interval) (clock : Int)
  | cancel (timerId : Nat)
  | handleRead (now : Int)
  | runNext
  | callbackReturn
  | resetTimer (clock : Int)

namespace System

def init : System where
  loop := EventLoop.init
  history := TimerHistory.init
  threads := fun _ => .idle
  numCreated := 0
  returned := []
  effective := []
  dead := []

def setThread (s : System) (thread : Nat) (pc : Pc) : System :=
  { s with threads := fun other => if other = thread then pc else s.threads other }

def free (s : System) (thread : Nat) : Bool :=
  match s.threads thread with
  | .idle => !decide (thread ∈ s.loop.waking)
  | _ => false

def userCode (s : System) : Bool :=
  !s.loop.queueing && s.loop.phase.inCallback && s.history.queue.userCode

/-- Steps of the loop that neither queue nor run functors of the timer queue. The
loop thread goes on only when it is not in `TimerQueue::HandleRead`. -/
def machineMay (s : System) : EventLoop.Action Task → Bool
  | .push thread .other => s.free thread
  | .push _ _ => false
  | .pushed _ | .wakeUp | .quit | .queued => true
  | .loop (.queue .other) => s.history.queue.userCode
  | .loop (.queue _) | .loop .runNext => false
  | .loop _ => decide (s.history.queue.phase = .outside)

def settle (s : System) : EventLoop.Action Task → System
  | .pushed thread =>
      match s.threads thread with
      | .added timerId => { s.setThread thread .idle with returned := timerId :: s.returned }
      | _ => s
  | _ => s

/-- `new Timer`, behind the check of `AddTimer`, which does not return from
`LOG_FATAL`. -/
def create (s : System) (addr : Nat) (time : Int) (interval : Interval) :
    Option (Timer × System) :=
  if 0 < time then
    some (⟨addr, s.numCreated, time, interval⟩, { s with numCreated := s.numCreated + 1 })
  else none

def addTimerInLoop (s : System) (timer : Timer) (clock : Int) : Option System :=
  (s.history.step (.addTimerInLoop timer clock)).map fun history => { s with history := history }

def cancelTimerInLoop (s : System) (timerId : Nat) (known : Bool) : Option System :=
  (s.history.step (.cancelTimerInLoop timerId)).map fun history =>
    { s with
      history := history
      effective := if known then timerId :: s.effective else s.effective }

def readStep (s : System) (action : TimerQueue.Action) : Option System :=
  if s.loop.queueing then none
  else (s.history.step action).map fun history => { s with history := history }

def step (s : System) : Action → Option System
  | .newTimer thread addr time interval =>
      if s.free thread then
        (s.create addr time interval).map fun (timer, next) => next.setThread thread (.adding timer)
      else none
  | .pushAdd thread =>
      match s.threads thread with
      | .adding timer =>
          (s.loop.step (.push thread (.addTimerInLoop timer))).map fun loop =>
            { s.setThread thread (.added timer.sequence) with loop := loop }
      | _ => none
  | .beginCancel thread timerId =>
      if s.free thread then
        some (s.setThread thread (.cancelling timerId (decide (timerId ∈ s.returned))))
      else none
  | .pushCancel thread =>
      match s.threads thread with
      | .cancelling timerId known =>
          (s.loop.step (.push thread (.cancelTimerInLoop timerId known))).map fun loop =>
            { s.setThread thread .idle with loop := loop }
      | _ => none
  | .newElsewhere => some { s with numCreated := s.numCreated + 1 }
  | .machine action =>
      if s.machineMay action then
        (s.loop.step action).map fun loop => { s.settle action with loop := loop }
      else none
  | .runFunctor clock =>
      if s.history.queue.phase = .outside then do
        let loop ← s.loop.step (.loop .runNext)
        let after : System := { s with loop := loop }
        match s.loop.curFunctors with
        | .addTimerInLoop timer :: _ => after.addTimerInLoop timer clock
        | .cancelTimerInLoop timerId known :: _ => after.cancelTimerInLoop timerId known
        | _ => some after
      else none
  | .addTimer addr time interval clock =>
      if s.userCode then do
        let (timer, after) ← s.create addr time interval
        let next ← after.addTimerInLoop timer clock
        some { next with returned := timer.sequence :: next.returned }
      else none
  | .cancel timerId =>
      if s.userCode then s.cancelTimerInLoop timerId (decide (timerId ∈ s.returned)) else none
  | .handleRead now =>
      match s.loop.phase with
      | .handling =>
          (s.readStep (.handleRead now)).map fun next => { next with dead := s.effective }
      | _ => none
  | .runNext => s.readStep .runNext
  | .callbackReturn => s.readStep .callbackReturn
  | .resetTimer clock => s.readStep (.resetTimer clock)

end System

/-- No callback that was started in the batch is one of a timer whose known
cancel had taken effect when the batch began. -/
def Obeyed (s : System) : Prop := ∀ timerId ∈ s.dead, ¬s.history.RanInBatch timerId

/-- The loop thread cancels a timer whose `AddTimer` has returned in another
thread and whose `AddTimerInLoop` is still in the functor queue. -/
def Outruns (s : System) : Action → Prop
  | .cancel timerId =>
      timerId ∈ s.returned ∧
        ∃ timer, .addTimerInLoop timer ∈ s.loop.pending ∧ timer.sequence = timerId
  | _ => False

def Placed (s : System) (timerId : Nat) : Prop :=
  s.history.Inserted timerId ∨
    ∃ timer, .addTimerInLoop timer ∈ s.loop.pending ∧ timer.sequence = timerId

def Needs : Task → Task → Prop
  | .addTimerInLoop timer, .cancelTimerInLoop timerId true => timer.sequence = timerId
  | _, _ => False

def Settled (h : TimerHistory) : Task → Prop
  | .cancelTimerInLoop timerId true => h.Inserted timerId
  | _ => True

def Informed (s : System) : Pc → Prop
  | .added timerId | .cancelling timerId true => Placed s timerId
  | _ => True

structure Orderly (s : System) : Prop where
  sound : s.history.Sound
  fifo : Preceded Needs (Settled s.history) s.loop.pending
  returned : ∀ timerId ∈ s.returned, Placed s timerId
  threads : ∀ thread, Informed s (s.threads thread)
  effective : ∀ timerId ∈ s.effective, timerId ∈ s.history.cancelled
  dead : ∀ timerId ∈ s.dead, timerId ∉ s.history.lineup.map Timer.sequence

theorem Settled.mono {h next : TimerHistory} {task : Task} (settled : Settled h task)
    (grows : ∀ timerId, h.Inserted timerId → next.Inserted timerId) : Settled next task := by
  cases task with
  | cancelTimerInLoop timerId known =>
      cases known with
      | true => exact grows timerId settled
      | false => trivial
  | addTimerInLoop timer => trivial
  | other => trivial

theorem Informed.mono {s next : System} {pc : Pc} (informed : Informed s pc)
    (stays : ∀ timerId, Placed s timerId → Placed next timerId) : Informed next pc := by
  cases pc with
  | added timerId => exact stays timerId informed
  | cancelling timerId known =>
      cases known with
      | true => exact stays timerId informed
      | false => trivial
  | idle => trivial
  | adding timer => trivial

theorem Orderly.transfer {s next : System} (orderly : Orderly s) (sound : next.history.Sound)
    (lineup : next.history.lineup = s.history.lineup) (dead : next.dead = s.dead)
    (cancelled : ∀ timerId ∈ s.history.cancelled, timerId ∈ next.history.cancelled)
    (stays : ∀ timerId, Placed s timerId → Placed next timerId)
    (fifo : Preceded Needs (Settled next.history) next.loop.pending)
    (returned : ∀ timerId ∈ next.returned, timerId ∈ s.returned ∨ Placed next timerId)
    (threads : ∀ thread, next.threads thread = s.threads thread ∨
      Informed next (next.threads thread))
    (effective : ∀ timerId ∈ next.effective, timerId ∈ s.effective ∨
      timerId ∈ next.history.cancelled) : Orderly next := by
  refine ⟨sound, fifo, ?_, ?_, ?_, ?_⟩
  · intro timerId member
    rcases returned timerId member with old | placed
    · exact stays timerId (orderly.returned timerId old)
    · exact placed
  · intro thread
    rcases threads thread with same | informed
    · rw [same]
      exact (orderly.threads thread).mono stays
    · exact informed
  · intro timerId member
    rcases effective timerId member with old | new
    · exact cancelled timerId (orderly.effective timerId old)
    · exact new
  · rw [dead, lineup]
    exact orderly.dead

theorem Placed.append {s next : System} {timerId : Nat} (placed : Placed s timerId)
    {tasks : List Task} (history : next.history = s.history)
    (pending : next.loop.pending = s.loop.pending ++ tasks) : Placed next timerId := by
  rw [Placed, history, pending]
  refine placed.imp_right ?_
  rintro ⟨timer, queued, named⟩
  exact ⟨timer, List.mem_append_left tasks queued, named⟩

theorem Orderly.append {s next : System} (orderly : Orderly s) (tasks : List Task)
    (history : next.history = s.history) (dead : next.dead = s.dead)
    (effective : next.effective = s.effective)
    (pending : next.loop.pending = s.loop.pending ++ tasks)
    (fifo : Preceded Needs (Settled s.history) (s.loop.pending ++ tasks))
    (returned : ∀ timerId ∈ next.returned, timerId ∈ s.returned ∨ Placed next timerId)
    (threads : ∀ thread, next.threads thread = s.threads thread ∨
      Informed next (next.threads thread)) : Orderly next := by
  apply orderly.transfer _ _ dead _ _ _ returned threads
  · rw [effective]
    exact fun timerId => Or.inl
  · rw [history]
    exact orderly.sound
  · rw [history]
  · rw [history]
    exact fun timerId => id
  · exact fun timerId placed => placed.append history pending
  · rw [history, pending]
    exact fifo

theorem setThread_informed {s : System} {thread : Nat} {pc : Pc} {next : System}
    (threads : next.threads = (s.setThread thread pc).threads) (informed : Informed next pc) :
    ∀ other, next.threads other = s.threads other ∨ Informed next (next.threads other) := by
  intro other
  rw [threads]
  simp only [System.setThread]
  split
  · exact .inr informed
  · exact .inl rfl

theorem Placed.preceded {s : System} {timerId : Nat} (placed : Placed s timerId) :
    Settled s.history (.cancelTimerInLoop timerId true) ∨
      ∃ earlier ∈ s.loop.pending, Needs earlier (.cancelTimerInLoop timerId true) := by
  rcases placed with inserted | ⟨timer, queued, named⟩
  · exact .inl inserted
  · exact .inr ⟨.addTimerInLoop timer, queued, named⟩

theorem machine_pending {s : System} {action : EventLoop.Action Task} {loop : EventLoop Task}
    (may : s.machineMay action = true) (moved : s.loop.step action = some loop) :
    ∃ tasks, loop.pending = s.loop.pending ++ tasks ∧ (tasks = [] ∨ tasks = [.other]) := by
  have order := EventLoop.step_pending moved
  cases action with
  | push thread task =>
      cases task with
      | other => exact ⟨[.other], order, .inr rfl⟩
      | addTimerInLoop | cancelTimerInLoop => cases may
  | pushed | wakeUp | quit | queued => exact ⟨[], order, .inl rfl⟩
  | loop action =>
      cases action with
      | queue task =>
          cases task with
          | other => exact ⟨[.other], order, .inr rfl⟩
          | addTimerInLoop | cancelTimerInLoop => cases may
      | runNext => cases may
      | enter | leave | poll | pollReturn | handleWakeupRead | beginExecute | swap
      | functorReturn | finish => exact ⟨[], order, .inl rfl⟩

/-- A thread that returns from `AddTimer` knows that its timer is placed. -/
theorem settle_cases (s : System) (action : EventLoop.Action Task) :
    s.settle action = s ∨ ∃ thread timerId, s.threads thread = .added timerId ∧
      s.settle action = { s.setThread thread .idle with returned := timerId :: s.returned } := by
  unfold System.settle
  split
  · rename_i thread
    split
    · exact .inr ⟨thread, _, ‹_›, rfl⟩
    · exact .inl rfl
  · exact .inl rfl

theorem machine_orderly {s next : System} {action : EventLoop.Action Task} (orderly : Orderly s)
    (stepped : s.step (.machine action) = some next) : Orderly next := by
  rw [System.step, Option.ite_none_right_eq_some, Option.map_eq_some_iff] at stepped
  rcases stepped with ⟨may, loop, moved, rfl⟩
  rcases machine_pending may moved with ⟨tasks, pending, kind⟩
  have fifo : Preceded Needs (Settled s.history) (s.loop.pending ++ tasks) := by
    rcases kind with rfl | rfl
    · rw [List.append_nil]
      exact orderly.fifo
    · exact orderly.fifo.push (.inl trivial)
  rcases settle_cases s action with same | ⟨thread, returning, pc, same⟩
  · rw [same]
    exact orderly.append tasks rfl rfl rfl pending fifo (fun timerId => .inl) fun thread => .inl rfl
  · rw [same]
    have placed : Placed s returning := by
      have informed := orderly.threads thread
      rw [pc] at informed
      exact informed
    refine orderly.append tasks rfl rfl rfl pending fifo ?_ (setThread_informed rfl trivial)
    intro timerId member
    rcases List.mem_cons.mp member with rfl | old
    · exact .inr (placed.append rfl pending)
    · exact .inl old

theorem newTimer_orderly {s next : System} {thread addr : Nat} {time : Int} {interval : Interval}
    (orderly : Orderly s) (stepped : s.step (.newTimer thread addr time interval) = some next) :
    Orderly next := by
  rw [System.step, Option.ite_none_right_eq_some, Option.map_eq_some_iff] at stepped
  rcases stepped with ⟨-, ⟨timer, after⟩, created, rfl⟩
  rw [System.create, Option.ite_none_right_eq_some, Option.some.injEq, Prod.mk.injEq] at created
  rcases created with ⟨-, -, rfl⟩
  exact orderly.append [] rfl rfl rfl (List.append_nil _).symm
    (by rw [List.append_nil]; exact orderly.fifo) (fun timerId => .inl)
    (setThread_informed rfl trivial)

theorem pushAdd_orderly {s next : System} {thread : Nat} (orderly : Orderly s)
    (stepped : s.step (.pushAdd thread) = some next) : Orderly next := by
  simp only [System.step] at stepped
  split at stepped
  · rename_i timer pc
    rcases Option.map_eq_some_iff.mp stepped with ⟨loop, pushed, rfl⟩
    have pending := EventLoop.push_pending pushed
    refine orderly.append [.addTimerInLoop timer] rfl rfl rfl pending
      (orderly.fifo.push (.inl trivial)) (fun timerId => .inl) (setThread_informed rfl ?_)
    right
    refine ⟨timer, ?_, rfl⟩
    rw [pending]
    exact List.mem_append_right _ List.mem_cons_self
  · cases stepped

theorem beginCancel_orderly {s next : System} {thread timerId : Nat} (orderly : Orderly s)
    (stepped : s.step (.beginCancel thread timerId) = some next) : Orderly next := by
  rw [System.step, Option.ite_none_right_eq_some, Option.some.injEq] at stepped
  rcases stepped with ⟨-, rfl⟩
  refine orderly.append [] rfl rfl rfl (List.append_nil _).symm
    (by rw [List.append_nil]; exact orderly.fifo) (fun timerId => .inl) (setThread_informed rfl ?_)
  by_cases known : timerId ∈ s.returned
  · rw [decide_eq_true known]
    exact orderly.returned timerId known
  · rw [decide_eq_false known]
    trivial

theorem pushCancel_orderly {s next : System} {thread : Nat} (orderly : Orderly s)
    (stepped : s.step (.pushCancel thread) = some next) : Orderly next := by
  simp only [System.step] at stepped
  split at stepped
  · rename_i timerId known pc
    rcases Option.map_eq_some_iff.mp stepped with ⟨loop, pushed, rfl⟩
    have informed := orderly.threads thread
    rw [pc] at informed
    have behind : Settled s.history (.cancelTimerInLoop timerId known) ∨
        ∃ earlier ∈ s.loop.pending, Needs earlier (.cancelTimerInLoop timerId known) := by
      cases known with
      | true => exact Placed.preceded informed
      | false => exact .inl trivial
    exact orderly.append _ rfl rfl rfl (EventLoop.push_pending pushed) (orderly.fifo.push behind)
      (fun timerId => .inl) (setThread_informed rfl trivial)
  · cases stepped

theorem Needs.settles {task later : Task} {h : TimerHistory} (needs : Needs task later)
    (done : ∀ timer, task = .addTimerInLoop timer → h.Inserted timer.sequence) :
    Settled h later := by
  cases task with
  | addTimerInLoop timer =>
      cases later with
      | cancelTimerInLoop timerId known =>
          cases known with
          | true =>
              have named : timer.sequence = timerId := needs
              rw [← named]
              exact done timer rfl
          | false => trivial
      | addTimerInLoop other => trivial
      | other => trivial
  | cancelTimerInLoop timerId known => cases needs
  | other => cases needs

theorem Orderly.advance {s next : System} (orderly : Orderly s) {action : TimerQueue.Action}
    (stepped : s.history.step action = some next.history)
    (still : s.history.lineupBehind action = s.history.lineup)
    (loop : next.loop = s.loop) (threads : next.threads = s.threads) (dead : next.dead = s.dead)
    (returned : ∀ timerId ∈ next.returned, timerId ∈ s.returned ∨ next.history.Inserted timerId)
    (effective : ∀ timerId ∈ next.effective, timerId ∈ s.effective ∨
      timerId ∈ next.history.cancelled) : Orderly next := by
  have known := orderly.sound.known
  rcases known.grows stepped with ⟨inserted, cancelled⟩
  apply orderly.transfer (orderly.sound.step stepped) _ dead cancelled
  · intro timerId placed
    rw [Placed, loop]
    exact placed.imp_left (inserted timerId)
  · rw [loop]
    exact orderly.fifo.mono fun task settled => settled.mono inserted
  · exact fun timerId member => (returned timerId member).imp_right .inl
  · intro thread
    rw [threads]
    exact .inl rfl
  · exact effective
  · rw [TimerHistory.lineup_step known stepped]
    exact still

theorem Orderly.start {s : System} (orderly : Orderly s) {task : Task} {loop : EventLoop Task}
    (pending : s.loop.pending = task :: loop.pending) (history : TimerHistory)
    (effective : List Nat) (sound : history.Sound)
    (lineup : history.lineup = s.history.lineup)
    (inserted : ∀ timerId, s.history.Inserted timerId → history.Inserted timerId)
    (cancelled : ∀ timerId ∈ s.history.cancelled, timerId ∈ history.cancelled)
    (done : ∀ timer, task = .addTimerInLoop timer → history.Inserted timer.sequence)
    (took : ∀ timerId ∈ effective, timerId ∈ s.effective ∨ timerId ∈ history.cancelled) :
    Orderly { s with loop := loop, history := history, effective := effective } := by
  refine orderly.transfer sound lineup rfl cancelled ?_ ?_ (fun timerId => .inl)
    (fun thread => .inl rfl) took
  · intro timerId placed
    rcases placed with old | ⟨timer, queued, named⟩
    · exact .inl (inserted timerId old)
    · rw [pending] at queued
      rcases List.mem_cons.mp queued with first | later
      · rw [← named]
        exact .inl (done timer first.symm)
      · exact .inr ⟨timer, later, named⟩
  · have fifo := orderly.fifo
    rw [pending] at fifo
    apply fifo.2.mono
    rintro later (settled | needs)
    · exact settled.mono inserted
    · exact needs.settles done

theorem cancelTimerInLoop_cancelled {h next : TimerHistory} {timerId : Nat} (known : h.Known)
    (inserted : h.Inserted timerId) (stepped : h.step (.cancelTimerInLoop timerId) = some next) :
    timerId ∈ next.cancelled := by
  rcases TimerHistory.step_inversion known.coherent stepped with ⟨-, queue, -, rfl⟩
  simp [TimerHistory.record, inserted]

theorem addTimerInLoop_inserted {h next : TimerHistory} {timer : Timer} {clock : Int}
    (known : h.Known) (stepped : h.step (.addTimerInLoop timer clock) = some next) :
    next.Inserted timer.sequence := by
  rcases TimerHistory.step_inversion known.coherent stepped with ⟨-, queue, -, rfl⟩
  exact List.mem_cons_self

theorem runFunctor_orderly {s next : System} {clock : Int} (orderly : Orderly s)
    (stepped : s.step (.runFunctor clock) = some next) : Orderly next := by
  have known := orderly.sound.known
  simp only [System.step] at stepped
  rw [Option.ite_none_right_eq_some] at stepped
  rcases stepped with ⟨-, ran⟩
  rcases Option.bind_eq_some_iff.mp ran with ⟨loop, moved, after⟩
  rcases EventLoop.runNext_cur moved with ⟨task, cur⟩
  have pending := EventLoop.runNext_pending cur moved
  rw [cur] at after
  cases task with
  | addTimerInLoop timer =>
      rcases Option.map_eq_some_iff.mp after with ⟨history, inserts, rfl⟩
      rcases known.grows inserts with ⟨inserted, cancelled⟩
      apply orderly.start pending history s.effective (orderly.sound.step inserts)
        (TimerHistory.lineup_step known inserts) inserted cancelled
      · intro other same
        cases same
        exact addTimerInLoop_inserted known inserts
      · exact fun timerId => .inl
  | cancelTimerInLoop timerId given =>
      rcases Option.map_eq_some_iff.mp after with ⟨history, cancels, rfl⟩
      rcases known.grows cancels with ⟨inserted, cancelled⟩
      apply orderly.start pending history _ (orderly.sound.step cancels)
        (TimerHistory.lineup_step known cancels) inserted cancelled nofun
      intro other member
      cases given with
      | false => exact .inl member
      | true =>
          rcases List.mem_cons.mp member with rfl | old
          · -- the insertion was in front of the cancel
            have fifo := orderly.fifo
            rw [pending] at fifo
            exact .inr (cancelTimerInLoop_cancelled known fifo.1 cancels)
          · exact .inl old
  | other =>
      cases after
      exact orderly.start pending s.history s.effective orderly.sound rfl (fun _ => id)
        (fun _ => id) nofun fun _ => .inl

theorem read_orderly {s next : System} {action : TimerQueue.Action} (orderly : Orderly s)
    (still : s.history.lineupBehind action = s.history.lineup)
    (stepped : s.readStep action = some next) : Orderly next := by
  rw [System.readStep, Option.ite_none_left_eq_some, Option.map_eq_some_iff] at stepped
  rcases stepped with ⟨-, history, moved, rfl⟩
  exact orderly.advance moved still rfl rfl rfl (fun timerId => .inl) fun timerId => .inl

theorem addTimer_orderly {s next : System} {addr : Nat} {time clock : Int} {interval : Interval}
    (orderly : Orderly s) (stepped : s.step (.addTimer addr time interval clock) = some next) :
    Orderly next := by
  simp only [System.step] at stepped
  rw [Option.ite_none_right_eq_some] at stepped
  rcases stepped with ⟨-, ran⟩
  rcases Option.bind_eq_some_iff.mp ran with ⟨⟨timer, after⟩, created, adds⟩
  rw [System.create, Option.ite_none_right_eq_some, Option.some.injEq, Prod.mk.injEq] at created
  rcases created with ⟨-, -, rfl⟩
  rcases Option.bind_eq_some_iff.mp adds with ⟨added, inserts, same⟩
  rcases Option.map_eq_some_iff.mp inserts with ⟨history, moved, rfl⟩
  cases same
  refine orderly.advance moved rfl rfl rfl rfl ?_ fun timerId => .inl
  intro timerId member
  rcases List.mem_cons.mp member with rfl | old
  · exact .inr (addTimerInLoop_inserted orderly.sound.known moved)
  · exact .inl old

theorem cancel_orderly {s next : System} {timerId : Nat} (orderly : Orderly s)
    (inOrder : ¬Outruns s (.cancel timerId)) (stepped : s.step (.cancel timerId) = some next) :
    Orderly next := by
  rw [System.step, Option.ite_none_right_eq_some] at stepped
  rcases stepped with ⟨-, cancels⟩
  rcases Option.map_eq_some_iff.mp cancels with ⟨history, moved, rfl⟩
  refine orderly.advance moved rfl rfl rfl rfl (fun timerId => .inl) ?_
  intro other member
  by_cases returned : timerId ∈ s.returned
  · simp only [returned, decide_true, if_true] at member
    rcases List.mem_cons.mp member with rfl | old
    · rcases orderly.returned other returned with inserted | queued
      · exact .inr (cancelTimerInLoop_cancelled orderly.sound.known inserted moved)
      · exact absurd ⟨returned, queued⟩ inOrder
    · exact .inl old
  · simp only [returned, decide_false] at member
    exact .inl member

/-- A batch begins with none of the timers whose known cancel has taken effect. -/
theorem handleRead_orderly {s next : System} {now : Int} (orderly : Orderly s)
    (stepped : s.step (.handleRead now) = some next) : Orderly next := by
  have known := orderly.sound.known
  simp only [System.step] at stepped
  split at stepped
  · rcases Option.map_eq_some_iff.mp stepped with ⟨middle, reads, rfl⟩
    rw [System.readStep, Option.ite_none_left_eq_some, Option.map_eq_some_iff] at reads
    rcases reads with ⟨-, history, moved, rfl⟩
    rcases known.grows moved with ⟨inserted, cancelled⟩
    constructor
    · exact orderly.sound.step moved
    · exact orderly.fifo.mono fun task settled => settled.mono inserted
    · exact fun timerId member => (orderly.returned timerId member).imp_left (inserted timerId)
    · intro thread
      exact (orderly.threads thread).mono fun timerId => Or.imp_left (inserted timerId)
    · exact fun timerId member => cancelled timerId (orderly.effective timerId member)
    · intro timerId member inside
      rw [TimerHistory.lineup_step known moved] at inside
      apply orderly.sound.gone.withdrawn timerId (orderly.effective timerId member)
      rw [← s.history.queue.due_append_notDue now, List.map_append]
      exact List.mem_append_left _ inside
  · cases stepped

theorem step_orderly (s : System) (action : Action) (next : System) (orderly : Orderly s)
    (inOrder : ¬Outruns s action) (stepped : s.step action = some next) : Orderly next := by
  cases action with
  | newTimer thread addr time interval => exact newTimer_orderly orderly stepped
  | pushAdd thread => exact pushAdd_orderly orderly stepped
  | beginCancel thread timerId => exact beginCancel_orderly orderly stepped
  | pushCancel thread => exact pushCancel_orderly orderly stepped
  | newElsewhere =>
      cases stepped
      exact ⟨orderly.sound, orderly.fifo, orderly.returned, orderly.threads, orderly.effective,
        orderly.dead⟩
  | machine action => exact machine_orderly orderly stepped
  | runFunctor clock => exact runFunctor_orderly orderly stepped
  | addTimer addr time interval clock => exact addTimer_orderly orderly stepped
  | cancel timerId => exact cancel_orderly orderly inOrder stepped
  | handleRead now => exact handleRead_orderly orderly stepped
  | runNext => exact read_orderly orderly rfl stepped
  | callbackReturn => exact read_orderly orderly rfl stepped
  | resetTimer clock => exact read_orderly orderly rfl stepped

theorem init_orderly : Orderly System.init where
  sound := TimerHistory.init_sound
  fifo := trivial
  returned := nofun
  threads _ := trivial
  effective := nofun
  dead := nofun

theorem Orderly.obeyed {s : System} (orderly : Orderly s) : Obeyed s := by
  intro timerId member ran
  apply orderly.dead timerId member
  rw [TimerHistory.lineup, List.map_append]
  exact List.mem_append_left _ ran

/-- As long as the loop thread never cancels a timer that another thread has added
and the loop has not inserted yet, no cancel is lost: a batch that begins behind
`CancelTimerInLoop` does not run the timer. -/
theorem cancel_obeyed_unless_outrun (actions : List Action) (final : System)
    (inOrder : Along System.step (fun s action => ¬Outruns s action) System.init actions)
    (ran : run System.step System.init actions = some final) : Obeyed final :=
  (run_invariant_along Orderly step_orderly init_orderly inOrder ran).obeyed

def addByThread : List Action :=
  [.machine (.loop .enter), .machine (.loop .poll), .newTimer 7 32 5 .zero, .pushAdd 7,
    .machine (.pushed 7)]

def executeAndRead (functors : List Action) : List Action :=
  [.machine (.loop .beginExecute), .machine (.loop .swap)] ++ functors ++
    [.machine (.loop .finish), .machine (.loop .poll), .machine (.loop .pollReturn), .handleRead 9]

def cancelByThread : List Action :=
  addByThread ++
    [.beginCancel 8 0, .pushCancel 8, .machine (.pushed 8), .machine (.loop .pollReturn)] ++
    executeAndRead [.runFunctor 6, .machine (.loop .functorReturn), .runFunctor 7,
      .machine (.loop .functorReturn)]

theorem cancel_by_thread_obeyed : ∃ final,
    run System.step System.init cancelByThread = some final ∧ final.dead = [0] ∧
      final.history.queue.unstarted = [] ∧ Obeyed final := by
  refine ⟨_, rfl, rfl, rfl, cancel_obeyed_unless_outrun cancelByThread _ ?_ rfl⟩
  repeat' first | exact trivial | refine ⟨nofun, fun _ _ => ?_⟩

/-- A handler in the loop thread cancels the timer before the loop has inserted
it. -/
def cancelByLoop : List Action :=
  addByThread ++ [.machine (.loop .pollReturn), .cancel 0] ++
    executeAndRead [.runFunctor 6, .machine (.loop .functorReturn)] ++ [.runNext]

theorem cancel_by_loop_lost : ∃ final,
    run System.step System.init cancelByLoop = some final ∧ final.dead = [0] ∧
      final.history.started = [0] ∧ ¬Obeyed final := by
  refine ⟨_, rfl, rfl, rfl, ?_⟩
  intro obeyed
  exact obeyed 0 List.mem_cons_self List.mem_cons_self

end TimerThreads

end Muzi
