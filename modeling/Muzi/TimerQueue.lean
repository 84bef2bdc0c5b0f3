import Muzi.Execution
import Muzi.OrderedSet

/-!
The timer queue of net/timer_queue.cc, in the loop thread. Times are
microseconds; every reading of the clock is an argument of the action that
makes it. `HandleRead` is cut at the callbacks it runs, so that a callback can
add and cancel timers; what the callbacks do otherwise is left open. A timer in
`timers_` is not changed, so a pointer in `active_timers_` is modelled by the
timer it points to. An insertion or a lookup that fails, against the assertion
behind it, ends the run in `none`.
-/

namespace Muzi

open Execution

/-- What the code reads off the double `interval_`: whether it is above zero, and
its conversion to microseconds. -/
structure Interval where
  positive : Bool
  usecs : Int
  forward : positive = true → 0 ≤ usecs
  deriving DecidableEq

/-- The interval 0.0 of `RunAt` and `RunAfter`. -/
def Interval.zero : Interval := ⟨false, 0, by decide⟩

structure Timer where
  addr : Nat
  sequence : Nat
  expiration : Int
  interval : Interval
  deriving DecidableEq

namespace Timer

def isRepeated (t : Timer) : Bool := t.interval.positive

def restart (t : Timer) (now : Int) : Timer :=
  { t with expiration := now + t.interval.usecs }

def Before (s t : Timer) : Prop :=
  s.expiration < t.expiration ∨ s.expiration = t.expiration ∧ s.addr < t.addr

instance : DecidableRel Before := fun s t =>
  inferInstanceAs (Decidable (s.expiration < t.expiration ∨
    s.expiration = t.expiration ∧ s.addr < t.addr))

instance : IsTrans Timer Before where
  trans := by
    intro s t u first second
    unfold Before at *
    omega

theorem Before.expiration_le {s t : Timer} (before : s.Before t) :
    s.expiration ≤ t.expiration := by
  unfold Before at before
  omega

theorem equivalent_iff (s t : Timer) :
    OrderedSet.equivalent Before s t = true ↔
      s.expiration = t.expiration ∧ s.addr = t.addr := by
  simp only [OrderedSet.equivalent, Bool.and_eq_true, Bool.not_eq_true', decide_eq_false_iff_not]
  unfold Before
  omega

structure Distinct (timers : List Timer) : Prop where
  addrs : (timers.map addr).Nodup
  sequences : (timers.map sequence).Nodup

theorem Distinct.of_perm {timers others : List Timer} (distinct : Distinct timers)
    (perm : others.Perm timers) : Distinct others where
  addrs := (perm.map addr).nodup_iff.mpr distinct.addrs
  sequences := (perm.map sequence).nodup_iff.mpr distinct.sequences

theorem Distinct.of_sublist {timers others : List Timer} (distinct : Distinct timers)
    (sublist : others.Sublist timers) : Distinct others where
  addrs := (sublist.map addr).nodup distinct.addrs
  sequences := (sublist.map sequence).nodup distinct.sequences

theorem distinct_cons {timer : Timer} {timers : List Timer} :
    Distinct (timer :: timers) ↔
      (timer.addr ∉ timers.map addr ∧ timer.sequence ∉ timers.map sequence) ∧
        Distinct timers := by
  constructor
  · rintro ⟨addrs, sequences⟩
    rw [List.map_cons, List.nodup_cons] at addrs sequences
    exact ⟨⟨addrs.1, sequences.1⟩, addrs.2, sequences.2⟩
  · rintro ⟨⟨addr, sequence⟩, addrs, sequences⟩
    exact ⟨List.nodup_cons.mpr ⟨addr, addrs⟩, List.nodup_cons.mpr ⟨sequence, sequences⟩⟩

theorem Distinct.restart {timer : Timer} {timers : List Timer}
    (distinct : Distinct (timer :: timers)) (now : Int) :
    Distinct (timer.restart now :: timers) :=
  ⟨distinct.addrs, distinct.sequences⟩

theorem Distinct.eq_of_sequence {timers : List Timer} (distinct : Distinct timers)
    {s t : Timer} (first : s ∈ timers) (second : t ∈ timers)
    (same : s.sequence = t.sequence) : s = t :=
  List.inj_on_of_nodup_map distinct.sequences first second same

theorem Distinct.filter_sequence {timers : List Timer} (distinct : Distinct timers)
    {timer : Timer} (member : timer ∈ timers) :
    (timers.filter fun other => other.sequence == timer.sequence) = [timer] := by
  have unique : (timers.filter fun other => other.sequence == timer.sequence).Nodup :=
    (List.Nodup.of_map sequence distinct.sequences).filter _
  apply List.perm_singleton.mp
  rw [List.perm_ext_iff_of_nodup unique (List.nodup_singleton timer)]
  intro other
  rw [List.mem_filter, beq_iff_eq, List.mem_singleton]
  constructor
  · rintro ⟨inside, same⟩
    exact distinct.eq_of_sequence inside member same
  · rintro rfl
    exact ⟨member, rfl⟩

end Timer

/-- The timer fd since the last `timerfd_settime`, until it is read after it
expired. -/
structure Armed where
  armedAt : Int
  tvSec : Int
  tvNsec : Int
  deriving DecidableEq

def Armed.deadline (a : Armed) : Int := a.armedAt * 1000 + a.tvSec * 1000000000 + a.tvNsec

/-- One-shot and relative. A zero value disarms, a malformed one is refused. -/
def timerfdSettime (fd : Option Armed) (clock tvSec tvNsec : Int) : Option Armed :=
  if tvSec < 0 ∨ tvNsec < 0 ∨ 1000000000 ≤ tvNsec then fd
  else if tvSec = 0 ∧ tvNsec = 0 then none
  else some ⟨clock, tvSec, tvNsec⟩

/-- The delay that `ResetTimerFd` sets. -/
def resetDelay (time clock : Int) : Int := if 0 < time - clock then time - clock else 10

def resetTimerFd (fd : Option Armed) (time clock : Int) : Option Armed :=
  timerfdSettime fd clock ((resetDelay time clock).tdiv 1000000)
    ((resetDelay time clock).tmod 1000000 * 1000)

/-- A read before the deadline fails and leaves the fd armed. -/
def readTimerFd (fd : Option Armed) (now : Int) : Option Armed :=
  fd.filter fun armed => decide (now * 1000 < armed.deadline)

/-- Where the loop thread is; `rest` are the timers of `expired_timers_` whose
callbacks have not been started. -/
inductive ReadPhase where
  | outside
  -- between two callbacks of the batch
  | running (now : Int) (rest : List Timer)
  -- inside a callback of the batch
  | inCallback (now : Int) (rest : List Timer)
  deriving DecidableEq

def ReadPhase.reading : ReadPhase → Option Int
  | .outside => none
  | .running now _ | .inCallback now _ => some now

structure TimerQueue where
  phase : ReadPhase
  isExecutingTimers : Bool
  timers : List Timer
  activeTimers : List (Nat × Timer)
  expiredTimers : List Timer
  cancelingTimers : List Nat
  timerFd : Option Armed
  deriving DecidableEq

namespace TimerQueue

def init : TimerQueue where
  phase := .outside
  isExecutingTimers := false
  timers := []
  activeTimers := []
  expiredTimers := []
  cancelingTimers := []
  timerFd := none

def isEarliest (q : TimerQueue) (timer : Timer) : Bool :=
  match q.timers with
  | [] => true
  | first :: _ => decide (timer.expiration < first.expiration)

def insert (q : TimerQueue) (timer : Timer) : Option (Bool × TimerQueue) := do
  let timers ← OrderedSet.insert Timer.Before timer q.timers
  if q.activeTimers.any fun entry => entry.1 == timer.sequence then none
  else some (q.isEarliest timer,
    { q with timers := timers, activeTimers := (timer.sequence, timer) :: q.activeTimers })

def addTimerInLoop (q : TimerQueue) (timer : Timer) (clock : Int) : Option TimerQueue := do
  let (earliest, next) ← q.insert timer
  if earliest then
    some { next with timerFd := resetTimerFd next.timerFd timer.expiration clock }
  else some next

def cancelTimerInLoop (q : TimerQueue) (timerId : Nat) : Option TimerQueue :=
  match q.activeTimers.find? fun entry => entry.1 == timerId with
  | some (_, timer) =>
      (OrderedSet.find Timer.Before timer q.timers).map fun found =>
        { q with
          activeTimers := q.activeTimers.filter fun entry => entry.1 != timerId
          timers := OrderedSet.erase Timer.Before found q.timers }
  | none =>
      some (if q.isExecutingTimers then
        { q with cancelingTimers := q.cancelingTimers.insert timerId }
      else q)

def expiresAfter (now : Int) (timer : Timer) : Bool := decide (now < timer.expiration)

def getExpired (q : TimerQueue) (now : Int) : TimerQueue :=
  let expired := OrderedSet.belowBound (expiresAfter now) q.timers
  { q with
    activeTimers := q.activeTimers.filter fun entry =>
      !(expired.any fun timer => timer.sequence == entry.1)
    expiredTimers := q.expiredTimers ++ expired
    timers := OrderedSet.fromBound (expiresAfter now) q.timers }

def rearm (now : Int) (q : TimerQueue) (timer : Timer) : Option TimerQueue :=
  if timer.isRepeated && !decide (timer.sequence ∈ q.cancelingTimers) then
    (q.insert (timer.restart now)).map Prod.snd
  else some q

def resetNext (q : TimerQueue) (clock : Int) : TimerQueue :=
  match q.timers with
  | [] => q
  | first :: _ =>
      if 0 < first.expiration then
        { q with timerFd := resetTimerFd q.timerFd first.expiration clock }
      else q

def resetTimer (q : TimerQueue) (now clock : Int) : Option TimerQueue := do
  let rearmed ← q.expiredTimers.foldlM (rearm now) q
  some ({ rearmed with expiredTimers := [], cancelingTimers := [] }.resetNext clock)

/-- `HandleRead` up to its first callback. -/
def handleRead (q : TimerQueue) (now : Int) : TimerQueue :=
  let next := ({ q with timerFd := readTimerFd q.timerFd now } : TimerQueue).getExpired now
  { next with isExecutingTimers := true, phase := .running now next.expiredTimers }

def unstarted (q : TimerQueue) : List Timer :=
  match q.phase with
  | .outside => []
  | .running _ rest => rest
  | .inCallback _ rest => rest

def userCode (q : TimerQueue) : Bool :=
  match q.phase with
  | .outside | .inCallback _ _ => true
  | .running _ _ => false

def live (q : TimerQueue) : List Timer := q.timers ++ q.expiredTimers

/-- A new timer has another address and another sequence number than those that
are alive. -/
def New (q : TimerQueue) (timer : Timer) : Prop :=
  timer.addr ∉ q.live.map Timer.addr ∧ timer.sequence ∉ q.live.map Timer.sequence

instance (q : TimerQueue) (timer : Timer) : Decidable (q.New timer) :=
  inferInstanceAs (Decidable (_ ∧ _))

inductive Action where
  | addTimerInLoop (timer : Timer) (clock : Int)
  | cancelTimerInLoop (timerId : Nat)
  | handleRead (now : Int)
  | runNext
  | callbackReturn
  -- the rest of `HandleRead`, behind the last callback
  | resetTimer (clock : Int)

def step (q : TimerQueue) : Action → Option TimerQueue
  | .addTimerInLoop timer clock =>
      if q.userCode ∧ q.New timer then q.addTimerInLoop timer clock else none
  | .cancelTimerInLoop timerId => if q.userCode then q.cancelTimerInLoop timerId else none
  | .handleRead now =>
      match q.phase with
      | .outside => some (q.handleRead now)
      | _ => none
  | .runNext =>
      match q.phase with
      | .running now (_ :: rest) => some { q with phase := .inCallback now rest }
      | _ => none
  | .callbackReturn =>
      match q.phase with
      | .inCallback now rest => some { q with phase := .running now rest }
      | _ => none
  | .resetTimer clock =>
      match q.phase with
      | .running now [] =>
          { q with isExecutingTimers := false, phase := .outside }.resetTimer now clock
      | _ => none

/-- `timers_` is in order, and `active_timers_` is its index. -/
structure Filed (q : TimerQueue) : Prop where
  ascending : OrderedSet.Ascending Timer.Before q.timers
  indexed : q.activeTimers.Perm (q.timers.map fun t => (t.sequence, t))

def filedWith (q : TimerQueue) (timer : Timer) : TimerQueue :=
  { q with
    timers := q.timers.orderedInsert Timer.Before timer
    activeTimers := (timer.sequence, timer) :: q.activeTimers }

theorem filedWith_timers (q : TimerQueue) (timer : Timer) :
    (q.filedWith timer).timers.Perm (timer :: q.timers) :=
  List.perm_orderedInsert Timer.Before timer q.timers

theorem Filed.mem_active {q : TimerQueue} (filed : q.Filed) {entry : Nat × Timer} :
    entry ∈ q.activeTimers ↔ entry.2 ∈ q.timers ∧ entry.2.sequence = entry.1 := by
  rw [filed.indexed.mem_iff, List.mem_map]
  constructor
  · rintro ⟨timer, member, rfl⟩
    exact ⟨member, rfl⟩
  · rintro ⟨member, named⟩
    exact ⟨entry.2, member, by rw [named]⟩

theorem not_equivalent_of_distinct {timers : List Timer} {timer : Timer}
    (distinct : Timer.Distinct (timer :: timers)) :
    ∀ other ∈ timers, OrderedSet.equivalent Timer.Before timer other = false := by
  intro other member
  rw [← Bool.not_eq_true, Timer.equivalent_iff]
  rintro ⟨-, shared⟩
  apply (Timer.distinct_cons.mp distinct).1.1
  exact List.mem_map.mpr ⟨other, member, shared.symm⟩

theorem insert_eq {q : TimerQueue} (filed : q.Filed) {timer : Timer}
    (distinct : Timer.Distinct (timer :: q.timers)) :
    q.insert timer = some (q.isEarliest timer, q.filedWith timer) := by
  have unindexed : (q.activeTimers.any fun entry => entry.1 == timer.sequence) = false := by
    rw [List.any_eq_false]
    intro entry member named
    rcases filed.mem_active.mp member with ⟨inside, same⟩
    apply (Timer.distinct_cons.mp distinct).1.2
    rw [← beq_iff_eq.mp named, ← same]
    exact List.mem_map_of_mem inside
  simp [insert, OrderedSet.insert_eq (not_equivalent_of_distinct distinct), unindexed, filedWith]

theorem Filed.filedWith {q : TimerQueue} (filed : q.Filed) {timer : Timer}
    (distinct : Timer.Distinct (timer :: q.timers)) : (q.filedWith timer).Filed where
  ascending :=
    OrderedSet.ascending_orderedInsert filed.ascending (not_equivalent_of_distinct distinct)
  indexed := by
    have sorted := (q.filedWith_timers timer).map fun t => (t.sequence, t)
    exact (filed.indexed.cons (timer.sequence, timer)).trans sorted.symm

def withdrawn (q : TimerQueue) (timerId : Nat) : TimerQueue :=
  { q with
    timers := q.timers.filter fun timer => timer.sequence != timerId
    activeTimers := q.activeTimers.filter fun entry => entry.1 != timerId
    cancelingTimers :=
      if timerId ∉ q.timers.map Timer.sequence ∧ q.isExecutingTimers = true then
        q.cancelingTimers.insert timerId
      else q.cancelingTimers }

/-- The comparator finds the very timer that the index names. -/
theorem equivalent_eq_sequence {timers : List Timer} {timer : Timer}
    (distinct : Timer.Distinct timers) (inside : timer ∈ timers) : ∀ other ∈ timers,
      OrderedSet.equivalent Timer.Before timer other = (other.sequence == timer.sequence) := by
  intro other member
  rw [Bool.eq_iff_iff, Timer.equivalent_iff, beq_iff_eq]
  constructor
  · rintro ⟨-, shared⟩
    rw [List.inj_on_of_nodup_map distinct.addrs inside member shared]
  · intro shared
    rw [distinct.eq_of_sequence member inside shared]
    exact ⟨rfl, rfl⟩

theorem cancelTimerInLoop_eq {q : TimerQueue} (filed : q.Filed)
    (distinct : Timer.Distinct q.timers) (timerId : Nat) :
    q.cancelTimerInLoop timerId = some (q.withdrawn timerId) := by
  unfold cancelTimerInLoop
  cases looked : q.activeTimers.find? fun entry => entry.1 == timerId with
  | some entry =>
      rcases entry with ⟨key, timer⟩
      have named : key = timerId := by simpa using List.find?_some looked
      rcases filed.mem_active.mp (List.mem_of_find?_eq_some looked) with ⟨inside, sequence⟩
      simp only at inside sequence
      subst key timerId
      have same := equivalent_eq_sequence distinct inside
      have found : OrderedSet.find Timer.Before timer q.timers = some timer := by
        apply OrderedSet.find_eq inside
        · rw [same timer inside, beq_self_eq_true]
        · intro other member equal
          rw [same other member, beq_iff_eq] at equal
          exact distinct.eq_of_sequence member inside equal
      have erased : OrderedSet.erase Timer.Before timer q.timers =
          q.timers.filter fun other => other.sequence != timer.sequence := by
        apply List.filter_congr
        intro other member
        rw [same other member]
        rfl
      have present : timer.sequence ∈ q.timers.map Timer.sequence :=
        List.mem_map_of_mem inside
      simp only [found, Option.map_some, erased, withdrawn, present, not_true_eq_false, false_and,
        if_false]
  | none =>
      have outside : timerId ∉ q.timers.map Timer.sequence := by
        intro named
        rcases List.mem_map.mp named with ⟨timer, member, rfl⟩
        have entry : (timer.sequence, timer) ∈ q.activeTimers := filed.mem_active.mpr ⟨member, rfl⟩
        exact List.find?_eq_none.mp looked _ entry (beq_self_eq_true _)
      have same : (q.timers.filter fun timer => timer.sequence != timerId) = q.timers := by
        rw [List.filter_eq_self]
        intro timer member
        rw [bne_iff_ne]
        intro named
        exact outside (List.mem_map.mpr ⟨timer, member, named⟩)
      have unindexed : (q.activeTimers.filter fun entry => entry.1 != timerId) =
          q.activeTimers := by
        rw [List.filter_eq_self]
        intro entry member
        simpa using List.find?_eq_none.mp looked entry member
      simp only [withdrawn, same, unindexed, outside, not_false_eq_true, true_and]
      by_cases executing : q.isExecutingTimers = true
      · rw [if_pos executing, if_pos executing]
      · rw [if_neg executing, if_neg executing]

theorem Filed.withdrawn {q : TimerQueue} (filed : q.Filed) (timerId : Nat) :
    (q.withdrawn timerId).Filed where
  ascending := List.Pairwise.filter _ filed.ascending
  indexed := by
    have kept := filed.indexed.filter fun entry => entry.1 != timerId
    rw [List.filter_map] at kept
    exact kept

def due (q : TimerQueue) (now : Int) : List Timer :=
  OrderedSet.belowBound (expiresAfter now) q.timers

def notDue (q : TimerQueue) (now : Int) : List Timer :=
  OrderedSet.fromBound (expiresAfter now) q.timers

theorem due_append_notDue (q : TimerQueue) (now : Int) :
    q.due now ++ q.notDue now = q.timers :=
  OrderedSet.bound_split (expiresAfter now) q.timers

theorem due_expiration {q : TimerQueue} {now : Int} {timer : Timer}
    (member : timer ∈ q.due now) : timer.expiration ≤ now := by
  simpa [expiresAfter] using OrderedSet.not_above_of_mem_belowBound member

theorem Filed.getExpired {q : TimerQueue} (filed : q.Filed)
    (distinct : Timer.Distinct q.timers) (now : Int) : (q.getExpired now).Filed where
  ascending := filed.ascending.fromBound (expiresAfter now)
  indexed := by
    have sequences := distinct.sequences
    rw [← q.due_append_notDue now, List.map_append, List.nodup_append'] at sequences
    rcases sequences with ⟨-, -, apart⟩
    have kept := filed.indexed.filter fun entry =>
      !((q.due now).any fun timer => timer.sequence == entry.1)
    apply kept.trans
    rw [← q.due_append_notDue now, List.map_append, List.filter_append]
    have gone : ((q.due now).map fun t => (t.sequence, t)).filter (fun entry =>
        !((q.due now).any fun timer => timer.sequence == entry.1)) = [] := by
      rw [List.filter_eq_nil_iff]
      intro entry member
      rcases List.mem_map.mp member with ⟨timer, inside, rfl⟩
      simp only [Bool.not_eq_true', Bool.not_eq_false, List.any_eq_true]
      exact ⟨timer, inside, beq_self_eq_true _⟩
    have stays : ((q.notDue now).map fun t => (t.sequence, t)).filter (fun entry =>
        !((q.due now).any fun timer => timer.sequence == entry.1)) =
          (q.notDue now).map fun t => (t.sequence, t) := by
      rw [List.filter_eq_self]
      intro entry member
      rcases List.mem_map.mp member with ⟨timer, inside, rfl⟩
      rw [Bool.not_eq_true', List.any_eq_false]
      intro other before named
      rw [beq_iff_eq] at named
      apply apart (List.mem_map_of_mem before)
      rw [named]
      exact List.mem_map_of_mem inside
    rw [gone, stays]
    exact List.Perm.refl _

def rearms (q : TimerQueue) (timer : Timer) : Bool :=
  timer.isRepeated && !decide (timer.sequence ∈ q.cancelingTimers)

def SameBut (q next : TimerQueue) : Prop :=
  next = { q with timers := next.timers, activeTimers := next.activeTimers }

/-- The first loop of `ResetTimer` inserts every expired timer that repeats and
was not cancelled, and no assertion fails. -/
theorem foldlM_rearm (now : Int) (expired : List Timer) (q : TimerQueue) (filed : q.Filed)
    (distinct : Timer.Distinct (expired ++ q.timers)) :
    ∃ next, expired.foldlM (rearm now) q = some next ∧ q.SameBut next ∧ next.Filed ∧
      next.timers.Perm (((expired.filter q.rearms).map fun t => t.restart now) ++ q.timers) := by
  induction expired generalizing q with
  | nil => exact ⟨q, rfl, rfl, filed, List.Perm.refl _⟩
  | cons timer rest ih =>
      by_cases again : q.rearms timer = true
      · -- the restarted timer keeps its address and its sequence number
        have restarted : Timer.Distinct (timer.restart now :: (rest ++ q.timers)) :=
          Timer.Distinct.restart distinct now
        have single : Timer.Distinct (timer.restart now :: q.timers) :=
          restarted.of_sublist ((List.sublist_append_right rest q.timers).cons_cons _)
        have stepped : rearm now q timer = some (q.filedWith (timer.restart now)) := by
          have condition : (timer.isRepeated &&
            !decide (timer.sequence ∈ q.cancelingTimers)) = true := again
          rw [rearm, if_pos condition, insert_eq filed single]
          rfl
        have moved : (rest ++ (q.filedWith (timer.restart now)).timers).Perm
            (timer.restart now :: (rest ++ q.timers)) :=
          ((q.filedWith_timers _).append_left rest).trans List.perm_middle
        rcases ih (q.filedWith (timer.restart now)) (filed.filedWith single)
          (restarted.of_perm moved) with ⟨next, ran, same, later, timers⟩
        refine ⟨next, ?_, same, later, ?_⟩
        · rw [List.foldlM_cons, stepped]
          exact ran
        · rw [List.filter_cons_of_pos again, List.map_cons]
          exact (timers.trans ((q.filedWith_timers _).append_left _)).trans List.perm_middle
      · have stepped : rearm now q timer = some q := by
          have condition : ¬(timer.isRepeated &&
            !decide (timer.sequence ∈ q.cancelingTimers)) = true := again
          rw [rearm, if_neg condition]
        rcases ih q filed (Timer.distinct_cons.mp distinct).2 with ⟨next, ran, further⟩
        refine ⟨next, ?_, ?_⟩
        · rw [List.foldlM_cons, stepped]
          exact ran
        · rw [List.filter_cons_of_neg again]
          exact further

/-- What holds between two actions. The last three fields are the assertions at
the ends of `HandleRead`. -/
structure Coherent (q : TimerQueue) : Prop where
  filed : q.Filed
  distinct : Timer.Distinct q.live
  split : ∃ begun, q.expiredTimers = begun ++ q.unstarted
  executing : q.isExecutingTimers = true ↔ q.phase ≠ .outside
  noneExpired : q.phase = .outside → q.expiredTimers = []
  noneCanceling : q.phase = .outside → q.cancelingTimers = []

theorem Coherent.distinct_timers {q : TimerQueue} (coherent : q.Coherent) :
    Timer.Distinct q.timers :=
  coherent.distinct.of_sublist (List.sublist_append_left _ _)

theorem Coherent.distinct_new {q : TimerQueue} (coherent : q.Coherent) {timer : Timer}
    (new : q.New timer) : Timer.Distinct (timer :: q.live) :=
  Timer.distinct_cons.mpr ⟨new, coherent.distinct⟩

theorem Coherent.apart {q : TimerQueue} (coherent : q.Coherent) {timer expired : Timer}
    (filed : timer ∈ q.timers) (member : expired ∈ q.expiredTimers) :
    expired.sequence ≠ timer.sequence := by
  have sequences := coherent.distinct.sequences
  rw [live, List.map_append, List.nodup_append'] at sequences
  intro same
  apply sequences.2.2 (List.mem_map_of_mem filed)
  rw [← same]
  exact List.mem_map_of_mem member

theorem Coherent.unstarted_expired {q : TimerQueue} (coherent : q.Coherent) {timer : Timer}
    (member : timer ∈ q.unstarted) : timer ∈ q.expiredTimers := by
  rcases coherent.split with ⟨begun, split⟩
  rw [split]
  exact List.mem_append_right _ member

theorem init_coherent : init.Coherent where
  filed := ⟨List.Pairwise.nil, List.Perm.refl _⟩
  distinct := ⟨List.nodup_nil, List.nodup_nil⟩
  split := ⟨[], rfl⟩
  executing := by simp [init]
  noneExpired _ := rfl
  noneCanceling _ := rfl

def added (q : TimerQueue) (timer : Timer) (clock : Int) : TimerQueue :=
  { q.filedWith timer with
    timerFd :=
      if q.isEarliest timer then resetTimerFd q.timerFd timer.expiration clock else q.timerFd }

/-- The steps between coherent queues. The timers that `ResetTimer` inserts again
are known up to their order. -/
inductive Moves : TimerQueue → Action → TimerQueue → Prop where
  | addTimerInLoop (q timer clock) (user : q.userCode = true) (new : q.New timer) :
      Moves q (.addTimerInLoop timer clock) (q.added timer clock)
  | cancelTimerInLoop (q timerId) (user : q.userCode = true) :
      Moves q (.cancelTimerInLoop timerId) (q.withdrawn timerId)
  | handleRead (q now) (phase : q.phase = .outside) : Moves q (.handleRead now) (q.handleRead now)
  | runNext (q now timer rest) (phase : q.phase = .running now (timer :: rest)) :
      Moves q .runNext { q with phase := .inCallback now rest }
  | callbackReturn (q now rest) (phase : q.phase = .inCallback now rest) :
      Moves q .callbackReturn { q with phase := .running now rest }
  | resetTimer (q now clock timers active) (phase : q.phase = .running now [])
      (rearmed : timers.Perm
        (((q.expiredTimers.filter q.rearms).map fun t => t.restart now) ++ q.timers))
      (filed : Filed { q with timers := timers, activeTimers := active }) :
      Moves q (.resetTimer clock) (resetNext
        { q with
          phase := .outside
          isExecutingTimers := false
          timers := timers
          activeTimers := active
          expiredTimers := []
          cancelingTimers := [] } clock)

theorem addTimerInLoop_eq {q : TimerQueue} (coherent : q.Coherent) {timer : Timer}
    (new : q.New timer) (clock : Int) :
    q.addTimerInLoop timer clock = some (q.added timer clock) := by
  have single := (coherent.distinct_new new).of_sublist
    ((List.sublist_append_left q.timers q.expiredTimers).cons_cons timer)
  simp only [addTimerInLoop, insert_eq coherent.filed single, Option.bind_eq_bind, Option.bind_some,
    added]
  split
  · rfl
  · rfl

theorem resetTimer_moves {q : TimerQueue} (coherent : q.Coherent) {now : Int}
    (phase : q.phase = .running now []) (clock : Int) :
    ∃ next, q.step (.resetTimer clock) = some next ∧ Moves q (.resetTimer clock) next := by
  have filed : Filed { q with isExecutingTimers := false, phase := .outside } :=
    ⟨coherent.filed.ascending, coherent.filed.indexed⟩
  have distinct : Timer.Distinct (q.expiredTimers ++ q.timers) :=
    coherent.distinct.of_perm List.perm_append_comm
  rcases foldlM_rearm now q.expiredTimers _ filed distinct with ⟨next, ran, same, later, timers⟩
  rw [same] at later ran
  refine ⟨_, ?_, .resetTimer q now clock next.timers next.activeTimers phase timers
    ⟨later.ascending, later.indexed⟩⟩
  simp only [step, phase, resetTimer, ran, Option.bind_eq_bind, Option.bind_some]

theorem step_moves {q next : TimerQueue} {action : Action} (coherent : q.Coherent)
    (stepped : q.step action = some next) : Moves q action next := by
  cases action with
  | addTimerInLoop timer clock =>
      rw [step, Option.ite_none_right_eq_some] at stepped
      rcases stepped with ⟨⟨user, new⟩, ran⟩
      rw [addTimerInLoop_eq coherent new, Option.some.injEq] at ran
      rw [← ran]
      exact .addTimerInLoop q timer clock user new
  | cancelTimerInLoop timerId =>
      rw [step, Option.ite_none_right_eq_some] at stepped
      rcases stepped with ⟨user, ran⟩
      rw [cancelTimerInLoop_eq coherent.filed coherent.distinct_timers, Option.some.injEq] at ran
      rw [← ran]
      exact .cancelTimerInLoop q timerId user
  | handleRead now =>
      simp only [step] at stepped
      split at stepped
      · cases stepped
        exact .handleRead q now ‹_›
      · cases stepped
  | runNext =>
      simp only [step] at stepped
      split at stepped
      · cases stepped
        exact .runNext q _ _ _ ‹_›
      · cases stepped
  | callbackReturn =>
      simp only [step] at stepped
      split at stepped
      · cases stepped
        exact .callbackReturn q _ _ ‹_›
      · cases stepped
  | resetTimer clock =>
      have phase : ∃ now, q.phase = .running now [] := by
        simp only [step] at stepped
        split at stepped
        · exact ⟨_, ‹_›⟩
        · cases stepped
      rcases phase with ⟨now, phase⟩
      rcases resetTimer_moves coherent phase clock with ⟨same, ran, moved⟩
      rw [ran, Option.some.injEq] at stepped
      rw [← stepped]
      exact moved

theorem resetNext_eq (q : TimerQueue) (clock : Int) :
    q.resetNext clock = { q with timerFd := (q.resetNext clock).timerFd } := by
  unfold resetNext
  split
  · rfl
  · split <;> rfl

theorem added_live (q : TimerQueue) (timer : Timer) (clock : Int) :
    (q.added timer clock).live.Perm (timer :: q.live) :=
  (q.filedWith_timers timer).append_right q.expiredTimers

theorem withdrawn_live (q : TimerQueue) (timerId : Nat) :
    (q.withdrawn timerId).live.Sublist q.live :=
  List.filter_sublist.append (List.Sublist.refl _)

theorem Coherent.handleRead_expired {q : TimerQueue} (coherent : q.Coherent)
    (phase : q.phase = .outside) (now : Int) : (q.handleRead now).expiredTimers = q.due now := by
  change q.expiredTimers ++ q.due now = q.due now
  rw [coherent.noneExpired phase]
  rfl

theorem Coherent.handleRead_live {q : TimerQueue} (coherent : q.Coherent)
    (phase : q.phase = .outside) (now : Int) : (q.handleRead now).live.Perm q.live := by
  have split := q.due_append_notDue now
  rw [live, coherent.handleRead_expired phase, live, coherent.noneExpired phase,
    List.append_nil, ← split]
  exact List.perm_append_comm

theorem distinct_rearmed {q : TimerQueue} (coherent : q.Coherent) {now : Int}
    {timers : List Timer} (rearmed : timers.Perm
      (((q.expiredTimers.filter q.rearms).map fun t => t.restart now) ++ q.timers)) :
    Timer.Distinct timers := by
  have kept : Timer.Distinct (q.expiredTimers.filter q.rearms ++ q.timers) := by
    apply Timer.Distinct.of_sublist _ (List.filter_sublist.append (List.Sublist.refl q.timers))
    exact coherent.distinct.of_perm List.perm_append_comm
  apply Timer.Distinct.of_perm _ rearmed
  constructor
  · have addrs := kept.addrs
    rw [List.map_append] at addrs ⊢
    rw [List.map_map]
    exact addrs
  · have sequences := kept.sequences
    rw [List.map_append] at sequences ⊢
    rw [List.map_map]
    exact sequences

theorem Moves.coherent {q next : TimerQueue} {action : Action} (coherent : q.Coherent)
    (moved : Moves q action next) : next.Coherent := by
  cases moved with
  | addTimerInLoop timer clock user new =>
      have distinct := coherent.distinct_new new
      have single := distinct.of_sublist
        ((List.sublist_append_left q.timers q.expiredTimers).cons_cons timer)
      have filed := coherent.filed.filedWith single
      exact {
        filed := ⟨filed.ascending, filed.indexed⟩
        distinct := distinct.of_perm (q.added_live timer clock)
        split := coherent.split
        executing := coherent.executing
        noneExpired := coherent.noneExpired
        noneCanceling := coherent.noneCanceling }
  | cancelTimerInLoop timerId user =>
      exact {
        filed := coherent.filed.withdrawn timerId
        distinct := coherent.distinct.of_sublist (q.withdrawn_live timerId)
        split := coherent.split
        executing := coherent.executing
        noneExpired := coherent.noneExpired
        noneCanceling := by
          intro phase
          have resting : ¬q.isExecutingTimers = true := by
            rw [coherent.executing]
            exact not_not_intro phase
          simp [withdrawn, resting, coherent.noneCanceling phase] }
  | handleRead now phase =>
      have filed := coherent.filed.getExpired coherent.distinct_timers now
      exact {
        filed := ⟨filed.ascending, filed.indexed⟩
        distinct := coherent.distinct.of_perm (coherent.handleRead_live phase now)
        split := ⟨[], rfl⟩
        executing := by simp [TimerQueue.handleRead]
        noneExpired := nofun
        noneCanceling := nofun }
  | runNext now timer rest phase =>
      rcases coherent.split with ⟨begun, split⟩
      rw [unstarted, phase] at split
      exact {
        filed := ⟨coherent.filed.ascending, coherent.filed.indexed⟩
        distinct := coherent.distinct
        split := ⟨begun ++ [timer], by rw [split]; simp [unstarted]⟩
        executing := by simp [coherent.executing, phase]
        noneExpired := nofun
        noneCanceling := nofun }
  | callbackReturn now rest phase =>
      rcases coherent.split with ⟨begun, split⟩
      rw [unstarted, phase] at split
      exact {
        filed := ⟨coherent.filed.ascending, coherent.filed.indexed⟩
        distinct := coherent.distinct
        split := ⟨begun, split⟩
        executing := by simp [coherent.executing, phase]
        noneExpired := nofun
        noneCanceling := nofun }
  | resetTimer now clock timers active phase rearmed filed =>
      rw [resetNext_eq]
      exact {
        filed := ⟨filed.ascending, filed.indexed⟩
        distinct := by
          rw [live, List.append_nil]
          exact distinct_rearmed coherent rearmed
        split := ⟨[], rfl⟩
        executing := by simp
        noneExpired _ := rfl
        noneCanceling _ := rfl }

theorem Moves.live_cases {q next : TimerQueue} {action : Action} (moved : Moves q action next)
    (coherent : q.Coherent) {timer : Timer} (member : timer ∈ next.live) :
    (∃ clock, action = .addTimerInLoop timer clock) ∨ timer ∈ q.live ∨
      ∃ old ∈ q.expiredTimers, ∃ now, q.phase.reading = some now ∧ q.rearms old = true ∧
        timer = old.restart now := by
  cases moved with
  | addTimerInLoop added clock user new =>
      rcases List.mem_cons.mp ((q.added_live added clock).mem_iff.mp member) with same | old
      · subst added
        exact .inl ⟨clock, rfl⟩
      · exact .inr (.inl old)
  | cancelTimerInLoop timerId user =>
      exact .inr (.inl ((q.withdrawn_live timerId).subset member))
  | handleRead now phase =>
      exact .inr (.inl ((coherent.handleRead_live phase now).mem_iff.mp member))
  | runNext now first rest phase => exact .inr (.inl member)
  | callbackReturn now rest phase => exact .inr (.inl member)
  | resetTimer now clock timers active phase rearmed filed =>
      rw [resetNext_eq, live, List.append_nil] at member
      rcases List.mem_append.mp (rearmed.mem_iff.mp member) with again | stayed
      · rcases List.mem_map.mp again with ⟨old, inside, rfl⟩
        rcases List.mem_filter.mp inside with ⟨expired, repeats⟩
        exact .inr (.inr ⟨old, expired, now, by rw [phase]; rfl, repeats, rfl⟩)
      · exact .inr (.inl (List.mem_append_left _ stayed))

def Enabled (q : TimerQueue) : Action → Prop
  | .addTimerInLoop timer _ => q.userCode = true ∧ q.New timer
  | .cancelTimerInLoop _ => q.userCode = true
  | .handleRead _ => q.phase = .outside
  | .runNext => ∃ now timer rest, q.phase = .running now (timer :: rest)
  | .callbackReturn => ∃ now rest, q.phase = .inCallback now rest
  | .resetTimer _ => ∃ now, q.phase = .running now []

/-- No insertion and no lookup of the timer queue fails. -/
theorem Coherent.enabled_step {q : TimerQueue} (coherent : q.Coherent) {action : Action}
    (enabled : q.Enabled action) : ∃ next, q.step action = some next := by
  cases action with
  | addTimerInLoop timer clock =>
      have allowed : q.userCode = true ∧ q.New timer := enabled
      refine ⟨q.added timer clock, ?_⟩
      rw [step, if_pos allowed]
      exact addTimerInLoop_eq coherent allowed.2 clock
  | cancelTimerInLoop timerId =>
      have user : q.userCode = true := enabled
      refine ⟨q.withdrawn timerId, ?_⟩
      rw [step, if_pos user]
      exact cancelTimerInLoop_eq coherent.filed coherent.distinct_timers timerId
  | handleRead now =>
      have outside : q.phase = .outside := enabled
      exact ⟨q.handleRead now, by simp only [step, outside]⟩
  | runNext =>
      rcases enabled with ⟨now, timer, rest, phase⟩
      exact ⟨_, by simp only [step, phase]; rfl⟩
  | callbackReturn =>
      rcases enabled with ⟨now, rest, phase⟩
      exact ⟨_, by simp only [step, phase]; rfl⟩
  | resetTimer clock =>
      rcases enabled with ⟨now, phase⟩
      rcases resetTimer_moves coherent phase clock with ⟨next, stepped, -⟩
      exact ⟨next, stepped⟩

theorem step_coherent {q next : TimerQueue} {action : Action} (coherent : q.Coherent)
    (stepped : q.step action = some next) : next.Coherent :=
  (step_moves coherent stepped).coherent coherent

/-- The two containers as the code relies on them: `active_timers_` is the index of `timers_`,
the comparator finds what the index names, and a timer is in one container only. -/
structure Indexed (q : TimerQueue) : Prop where
  size : q.activeTimers.length = q.timers.length
  keys : (q.activeTimers.map Prod.fst).Nodup
  entries : ∀ timerId timer, (timerId, timer) ∈ q.activeTimers ↔
    timer ∈ q.timers ∧ timer.sequence = timerId
  found : ∀ timerId timer, (timerId, timer) ∈ q.activeTimers →
    OrderedSet.find Timer.Before timer q.timers = some timer
  apart : ∀ timer ∈ q.timers, ∀ expired ∈ q.expiredTimers, expired.addr ≠ timer.addr
  idle : q.phase = .outside → q.cancelingTimers = [] ∧ q.expiredTimers = []

theorem Coherent.found {q : TimerQueue} (coherent : q.Coherent) {timer : Timer}
    (filed : timer ∈ q.timers) : OrderedSet.find Timer.Before timer q.timers = some timer := by
  have named := equivalent_eq_sequence coherent.distinct_timers filed
  apply OrderedSet.find_eq filed
  · rw [named timer filed]
    exact beq_self_eq_true _
  · intro other member same
    rw [named other member, beq_iff_eq] at same
    exact coherent.distinct_timers.eq_of_sequence member filed same

theorem Coherent.indexed {q : TimerQueue} (coherent : q.Coherent) : q.Indexed where
  size := by
    rw [coherent.filed.indexed.length_eq, List.length_map]
  keys := by
    have keys := coherent.filed.indexed.map Prod.fst
    rw [List.map_map] at keys
    exact keys.nodup_iff.mpr coherent.distinct_timers.sequences
  entries := fun _ _ => coherent.filed.mem_active
  found := by
    intro timerId timer member
    exact coherent.found (coherent.filed.mem_active.mp member).1
  apart := by
    intro timer filed expired member same
    have addrs := coherent.distinct.addrs
    rw [live, List.map_append, List.nodup_append'] at addrs
    apply addrs.2.2 (List.mem_map_of_mem filed)
    rw [← same]
    exact List.mem_map_of_mem member
  idle := fun outside => ⟨coherent.noneCanceling outside, coherent.noneExpired outside⟩

/-- In every run, with callbacks that add and cancel, the containers stay indexed between
the actions, and nothing that the place of the loop thread allows fails an assertion. -/
theorem containers_stay_indexed (actions : List Action) (q : TimerQueue)
    (ran : run step init actions = some q) :
    q.Indexed ∧ ∀ action, q.Enabled action → ∃ next, q.step action = some next := by
  have coherent : q.Coherent :=
    run_invariant Coherent (fun _ _ _ coherent stepped => step_coherent coherent stepped)
      init_coherent ran
  exact ⟨coherent.indexed, fun action enabled => coherent.enabled_step enabled⟩

/-- A repeating timer and two others; the first callback cancels its own timer and one that
is not due, and adds a new one at an address that was freed. -/
def reentrant : List Action :=
  [.addTimerInLoop ⟨64, 0, 5, ⟨true, 30, by decide⟩⟩ 1, .addTimerInLoop ⟨32, 1, 6, .zero⟩ 2,
    .addTimerInLoop ⟨96, 2, 90, .zero⟩ 2, .handleRead 7, .runNext, .cancelTimerInLoop 0,
    .cancelTimerInLoop 2, .addTimerInLoop ⟨96, 3, 20, .zero⟩ 7, .callbackReturn, .runNext,
    .callbackReturn, .resetTimer 8]

theorem reentrant_stays_indexed : ∃ q, run step init reentrant = some q ∧
    q.timers.map Timer.sequence = [3] ∧ q.Indexed ∧
    ∀ action, q.Enabled action → ∃ next, q.step action = some next := by
  refine ⟨_, rfl, by decide, ?_⟩
  exact containers_stay_indexed reentrant _ rfl

end TimerQueue

end Muzi
