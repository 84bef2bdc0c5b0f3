import Muzi.TimerQueue

/-!
A history beside the timer queue: what was inserted, cancelled and started, and
the batch of the current `HandleRead`, or of the last one. It is only read by
the statements about runs. That a timer is handed to `AddTimerInLoop` once is
the one thing the history adds to the queue.
-/

namespace Muzi

open Execution TimerQueue

structure TimerHistory where
  queue : TimerQueue
  /-- The timers as they were handed to `AddTimerInLoop`. -/
  inserted : List Timer
  /-- The timers for which `CancelTimerInLoop` ran behind their insertion. -/
  cancelled : List Nat
  /-- The callbacks that were started, the latest first. -/
  started : List Nat
  batches : Nat
  /-- The clock reading of the batch. -/
  now : Int
  /-- `timers_` when the batch began. -/
  before : List Timer
  /-- The callbacks that were started in the batch, in order. -/
  batch : List Timer

namespace TimerHistory

def init : TimerHistory where
  queue := TimerQueue.init
  inserted := []
  cancelled := []
  started := []
  batches := 0
  now := 0
  before := []
  batch := []

def Inserted (h : TimerHistory) (timerId : Nat) : Prop := timerId ∈ h.inserted.map Timer.sequence

instance (h : TimerHistory) (timerId : Nat) : Decidable (h.Inserted timerId) :=
  inferInstanceAs (Decidable (_ ∈ _))

def record (h : TimerHistory) (next : TimerQueue) : Action → TimerHistory
  | .addTimerInLoop timer _ => { h with queue := next, inserted := timer :: h.inserted }
  | .cancelTimerInLoop timerId =>
      { h with
        queue := next
        cancelled := if h.Inserted timerId then timerId :: h.cancelled else h.cancelled }
  | .handleRead now =>
      { h with
        queue := next, batches := h.batches + 1, now := now, before := h.queue.timers, batch := [] }
  | .runNext =>
      let first := h.queue.unstarted.take 1
      { h with
        queue := next, started := first.map Timer.sequence ++ h.started, batch := h.batch ++ first }
  | .callbackReturn | .resetTimer _ => { h with queue := next }

def mayStep (h : TimerHistory) : Action → Bool
  | .addTimerInLoop timer _ => !decide (h.Inserted timer.sequence)
  | _ => true

def step (h : TimerHistory) (action : Action) : Option TimerHistory :=
  if h.mayStep action then (h.queue.step action).map fun next => h.record next action else none

theorem step_inversion {h next : TimerHistory} {action : Action}
    (coherent : h.queue.Coherent) (stepped : h.step action = some next) :
    h.mayStep action = true ∧
      ∃ queue, Moves h.queue action queue ∧ next = h.record queue action := by
  rw [step, Option.ite_none_right_eq_some, Option.map_eq_some_iff] at stepped
  rcases stepped with ⟨may, queue, moved, recorded⟩
  exact ⟨may, queue, step_moves coherent moved, recorded.symm⟩

theorem record_queue (h : TimerHistory) (queue : TimerQueue) (action : Action) :
    (h.record queue action).queue = queue := by
  cases action <;> rfl

def Origin (h : TimerHistory) (timer : Timer) : Prop :=
  ∃ given ∈ h.inserted, timer = { given with expiration := timer.expiration }

structure Known (h : TimerHistory) : Prop where
  coherent : h.queue.Coherent
  once : (h.inserted.map Timer.sequence).Nodup
  live : ∀ timer ∈ h.queue.live, h.Origin timer
  before : ∀ timer ∈ h.before, h.Origin timer
  batch : ∀ timer ∈ h.batch, h.Origin timer
  started : ∀ timerId ∈ h.started, h.Inserted timerId
  cancelled : ∀ timerId ∈ h.cancelled, h.Inserted timerId

theorem Origin.inserted {h : TimerHistory} {timer : Timer} (origin : h.Origin timer) :
    h.Inserted timer.sequence := by
  rcases origin with ⟨given, member, same⟩
  rw [same]
  exact List.mem_map.mpr ⟨given, member, rfl⟩

theorem Known.origin_eq {h : TimerHistory} (known : h.Known) {timer given : Timer}
    (origin : h.Origin timer) (member : given ∈ h.inserted)
    (same : timer.sequence = given.sequence) :
    timer = { given with expiration := timer.expiration } := by
  rcases origin with ⟨first, inside, equal⟩
  have shared : first.sequence = given.sequence := by
    rw [← same, equal]
  rw [List.inj_on_of_nodup_map known.once inside member shared] at equal
  exact equal

theorem Origin.mono {h next : TimerHistory} {timer : Timer} (origin : h.Origin timer)
    (kept : ∀ given ∈ h.inserted, given ∈ next.inserted) : next.Origin timer := by
  rcases origin with ⟨given, member, same⟩
  exact ⟨given, kept given member, same⟩

theorem Origin.restart {h : TimerHistory} {timer : Timer} (origin : h.Origin timer) (now : Int) :
    h.Origin (timer.restart now) := by
  rcases origin with ⟨given, member, same⟩
  refine ⟨given, member, ?_⟩
  rw [same]
  rfl

theorem init_known : init.Known where
  coherent := init_coherent
  once := List.nodup_nil
  live := nofun
  before := nofun
  batch := nofun
  started := nofun
  cancelled := nofun

theorem unstarted_live {q : TimerQueue} (coherent : q.Coherent) {timer : Timer}
    (member : timer ∈ q.unstarted) : timer ∈ q.live :=
  List.mem_append_right _ (coherent.unstarted_expired member)

theorem record_inserted (h : TimerHistory) (queue : TimerQueue) (action : Action) :
    ∀ given ∈ h.inserted, given ∈ (h.record queue action).inserted := by
  intro given member
  cases action with
  | addTimerInLoop timer clock => exact List.mem_cons_of_mem timer member
  | cancelTimerInLoop timerId => exact member
  | handleRead now => exact member
  | runNext => exact member
  | callbackReturn => exact member
  | resetTimer clock => exact member

theorem mem_cancelled_record {h : TimerHistory} {queue : TimerQueue} {timerId other : Nat}
    (member : other ∈ (h.record queue (.cancelTimerInLoop timerId)).cancelled) :
    other = timerId ∧ h.Inserted timerId ∨ other ∈ h.cancelled := by
  simp only [record] at member
  split at member
  · rename_i inserted
    rcases List.mem_cons.mp member with same | old
    · exact .inl ⟨same, inserted⟩
    · exact .inr old
  · exact .inr member

theorem cancelled_record (h : TimerHistory) (queue : TimerQueue) (action : Action) :
    ∀ timerId ∈ h.cancelled, timerId ∈ (h.record queue action).cancelled := by
  intro timerId member
  cases action with
  | addTimerInLoop timer clock => exact member
  | cancelTimerInLoop other =>
      simp only [record]
      split
      · exact List.mem_cons_of_mem other member
      · exact member
  | handleRead now => exact member
  | runNext => exact member
  | callbackReturn => exact member
  | resetTimer clock => exact member

theorem Known.grows {h next : TimerHistory} {action : Action} (known : h.Known)
    (stepped : h.step action = some next) :
    (∀ timerId, h.Inserted timerId → next.Inserted timerId) ∧
      ∀ timerId ∈ h.cancelled, timerId ∈ next.cancelled := by
  rcases step_inversion known.coherent stepped with ⟨-, queue, -, rfl⟩
  constructor
  · intro timerId member
    rcases List.mem_map.mp member with ⟨given, inside, rfl⟩
    exact List.mem_map_of_mem (record_inserted h queue action given inside)
  · exact cancelled_record h queue action

theorem Known.step {h next : TimerHistory} {action : Action} (known : h.Known)
    (stepped : h.step action = some next) : next.Known := by
  have still := (known.grows stepped).1
  rcases step_inversion known.coherent stepped with ⟨may, queue, moved, rfl⟩
  have grows := record_inserted h queue action
  have keeps : ∀ timer, h.Origin timer → (h.record queue action).Origin timer :=
    fun timer origin => origin.mono grows
  have coherent : (h.record queue action).queue.Coherent := by
    rw [record_queue]
    exact moved.coherent known.coherent
  have live : ∀ timer ∈ (h.record queue action).queue.live,
      (h.record queue action).Origin timer := by
    intro timer member
    rw [record_queue] at member
    rcases moved.live_cases known.coherent member with
      ⟨clock, rfl⟩ | old | ⟨old, expired, now, -, -, rfl⟩
    · exact ⟨timer, List.mem_cons_self, rfl⟩
    · exact keeps timer (known.live timer old)
    · exact (keeps old (known.live old (List.mem_append_right _ expired))).restart now
  cases action with
  | addTimerInLoop timer clock =>
      have fresh : ¬h.Inserted timer.sequence := by simpa [mayStep] using may
      exact {
        coherent := coherent
        once := List.nodup_cons.mpr ⟨fresh, known.once⟩
        live := live
        before := fun other member => keeps other (known.before other member)
        batch := fun other member => keeps other (known.batch other member)
        started := fun timerId member => still timerId (known.started timerId member)
        cancelled := fun timerId member => still timerId (known.cancelled timerId member) }
  | cancelTimerInLoop timerId =>
      refine ⟨coherent, known.once, live, known.before, known.batch, known.started, ?_⟩
      intro other member
      rcases mem_cancelled_record member with ⟨rfl, inserted⟩ | old
      · exact inserted
      · exact known.cancelled other old
  | handleRead now =>
      refine ⟨coherent, known.once, live, ?_, nofun, known.started, known.cancelled⟩
      intro timer member
      exact known.live timer (List.mem_append_left _ member)
  | runNext =>
      have first : ∀ timer ∈ h.queue.unstarted.take 1, h.Origin timer := by
        intro timer member
        exact known.live timer (unstarted_live known.coherent (List.mem_of_mem_take member))
      refine ⟨coherent, known.once, live, known.before, ?_, ?_, known.cancelled⟩
      · intro timer member
        rcases List.mem_append.mp member with old | new
        · exact known.batch timer old
        · exact first timer new
      · intro timerId member
        rcases List.mem_append.mp member with new | old
        · rcases List.mem_map.mp new with ⟨timer, inside, rfl⟩
          exact (first timer inside).inserted
        · exact known.started timerId old
  | callbackReturn =>
      exact ⟨coherent, known.once, live, known.before, known.batch, known.started, known.cancelled⟩
  | resetTimer clock =>
      exact ⟨coherent, known.once, live, known.before, known.batch, known.started, known.cancelled⟩

/-- The batch as a whole: the timers whose callbacks ran, then those to come. -/
def lineup (h : TimerHistory) : List Timer := h.batch ++ h.queue.unstarted

/-- Only the beginning of a batch changes what the batch consists of. -/
def lineupBehind (h : TimerHistory) : Action → List Timer
  | .handleRead now => h.queue.due now
  | _ => h.lineup

theorem lineup_step {h next : TimerHistory} {action : Action} (known : h.Known)
    (stepped : h.step action = some next) : next.lineup = h.lineupBehind action := by
  rcases step_inversion known.coherent stepped with ⟨-, queue, moved, rfl⟩
  cases moved with
  | addTimerInLoop timer clock user new => rfl
  | cancelTimerInLoop timerId user => rfl
  | handleRead now phase => exact known.coherent.handleRead_expired phase now
  | runNext now timer rest phase => simp [lineupBehind, lineup, record, unstarted, phase]
  | callbackReturn now rest phase => simp [lineupBehind, lineup, record, unstarted, phase]
  | resetTimer now clock timers active phase rearmed filed =>
      rw [resetNext_eq]
      simp [lineupBehind, lineup, record, unstarted, phase]

structure InBatch (h : TimerHistory) : Prop where
  due : ∀ timer ∈ h.lineup, timer.expiration ≤ h.now
  ascending : OrderedSet.Ascending Timer.Before h.lineup
  distinct : Timer.Distinct h.lineup
  current : ∀ now, h.queue.phase.reading = some now →
    now = h.now ∧ h.queue.expiredTimers = h.lineup

theorem init_inBatch : init.InBatch where
  due := nofun
  ascending := List.Pairwise.nil
  distinct := ⟨List.nodup_nil, List.nodup_nil⟩
  current := nofun

theorem InBatch.carry {h next : TimerHistory} (inBatch : h.InBatch) (whole : next.lineup = h.lineup)
    (now : next.now = h.now)
    (current : ∀ now, next.queue.phase.reading = some now →
      h.queue.phase.reading = some now ∧ next.queue.expiredTimers = h.queue.expiredTimers) :
    next.InBatch := by
  constructor
  · rw [whole, now]
    exact inBatch.due
  · rw [whole]
    exact inBatch.ascending
  · rw [whole]
    exact inBatch.distinct
  · intro read running
    rcases current read running with ⟨before, expired⟩
    rw [expired, whole, now]
    exact inBatch.current read before

theorem InBatch.step {h next : TimerHistory} {action : Action} (known : h.Known)
    (inBatch : h.InBatch) (stepped : h.step action = some next) : next.InBatch := by
  have whole := lineup_step known stepped
  rcases step_inversion known.coherent stepped with ⟨-, queue, moved, rfl⟩
  cases moved with
  | addTimerInLoop timer clock user new =>
      exact inBatch.carry whole rfl fun now running => ⟨running, rfl⟩
  | cancelTimerInLoop timerId user =>
      exact inBatch.carry whole rfl fun now running => ⟨running, rfl⟩
  | handleRead now phase =>
      constructor
      · intro timer member
        rw [whole] at member
        exact due_expiration member
      · rw [whole]
        exact known.coherent.filed.ascending.belowBound (expiresAfter now)
      · rw [whole]
        apply known.coherent.distinct_timers.of_sublist
        rw [← h.queue.due_append_notDue now]
        exact List.sublist_append_left _ _
      · intro read running
        cases running
        exact ⟨rfl, rfl⟩
  | runNext now timer rest phase =>
      apply inBatch.carry whole rfl
      intro read running
      rw [phase]
      exact ⟨running, rfl⟩
  | callbackReturn now rest phase =>
      apply inBatch.carry whole rfl
      intro read running
      rw [phase]
      exact ⟨running, rfl⟩
  | resetTimer now clock timers active phase rearmed filed =>
      rw [resetNext_eq] at whole ⊢
      exact inBatch.carry whole rfl nofun

theorem withdrawn_absent (q : TimerQueue) (timerId : Nat) :
    timerId ∉ (q.withdrawn timerId).timers.map Timer.sequence := by
  intro inside
  rcases List.mem_map.mp inside with ⟨timer, held, named⟩
  simpa [named] using (List.mem_filter.mp held).2

theorem withdrawn_canceling {q : TimerQueue} {other : Nat} (timerId : Nat)
    (member : other ∈ q.cancelingTimers) : other ∈ (q.withdrawn timerId).cancelingTimers := by
  simp only [withdrawn]
  split
  · exact List.mem_insert_of_mem member
  · exact member

theorem mem_withdrawn_canceling {q : TimerQueue} {timerId other : Nat}
    (member : other ∈ (q.withdrawn timerId).cancelingTimers) :
    other = timerId ∨ other ∈ q.cancelingTimers := by
  simp only [withdrawn] at member
  split at member
  · exact List.mem_insert_iff.mp member
  · exact .inr member

theorem withdrawn_expired {q : TimerQueue} (coherent : q.Coherent) {timerId : Nat}
    (expired : timerId ∈ q.expiredTimers.map Timer.sequence) :
    timerId ∈ (q.withdrawn timerId).cancelingTimers := by
  have absent : timerId ∉ q.timers.map Timer.sequence := by
    intro inside
    rcases List.mem_map.mp inside with ⟨timer, filed, rfl⟩
    rcases List.mem_map.mp expired with ⟨other, member, same⟩
    exact coherent.apart filed member same
  have executing : q.isExecutingTimers = true := by
    rw [coherent.executing]
    intro outside
    rw [coherent.noneExpired outside] at expired
    cases expired
  simp only [withdrawn, absent, executing, not_false_eq_true, and_self, if_true]
  exact List.mem_insert_self

/-- A cancelled timer is not in `timers_`, and will not be inserted again; no
other timer of the batch is kept back. -/
structure Gone (h : TimerHistory) : Prop where
  withdrawn : ∀ timerId ∈ h.cancelled, timerId ∉ h.queue.timers.map Timer.sequence
  canceling : ∀ timerId ∈ h.cancelled, timerId ∈ h.queue.expiredTimers.map Timer.sequence →
    timerId ∈ h.queue.cancelingTimers
  meant : ∀ timerId ∈ h.queue.cancelingTimers,
    timerId ∈ h.queue.expiredTimers.map Timer.sequence → timerId ∈ h.cancelled

theorem Gone.added {h : TimerHistory} (gone : h.Gone) (known : h.Known) {timer : Timer}
    (clock : Int) (fresh : ¬h.Inserted timer.sequence) :
    (h.record (h.queue.added timer clock) (.addTimerInLoop timer clock)).Gone := by
  refine ⟨?_, gone.canceling, gone.meant⟩
  intro timerId member inside
  rcases List.mem_map.mp inside with ⟨other, held, rfl⟩
  rcases List.mem_cons.mp ((h.queue.filedWith_timers timer).mem_iff.mp held) with same | old
  · subst other
    exact fresh (known.cancelled _ member)
  · exact gone.withdrawn _ member (List.mem_map_of_mem old)

theorem Gone.cancels {h : TimerHistory} (gone : h.Gone) (known : h.Known) (timerId : Nat) :
    (h.record (h.queue.withdrawn timerId) (.cancelTimerInLoop timerId)).Gone := by
  constructor
  · intro other member inside
    rcases mem_cancelled_record member with ⟨rfl, -⟩ | old
    · exact withdrawn_absent h.queue other inside
    · exact gone.withdrawn other old ((List.filter_sublist.map _).subset inside)
  · intro other member expired
    rcases mem_cancelled_record member with ⟨rfl, -⟩ | old
    · exact withdrawn_expired known.coherent expired
    · exact withdrawn_canceling timerId (gone.canceling other old expired)
  · intro other noted expired
    rcases mem_withdrawn_canceling noted with rfl | old
    · rcases List.mem_map.mp expired with ⟨timer, held, named⟩
      have inserted := (known.live timer (List.mem_append_right _ held)).inserted
      rw [named] at inserted
      simp [record, inserted]
    · exact cancelled_record h _ _ other (gone.meant other old expired)

theorem Gone.reads {h : TimerHistory} (gone : h.Gone) (known : h.Known) (now : Int)
    (phase : h.queue.phase = .outside) :
    (h.record (h.queue.handleRead now) (.handleRead now)).Gone := by
  have absent : ∀ timerId ∈ h.cancelled, ∀ timer ∈ h.queue.timers,
      timer.sequence ≠ timerId := by
    intro timerId member timer inside named
    exact gone.withdrawn timerId member (List.mem_map.mpr ⟨timer, inside, named⟩)
  have split := h.queue.due_append_notDue now
  constructor
  · intro timerId member inside
    rcases List.mem_map.mp inside with ⟨timer, held, named⟩
    have old : timer ∈ h.queue.timers := by
      rw [← split]
      exact List.mem_append_right _ held
    exact absent timerId member timer old named
  · intro timerId member inside
    rw [record_queue, known.coherent.handleRead_expired phase] at inside
    rcases List.mem_map.mp inside with ⟨timer, held, named⟩
    have old : timer ∈ h.queue.timers := by
      rw [← split]
      exact List.mem_append_left _ held
    exact absurd named (absent timerId member timer old)
  · intro timerId noted
    have none := known.coherent.noneCanceling phase
    change timerId ∈ h.queue.cancelingTimers at noted
    rw [none] at noted
    cases noted

theorem Gone.step {h next : TimerHistory} {action : Action} (known : h.Known) (gone : h.Gone)
    (stepped : h.step action = some next) : next.Gone := by
  rcases step_inversion known.coherent stepped with ⟨may, queue, moved, rfl⟩
  cases moved with
  | addTimerInLoop timer clock user new =>
      exact gone.added known clock (by simpa [mayStep] using may)
  | cancelTimerInLoop timerId user => exact gone.cancels known timerId
  | handleRead now phase => exact gone.reads known now phase
  | runNext now timer rest phase => exact ⟨gone.withdrawn, gone.canceling, gone.meant⟩
  | callbackReturn now rest phase => exact ⟨gone.withdrawn, gone.canceling, gone.meant⟩
  | resetTimer now clock timers active phase rearmed filed =>
      rw [resetNext_eq]
      refine ⟨?_, nofun, nofun⟩
      intro timerId member inside
      rcases List.mem_map.mp inside with ⟨timer, held, named⟩
      rcases List.mem_append.mp (rearmed.mem_iff.mp held) with again | stayed
      · rcases List.mem_map.mp again with ⟨old, expired, rfl⟩
        rcases List.mem_filter.mp expired with ⟨expired, repeats⟩
        have listed := gone.canceling timerId member (List.mem_map.mpr ⟨old, expired, named⟩)
        have sequence : old.sequence = timerId := named
        simp [rearms, sequence, listed] at repeats
      · exact gone.withdrawn timerId member (List.mem_map.mpr ⟨timer, stayed, named⟩)

end TimerHistory

end Muzi
