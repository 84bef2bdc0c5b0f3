import Muzi.TimerHistory

/-!
Which timers run, and when, over whole runs of the timer queue, and what a cancel
does to the rest of a batch. The proofs keep an account for each timer: how often
its callback was started, how often it is still to be started in the batch, and
how often the timer is in `timers_`.
-/

namespace Muzi.TimerHistory

open Execution TimerQueue

/-- How often a callback was started, and how often it will be in this batch. -/
def account (h : TimerHistory) (timerId : Nat) : Nat :=
  h.started.count timerId + (h.queue.unstarted.map Timer.sequence).count timerId

def filed (q : TimerQueue) (timerId : Nat) : Nat := (q.timers.map Timer.sequence).count timerId

def taken (q : TimerQueue) (timerId : Nat) : Action → Nat
  | .handleRead now => ((q.due now).map Timer.sequence).count timerId
  | _ => 0

theorem account_step {h next : TimerHistory} {action : Action} (known : h.Known)
    (stepped : h.step action = some next) (timerId : Nat) :
    next.account timerId = h.account timerId + taken h.queue timerId action := by
  rcases step_inversion known.coherent stepped with ⟨-, queue, moved, rfl⟩
  cases moved with
  | addTimerInLoop timer clock user new => rfl
  | cancelTimerInLoop other user => rfl
  | handleRead now phase =>
      have batch : (h.queue.handleRead now).unstarted = h.queue.due now :=
        known.coherent.handleRead_expired phase now
      have none : h.queue.unstarted = [] := by rw [unstarted, phase]
      rw [account, account, record_queue, batch, none, List.map_nil, List.count_nil]
      rfl
  | runNext now timer rest phase =>
      simp only [account, record, unstarted, phase, List.take_succ_cons, List.take_zero,
        List.map_cons, List.map_nil, List.cons_append, List.nil_append, List.count_cons, taken]
      omega
  | callbackReturn now rest phase =>
      simp only [account, record, unstarted, phase, taken, Nat.add_zero]
  | resetTimer now clock timers active phase rearmed filed =>
      rw [resetNext_eq]
      simp only [account, record, unstarted, phase, taken, Nat.add_zero]

theorem filed_added (q : TimerQueue) (timer : Timer) (clock : Int) (timerId : Nat) :
    filed (q.added timer clock) timerId =
      filed q timerId + if timer.sequence = timerId then 1 else 0 := by
  have perm := (q.filedWith_timers timer).map Timer.sequence
  change ((q.filedWith timer).timers.map Timer.sequence).count timerId = _
  rw [perm.count_eq, List.map_cons, List.count_cons]
  simp only [beq_iff_eq]
  rfl

theorem filed_withdrawn (q : TimerQueue) (other timerId : Nat) :
    filed (q.withdrawn other) timerId ≤ filed q timerId :=
  (List.filter_sublist.map Timer.sequence).count_le timerId

theorem filed_handleRead (q : TimerQueue) (now : Int) (timerId : Nat) :
    taken q timerId (.handleRead now) + filed (q.handleRead now) timerId = filed q timerId := by
  have whole := congrArg (fun timers => (timers.map Timer.sequence).count timerId)
    (q.due_append_notDue now)
  simp only [List.map_append, List.count_append] at whole
  exact whole

theorem filed_rearmed {q : TimerQueue} {now : Int} {timers : List Timer} {timerId : Nat}
    (rearmed : timers.Perm
      (((q.expiredTimers.filter q.rearms).map fun t => t.restart now) ++ q.timers))
    (oneShot : ∀ timer ∈ q.expiredTimers, timer.sequence = timerId → timer.isRepeated = false) :
    (timers.map Timer.sequence).count timerId = filed q timerId := by
  have none : timerId ∉
      ((q.expiredTimers.filter q.rearms).map fun t => t.restart now).map Timer.sequence := by
    intro inside
    rw [List.map_map] at inside
    rcases List.mem_map.mp inside with ⟨old, held, named⟩
    rcases List.mem_filter.mp held with ⟨expired, repeats⟩
    rw [rearms, oneShot old expired named] at repeats
    cases repeats
  rw [(rearmed.map Timer.sequence).count_eq, List.map_append, List.count_append,
    List.count_eq_zero.mpr none, Nat.zero_add]
  rfl

theorem Known.nothing {h : TimerHistory} (known : h.Known) {timerId : Nat}
    (new : ¬h.Inserted timerId) : h.account timerId = 0 ∧ filed h.queue timerId = 0 := by
  have absent : ∀ timers : List Timer, (∀ timer ∈ timers, timer ∈ h.queue.live) →
      (timers.map Timer.sequence).count timerId = 0 := by
    intro timers alive
    rw [List.count_eq_zero]
    intro inside
    rcases List.mem_map.mp inside with ⟨timer, member, rfl⟩
    exact new (known.live timer (alive timer member)).inserted
  have started : timerId ∉ h.started := fun member => new (known.started timerId member)
  constructor
  · rw [account, List.count_eq_zero.mpr started,
      absent _ fun timer => unstarted_live known.coherent]
  · exact absent _ fun timer => List.mem_append_left _

/-- A one-shot timer is in `timers_`, or in the batch, or ran, or was cancelled. -/
def Single (h : TimerHistory) : Prop :=
  ∀ timer ∈ h.inserted, timer.isRepeated = false →
    h.account timer.sequence + filed h.queue timer.sequence ≤ 1

theorem Single.step {h next : TimerHistory} {action : Action} (known : h.Known)
    (single : h.Single) (stepped : h.step action = some next) : next.Single := by
  intro timer member oneShot
  rw [account_step known stepped]
  rcases step_inversion known.coherent stepped with ⟨may, queue, moved, rfl⟩
  cases moved with
  | addTimerInLoop added clock user new =>
      have fresh : ¬h.Inserted added.sequence := by simpa [mayStep] using may
      rw [record_queue, filed_added]
      rcases List.mem_cons.mp member with same | old
      · subst timer
        rcases known.nothing fresh with ⟨unused, absent⟩
        simp [unused, absent, taken]
      · have different : added.sequence ≠ timer.sequence := by
          intro shared
          apply fresh
          rw [shared]
          exact List.mem_map_of_mem old
        rw [if_neg different]
        exact single timer old oneShot
  | cancelTimerInLoop other user =>
      have fewer := filed_withdrawn h.queue other timer.sequence
      exact (Nat.add_le_add_left fewer _).trans (single timer member oneShot)
  | handleRead now phase =>
      rw [record_queue, Nat.add_assoc, filed_handleRead]
      exact single timer member oneShot
  | runNext now first rest phase => exact single timer member oneShot
  | callbackReturn now rest phase => exact single timer member oneShot
  | resetTimer now clock timers active phase rearmed filed =>
      have same : (timers.map Timer.sequence).count timer.sequence =
          TimerHistory.filed h.queue timer.sequence := by
        apply filed_rearmed rearmed
        intro old expired named
        have origin := known.live old (List.mem_append_right _ expired)
        rw [known.origin_eq origin member named]
        exact oneShot
      rw [resetNext_eq]
      change _ + (timers.map Timer.sequence).count timer.sequence ≤ 1
      rw [same]
      exact single timer member oneShot

def RanInBatch (h : TimerHistory) (timerId : Nat) : Prop := timerId ∈ h.batch.map Timer.sequence

/-- What the batch makes of a repeating timer: it is due one interval behind the
batch if it ran there, and else as it was when the batch began, or when it was
inserted since. -/
def Rescheduled (h : TimerHistory) (given timer : Timer) : Prop :=
  (h.RanInBatch given.sequence → timer.expiration = h.now + given.interval.usecs) ∧
    (¬h.RanInBatch given.sequence →
      timer ∈ h.before ∨ timer = given ∧ given.sequence ∉ h.before.map Timer.sequence)

/-- A timer is in `timers_`, or in the batch and to be inserted again. -/
def Present (h : TimerHistory) (given : Timer) : Prop :=
  ∃ timer, timer.sequence = given.sequence ∧
    (timer ∈ h.queue.timers ∧ h.Rescheduled given timer ∨
      timer ∈ h.queue.expiredTimers ∧ timer ∈ h.before)

theorem Known.added_present {h : TimerHistory} (known : h.Known) {added : Timer}
    (fresh : ¬h.Inserted added.sequence) (clock : Int) :
    (h.record (h.queue.added added clock) (.addTimerInLoop added clock)).Present added := by
  have unnamed : ∀ timers : List Timer, (∀ timer ∈ timers, h.Origin timer) →
      added.sequence ∉ timers.map Timer.sequence := by
    intro timers origins inside
    rcases List.mem_map.mp inside with ⟨other, member, named⟩
    apply fresh
    rw [← named]
    exact (origins other member).inserted
  have filed : added ∈ (h.queue.filedWith added).timers :=
    (h.queue.filedWith_timers added).mem_iff.mpr List.mem_cons_self
  refine ⟨added, rfl, .inl ⟨filed, ?_, ?_⟩⟩
  · intro ran
    exact absurd ran (unnamed h.batch known.batch)
  · intro _
    exact .inr ⟨rfl, unnamed h.before known.before⟩

theorem Present.added {h : TimerHistory} {given : Timer} (present : h.Present given)
    (timer : Timer) (clock : Int) :
    (h.record (h.queue.added timer clock) (.addTimerInLoop timer clock)).Present given := by
  rcases present with ⟨held, named, ⟨filed, rescheduled⟩ | expired⟩
  · have still : held ∈ (h.queue.filedWith timer).timers :=
      (h.queue.filedWith_timers timer).mem_iff.mpr (List.mem_cons_of_mem timer filed)
    exact ⟨held, named, .inl ⟨still, rescheduled⟩⟩
  · exact ⟨held, named, .inr expired⟩

theorem Present.withdrawn {h : TimerHistory} {given : Timer} (present : h.Present given)
    {timerId : Nat} (other : given.sequence ≠ timerId) :
    (h.record (h.queue.withdrawn timerId) (.cancelTimerInLoop timerId)).Present given := by
  rcases present with ⟨held, named, ⟨filed, rescheduled⟩ | expired⟩
  · refine ⟨held, named, .inl ⟨List.mem_filter.mpr ⟨filed, ?_⟩, rescheduled⟩⟩
    rw [named]
    exact bne_iff_ne.mpr other
  · exact ⟨held, named, .inr expired⟩

theorem Present.handleRead {h : TimerHistory} {given : Timer} (known : h.Known)
    (present : h.Present given) (phase : h.queue.phase = .outside) (now : Int) :
    (h.record (h.queue.handleRead now) (.handleRead now)).Present given := by
  rcases present with ⟨timer, named, ⟨filed, -⟩ | ⟨expired, -⟩⟩
  · refine ⟨timer, named, ?_⟩
    have split := filed
    rw [← h.queue.due_append_notDue now] at split
    rcases List.mem_append.mp split with due | notDue
    · right
      refine ⟨?_, filed⟩
      rw [record_queue, known.coherent.handleRead_expired phase]
      exact due
    · exact .inl ⟨notDue, nofun, fun _ => .inl filed⟩
  · rw [known.coherent.noneExpired phase] at expired
    cases expired

theorem Present.runNext {h : TimerHistory} {given first : Timer} {now : Int} {rest : List Timer}
    (known : h.Known) (present : h.Present given)
    (phase : h.queue.phase = .running now (first :: rest)) :
    (h.record { h.queue with phase := .inCallback now rest } .runNext).Present given := by
  rcases present with ⟨timer, named, ⟨filed, rescheduled⟩ | expired⟩
  · have listed : first ∈ h.queue.unstarted := by
      rw [unstarted, phase]
      exact List.mem_cons_self
    -- the callback that starts is not the one of a timer in `timers_`
    have other := known.coherent.apart filed (known.coherent.unstarted_expired listed)
    rw [named] at other
    have same : (h.record { h.queue with phase := .inCallback now rest } .runNext).RanInBatch
        given.sequence ↔ h.RanInBatch given.sequence := by
      simp [RanInBatch, record, unstarted, phase, Ne.symm other]
    refine ⟨timer, named, .inl ⟨filed, ?_, ?_⟩⟩
    · rw [same]
      exact rescheduled.1
    · rw [same]
      exact rescheduled.2
  · exact ⟨timer, named, .inr expired⟩

theorem rearms_of_uncancelled {h : TimerHistory} {given timer : Timer} (known : h.Known)
    (gone : h.Gone) (member : given ∈ h.inserted) (repeats : given.isRepeated = true)
    (uncancelled : given.sequence ∉ h.cancelled) (expired : timer ∈ h.queue.expiredTimers)
    (named : timer.sequence = given.sequence) :
    h.queue.rearms timer = true ∧ timer.interval = given.interval := by
  have origin := known.live timer (List.mem_append_right _ expired)
  have interval : timer.interval = given.interval := by
    rw [known.origin_eq origin member named]
  have free : timer.sequence ∉ h.queue.cancelingTimers := by
    intro noted
    have cancelled := gone.meant _ noted (List.mem_map_of_mem expired)
    rw [named] at cancelled
    exact uncancelled cancelled
  rw [Timer.isRepeated, ← interval] at repeats
  refine ⟨?_, interval⟩
  simp [rearms, Timer.isRepeated, repeats, free]

/-- A repeating timer is present until it is cancelled. -/
def Kept (h : TimerHistory) : Prop :=
  ∀ given ∈ h.inserted, given.isRepeated = true → given.sequence ∉ h.cancelled → h.Present given

theorem Kept.step {h next : TimerHistory} {action : Action} (known : h.Known) (inBatch : h.InBatch)
    (gone : h.Gone) (kept : h.Kept) (stepped : h.step action = some next) : next.Kept := by
  rcases step_inversion known.coherent stepped with ⟨may, queue, moved, rfl⟩
  intro given member repeats uncancelled
  have before : given.sequence ∉ h.cancelled :=
    fun cancelled => uncancelled (cancelled_record h queue action _ cancelled)
  cases moved with
  | addTimerInLoop added clock user new =>
      have fresh : ¬h.Inserted added.sequence := by simpa [mayStep] using may
      rcases List.mem_cons.mp member with same | old
      · subst given
        exact known.added_present fresh clock
      · exact (kept given old repeats before).added added clock
  | cancelTimerInLoop timerId user =>
      have inserted : h.Inserted given.sequence := List.mem_map_of_mem member
      have other : given.sequence ≠ timerId := by
        rintro rfl
        apply uncancelled
        simp [record, inserted]
      exact (kept given member repeats before).withdrawn other
  | handleRead now phase => exact (kept given member repeats before).handleRead known phase now
  | runNext now first rest phase => exact (kept given member repeats before).runNext known phase
  | callbackReturn now rest phase => exact kept given member repeats before
  | resetTimer now clock timers active phase rearmed filed =>
      rw [resetNext_eq]
      rcases kept given member repeats before with
        ⟨timer, named, ⟨stayed, rescheduled⟩ | ⟨expired, -⟩⟩
      · have still := rearmed.mem_iff.mpr (List.mem_append_right _ stayed)
        exact ⟨timer, named, .inl ⟨still, rescheduled⟩⟩
      · rcases rearms_of_uncancelled known gone member repeats before expired named with
          ⟨again, interval⟩
        rcases inBatch.current now (by rw [phase]; rfl) with ⟨rfl, whole⟩
        -- nothing of the batch is left, so the timer ran
        have ran : h.RanInBatch given.sequence := by
          rw [whole, lineup, unstarted, phase, List.append_nil] at expired
          rw [← named]
          exact List.mem_map_of_mem expired
        refine ⟨timer.restart h.now, named, .inl ⟨?_, ?_, fun idle => absurd ran idle⟩⟩
        · apply rearmed.mem_iff.mpr
          apply List.mem_append_left
          exact List.mem_map.mpr ⟨timer, List.mem_filter.mpr ⟨expired, again⟩, rfl⟩
        · intro _
          rw [← interval]
          rfl

structure Sound (h : TimerHistory) : Prop where
  known : h.Known
  inBatch : h.InBatch
  gone : h.Gone
  single : h.Single
  kept : h.Kept

theorem init_sound : init.Sound where
  known := init_known
  inBatch := init_inBatch
  gone := ⟨nofun, nofun, nofun⟩
  single := nofun
  kept := nofun

theorem Sound.step {h next : TimerHistory} {action : Action} (sound : h.Sound)
    (stepped : h.step action = some next) : next.Sound where
  known := sound.known.step stepped
  inBatch := sound.inBatch.step sound.known stepped
  gone := sound.gone.step sound.known stepped
  single := sound.single.step sound.known stepped
  kept := sound.kept.step sound.known sound.inBatch sound.gone stepped

theorem run_sound {actions : List Action} {h final : TimerHistory} (sound : h.Sound)
    (ran : run TimerHistory.step h actions = some final) : final.Sound :=
  run_invariant Sound (fun _ _ _ sound stepped => sound.step stepped) sound ran

/-- Behind a batch, and until the next one, each repeating timer that was not
cancelled is in `timers_` exactly once. -/
def RepeatingKept (h : TimerHistory) : Prop :=
  h.queue.phase = .outside → ∀ given ∈ h.inserted, given.isRepeated = true →
    given.sequence ∉ h.cancelled →
      ∃ timer, (h.queue.timers.filter fun other => other.sequence == given.sequence) = [timer] ∧
        timer = { given with expiration := timer.expiration } ∧ h.Rescheduled given timer

theorem Sound.repeatingKept {h : TimerHistory} (sound : h.Sound) : h.RepeatingKept := by
  intro outside given member repeats uncancelled
  rcases sound.kept given member repeats uncancelled with
    ⟨timer, named, ⟨filed, rescheduled⟩ | ⟨expired, -⟩⟩
  · have origin := sound.known.live timer (List.mem_append_left _ filed)
    refine ⟨timer, ?_, sound.known.origin_eq origin member named, rescheduled⟩
    rw [← named]
    exact sound.known.coherent.distinct_timers.filter_sequence filed
  · rw [sound.known.coherent.noneExpired outside] at expired
    cases expired

/-- The run of a timer queue, whatever the callbacks add and cancel and whatever
the clock reads: only due timers run, in the order of their expirations and once
in a batch; a one-shot timer runs once at most; a cancelled timer is not in
`timers_` again; a repeating timer that was not cancelled is there exactly once
outside the batches, rescheduled by the last batch if it ran there. -/
theorem timers_fire_as_scheduled (actions : List Action) (final : TimerHistory)
    (ran : run TimerHistory.step init actions = some final) :
    (∀ timer ∈ final.batch, timer.expiration ≤ final.now) ∧
      (final.batch.Pairwise fun s t => s.expiration ≤ t.expiration) ∧
      (final.batch.map Timer.sequence).Nodup ∧
      (∀ timer ∈ final.inserted, timer.isRepeated = false →
        final.started.count timer.sequence ≤ 1) ∧
      (∀ timerId ∈ final.cancelled, timerId ∉ final.queue.timers.map Timer.sequence) ∧
      final.RepeatingKept := by
  have sound := run_sound init_sound ran
  have part : final.batch.Sublist final.lineup := List.sublist_append_left _ _
  refine ⟨?_, ?_, ?_, ?_, sound.gone.withdrawn, sound.repeatingKept⟩
  · intro timer member
    exact sound.inBatch.due timer (part.subset member)
  · exact (sound.inBatch.ascending.sublist part).imp fun before => before.expiration_le
  · exact (sound.inBatch.distinct.of_sublist part).sequences
  · intro timer member oneShot
    have once := sound.single timer member oneShot
    rw [account] at once
    omega

def oneShot (addr sequence : Nat) (expiration : Int) : Timer :=
  ⟨addr, sequence, expiration, .zero⟩

def repeating (addr sequence : Nat) (expiration : Int) : Timer :=
  ⟨addr, sequence, expiration, ⟨true, 10, by decide⟩⟩

def heartbeat : List Action :=
  [.addTimerInLoop (repeating 64 0 6) 1, .addTimerInLoop (oneShot 32 1 5) 2, .handleRead 7,
    .runNext, .addTimerInLoop (repeating 96 2 7) 8, .callbackReturn, .runNext, .callbackReturn,
    .resetTimer 9]

theorem heartbeat_fires_as_scheduled : ∃ final, run TimerHistory.step init heartbeat = some final ∧
    final.batch = [oneShot 32 1 5, repeating 64 0 6] ∧
      final.queue.timers = [repeating 96 2 7, repeating 64 0 17] ∧ final.RepeatingKept :=
  ⟨_, rfl, rfl, rfl, (timers_fire_as_scheduled heartbeat _ rfl).2.2.2.2.2⟩

def Waits (h : TimerHistory) (timerId : Nat) : Prop :=
  timerId ∈ h.queue.unstarted.map Timer.sequence

instance (h : TimerHistory) (timerId : Nat) : Decidable (h.Waits timerId) :=
  inferInstanceAs (Decidable (_ ∈ _))

theorem Sound.account_eq {h : TimerHistory} (sound : h.Sound) (timerId : Nat) :
    h.account timerId = h.started.count timerId + if h.Waits timerId then 1 else 0 := by
  have sequences : (h.queue.unstarted.map Timer.sequence).Nodup :=
    (sound.inBatch.distinct.of_sublist (List.sublist_append_right _ _)).sequences
  rw [account]
  split
  · rename_i waits
    rw [List.count_eq_one_of_mem sequences waits]
  · rename_i idle
    rw [List.count_eq_zero.mpr idle]

theorem taken_le (q : TimerQueue) (timerId : Nat) (action : Action) :
    taken q timerId action ≤ filed q timerId := by
  cases action with
  | handleRead now =>
      rw [← filed_handleRead q now timerId]
      exact Nat.le_add_right _ _
  | addTimerInLoop timer clock => exact Nat.zero_le _
  | cancelTimerInLoop other => exact Nat.zero_le _
  | runNext => exact Nat.zero_le _
  | callbackReturn => exact Nat.zero_le _
  | resetTimer clock => exact Nat.zero_le _

theorem waits_step {h next : TimerHistory} {action : Action} {timerId : Nat} (known : h.Known)
    (stepped : h.step action = some next) (waits : next.Waits timerId) :
    h.Waits timerId ∧ next.batches = h.batches ∨
      timerId ∈ h.queue.timers.map Timer.sequence := by
  rcases step_inversion known.coherent stepped with ⟨-, queue, moved, rfl⟩
  rw [Waits, record_queue] at waits
  cases moved with
  | addTimerInLoop timer clock user new => exact .inl ⟨waits, rfl⟩
  | cancelTimerInLoop other user => exact .inl ⟨waits, rfl⟩
  | handleRead now phase =>
      right
      have batch : (h.queue.handleRead now).unstarted = h.queue.due now :=
        known.coherent.handleRead_expired phase now
      rw [batch] at waits
      rw [← h.queue.due_append_notDue now, List.map_append]
      exact List.mem_append_left _ waits
  | runNext now timer rest phase =>
      refine .inl ⟨?_, rfl⟩
      rw [Waits, unstarted, phase]
      exact List.mem_cons_of_mem _ waits
  | callbackReturn now rest phase =>
      refine .inl ⟨?_, rfl⟩
      rw [Waits, unstarted, phase]
      exact waits
  | resetTimer now clock timers active phase rearmed filed =>
      rw [resetNext_eq] at waits
      cases waits

/-- Behind a cancel, the account of the timer is closed, and its callback waits in
no later batch. -/
structure Closed (timerId starts batches : Nat) (h : TimerHistory) : Prop where
  sound : h.Sound
  cancelled : timerId ∈ h.cancelled
  account : h.account timerId = starts
  batch : h.Waits timerId → h.batches = batches

theorem Closed.step {timerId starts batches : Nat} {h next : TimerHistory} {action : Action}
    (closed : Closed timerId starts batches h) (stepped : h.step action = some next) :
    Closed timerId starts batches next := by
  have known := closed.sound.known
  have absent := closed.sound.gone.withdrawn timerId closed.cancelled
  have none : taken h.queue timerId action = 0 := by
    have limit := taken_le h.queue timerId action
    rw [filed, List.count_eq_zero.mpr absent] at limit
    exact Nat.le_zero.mp limit
  constructor
  · exact closed.sound.step stepped
  · rcases step_inversion known.coherent stepped with ⟨-, queue, -, rfl⟩
    exact cancelled_record h queue action timerId closed.cancelled
  · rw [account_step known stepped, none]
    exact closed.account
  · intro waits
    rcases waits_step known stepped waits with ⟨before, same⟩ | inside
    · rw [same]
      exact closed.batch before
    · exact absurd inside absent

theorem Sound.closed {h next : TimerHistory} {timerId : Nat} (sound : h.Sound)
    (inserted : h.Inserted timerId)
    (stepped : h.step (.cancelTimerInLoop timerId) = some next) :
    Closed timerId (h.account timerId) h.batches next := by
  constructor
  · exact sound.step stepped
  · rcases step_inversion sound.known.coherent stepped with ⟨-, queue, -, rfl⟩
    simp [record, inserted]
  · exact account_step sound.known stepped timerId
  · intro _
    rcases step_inversion sound.known.coherent stepped with ⟨-, queue, -, rfl⟩
    rfl

/-- Behind `CancelTimerInLoop` the callback is not started again, except once in
the rest of the current batch if it was still to be started there. -/
theorem cancelled_runs_in_remainder_only (before later : List Action) (timerId : Nat)
    (h next final : TimerHistory) (ran : run TimerHistory.step init before = some h)
    (inserted : h.Inserted timerId)
    (cancels : h.step (.cancelTimerInLoop timerId) = some next)
    (further : run TimerHistory.step next later = some final) :
    (final.started.count timerId + if final.Waits timerId then 1 else 0) =
        (h.started.count timerId + if h.Waits timerId then 1 else 0) ∧
      (final.Waits timerId → final.batches = h.batches) := by
  have sound := run_sound init_sound ran
  have closed : Closed timerId (h.account timerId) h.batches final :=
    run_invariant _ (fun _ _ _ closed stepped => closed.step stepped)
      (sound.closed inserted cancels) further
  rw [← closed.sound.account_eq, ← sound.account_eq]
  exact ⟨closed.account, closed.batch⟩

def twoDue : List Action :=
  [.addTimerInLoop (oneShot 32 0 5) 1, .addTimerInLoop (repeating 64 1 6) 2, .handleRead 7,
    .runNext]

def remainder : List Action :=
  [.callbackReturn, .runNext, .callbackReturn, .resetTimer 8, .handleRead 50]

theorem cancelled_runs_once_more : ∃ h next final,
    run TimerHistory.step init twoDue = some h ∧ h.Waits 1 ∧
      h.step (.cancelTimerInLoop 1) = some next ∧
      run TimerHistory.step next remainder = some final ∧ ¬final.Waits 1 ∧
      final.started.count 1 = h.started.count 1 + 1 := by
  refine ⟨_, _, _, rfl, by decide, rfl, rfl, by decide, ?_⟩
  exact (cancelled_runs_in_remainder_only twoDue remainder 1 _ _ _ rfl (by decide) rfl rfl).1

/-- The callback of timer 0 cancels timer 1 of the same batch, which runs all the
same. -/
theorem cancelled_still_starts : ∃ h next final,
    run TimerHistory.step init twoDue = some h ∧ h.Inserted 1 ∧ 1 ∉ h.started ∧
      h.step (.cancelTimerInLoop 1) = some next ∧
      run TimerHistory.step next [.callbackReturn, .runNext] = some final ∧ 1 ∈ final.started :=
  ⟨_, _, _, rfl, by decide, by decide, rfl, rfl, by decide⟩

end Muzi.TimerHistory
