import Mathlib.Logic.Function.Basic
import Muzi.Channel
import Muzi.Execution

/-!
net/poller/epoll_poller.cc over any number of channels. The kernel's epoll set,
`channels_` and the `index_` of each channel are three copies of one fact. A
channel is named by its address; what `epoll_ctl` answers is computed from the
set, and a refused call ends the process as `LOG_SYSFAT` does. The notes `ctls`
and `done` are of the model only.
-/

namespace Muzi.EpollPoller

open Execution Channel

inductive CtlOp where
  | add
  | mod
  | del
  deriving DecidableEq

/-- The kernel's epoll set: the events asked for, and the channel in `data.ptr`. -/
abbrev EpollSet := Nat → Option (Mask × Nat)

/-- `epoll_ctl` refuses to add an fd that is there, and to change or delete one
that is not. -/
def epollCtl (set : EpollSet) (op : CtlOp) (fd : Nat) (event : Mask × Nat) : Option EpollSet :=
  match op, set fd with
  | .add, none => some (Function.update set fd (some event))
  | .mod, some _ => some (Function.update set fd (some event))
  | .del, some _ => some (Function.update set fd none)
  | _, _ => none

structure Ctl where
  op : CtlOp
  fd : Nat
  present : Bool
  deriving DecidableEq

def Ctl.Valid (ctl : Ctl) : Prop := ctl.present = decide (ctl.op ≠ .add)

structure Object where
  fd : Nat
  events : Mask
  index : FdStatus
  deriving DecidableEq

inductive Operation where
  | enableReading
  | disableReading
  | enableWritting
  | disableWritting
  | disableAll
  | remove
  deriving DecidableEq

def Operation.events : Operation → Mask → Mask
  | .enableReading, events => events ||| kReadEvent
  | .disableReading, events => events &&& ~~~kReadEvent
  | .enableWritting, events => events ||| kWriteEvent
  | .disableWritting, events => events &&& ~~~kWriteEvent
  | .disableAll, _ => kNoneEvent
  | .remove, events => events

def Operation.apply : Operation → Channel → Channel
  | .enableReading => Channel.enableReading
  | .disableReading => Channel.disableReading
  | .enableWritting => Channel.enableWritting
  | .disableWritting => Channel.disableWritting
  | .disableAll => Channel.disableAll
  | .remove => Channel.remove

structure System where
  objects : Nat → Object
  channels : Nat → Option Nat
  epoll : EpollSet
  fatal : Bool
  ctls : List Ctl
  done : List (Nat × Operation)

namespace System

/-- Fresh channels; `fd` gives their file descriptors. -/
def init (fd : Nat → Nat) : System where
  objects id := ⟨fd id, kNoneEvent, .kNew⟩
  channels _ := none
  epoll _ := none
  fatal := false
  ctls := []
  done := []

def setIndex (s : System) (id : Nat) (index : FdStatus) : System :=
  { s with objects := Function.update s.objects id { s.objects id with index := index } }

def setEvents (s : System) (id : Nat) (events : Mask) : System :=
  { s with objects := Function.update s.objects id { s.objects id with events := events } }

def setChannel (s : System) (fd : Nat) (channel : Option Nat) : System :=
  { s with channels := Function.update s.channels fd channel }

def update (s : System) (op : CtlOp) (id : Nat) : System :=
  let fd := (s.objects id).fd
  let called : System := { s with ctls := s.ctls ++ [⟨op, fd, (s.epoll fd).isSome⟩] }
  match epollCtl s.epoll op fd ((s.objects id).events, id) with
  | some epoll => { called with epoll := epoll }
  | none => { called with fatal := true }

/-- `EpollPoller::UpdateChannel`; its asserts are compiled out. -/
def updateChannel (s : System) (id : Nat) : System :=
  match (s.objects id).index with
  | .kNew => ((s.setChannel (s.objects id).fd (some id)).setIndex id .kAdded).update .add id
  | .kDeleted => (s.setIndex id .kAdded).update .add id
  | .kAdded =>
      if (s.objects id).events = kNoneEvent then (s.update .del id).setIndex id .kDeleted
      else s.update .mod id

/-- `EpollPoller::RemoveChannel`; `index_` stays as it is. -/
def removeChannel (s : System) (id : Nat) : System :=
  match (s.objects id).index with
  | .kAdded => (s.update .del id).setChannel (s.objects id).fd none
  | .kDeleted => s.setChannel (s.objects id).fd none
  | .kNew => s

def perform (s : System) (id : Nat) (op : Operation) : System :=
  let s : System := { s with done := s.done ++ [(id, op)] }
  match op with
  | .remove => s.removeChannel id
  | op => (s.setEvents id (op.events (s.objects id).events)).updateChannel id

def step (s : System) (action : Nat × Operation) : Option System :=
  some (if s.fatal then s else s.perform action.1 action.2)

def Removed (s : System) (id : Nat) : Prop := (id, .remove) ∈ s.done

def Updated (s : System) (id : Nat) : Prop := ∃ op, op ≠ .remove ∧ (id, op) ∈ s.done

/-- `Remove` is the last call on a channel. -/
def Orderly (s : System) (action : Nat × Operation) : Prop := ¬s.Removed action.1

instance (s : System) (action : Nat × Operation) : Decidable (s.Orderly action) :=
  inferInstanceAs (Decidable (¬(action.1, Operation.remove) ∈ s.done))

/-! What one call changes: the channel, its fd in both tables, and nothing else. -/

structure Local (id fd : Nat) (s next : System) : Prop where
  object : ∀ other, other ≠ id → next.objects other = s.objects other
  sameFd : (next.objects id).fd = (s.objects id).fd
  channel : ∀ other, other ≠ fd → next.channels other = s.channels other
  epoll : ∀ other, other ≠ fd → next.epoll other = s.epoll other

theorem Local.refl (id fd : Nat) (s : System) : Local id fd s s :=
  ⟨fun _ _ => rfl, rfl, fun _ _ => rfl, fun _ _ => rfl⟩

theorem Local.trans {id fd : Nat} {s middle next : System} (first : Local id fd s middle)
    (second : Local id fd middle next) : Local id fd s next where
  object other apart := (second.object other apart).trans (first.object other apart)
  sameFd := second.sameFd.trans first.sameFd
  channel other apart := (second.channel other apart).trans (first.channel other apart)
  epoll other apart := (second.epoll other apart).trans (first.epoll other apart)

theorem setIndex_local (s : System) (id fd : Nat) (index : FdStatus) :
    Local id fd s (s.setIndex id index) := by
  refine ⟨fun other apart => ?_, ?_, fun _ _ => rfl, fun _ _ => rfl⟩
  · exact Function.update_of_ne apart _ _
  · simp [setIndex]

theorem setEvents_local (s : System) (id fd : Nat) (events : Mask) :
    Local id fd s (s.setEvents id events) := by
  refine ⟨fun other apart => ?_, ?_, fun _ _ => rfl, fun _ _ => rfl⟩
  · exact Function.update_of_ne apart _ _
  · simp [setEvents]

theorem setChannel_local (s : System) (id fd : Nat) (channel : Option Nat) :
    Local id fd s (s.setChannel fd channel) :=
  ⟨fun _ _ => rfl, rfl, fun _ apart => Function.update_of_ne apart _ _, fun _ _ => rfl⟩

theorem epollCtl_other {set after : EpollSet} {op : CtlOp} {fd other : Nat}
    {event : Mask × Nat} (apart : other ≠ fd) (answered : epollCtl set op fd event = some after) :
    after other = set other := by
  unfold epollCtl at answered
  split at answered
  · cases answered
    exact Function.update_of_ne apart _ _
  · cases answered
    exact Function.update_of_ne apart _ _
  · cases answered
    exact Function.update_of_ne apart _ _
  · cases answered

theorem update_local (s : System) (op : CtlOp) (id : Nat) :
    Local id (s.objects id).fd s (s.update op id) := by
  unfold update
  dsimp only
  split
  · rename_i epoll answered
    exact ⟨fun _ _ => rfl, rfl, fun _ _ => rfl, fun _ apart => epollCtl_other apart answered⟩
  · exact ⟨fun _ _ => rfl, rfl, fun _ _ => rfl, fun _ _ => rfl⟩

theorem updateChannel_local (s : System) (id : Nat) :
    Local id (s.objects id).fd s (s.updateChannel id) := by
  -- The fd stays, so the same place of the tables is meant before and after.
  have after : ∀ {middle : System} (op : CtlOp), Local id (s.objects id).fd s middle →
      Local id (s.objects id).fd s (middle.update op id) := by
    intro middle op first
    have second := middle.update_local op id
    rw [first.sameFd] at second
    exact first.trans second
  unfold updateChannel
  split
  · exact after .add ((setChannel_local s id _ _).trans (setIndex_local _ id _ _))
  · exact after .add (setIndex_local s id _ _)
  · split
    · exact (after .del (.refl id _ s)).trans (setIndex_local _ id _ _)
    · exact after .mod (.refl id _ s)

theorem removeChannel_local (s : System) (id : Nat) :
    Local id (s.objects id).fd s (s.removeChannel id) := by
  unfold removeChannel
  split
  · exact (s.update_local .del id).trans (setChannel_local _ id _ _)
  · exact setChannel_local s id _ _
  · exact .refl id _ s

theorem perform_local (s : System) (id : Nat) (op : Operation) :
    Local id (s.objects id).fd s (s.perform id op) := by
  have noted : Local id (s.objects id).fd s { s with done := s.done ++ [(id, op)] } :=
    ⟨fun _ _ => rfl, rfl, fun _ _ => rfl, fun _ _ => rfl⟩
  unfold perform
  dsimp only
  split
  · exact noted.trans (removeChannel_local { s with done := s.done ++ [(id, .remove)] } id)
  · have changed := noted.trans (setEvents_local _ id _ (op.events (s.objects id).events))
    have called := updateChannel_local
      (({ s with done := s.done ++ [(id, op)] } : System).setEvents id
        (op.events (s.objects id).events)) id
    rw [changed.sameFd] at called
    exact changed.trans called

theorem update_done (s : System) (op : CtlOp) (id : Nat) : (s.update op id).done = s.done := by
  unfold update
  dsimp only
  split <;> rfl

theorem updateChannel_done (s : System) (id : Nat) : (s.updateChannel id).done = s.done := by
  unfold updateChannel
  split
  · exact update_done _ _ _
  · exact update_done _ _ _
  · split
    · exact update_done _ _ _
    · exact update_done _ _ _

theorem perform_done (s : System) (id : Nat) (op : Operation) :
    (s.perform id op).done = s.done ++ [(id, op)] := by
  unfold perform
  dsimp only
  split
  · unfold removeChannel
    split
    · exact update_done _ _ _
    · rfl
    · rfl
  · exact updateChannel_done _ _

theorem perform_removed (s : System) (id : Nat) (op : Operation) (other : Nat) :
    (s.perform id op).Removed other ↔ s.Removed other ∨ other = id ∧ op = .remove := by
  rw [Removed, perform_done]
  simp [Removed, eq_comm]

theorem perform_updated (s : System) (id : Nat) (op : Operation) (other : Nat) :
    (s.perform id op).Updated other ↔ s.Updated other ∨ other = id ∧ op ≠ .remove := by
  simp only [Updated, perform_done, List.mem_append, List.mem_singleton, Prod.mk.injEq]
  constructor
  · rintro ⟨other, real, old | ⟨rfl, rfl⟩⟩
    · exact .inl ⟨other, real, old⟩
    · exact .inr ⟨rfl, real⟩
  · rintro (⟨other, real, old⟩ | ⟨rfl, real⟩)
    · exact ⟨other, real, .inl old⟩
    · exact ⟨op, real, .inr ⟨rfl, rfl⟩⟩

/-! The answers of `epoll_ctl`. -/

theorem update_add {s : System} {id : Nat} (absent : s.epoll (s.objects id).fd = none) :
    s.update .add id =
      { s with
        ctls := s.ctls ++ [⟨.add, (s.objects id).fd, false⟩]
        epoll := Function.update s.epoll (s.objects id).fd
          (some ((s.objects id).events, id)) } := by
  simp [update, epollCtl, absent]

theorem update_mod {s : System} {id : Nat} {event : Mask × Nat}
    (present : s.epoll (s.objects id).fd = some event) :
    s.update .mod id =
      { s with
        ctls := s.ctls ++ [⟨.mod, (s.objects id).fd, true⟩]
        epoll := Function.update s.epoll (s.objects id).fd
          (some ((s.objects id).events, id)) } := by
  simp [update, epollCtl, present]

theorem update_del {s : System} {id : Nat} {event : Mask × Nat}
    (present : s.epoll (s.objects id).fd = some event) :
    s.update .del id =
      { s with
        ctls := s.ctls ++ [⟨.del, (s.objects id).fd, true⟩]
        epoll := Function.update s.epoll (s.objects id).fd none } := by
  simp [update, epollCtl, present]

/-! The life of one channel. -/

/-- What the three copies say about a channel. -/
inductive Stage (s : System) (id : Nat) : Prop where
  | fresh (index : (s.objects id).index = .kNew) (events : (s.objects id).events = kNoneEvent)
      (channel : s.channels (s.objects id).fd = none) (epoll : s.epoll (s.objects id).fd = none)
      (updated : ¬s.Updated id) (removed : ¬s.Removed id)
  | watched (index : (s.objects id).index = .kAdded)
      (channel : s.channels (s.objects id).fd = some id)
      (epoll : s.epoll (s.objects id).fd = some ((s.objects id).events, id))
      (updated : s.Updated id) (removed : ¬s.Removed id)
  | unwatched (index : (s.objects id).index = .kDeleted)
      (events : (s.objects id).events = kNoneEvent)
      (channel : s.channels (s.objects id).fd = some id)
      (epoll : s.epoll (s.objects id).fd = none)
      (updated : s.Updated id) (removed : ¬s.Removed id)
  | gone (channel : s.channels (s.objects id).fd = none)
      (epoll : s.epoll (s.objects id).fd = none) (removed : s.Removed id)

theorem Stage.frame {s : System} {id other : Nat} {op : Operation} (stage : Stage s other)
    (apart : other ≠ id) (fds : (s.objects other).fd ≠ (s.objects id).fd) :
    Stage (s.perform id op) other := by
  have frame := s.perform_local id op
  have object := frame.object other apart
  have channel := frame.channel _ fds
  have epoll := frame.epoll _ fds
  have updated : (s.perform id op).Updated other ↔ s.Updated other := by
    simp [perform_updated, apart]
  have removed : (s.perform id op).Removed other ↔ s.Removed other := by
    simp [perform_removed, apart]
  cases stage with
  | fresh index events table set new here =>
      exact .fresh (by rwa [object]) (by rwa [object]) (by rwa [object, channel])
        (by rwa [object, epoll]) (by rwa [updated]) (by rwa [removed])
  | watched index table set old here =>
      exact .watched (by rwa [object]) (by rwa [object, channel]) (by rwa [object, epoll])
        (by rwa [updated]) (by rwa [removed])
  | unwatched index events table set old here =>
      exact .unwatched (by rwa [object]) (by rwa [object]) (by rwa [object, channel])
        (by rwa [object, epoll]) (by rwa [updated]) (by rwa [removed])
  | gone table set left =>
      exact .gone (by rwa [object, channel]) (by rwa [object, epoll]) (by rwa [removed])

/-- The one-channel view of Channel.lean. -/
def view (s : System) (id : Nat) : Channel :=
  ⟨(s.objects id).events, (s.objects id).index, (s.epoll (s.objects id).fd).isSome⟩

theorem apply_update {op : Operation} (real : op ≠ .remove) (channel : Channel) :
    op.apply channel = { channel with events := op.events channel.events }.update := by
  cases op with
  | remove => exact absurd rfl real
  | enableReading | disableReading | enableWritting | disableWritting | disableAll => rfl

theorem perform_update {op : Operation} (real : op ≠ .remove) (s : System) (id : Nat) :
    s.perform id op =
      (({ s with done := s.done ++ [(id, op)] } : System).setEvents id
        (op.events (s.objects id).events)).updateChannel id := by
  cases op with
  | remove => exact absurd rfl real
  | enableReading | disableReading | enableWritting | disableWritting | disableAll => rfl

structure Performed (s : System) (id : Nat) (op : Operation) : Prop where
  stage : Stage (s.perform id op) id
  view : (s.perform id op).view id = op.apply (s.view id)
  fatal : (s.perform id op).fatal = s.fatal
  ctls : ∃ more, (s.perform id op).ctls = s.ctls ++ more ∧ ∀ ctl ∈ more, ctl.Valid

theorem Performed.added {s : System} {id : Nat} {op : Operation} (channels : Nat → Option Nat)
    (real : op ≠ .remove) (removed : ¬s.Removed id) (index : (s.objects id).index ≠ .kAdded)
    (table : channels (s.objects id).fd = some id)
    (same : s.perform id op =
      { s with
        objects := Function.update s.objects id
          ⟨(s.objects id).fd, op.events (s.objects id).events, .kAdded⟩
        channels := channels
        epoll := Function.update s.epoll (s.objects id).fd
          (some (op.events (s.objects id).events, id))
        ctls := s.ctls ++ [⟨.add, (s.objects id).fd, false⟩]
        done := s.done ++ [(id, op)] }) : Performed s id op where
  stage := by
    refine .watched ?_ ?_ ?_ ((perform_updated s id op id).mpr (.inr ⟨rfl, real⟩)) ?_
    · simp [same]
    · simpa [same] using table
    · simp [same]
    · simp [perform_removed, removed, real]
  view := by
    rw [apply_update real]
    cases stat : (s.objects id).index with
    | kAdded => exact absurd stat index
    | kNew | kDeleted => simp [System.view, same, Channel.update, stat]
  fatal := by rw [same]
  ctls := by
    refine ⟨_, by rw [same], ?_⟩
    intro ctl member
    rw [List.mem_singleton.mp member]
    rfl

theorem Performed.changed {s : System} {id : Nat} {op : Operation} {event : Mask × Nat}
    (real : op ≠ .remove) (removed : ¬s.Removed id) (index : (s.objects id).index = .kAdded)
    (present : s.epoll (s.objects id).fd = some event)
    (table : s.channels (s.objects id).fd = some id) : Performed s id op := by
  have updated := (perform_updated s id op id).mpr (.inr ⟨rfl, real⟩)
  have stays : ¬(s.perform id op).Removed id := by simp [perform_removed, removed, real]
  have called := perform_update real s id
  by_cases idle : op.events (s.objects id).events = kNoneEvent
  · have same : s.perform id op =
        { s with
          objects := Function.update s.objects id
            ⟨(s.objects id).fd, op.events (s.objects id).events, .kDeleted⟩
          epoll := Function.update s.epoll (s.objects id).fd none
          ctls := s.ctls ++ [⟨.del, (s.objects id).fd, true⟩]
          done := s.done ++ [(id, op)] } := by
      rw [called]
      simp [updateChannel, setEvents, setIndex, index, idle, update_del, present]
    refine ⟨.unwatched ?_ ?_ ?_ ?_ updated stays, ?_, by rw [same], _, by rw [same], ?_⟩
    · simp [same]
    · simpa [same] using idle
    · simpa [same] using table
    · simp [same]
    · simp [apply_update real, System.view, same, Channel.update, index, idle]
    · intro ctl member
      rw [List.mem_singleton.mp member]
      rfl
  · have same : s.perform id op =
        { s with
          objects := Function.update s.objects id
            ⟨(s.objects id).fd, op.events (s.objects id).events, .kAdded⟩
          epoll := Function.update s.epoll (s.objects id).fd
            (some (op.events (s.objects id).events, id))
          ctls := s.ctls ++ [⟨.mod, (s.objects id).fd, true⟩]
          done := s.done ++ [(id, op)] } := by
      rw [called]
      simp [updateChannel, setEvents, index, idle, update_mod, present]
    refine ⟨.watched ?_ ?_ ?_ updated stays, ?_, by rw [same], _, by rw [same], ?_⟩
    · simp [same]
    · simpa [same] using table
    · simp [same]
    · simp [apply_update real, System.view, same, Channel.update, index, idle, present]
    · intro ctl member
      rw [List.mem_singleton.mp member]
      rfl

theorem Stage.update {s : System} {id : Nat} {op : Operation} (stage : Stage s id)
    (removed : ¬s.Removed id) (real : op ≠ .remove) : Performed s id op := by
  cases stage with
  | fresh index events table set new here =>
      apply Performed.added (Function.update s.channels (s.objects id).fd (some id)) real removed
        (by simp [index]) (by simp)
      rw [perform_update real]
      simp [updateChannel, setEvents, setChannel, setIndex, index, update_add, set]
  | unwatched index events table set old here =>
      apply Performed.added s.channels real removed (by simp [index]) table
      rw [perform_update real]
      simp [updateChannel, setEvents, setIndex, index, update_add, set]
  | gone table set left => exact absurd left removed
  | watched index table set old here => exact .changed real removed index set table

theorem Stage.remove {s : System} {id : Nat} (stage : Stage s id) (removed : ¬s.Removed id) :
    Performed s id .remove := by
  have left : (s.perform id .remove).Removed id :=
    (perform_removed s id .remove id).mpr (.inr ⟨rfl, rfl⟩)
  cases stage with
  | fresh index events table set new here =>
      have same : s.perform id .remove = { s with done := s.done ++ [(id, .remove)] } := by
        simp [perform, removeChannel, index]
      refine ⟨.gone ?_ ?_ left, ?_, by rw [same], [], ?_, by simp⟩
      · rwa [same]
      · rwa [same]
      · simp [Operation.apply, Channel.remove, System.view, same, index]
      · simp [same]
  | unwatched index events table set old here =>
      have same : s.perform id .remove =
          { s with
            channels := Function.update s.channels (s.objects id).fd none
            done := s.done ++ [(id, .remove)] } := by
        simp [perform, removeChannel, setChannel, index]
      refine ⟨.gone ?_ ?_ left, ?_, by rw [same], [], ?_, by simp⟩
      · simp [same]
      · rwa [same]
      · simp [Operation.apply, Channel.remove, System.view, same, index, set]
      · simp [same]
  | watched index table set old here =>
      have same : s.perform id .remove =
          { s with
            channels := Function.update s.channels (s.objects id).fd none
            epoll := Function.update s.epoll (s.objects id).fd none
            ctls := s.ctls ++ [⟨.del, (s.objects id).fd, true⟩]
            done := s.done ++ [(id, .remove)] } := by
        simp [perform, removeChannel, setChannel, index, update_del, set]
      refine ⟨.gone ?_ ?_ left, ?_, by rw [same], _, by rw [same], ?_⟩
      · simp [same]
      · simp [same]
      · simp [Operation.apply, Channel.remove, System.view, same, index]
      · intro ctl member
        rw [List.mem_singleton.mp member]
        rfl
  | gone table set gone => exact absurd gone removed

theorem Stage.performed {s : System} {id : Nat} (stage : Stage s id) (removed : ¬s.Removed id)
    (op : Operation) : Performed s id op := by
  by_cases last : op = .remove
  · subst last
    exact stage.remove removed
  · exact stage.update removed last

/-! Whole runs. -/

structure Consistent (fd : Nat → Nat) (s : System) : Prop where
  fds : ∀ id, (s.objects id).fd = fd id
  fatal : s.fatal = false
  valid : ∀ ctl ∈ s.ctls, ctl.Valid
  stage : ∀ id, Stage s id

theorem init_consistent (fd : Nat → Nat) : Consistent fd (init fd) where
  fds _ := rfl
  fatal := rfl
  valid := by simp [init]
  stage id := .fresh rfl rfl rfl rfl (by simp [Updated, init]) (by simp [Removed, init])

theorem Consistent.step_eq {fd : Nat → Nat} {s next : System} {id : Nat} {op : Operation}
    (consistent : Consistent fd s) (stepped : s.step (id, op) = some next) :
    next = s.perform id op := by
  simpa [step, consistent.fatal] using stepped.symm

section Runs

variable {fd : Nat → Nat} (distinct : Function.Injective fd)

include distinct

theorem Consistent.perform {s : System} (consistent : Consistent fd s) {id : Nat}
    (here : ¬s.Removed id) (op : Operation) : Consistent fd (s.perform id op) := by
  have own := (consistent.stage id).performed here op
  have frame := s.perform_local id op
  constructor
  · intro other
    by_cases same : other = id
    · subst same
      exact frame.sameFd.trans (consistent.fds other)
    · rw [frame.object other same]
      exact consistent.fds other
  · exact own.fatal.trans consistent.fatal
  · rcases own.ctls with ⟨more, called, valid⟩
    rw [called]
    intro ctl member
    rcases List.mem_append.mp member with old | new
    · exact consistent.valid ctl old
    · exact valid ctl new
  · intro other
    by_cases same : other = id
    · subst same
      exact own.stage
    · apply (consistent.stage other).frame same
      rw [consistent.fds, consistent.fds]
      exact distinct.ne same

theorem run_consistent {actions : List (Nat × Operation)} {final : System}
    (orderly : Along step Orderly (init fd) actions)
    (ran : run step (init fd) actions = some final) : Consistent fd final := by
  apply run_invariant_along (Consistent fd) _ (init_consistent fd) orderly ran
  intro s action next consistent here stepped
  rw [consistent.step_eq stepped]
  exact consistent.perform distinct here action.2

/-- However the calls on the channels are mixed, as long as `Remove` is the last
one on each: `epoll_ctl` is called for an fd that is where the operation needs
it, `index_` says whether the kernel has the fd, and `channels_` has the channel
from its first update to its removal. -/
theorem epoll_ctl_never_misused (actions : List (Nat × Operation))
    (orderly : Along step Orderly (init fd) actions) :
    ∃ final, run step (init fd) actions = some final ∧ final.fatal = false ∧
      (∀ ctl ∈ final.ctls, ctl.Valid) ∧
      (∀ id, ¬final.Removed id →
        ((final.objects id).index = .kAdded ↔ (final.epoll (fd id)).isSome = true)) ∧
      ∀ id, final.channels (fd id) = some id ↔ final.Updated id ∧ ¬final.Removed id := by
  rcases run_total (fun s action => ⟨_, rfl⟩) (init fd) actions with ⟨final, ran⟩
  have consistent := run_consistent distinct orderly ran
  refine ⟨final, ran, consistent.fatal, consistent.valid, fun id here => ?_, fun id => ?_⟩
  · rw [← consistent.fds id]
    cases consistent.stage id with
    | fresh index events table set new here => simp [index, set]
    | watched index table set old here => simp [index, set]
    | unwatched index events table set old here => simp [index, set]
    | gone table set left => exact absurd left here
  · rw [← consistent.fds id]
    cases consistent.stage id with
    | fresh index events table set new here => simp [table, new]
    | watched index table set old here => simp [table, old, here]
    | unwatched index events table set old here => simp [table, old, here]
    | gone table set left => simp [table, left]

end Runs

def twoChannels : List (Nat × Operation) :=
  [(0, .enableReading), (1, .enableWritting), (0, .enableWritting), (1, .disableAll),
    (0, .disableWritting), (1, .remove)]

theorem two_channels_never_misused : ∃ final,
    run step (init fun id => id) twoChannels = some final ∧ final.fatal = false ∧
      final.ctls.length = 5 ∧ (∀ ctl ∈ final.ctls, ctl.Valid) ∧
      final.channels 0 = some 0 ∧ final.channels 1 = none := by
  rcases epoll_ctl_never_misused (fun _ _ same => same) twoChannels (by decide) with
    ⟨final, ran, fatal, valid, -⟩
  cases ran
  exact ⟨_, rfl, fatal, rfl, valid, rfl, rfl⟩

/-! Interest and the epoll set. -/

/-- The kernel watches exactly the registered channels with an interest, each
with its events and its address. -/
def Mirrors (fd : Nat → Nat) (s : System) : Prop :=
  ∀ id, s.epoll (fd id) =
    if s.channels (fd id) = some id ∧ (s.objects id).events ≠ kNoneEvent then
      some ((s.objects id).events, id)
    else none

/-- A call does not leave a channel without interest that had none before. -/
def KeepsInterest (s : System) (action : Nat × Operation) : Prop :=
  action.2 = .remove ∨ action.2.events (s.objects action.1).events ≠ kNoneEvent ∨
    (s.objects action.1).events ≠ kNoneEvent

instance (s : System) (action : Nat × Operation) : Decidable (s.KeepsInterest action) :=
  inferInstanceAs (Decidable (_ ∨ _ ∨ _))

def Interested (channel : Channel) : Prop :=
  channel.watched = true → channel.events ≠ kNoneEvent

theorem Consistent.mirrors_iff {fd : Nat → Nat} {s : System} (consistent : Consistent fd s) :
    s.Mirrors fd ↔ ∀ id, Interested (s.view id) := by
  apply forall_congr'
  intro id
  rw [← consistent.fds id]
  cases consistent.stage id with
  | fresh index events table set new here => simp [Interested, view, set, events]
  | watched index table set old here => simp [Interested, view, table, set]
  | unwatched index events table set old here => simp [Interested, view, set, events]
  | gone table set left => simp [Interested, view, table, set]

/-- Only a channel outside the epoll set is at risk: an update adds it. -/
theorem Stage.interested_iff {s : System} {id : Nat} {op : Operation} (stage : Stage s id)
    (here : ¬s.Removed id) (interested : Interested (s.view id)) :
    Interested (op.apply (s.view id)) ↔ s.KeepsInterest (id, op) := by
  by_cases last : op = .remove
  · subst last
    have kept : Interested (Channel.remove (s.view id)) := by
      unfold Channel.remove
      split
      · exact interested
      · exact nofun
      · exact nofun
    exact ⟨fun _ => .inl rfl, fun _ => kept⟩
  · rw [apply_update last]
    cases stage with
    | fresh index events table set new here =>
        simp [Interested, KeepsInterest, view, Channel.update, index, events, last]
    | unwatched index events table set old here =>
        simp [Interested, KeepsInterest, view, Channel.update, index, events, last]
    | watched index table set old here =>
        have some : (s.objects id).events ≠ kNoneEvent := interested (by simp [view, set])
        by_cases idle : op.events (s.objects id).events = kNoneEvent
        · simp [Interested, KeepsInterest, view, Channel.update, index, idle, some]
        · simp [Interested, KeepsInterest, view, Channel.update, index, idle]
    | gone table set left => exact absurd left here

/-- The epoll set is right after every call exactly when no call leaves a channel
without interest that had none before: `UpdateChannel` adds such a channel, with
no events asked for. -/
theorem epoll_mirrors_iff_interest_kept {fd : Nat → Nat} (distinct : Function.Injective fd)
    (actions : List (Nat × Operation)) (orderly : Along step Orderly (init fd) actions) :
    Along step (fun s action => ∀ next, s.step action = some next → next.Mirrors fd)
        (init fd) actions ↔
      Along step KeepsInterest (init fd) actions := by
  rcases run_total (fun s action => ⟨_, rfl⟩) (init fd) actions with ⟨final, ran⟩
  apply visited_iff_along (Consistent fd) (Mirrors fd) _ _ (init_consistent fd) _ orderly ran
  · intro s action next consistent _ here stepped _
    rw [consistent.step_eq stepped]
    exact consistent.perform distinct here action.2
  · rintro s ⟨id, op⟩ next consistent mirrors here stepped
    have after := consistent.perform distinct here op
    have own := (consistent.stage id).performed here op
    rw [consistent.mirrors_iff] at mirrors
    rw [consistent.step_eq stepped, after.mirrors_iff,
      ← (consistent.stage id).interested_iff here (mirrors id), ← own.view]
    refine ⟨fun all => all id, fun mine other => ?_⟩
    by_cases same : other = id
    · exact same ▸ mine
    · have frame := s.perform_local id op
      have fds : (s.objects other).fd ≠ (s.objects id).fd := by
        rw [consistent.fds, consistent.fds]
        exact distinct.ne same
      rw [view, frame.object other same, frame.epoll _ fds]
      exact mirrors other
  · simp [Mirrors, init]

theorem two_channels_mirrored :
    Along step (fun s action => ∀ next, s.step action = some next → next.Mirrors fun id => id)
      (init fun id => id) twoChannels :=
  (epoll_mirrors_iff_interest_kept (fun _ _ same => same) twoChannels (by decide)).mpr (by decide)

/-- `DisableAll` on a channel that is disabled already: the kernel is asked to
watch the fd for no events, and goes on to report errors and hangups. -/
theorem second_disable_adds : ∃ final,
    run step (init fun id => id) [(0, .enableReading), (0, .disableAll), (0, .disableAll)] =
        some final ∧
      (final.objects 0).events = kNoneEvent ∧ final.epoll 0 = some (kNoneEvent, 0) ∧
      ¬final.Mirrors fun id => id := by
  refine ⟨_, rfl, rfl, rfl, ?_⟩
  intro mirrors
  cases mirrors 0

/-! The channels of Channel.lean are what a run makes of one channel here. -/

def callsOn (s : System) (id : Nat) : List Operation :=
  (s.done.filter fun call => call.1 = id).map Prod.snd

theorem run_view {fd : Nat → Nat} (distinct : Function.Injective fd)
    {actions : List (Nat × Operation)} {final : System}
    (orderly : Along step Orderly (init fd) actions)
    (ran : run step (init fd) actions = some final) (id : Nat) :
    final.view id = (final.callsOn id).foldl (fun channel op => op.apply channel) Channel.init := by
  suffices both : Consistent fd final ∧ final.view id =
      (final.callsOn id).foldl (fun channel op => op.apply channel) Channel.init from both.2
  apply run_invariant_along
    (fun s => Consistent fd s ∧
      s.view id = (s.callsOn id).foldl (fun channel op => op.apply channel) Channel.init)
    _ ⟨init_consistent fd, rfl⟩ orderly ran
  rintro s ⟨other, op⟩ next ⟨consistent, viewed⟩ here stepped
  rw [consistent.step_eq stepped]
  refine ⟨consistent.perform distinct here op, ?_⟩
  by_cases same : other = id
  · subst same
    rw [((consistent.stage other).performed here op).view, viewed]
    simp [callsOn, perform_done, List.filter_append]
  · have frame := s.perform_local other op
    have fds : (s.objects id).fd ≠ (s.objects other).fd := by
      rw [consistent.fds, consistent.fds]
      exact distinct.ne (Ne.symm same)
    have unseen : (s.perform other op).callsOn id = s.callsOn id := by
      simp [callsOn, perform_done, List.filter_append, same]
    rw [unseen, ← viewed, view, frame.object id (Ne.symm same), frame.epoll _ fds]
    rfl

end System

end Muzi.EpollPoller
