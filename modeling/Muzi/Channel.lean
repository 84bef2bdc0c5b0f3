import Mathlib.Data.List.Basic

/-!
Event masks, net/channel.h and what net/poller/epoll_poller.cc does with one
channel. Every change of the interest goes through `Update`, so a channel here
carries its place in the poller and whether the kernel's epoll set has its fd.
-/

namespace Muzi

abbrev Mask := BitVec 32

namespace Channel

def pollIn : Mask := 0x001
def pollPri : Mask := 0x002
def pollOut : Mask := 0x004
def pollHup : Mask := 0x010
def pollRdHup : Mask := 0x2000

def kNoneEvent : Mask := 0
def kReadEvent : Mask := pollIn ||| pollPri
def kWriteEvent : Mask := pollOut

def has (mask bits : Mask) : Bool := mask &&& bits != 0#32

end Channel

/-- The status that `EpollPoller` keeps in `index_`. -/
inductive FdStatus where
  | kNew
  | kAdded
  | kDeleted
  deriving DecidableEq

structure Channel where
  events : Mask
  index : FdStatus
  /-- The kernel's epoll set has the fd. -/
  watched : Bool
  deriving DecidableEq

namespace Channel

def init : Channel := ⟨kNoneEvent, .kNew, false⟩

def isWritting (channel : Channel) : Bool := has channel.events kWriteEvent
def isReading (channel : Channel) : Bool := has channel.events kReadEvent

/-- `EpollPoller::UpdateChannel`. A channel that is not in the epoll set is added
whatever its events are. -/
def update (channel : Channel) : Channel :=
  match channel.index with
  | .kNew | .kDeleted => { channel with index := .kAdded, watched := true }
  | .kAdded =>
      if channel.events = kNoneEvent then { channel with index := .kDeleted, watched := false }
      else channel

def enableReading (channel : Channel) : Channel :=
  { channel with events := channel.events ||| kReadEvent }.update

def disableReading (channel : Channel) : Channel :=
  { channel with events := channel.events &&& ~~~kReadEvent }.update

def enableWritting (channel : Channel) : Channel :=
  { channel with events := channel.events ||| kWriteEvent }.update

def disableWritting (channel : Channel) : Channel :=
  { channel with events := channel.events &&& ~~~kWriteEvent }.update

def disableAll (channel : Channel) : Channel := { channel with events := kNoneEvent }.update

/-- `EpollPoller::RemoveChannel`; `index_` stays as it is. -/
def remove (channel : Channel) : Channel :=
  match channel.index with
  | .kNew => channel
  | .kAdded | .kDeleted => { channel with watched := false }

@[simp] theorem update_events (channel : Channel) : channel.update.events = channel.events := by
  unfold update
  split
  · rfl
  · rfl
  · split <;> rfl

theorem has_or (mask bits : Mask) (some : bits ≠ 0#32) : has (mask ||| bits) bits = true := by
  have kept : (mask ||| bits) &&& bits = bits := by
    ext i
    simp only [BitVec.getElem_and, BitVec.getElem_or]
    cases mask[i] <;> cases bits[i] <;> rfl
  simp [has, kept, some]

@[simp] theorem isWritting_enable (channel : Channel) :
    channel.enableWritting.isWritting = true := by
  rw [isWritting, enableWritting, update_events]
  exact has_or _ _ (by decide)

theorem has_or_apart {mask bits other : Mask} (apart : bits &&& other = 0#32) :
    has (mask ||| bits) other = has mask other := by
  have same : (mask ||| bits) &&& other = mask &&& other := by
    ext i inside
    have none : (bits[i] && other[i]) = false := by
      rw [← BitVec.getElem_and, apart, BitVec.getElem_zero]
    simp only [BitVec.getElem_and, BitVec.getElem_or]
    rw [Bool.and_or_distrib_right, none, Bool.or_false]
  simp only [has, same]

@[simp] theorem isWritting_enableReading (channel : Channel) :
    channel.enableReading.isWritting = channel.isWritting := by
  rw [isWritting, enableReading, update_events, isWritting]
  exact has_or_apart (by decide)

@[simp] theorem isWritting_disableReading (channel : Channel) :
    channel.disableReading.isWritting = channel.isWritting := by
  have kept : channel.events &&& ~~~kReadEvent &&& kWriteEvent =
      channel.events &&& kWriteEvent := by
    have bits : ~~~kReadEvent &&& kWriteEvent = kWriteEvent := by decide
    rw [BitVec.and_assoc, bits]
  rw [isWritting, disableReading, update_events, isWritting]
  simp only [has, kept]

@[simp] theorem isWritting_disableAll (channel : Channel) :
    channel.disableAll.isWritting = false := by
  rw [isWritting, disableAll, update_events]
  change has kNoneEvent kWriteEvent = false
  decide

@[simp] theorem isWritting_disableWritting (channel : Channel) :
    channel.disableWritting.isWritting = false := by
  have none : channel.events &&& ~~~kWriteEvent &&& kWriteEvent = 0#32 := by
    have bits : ~~~kWriteEvent &&& kWriteEvent = 0#32 := by decide
    rw [BitVec.and_assoc, bits, BitVec.and_zero]
  rw [isWritting, disableWritting, update_events]
  simp [has, none]

@[simp] theorem isWritting_remove (channel : Channel) :
    channel.remove.isWritting = channel.isWritting := by
  unfold remove
  split <;> rfl

end Channel

end Muzi
