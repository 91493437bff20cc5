/-!
# Channel

Channel.h and Channel.cc: the interest mask of one descriptor and the index
the poller keeps in it. Event masks are the 32-bit words of `epoll_event`.
`update` and `remove` are the poller's effect on the channel itself; the rest
of `updateChannel` and `removeChannel` is in `EPollPoller`.
-/

namespace Kenmuduo

abbrev Mask := BitVec 32

abbrev EPOLLIN : Mask := 0x001
abbrev EPOLLPRI : Mask := 0x002
abbrev EPOLLOUT : Mask := 0x004
abbrev EPOLLERR : Mask := 0x008
abbrev EPOLLHUP : Mask := 0x010
abbrev EPOLLRDHUP : Mask := 0x2000

abbrev kNoneEvent : Mask := 0
abbrev kReadEvent : Mask := EPOLLIN ||| EPOLLPRI
abbrev kWriteEvent : Mask := EPOLLOUT

/-- The channel is not with the poller. -/
abbrev kNew : Int := -1
/-- The channel is in the poller's map and in the epoll set. -/
abbrev kAdded : Int := 1
/-- The channel is in the poller's map but not in the epoll set. -/
abbrev kDeleted : Int := 2

/-- Some bit of `m` is set in `e`, the test `e & m` of the source. -/
def Mask.has (e m : Mask) : Bool := (e &&& m) != 0

structure Channel where
  fd : Nat
  events : Mask
  revents : Mask
  index : Int
  tied : Bool
  deriving DecidableEq, Repr

namespace Channel

def new (fd : Nat) : Channel := ⟨fd, 0, 0, kNew, false⟩

def isNoneEvent (c : Channel) : Bool := c.events == kNoneEvent
def isWriting (c : Channel) : Bool := Mask.has c.events kWriteEvent
def isReading (c : Channel) : Bool := Mask.has c.events kReadEvent

/-- The index `EPollPoller::updateChannel` leaves in the channel. -/
def update (c : Channel) : Channel :=
  if c.index = kNew ∨ c.index = kDeleted then { c with index := kAdded }
  else if c.isNoneEvent then { c with index := kDeleted }
  else c

/-- The index `EPollPoller::removeChannel` leaves in the channel. -/
def remove (c : Channel) : Channel := { c with index := kNew }

def enableReading (c : Channel) : Channel := { c with events := c.events ||| kReadEvent }
def disableReading (c : Channel) : Channel := { c with events := c.events &&& ~~~kReadEvent }
def enableWriting (c : Channel) : Channel := { c with events := c.events ||| kWriteEvent }
def disableWriting (c : Channel) : Channel := { c with events := c.events &&& ~~~kWriteEvent }
def disableAll (c : Channel) : Channel := { c with events := kNoneEvent }

/-- `tie`, with the connection itself as the object. -/
def tie (c : Channel) : Channel := { c with tied := true }

@[simp] theorem new_isWriting (fd : Nat) : (new fd).isWriting = false := by
  simp [isWriting, new, Mask.has]

@[simp] theorem update_events (c : Channel) : c.update.events = c.events := by
  unfold update
  split
  · rfl
  · split <;> rfl

@[simp] theorem update_isWriting (c : Channel) : c.update.isWriting = c.isWriting := by
  simp [isWriting]

@[simp] theorem remove_isWriting (c : Channel) : c.remove.isWriting = c.isWriting := rfl
@[simp] theorem tie_isWriting (c : Channel) : c.tie.isWriting = c.isWriting := rfl

/-- Asking for read events does not touch the write interest. -/
@[simp] theorem enableReading_isWriting (c : Channel) :
    c.enableReading.isWriting = c.isWriting := by
  have apart : kWriteEvent &&& kReadEvent = 0#32 := by decide
  simp only [isWriting, enableReading, Mask.has]
  rw [BitVec.and_comm, BitVec.and_or_distrib_left, apart, BitVec.or_zero, BitVec.and_comm]

@[simp] theorem disableWriting_isWriting (c : Channel) : c.disableWriting.isWriting = false := by
  simp only [isWriting, disableWriting, Mask.has]
  rw [BitVec.and_assoc]
  simp

@[simp] theorem disableAll_isWriting (c : Channel) : c.disableAll.isWriting = false := by
  simp [isWriting, disableAll, Mask.has]

end Channel
end Kenmuduo
