import Kenmuduo.Channel
import Kenmuduo.Storage

/-!
# EPollPoller

EPollPoller.cc over channels named by `ι`. A registration has three
representations: the index in the channel, the map `channels_` and the
kernel's epoll set. `Coherent` says how they agree; every operation on a
channel keeps the agreement, so no `epoll_ctl` call of the poller fails.
-/

namespace Kenmuduo

inductive CtlOp
  | add | mod | del
  deriving DecidableEq, Repr

/-- An `epoll_event`, with `data.ptr` set. -/
structure EpollEvent (ι : Type) where
  events : Mask
  ptr : ι
  deriving DecidableEq, Repr

/-- The `LOG_FATAL` of `update`, which ends the process. -/
inductive Exit
  | fatal
  deriving DecidableEq, Repr

/-- `channels_`, the kernel's epoll set, the size of `events_`, and how many
`epoll_ctl` calls have failed. -/
structure EPollPoller (ι : Type) where
  channels : Nat → Option ι
  interest : Nat → Option (EpollEvent ι)
  eventsSize : Nat
  failures : Nat

abbrev kInitEventListSize : Nat := 16

variable {ι : Type}

/-- A function with its value at `i` replaced. -/
def assign {α β : Type} [DecidableEq α] (f : α → β) (i : α) (b : β) : α → β :=
  fun j => if j = i then b else f j

theorem assign_self {α β : Type} [DecidableEq α] (f : α → β) (i : α) : assign f i (f i) = f := by
  funext j
  unfold assign
  split
  · rename_i h
    rw [h]
  · rfl

@[simp] theorem assign_same {α β : Type} [DecidableEq α] (f : α → β) (i : α) (b : β) :
    assign f i b i = b := by simp [assign]

@[simp] theorem assign_other {α β : Type} [DecidableEq α] (f : α → β) {i j : α} (b : β)
    (h : j ≠ i) : assign f i b j = f j := by simp [assign, h]

/-- `epoll_ctl`: ADD fails exactly when the descriptor is in the set, MOD and
DEL exactly when it is not. -/
def epollCtl (interest : Nat → Option (EpollEvent ι)) (op : CtlOp) (fd : Nat)
    (event : EpollEvent ι) : Option (Nat → Option (EpollEvent ι)) :=
  match op, interest fd with
  | .add, none => some (assign interest fd (some event))
  | .mod, some _ => some (assign interest fd (some event))
  | .del, some _ => some (assign interest fd none)
  | .add, some _ | .mod, none | .del, none => none

namespace EPollPoller

def new : EPollPoller ι := ⟨fun _ => none, fun _ => none, kInitEventListSize, 0⟩

def update (p : EPollPoller ι) (op : CtlOp) (i : ι) (c : Channel) : Except Exit (EPollPoller ι) :=
  match epollCtl p.interest op c.fd ⟨c.events, i⟩ with
  | some interest => .ok { p with interest := interest }
  | none => if op = .del then .ok { p with failures := p.failures + 1 } else .error .fatal

/-- The poller and the channel after `updateChannel`. -/
def updateChannel (p : EPollPoller ι) (i : ι) (c : Channel) :
    Except Exit (EPollPoller ι × Channel) :=
  if c.index = kNew ∨ c.index = kDeleted then do
    let p := if c.index = kNew then { p with channels := assign p.channels c.fd (some i) } else p
    let c := { c with index := kAdded }
    let p ← p.update .add i c
    return (p, c)
  else if c.isNoneEvent then do
    let p ← p.update .del i c
    return (p, { c with index := kDeleted })
  else do
    let p ← p.update .mod i c
    return (p, c)

/-- The poller and the channel after `removeChannel`. -/
def removeChannel (p : EPollPoller ι) (i : ι) (c : Channel) :
    Except Exit (EPollPoller ι × Channel) := do
  let p := { p with channels := assign p.channels c.fd none }
  let p ← if c.index = kAdded then p.update .del i c else .ok p
  return (p, { c with index := kNew })

/-- The channels of the ready events, in order, with `revents` stored. -/
def fillActiveChannels [DecidableEq ι] (chan : ι → Channel) :
    List (EpollEvent ι) → (ι → Channel) × List ι
  | [] => (chan, [])
  | e :: ready =>
    let chan := assign chan e.ptr { chan e.ptr with revents := e.events }
    let (chan, active) := fillActiveChannels chan ready
    (chan, e.ptr :: active)

/-- An answer of `epoll_wait`: at most `events_.size()` events, each on a
member of the epoll set with the `data.ptr` stored there. -/
def Ready (p : EPollPoller ι) (ready : List (EpollEvent ι)) : Prop :=
  ready.length ≤ p.eventsSize ∧ ∀ e ∈ ready, ∃ fd ev, p.interest fd = some ev ∧ e.ptr = ev.ptr

def poll [DecidableEq ι] (p : EPollPoller ι) (chan : ι → Channel) (ready : List (EpollEvent ι)) :
    EPollPoller ι × (ι → Channel) × List ι :=
  let (chan, active) := fillActiveChannels chan ready
  (if 0 < ready.length ∧ ready.length = p.eventsSize then
    { p with eventsSize := p.eventsSize * 2 } else p, chan, active)

theorem updateChannel_channel {p p' : EPollPoller ι} {i : ι} {c c' : Channel}
    (h : p.updateChannel i c = .ok (p', c')) : c' = c.update := by
  unfold updateChannel at h
  unfold Channel.update
  split at h
  · rename_i hnew
    obtain ⟨q, _, hq⟩ := bind_ok_iff.mp h
    simp only [pure_ok, Except.ok.injEq, Prod.mk.injEq] at hq
    rw [if_pos hnew, ← hq.2]
  · rename_i hold
    rw [if_neg hold]
    split at h
    · rename_i hnone
      obtain ⟨q, _, hq⟩ := bind_ok_iff.mp h
      simp only [pure_ok, Except.ok.injEq, Prod.mk.injEq] at hq
      rw [if_pos hnone, ← hq.2]
    · rename_i hsome
      obtain ⟨q, _, hq⟩ := bind_ok_iff.mp h
      simp only [pure_ok, Except.ok.injEq, Prod.mk.injEq] at hq
      rw [if_neg hsome, ← hq.2]

theorem fillActiveChannels_active [DecidableEq ι] (chan : ι → Channel)
    (ready : List (EpollEvent ι)) :
    (fillActiveChannels chan ready).2 = ready.map EpollEvent.ptr := by
  induction ready generalizing chan with
  | nil => rfl
  | cons e ready ih => simp [fillActiveChannels, ih]

theorem fillActiveChannels_index [DecidableEq ι] (chan : ι → Channel)
    (ready : List (EpollEvent ι)) (i : ι) :
    ((fillActiveChannels chan ready).1 i).index = (chan i).index := by
  induction ready generalizing chan with
  | nil => rfl
  | cons e ready ih =>
    simp only [fillActiveChannels, ih, assign]
    split
    · rename_i same; rw [same]
    · rfl

/-! ## The three representations -/

/-- How the index, the map and the epoll set describe channel `c`, named `i`. -/
inductive Agrees (p : EPollPoller ι) (i : ι) (c : Channel) : Prop
  | absent : c.index = kNew → p.channels c.fd = none → p.interest c.fd = none → Agrees p i c
  | added : c.index = kAdded → p.channels c.fd = some i →
      p.interest c.fd = some ⟨c.events, i⟩ → Agrees p i c
  | deleted : c.index = kDeleted → p.channels c.fd = some i → p.interest c.fd = none →
      Agrees p i c

/-- The two pollers differ at `fd` only, and no `epoll_ctl` failed in between. -/
structure Frame (p q : EPollPoller ι) (fd : Nat) : Prop where
  channels : ∀ other, other ≠ fd → q.channels other = p.channels other
  interest : ∀ other, other ≠ fd → q.interest other = p.interest other
  failures : q.failures = p.failures

theorem update_add {p : EPollPoller ι} {i : ι} {c : Channel} (h : p.interest c.fd = none) :
    p.update .add i c = .ok { p with interest := assign p.interest c.fd (some ⟨c.events, i⟩) } := by
  simp [update, epollCtl, h]

theorem update_mod {p : EPollPoller ι} {i : ι} {c : Channel} {ev : EpollEvent ι}
    (h : p.interest c.fd = some ev) :
    p.update .mod i c = .ok { p with interest := assign p.interest c.fd (some ⟨c.events, i⟩) } := by
  simp [update, epollCtl, h]

theorem update_del {p : EPollPoller ι} {i : ι} {c : Channel} {ev : EpollEvent ι}
    (h : p.interest c.fd = some ev) :
    p.update .del i c = .ok { p with interest := assign p.interest c.fd none } := by
  simp [update, epollCtl, h]

/-- Whatever the new interest, `updateChannel` finds the descriptor where the
index says it is. -/
theorem Agrees.updateChannel {p : EPollPoller ι} {i : ι} {c : Channel} (h : p.Agrees i c)
    (events : Mask) :
    ∃ q c', p.updateChannel i { c with events := events } = .ok (q, c') ∧ c'.fd = c.fd ∧
      q.Agrees i c' ∧ Frame p q c.fd := by
  generalize hd : { c with events := events } = d
  have hfd : d.fd = c.fd := by rw [← hd]
  have hix : d.index = c.index := by rw [← hd]
  rw [← hfd]
  unfold EPollPoller.updateChannel
  cases h with
  | absent hi hc hk =>
    rw [← hfd] at hc hk
    rw [if_pos (.inl (hix.trans hi)), if_pos (hix.trans hi)]
    dsimp only
    rw [update_add (by exact hk)]
    exact ⟨_, _, rfl, rfl, .added rfl (by simp) (by simp),
      ⟨fun _ ne => by simp [ne], fun _ ne => by simp [ne], rfl⟩⟩
  | added hi hc hk =>
    rw [← hfd] at hc hk
    rw [if_neg (by simp [hix.trans hi, kNew, kAdded, kDeleted])]
    split
    · rw [update_del hk]
      exact ⟨_, _, rfl, rfl, .deleted rfl hc (by simp),
        ⟨fun _ _ => rfl, fun _ ne => by simp [ne], rfl⟩⟩
    · rw [update_mod hk]
      exact ⟨_, _, rfl, rfl, .added (hix.trans hi) hc (by simp),
        ⟨fun _ _ => rfl, fun _ ne => by simp [ne], rfl⟩⟩
  | deleted hi hc hk =>
    rw [← hfd] at hc hk
    rw [if_pos (.inr (hix.trans hi)), if_neg (by simp [hix.trans hi, kNew, kDeleted])]
    dsimp only
    rw [update_add (by exact hk)]
    exact ⟨_, _, rfl, rfl, .added rfl hc (by simp),
      ⟨fun _ _ => rfl, fun _ ne => by simp [ne], rfl⟩⟩

theorem Agrees.removeChannel {p : EPollPoller ι} {i : ι} {c : Channel} (h : p.Agrees i c) :
    ∃ q c', p.removeChannel i c = .ok (q, c') ∧ c'.fd = c.fd ∧ q.Agrees i c' ∧
      Frame p q c.fd := by
  unfold EPollPoller.removeChannel
  cases h with
  | absent hi hc hk =>
    rw [if_neg (by simp [hi, kNew, kAdded])]
    exact ⟨_, _, rfl, rfl, .absent rfl (by simp) hk,
      ⟨fun _ ne => by simp [ne], fun _ _ => rfl, rfl⟩⟩
  | added hi hc hk =>
    rw [if_pos hi, update_del (by exact hk)]
    exact ⟨_, _, rfl, rfl, .absent rfl (by simp) (by simp),
      ⟨fun _ ne => by simp [ne], fun _ ne => by simp [ne], rfl⟩⟩
  | deleted hi hc hk =>
    rw [if_neg (by simp [hi, kDeleted, kAdded])]
    exact ⟨_, _, rfl, rfl, .absent rfl (by simp) hk,
      ⟨fun _ ne => by simp [ne], fun _ _ => rfl, rfl⟩⟩

/-- A step on another descriptor leaves the agreement alone. -/
theorem Agrees.frame {p q : EPollPoller ι} {i : ι} {c : Channel} {fd : Nat} (h : p.Agrees i c)
    (frame : Frame p q fd) (ne : c.fd ≠ fd) : q.Agrees i c := by
  have hc := frame.channels c.fd ne
  have hk := frame.interest c.fd ne
  cases h with
  | absent hi c k => exact .absent hi (hc.trans c) (hk.trans k)
  | added hi c k => exact .added hi (hc.trans c) (hk.trans k)
  | deleted hi c k => exact .deleted hi (hc.trans c) (hk.trans k)

end EPollPoller
end Kenmuduo
