import Kenmuduo.CurrentInterest
import Kenmuduo.Transition
import Mathlib.Algebra.Group.Nat.Defs
import Mathlib.Data.Fintype.Card

/-!
# Polls and the size of events_

The channels of one poller with what happens on their descriptors. A call of
`epoll_wait` reports at most as many channels as `events_` has places, and the
kernel goes round through the ready ones. `events_` doubles whenever it was
filled, so a channel that stays ready is left out a logarithmic number of times.
-/

namespace Kenmuduo
open Transition

variable {ι : Type}

/-- The registry, what happens on each descriptor and `activeChannels_`. Beside
them the number of polls that filled `events_`, the largest number of channels one
poll has reported, and for each channel the polls in succession that left it out
while it was ready, with the channels they reported. -/
structure PollRun (ι : Type) where
  registry : Registry ι
  device : Nat → Mask
  activeChannels : List ι
  fulls : Nat
  peak : Nat
  waits : ι → Nat
  passed : ι → List ι

inductive PollAct (ι : Type)
  | channel (i : ι) (op : ChannelOp)
  | device (fd : Nat) (events : Mask)
  | poll (fds : List Nat)
  | interrupted
  deriving Repr

namespace PollRun

/-- What the kernel has to report on a descriptor. -/
def report (s : PollRun ι) (fd : Nat) : Option (EpollEvent ι) :=
  match s.registry.poller.interest fd with
  | some event =>
    let revents := s.device fd &&& (event.events ||| EPOLLERR ||| EPOLLHUP)
    if revents = 0 then none else some ⟨revents, event.ptr⟩
  | none => none

/-- `epoll_wait` can answer with these descriptors. -/
def answers (s : PollRun ι) (fds : List Nat) : Bool :=
  decide fds.Nodup && fds.all (fun fd => (s.report fd).isSome) &&
    decide (fds.length ≤ s.registry.poller.eventsSize)

variable [DecidableEq ι]

/-- The channel is ready, and not among the active ones. -/
def leftOut (s : PollRun ι) (active : List ι) (i : ι) : Bool :=
  (s.report (s.registry.chan i).fd).isSome && !active.contains i

/-- `activeChannels_.clear()` and `poll`. -/
def poll (s : PollRun ι) (fds : List Nat) : PollRun ι :=
  let ready := fds.filterMap s.report
  let (poller, chan, active) := s.registry.poller.poll s.registry.chan ready
  { s with
    registry := ⟨chan, poller⟩
    activeChannels := active
    fulls := if ready.length = s.registry.poller.eventsSize then s.fulls + 1 else s.fulls
    peak := max s.peak ready.length
    waits := fun i => if s.leftOut active i then s.waits i + 1 else 0
    passed := fun i => if s.leftOut active i then s.passed i ++ active else [] }

/-- A channel that is not in the epoll set does not wait. -/
def registered (s : PollRun ι) (r : Registry ι) : PollRun ι :=
  { s with
    registry := r
    waits := fun i => if (r.poller.interest (r.chan i).fd).isSome then s.waits i else 0
    passed := fun i => if (r.poller.interest (r.chan i).fd).isSome then s.passed i else [] }

def step (s : PollRun ι) : PollAct ι → Option (PollRun ι)
  | .channel i op =>
    match s.registry.apply i op with
    | .ok r => some (s.registered r)
    | .error _ => none
  | .device fd events => some { s with device := assign s.device fd events }
  | .poll fds => if s.answers fds then some (s.poll fds) else none
  | .interrupted => some { s with activeChannels := [] }

structure Start (d : Descriptors ι) (s : PollRun ι) : Prop where
  registry : s.registry = .start d
  activeChannels : s.activeChannels = []
  fulls : s.fulls = 0
  peak : s.peak = 0
  waits : ∀ i, s.waits i = 0
  passed : ∀ i, s.passed i = []

def machine (d : Descriptors ι) : Machine (PollRun ι) (PollAct ι) := ⟨Start d, step⟩

/-- The kernel leaves a ready channel out only when there is no more room, and
reports none a second time before it. -/
def RoundRobin (s : PollRun ι) : PollAct ι → Prop
  | .poll fds => ∀ i, s.leftOut (s.poll fds).activeChannels i = true →
      fds.length = s.registry.poller.eventsSize ∧
        ∀ j ∈ (s.poll fds).activeChannels, j ∉ s.passed i
  | _ => True

instance [Fintype ι] (s : PollRun ι) : ∀ l, Decidable (s.RoundRobin l)
  | .poll fds => inferInstanceAs (Decidable (∀ i, s.leftOut (s.poll fds).activeChannels i = true →
      fds.length = s.registry.poller.eventsSize ∧
        ∀ j ∈ (s.poll fds).activeChannels, j ∉ s.passed i))
  | .channel _ _ | .device _ _ | .interrupted => isTrue trivial

end PollRun

/-! ## What a poll changes -/

namespace EPollPoller

theorem update_eventsSize {p q : EPollPoller ι} {op : CtlOp} {i : ι} {c : Channel}
    (h : p.update op i c = .ok q) : q.eventsSize = p.eventsSize := by
  unfold update at h
  split at h
  · cases h
    rfl
  · split at h
    · cases h
      rfl
    · cases h

theorem updateChannel_eventsSize {p q : EPollPoller ι} {i : ι} {c c' : Channel}
    (h : p.updateChannel i c = .ok (q, c')) : q.eventsSize = p.eventsSize := by
  unfold updateChannel at h
  dsimp only at h
  split at h
  · obtain ⟨r, added, result⟩ := bind_ok_iff.mp h
    cases result
    rw [update_eventsSize added]
    split <;> rfl
  · split at h
    · obtain ⟨r, deleted, result⟩ := bind_ok_iff.mp h
      cases result
      exact update_eventsSize deleted
    · obtain ⟨r, modified, result⟩ := bind_ok_iff.mp h
      cases result
      exact update_eventsSize modified

theorem removeChannel_eventsSize {p q : EPollPoller ι} {i : ι} {c c' : Channel}
    (h : p.removeChannel i c = .ok (q, c')) : q.eventsSize = p.eventsSize := by
  unfold EPollPoller.removeChannel at h
  dsimp only at h
  split at h
  · obtain ⟨r, deleted, result⟩ := bind_ok_iff.mp h
    cases result
    rw [update_eventsSize deleted]
  · cases h
    rfl

variable [DecidableEq ι]

/-- `set_revents` is all a poll does to a channel. -/
theorem fillActiveChannels_revents (chan : ι → Channel) (ready : List (EpollEvent ι)) (i : ι) :
    ∃ revents, (fillActiveChannels chan ready).1 i = { chan i with revents := revents } := by
  induction ready generalizing chan with
  | nil => exact ⟨(chan i).revents, rfl⟩
  | cons e ready ih =>
    simp only [fillActiveChannels]
    obtain ⟨revents, stored⟩ := ih (assign chan e.ptr { chan e.ptr with revents := e.events })
    by_cases here : i = e.ptr
    · subst here
      rw [assign_same] at stored
      exact ⟨revents, stored⟩
    · rw [assign_other _ _ here] at stored
      exact ⟨revents, stored⟩

theorem fillActiveChannels_other (chan : ι → Channel) {ready : List (EpollEvent ι)} {i : ι}
    (h : i ∉ ready.map EpollEvent.ptr) : (fillActiveChannels chan ready).1 i = chan i := by
  induction ready generalizing chan with
  | nil => rfl
  | cons e ready ih =>
    simp only [List.map_cons, List.mem_cons, not_or] at h
    simp only [fillActiveChannels]
    rw [ih _ h.2]
    exact assign_other _ _ h.1

/-- Of channels reported once each, every one is told its own events. -/
theorem fillActiveChannels_told (chan : ι → Channel) {ready : List (EpollEvent ι)}
    (once : (ready.map EpollEvent.ptr).Nodup) {e : EpollEvent ι} (mem : e ∈ ready) :
    ((fillActiveChannels chan ready).1 e.ptr).revents = e.events := by
  induction ready generalizing chan with
  | nil => cases mem
  | cons first ready ih =>
    simp only [List.map_cons, List.nodup_cons] at once
    simp only [fillActiveChannels]
    cases List.mem_cons.mp mem with
    | inl same =>
      subst same
      rw [fillActiveChannels_other _ once.1, assign_same]
    | inr later => exact ih _ once.2 later

end EPollPoller

namespace Registry

variable [DecidableEq ι]

theorem apply_eventsSize {r s : Registry ι} {i : ι} {op : ChannelOp} (h : r.apply i op = .ok s) :
    s.poller.eventsSize = r.poller.eventsSize := by
  obtain ⟨⟨q, c⟩, asked, result⟩ := bind_ok_iff.mp h
  cases result
  unfold request at asked
  dsimp only at asked
  split at asked
  · exact EPollPoller.removeChannel_eventsSize asked
  · exact EPollPoller.updateChannel_eventsSize asked

/-- A poll keeps the agreement of the three representations. -/
theorem Inv.polled {d : Descriptors ι} {r : Registry ι} (h : r.Inv d)
    (ready : List (EpollEvent ι)) :
    Inv d ⟨(r.poller.poll r.chan ready).2.1, (r.poller.poll r.chan ready).1⟩ := by
  have channels : (r.poller.poll r.chan ready).1.channels = r.poller.channels := by
    simp only [EPollPoller.poll]
    split <;> rfl
  have interest : (r.poller.poll r.chan ready).1.interest = r.poller.interest := by
    simp only [EPollPoller.poll]
    split <;> rfl
  have failures : (r.poller.poll r.chan ready).1.failures = r.poller.failures := by
    simp only [EPollPoller.poll]
    split <;> rfl
  have told (i : ι) : ∃ revents,
      (r.poller.poll r.chan ready).2.1 i = { r.chan i with revents := revents } :=
    EPollPoller.fillActiveChannels_revents r.chan ready i
  constructor
  · intro i
    obtain ⟨revents, chan⟩ := told i
    simp only [chan]
    exact h.fd i
  · intro i
    obtain ⟨revents, chan⟩ := told i
    simp only [chan]
    cases h.agrees i with
    | absent new known empty =>
      exact .absent new (channels ▸ known) (interest ▸ empty)
    | added added known there =>
      exact .added added (channels ▸ known) (interest ▸ there)
    | deleted deleted known empty =>
      exact .deleted deleted (channels ▸ known) (interest ▸ empty)
  · intro fd event there
    rw [interest] at there
    exact h.owned fd event there
  · rw [failures]
    exact h.failures

end Registry

namespace PollRun

/-- What is reported on a descriptor is of the channel that has it, and of what the
channel asks for. -/
theorem report_some {d : Descriptors ι} {s : PollRun ι} (inv : s.registry.Inv d) {fd : Nat}
    {e : EpollEvent ι} (h : s.report fd = some e) :
    d.fd e.ptr = fd ∧ (s.registry.chan e.ptr).index = kAdded ∧
      e.events = s.device fd &&& ((s.registry.chan e.ptr).events ||| EPOLLERR ||| EPOLLHUP) ∧
      e.events ≠ 0 := by
  unfold report at h
  split at h
  · rename_i event there
    dsimp only at h
    split at h
    · cases h
    · rename_i some_
      cases h
      obtain rfl := inv.owned fd event there
      have listed := inv.interest event.ptr
      rw [there] at listed
      split at listed
      · rename_i added
        refine ⟨rfl, added, ?_, some_⟩
        rw [Option.some.inj listed]
      · cases listed
  · cases h

/-- The answer of `epoll_wait`, as the channels it stands for. -/
theorem ready_fds {d : Descriptors ι} {s : PollRun ι} (inv : s.registry.Inv d) {fds : List Nat}
    (all : ∀ fd ∈ fds, (s.report fd).isSome = true) :
    ((fds.filterMap s.report).map EpollEvent.ptr).map d.fd = fds := by
  induction fds with
  | nil => rfl
  | cons fd fds ih =>
    obtain ⟨e, reported⟩ := Option.isSome_iff_exists.mp (all fd List.mem_cons_self)
    rw [List.filterMap_cons_some reported, List.map_cons, List.map_cons,
      ih fun other mem => all other (List.mem_cons_of_mem _ mem), (report_some inv reported).1]

variable [DecidableEq ι]

/-- A poll of `s` that has returned, with `t` after it. -/
structure Reported (s t : PollRun ι) : Prop where
  distinct : t.activeChannels.Nodup
  fits : t.activeChannels.length ≤ s.registry.poller.eventsSize
  told : ∀ i ∈ t.activeChannels, (s.registry.chan i).index = kAdded ∧
    (t.registry.chan i).revents = s.device (s.registry.chan i).fd &&&
      ((s.registry.chan i).events ||| EPOLLERR ||| EPOLLHUP) ∧
    (t.registry.chan i).revents ≠ 0
  untold : ∀ i, i ∉ t.activeChannels → t.registry.chan i = s.registry.chan i
  grows : t.registry.poller.eventsSize =
    if t.activeChannels.length = s.registry.poller.eventsSize then
      s.registry.poller.eventsSize * 2 else s.registry.poller.eventsSize

omit [DecidableEq ι] in
theorem answers_iff {s : PollRun ι} {fds : List Nat} :
    s.answers fds = true ↔ fds.Nodup ∧ (∀ fd ∈ fds, (s.report fd).isSome = true) ∧
      fds.length ≤ s.registry.poller.eventsSize := by
  simp only [answers, Bool.and_eq_true, decide_eq_true_eq, List.all_eq_true, and_assoc]

theorem poll_active (s : PollRun ι) (fds : List Nat) :
    (s.poll fds).activeChannels = (fds.filterMap s.report).map EpollEvent.ptr :=
  EPollPoller.fillActiveChannels_active _ _

theorem poll_reported {d : Descriptors ι} {s : PollRun ι} {fds : List Nat}
    (inv : s.registry.Inv d) (room : 0 < s.registry.poller.eventsSize)
    (answer : s.answers fds = true) : Reported s (s.poll fds) ∧
      (s.poll fds).activeChannels.length = fds.length := by
  obtain ⟨nodup, all, fits⟩ := answers_iff.mp answer
  have stands := ready_fds inv all
  rw [← poll_active] at stands
  have length : (s.poll fds).activeChannels.length = fds.length := by
    rw [← congrArg List.length stands, List.length_map]
  have once : (s.poll fds).activeChannels.Nodup := by
    apply List.Nodup.of_map d.fd
    rw [stands]
    exact nodup
  refine ⟨⟨once, length ▸ fits, ?_, ?_, ?_⟩, length⟩
  · intro i mem
    rw [poll_active] at mem once
    obtain ⟨e, reported, rfl⟩ := List.mem_map.mp mem
    obtain ⟨fd, _, found⟩ := List.mem_filterMap.mp reported
    obtain ⟨at_, added, events, some_⟩ := report_some inv found
    have told := EPollPoller.fillActiveChannels_told s.registry.chan once reported
    refine ⟨added, ?_, ?_⟩
    · rw [inv.fd, at_, ← events]
      exact told
    · exact fun none => some_ (told.symm.trans none)
  · intro i absent
    rw [poll_active] at absent
    exact EPollPoller.fillActiveChannels_other _ absent
  · rw [length]
    have ready : (fds.filterMap s.report).length = fds.length := by
      rw [← length, poll_active, List.length_map]
    simp only [poll, EPollPoller.poll, ready]
    by_cases full : fds.length = s.registry.poller.eventsSize
    · rw [if_pos ⟨full ▸ room, full⟩, if_pos full]
    · rw [if_neg fun h => full h.2, if_neg full]

/-! ## Runs -/

/-- How the channels wait. A channel waits only in polls that filled `events_`, and
what these reported all came before it once. -/
structure Queued (d : Descriptors ι) (s : PollRun ι) : Prop where
  inv : s.registry.Inv d
  size : s.registry.poller.eventsSize = kInitEventListSize * 2 ^ s.fulls
  room : s.fulls = 0 ∨ s.registry.poller.eventsSize ≤ 2 * s.peak
  peak : ∃ reported : List ι, reported.Nodup ∧ reported.length = s.peak
  waits : ∀ i, s.waits i ≤ s.fulls
  passed : ∀ i, (s.passed i).length + kInitEventListSize * 2 ^ (s.fulls - s.waits i) =
    s.registry.poller.eventsSize
  once : ∀ i, (i :: s.passed i).Nodup

omit [DecidableEq ι] in
theorem Queued.positive {d : Descriptors ι} {s : PollRun ι} (h : s.Queued d) :
    0 < s.registry.poller.eventsSize := by
  rw [h.size]
  exact Nat.mul_pos (by decide) (Nat.pow_pos (by decide))

omit [DecidableEq ι] in
theorem Start.queued {d : Descriptors ι} {s : PollRun ι} (h : Start d s) : s.Queued d := by
  have size : s.registry.poller.eventsSize = kInitEventListSize := by
    rw [h.registry]
    rfl
  constructor
  · rw [h.registry]
    exact Registry.start_inv d
  · rw [size, h.fulls, Nat.pow_zero, Nat.mul_one]
  · exact .inl h.fulls
  · exact ⟨[], List.nodup_nil, h.peak.symm⟩
  · intro i
    exact Nat.le_of_eq ((h.waits i).trans h.fulls.symm)
  · intro i
    simp only [h.passed, h.waits, h.fulls, size, List.length_nil, Nat.sub_self, Nat.pow_zero,
      Nat.mul_one, Nat.zero_add]
  · intro i
    rw [h.passed]
    exact List.nodup_singleton i

omit [DecidableEq ι] in
theorem Queued.registered {d : Descriptors ι} {s : PollRun ι} {r : Registry ι} (h : s.Queued d)
    (inv : r.Inv d) (size : r.poller.eventsSize = s.registry.poller.eventsSize) :
    (s.registered r).Queued d := by
  refine ⟨inv, size.trans h.size, ?_, h.peak, ?_, ?_, ?_⟩
  · simp only [PollRun.registered, size]
    exact h.room
  · intro i
    simp only [PollRun.registered]
    split
    · exact h.waits i
    · exact Nat.zero_le _
  · intro i
    simp only [PollRun.registered, size]
    split
    · exact h.passed i
    · rw [List.length_nil, Nat.zero_add, Nat.sub_zero, h.size]
  · intro i
    simp only [PollRun.registered]
    split
    · exact h.once i
    · exact List.nodup_singleton i

theorem leftOut_iff {s : PollRun ι} {active : List ι} {i : ι} :
    s.leftOut active i = true ↔
      (s.report (s.registry.chan i).fd).isSome = true ∧ i ∉ active := by
  simp only [leftOut, Bool.and_eq_true, Bool.not_eq_true', List.contains_eq_mem,
    decide_eq_false_iff_not]

/-- A poll that leaves a channel out reports as many others as there is room for, and
then makes room for twice as many. -/
theorem Queued.poll {d : Descriptors ι} {s : PollRun ι} {fds : List Nat} (h : s.Queued d)
    (answer : s.answers fds = true) (fair : s.RoundRobin (.poll fds)) : (s.poll fds).Queued d := by
  obtain ⟨reported, length⟩ := poll_reported h.inv h.positive answer
  have ready : (fds.filterMap s.report).length = fds.length := by
    rw [← length, poll_active, List.length_map]
  have fulls : (s.poll fds).fulls =
      if fds.length = s.registry.poller.eventsSize then s.fulls + 1 else s.fulls := by
    simp only [PollRun.poll, ready]
  have grows := reported.grows
  rw [length] at grows
  have waits (i : ι) : (s.poll fds).waits i =
      if s.leftOut (s.poll fds).activeChannels i then s.waits i + 1 else 0 := rfl
  have passed (i : ι) : (s.poll fds).passed i =
      if s.leftOut (s.poll fds).activeChannels i then
        s.passed i ++ (s.poll fds).activeChannels else [] := rfl
  have size : (s.poll fds).registry.poller.eventsSize =
      kInitEventListSize * 2 ^ (s.poll fds).fulls := by
    rw [grows, fulls]
    split
    · rw [h.size, Nat.pow_succ, Nat.mul_assoc]
    · exact h.size
  have peak : (s.poll fds).peak = max s.peak fds.length := by
    simp only [PollRun.poll, ready]
  constructor
  · exact h.inv.polled _
  · exact size
  · rw [grows, fulls, peak]
    by_cases full : fds.length = s.registry.poller.eventsSize
    · rw [if_pos full, if_pos full]
      exact .inr (by omega)
    · rw [if_neg full, if_neg full]
      cases h.room with
      | inl none => exact .inl none
      | inr half => exact .inr (by omega)
  · rw [peak]
    by_cases more : s.peak ≤ fds.length
    · rw [Nat.max_eq_right more]
      exact ⟨_, reported.distinct, length⟩
    · rw [Nat.max_eq_left (by omega)]
      exact h.peak
  · intro i
    rw [waits, fulls]
    have before := h.waits i
    split
    · rename_i left
      rw [if_pos (fair i left).1]
      omega
    · exact Nat.zero_le _
  · intro i
    rw [waits, passed]
    split
    · rename_i left
      have full := (fair i left).1
      have before := h.passed i
      rw [grows, fulls, if_pos full, if_pos full, List.length_append, length, full,
        Nat.add_sub_add_right]
      omega
    · rw [List.length_nil, Nat.zero_add, Nat.sub_zero, size]
  · intro i
    rw [passed]
    split
    · rename_i left
      have apart := (leftOut_iff.mp left).2
      obtain ⟨new, once⟩ := List.nodup_cons.mp (h.once i)
      rw [List.nodup_cons, List.mem_append, List.nodup_append']
      refine ⟨fun either => either.elim new apart, once, reported.distinct, ?_⟩
      exact fun j old again => (fair i left).2 j again old
    · exact List.nodup_singleton i

theorem Queued.step {d : Descriptors ι} {s t : PollRun ι} {l : PollAct ι} (h : s.Queued d)
    (fair : s.RoundRobin l) (hs : s.step l = some t) : t.Queued d := by
  cases l with
  | channel i op =>
    obtain ⟨r, applied, inv, _⟩ := h.inv.apply i op
    simp only [PollRun.step, applied, Option.some.injEq] at hs
    subst hs
    exact h.registered inv (Registry.apply_eventsSize applied)
  | device fd events =>
    cases hs
    exact ⟨h.inv, h.size, h.room, h.peak, h.waits, h.passed, h.once⟩
  | poll fds =>
    simp only [PollRun.step, Option.ite_none_right_eq_some, Option.some.injEq] at hs
    obtain ⟨answer, rfl⟩ := hs
    exact h.poll answer fair
  | interrupted =>
    cases hs
    exact ⟨h.inv, h.size, h.room, h.peak, h.waits, h.passed, h.once⟩

/-- The size of `events_`, and how long a channel waits. -/
structure Turns [Fintype ι] (s : PollRun ι) : Prop where
  size : s.registry.poller.eventsSize = kInitEventListSize * 2 ^ s.fulls
  room : s.registry.poller.eventsSize ≤ max kInitEventListSize (2 * Fintype.card ι)
  waits : ∀ i, kInitEventListSize * (2 ^ s.waits i - 1) < Fintype.card ι

omit [DecidableEq ι] in
/-- The channels a channel has waited for are other channels, each once. -/
theorem Queued.turns [Fintype ι] {d : Descriptors ι} {s : PollRun ι} (h : s.Queued d) :
    s.Turns := by
  refine ⟨h.size, ?_, fun i => ?_⟩
  · cases h.room with
    | inl none =>
      rw [h.size, none]
      exact Nat.le_max_left _ _
    | inr half =>
      obtain ⟨reported, once, length⟩ := h.peak
      have most := once.length_le_card
      omega
  · have others := (h.once i).length_le_card
    have passed := h.passed i
    have size := h.size
    rw [List.length_cons] at others
    have growth : 2 ^ s.waits i * 2 ^ (s.fulls - s.waits i) = 2 ^ s.fulls := by
      rw [← Nat.pow_add, Nat.add_sub_cancel' (h.waits i)]
    have least : 2 ^ s.waits i - 1 ≤ 2 ^ s.fulls - 2 ^ (s.fulls - s.waits i) := by
      calc 2 ^ s.waits i - 1
        _ ≤ (2 ^ s.waits i - 1) * 2 ^ (s.fulls - s.waits i) :=
          Nat.le_mul_of_pos_right _ (Nat.pow_pos (by decide))
        _ = 2 ^ s.fulls - 2 ^ (s.fulls - s.waits i) := by
          rw [Nat.sub_mul, growth, Nat.one_mul]
    have sixteen : kInitEventListSize = 16 := rfl
    rw [sixteen] at passed size ⊢
    omega

/-- The channels of one poller under a kernel that goes round through the ready ones.
After every run a poll reports channels that are registered, none twice, each with
what happens of what it asks for, and touches no other channel. `events_` has doubled
as often as a poll filled it and never has more than twice as many places as there are
channels unless it has its first size, and a channel that `k` polls in succession left
out while it was ready is one of more than `16 * (2 ^ k - 1)`. -/
theorem turns_come [Fintype ι] {d : Descriptors ι} {s : PollRun ι}
    (h : (machine d).ReachableBy RoundRobin s) :
    s.Turns ∧ ∀ fds t, s.step (.poll fds) = some t → Reported s t := by
  have queued : s.Queued d := by
    apply h.invariant
    · exact fun _ start => Start.queued start
    · exact fun _ _ _ before fair hs => before.step fair hs
  refine ⟨queued.turns, fun fds t hs => ?_⟩
  simp only [step, Option.ite_none_right_eq_some, Option.some.injEq] at hs
  obtain ⟨answer, rfl⟩ := hs
  exact (poll_reported queued.inv queued.positive answer).1

/-- One channel more than `events_` has places at first. -/
def crowd : Descriptors (Fin 17) := ⟨fun i => i.val + 4, fun _ _ same => Fin.ext (by omega)⟩

def crowded : PollRun (Fin 17) :=
  { registry := .start crowd
    device := fun _ => EPOLLIN
    activeChannels := []
    fulls := 0
    peak := 0
    waits := fun _ => 0
    passed := fun _ => [] }

/-- All channels are readable. The first poll leaves one out, and the second finds room
for all of them. -/
def pollingTwice : List (PollAct (Fin 17)) :=
  (List.finRange 17).map (fun i => .channel i .enableReading) ++
    [.poll ((List.range 16).map (· + 4)), .poll ((List.range 17).map (20 - ·))]

theorem turns_come_crowded : ∃ s t, (machine crowd).exec crowded (pollingTwice.take 18) = some s ∧
    s.step (.poll ((List.range 17).map (20 - ·))) = some t ∧
    s.waits 16 = 1 ∧ s.registry.poller.eventsSize = 32 ∧ t.activeChannels.length = 17 ∧
    s.Turns ∧ Reported s t := by
  have run : ((machine crowd).exec crowded (pollingTwice.take 18)).map
      (fun s => (s.waits 16, s.registry.poller.eventsSize)) = some (1, 32) := by decide +kernel
  have again : ((machine crowd).exec crowded pollingTwice).map
      (fun t => t.activeChannels.length) = some 17 := by decide +kernel
  obtain ⟨s, hs, found⟩ := Option.map_eq_some_iff.mp run
  obtain ⟨waits, size⟩ := Prod.mk.inj found
  obtain ⟨t, ht, all⟩ := Option.map_eq_some_iff.mp again
  have second : s.step (.poll ((List.range 17).map (20 - ·))) = some t := by
    have split_ : pollingTwice = pollingTwice.take 18 ++
        [.poll ((List.range 17).map (20 - ·))] := rfl
    rw [split_, Machine.exec_append, hs, Option.bind_some] at ht
    obtain ⟨u, hu, rest⟩ := Option.bind_eq_some_iff.mp ht
    cases rest
    exact hu
  have reachable : (machine crowd).ReachableBy RoundRobin s := by
    have start : (machine crowd).start crowded :=
      ⟨rfl, rfl, rfl, rfl, fun _ => rfl, fun _ => rfl⟩
    apply Machine.ReachableBy.of_steps (.start start) (pollingTwice.take 18) ?_ hs
    decide +kernel
  obtain ⟨turns, reported⟩ := turns_come reachable
  exact ⟨s, t, hs, second, waits, size, all, turns, reported _ t second⟩

end PollRun
end Kenmuduo
