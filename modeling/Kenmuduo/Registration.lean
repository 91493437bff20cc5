import Kenmuduo.EPollPoller

/-!
# Channels over one poller

Any number of channels with pairwise distinct descriptors share one poller.
Each interest operation is the channel's own change of `events_` followed by
`updateChannel`; `remove` is `removeChannel`. Histories are arbitrary lists of
operations on arbitrary channels.
-/

namespace Kenmuduo

variable {ι : Type} [DecidableEq ι]

/-- The descriptors of the channels, pairwise distinct. -/
structure Descriptors (ι : Type) where
  fd : ι → Nat
  distinct : ∀ i j, fd i = fd j → i = j

inductive ChannelOp
  | enableReading | disableReading | enableWriting | disableWriting | disableAll | remove
  deriving DecidableEq, Repr

/-- The interest the operation leaves in `events_`. -/
def ChannelOp.events (c : Channel) : ChannelOp → Mask
  | enableReading => c.enableReading.events
  | disableReading => c.disableReading.events
  | enableWriting => c.enableWriting.events
  | disableWriting => c.disableWriting.events
  | disableAll => c.disableAll.events
  | remove => c.events

structure Registry (ι : Type) where
  chan : ι → Channel
  poller : EPollPoller ι

namespace Registry

def start (d : Descriptors ι) : Registry ι := ⟨fun i => Channel.new (d.fd i), .new⟩

/-- The call of the poller, with the new interest in the channel. -/
def request (r : Registry ι) (i : ι) (op : ChannelOp) : Except Exit (EPollPoller ι × Channel) :=
  let c := { r.chan i with events := op.events (r.chan i) }
  if op = .remove then r.poller.removeChannel i c else r.poller.updateChannel i c

def apply (r : Registry ι) (i : ι) (op : ChannelOp) : Except Exit (Registry ι) := do
  let (p, c) ← r.request i op
  return ⟨assign r.chan i c, p⟩

def run (r : Registry ι) : List (ι × ChannelOp) → Except Exit (Registry ι)
  | [] => .ok r
  | (i, op) :: ops => do
    let r ← r.apply i op
    r.run ops

/-- What index, map and epoll set say about one channel. -/
structure Coherent (r : Registry ι) (i : ι) : Prop where
  new : (r.chan i).index = kNew ↔
    r.poller.channels (r.chan i).fd = none ∧ r.poller.interest (r.chan i).fd = none
  added : (r.chan i).index = kAdded ↔
    r.poller.channels (r.chan i).fd = some i ∧
      r.poller.interest (r.chan i).fd = some ⟨(r.chan i).events, i⟩
  deleted : (r.chan i).index = kDeleted ↔
    r.poller.channels (r.chan i).fd = some i ∧ r.poller.interest (r.chan i).fd = none

/-- Everything kept about the channel and the kernel at `i` is the same. -/
structure SameAt (r s : Registry ι) (i : ι) : Prop where
  chan : s.chan i = r.chan i
  channels : s.poller.channels (r.chan i).fd = r.poller.channels (r.chan i).fd
  interest : s.poller.interest (r.chan i).fd = r.poller.interest (r.chan i).fd

/-- The invariant of every history: the channels keep their descriptors, each
agrees with the poller, and the epoll set holds nothing else. -/
structure Inv (d : Descriptors ι) (r : Registry ι) : Prop where
  fd : ∀ i, (r.chan i).fd = d.fd i
  agrees : ∀ i, r.poller.Agrees i (r.chan i)
  owned : ∀ fd ev, r.poller.interest fd = some ev → fd = d.fd ev.ptr
  failures : r.poller.failures = 0

omit [DecidableEq ι] in
theorem start_inv (d : Descriptors ι) : (start d).Inv d :=
  ⟨fun _ => rfl, fun _ => .absent rfl rfl rfl, fun _ _ h => (nomatch h), rfl⟩

omit [DecidableEq ι] in
theorem agrees_coherent {r : Registry ι} {i : ι} (h : r.poller.Agrees i (r.chan i)) :
    r.Coherent i := by
  constructor <;> cases h <;> simp_all [kNew, kAdded, kDeleted]

/-- One operation succeeds, keeps the invariant and leaves the rest alone. -/
theorem Inv.apply {d : Descriptors ι} {r : Registry ι} (h : r.Inv d) (i : ι) (op : ChannelOp) :
    ∃ s, r.apply i op = .ok s ∧ s.Inv d ∧ ∀ j, j ≠ i → SameAt r s j := by
  have move : ∃ q c', r.request i op = .ok (q, c') ∧ c'.fd = (r.chan i).fd ∧ q.Agrees i c' ∧
      EPollPoller.Frame r.poller q (r.chan i).fd := by
    unfold request
    split
    · rename_i hop
      subst hop
      exact (h.agrees i).removeChannel
    · exact (h.agrees i).updateChannel _
  obtain ⟨q, c', hq, hfd, agrees, frame⟩ := move
  have apart : ∀ j, j ≠ i → (r.chan j).fd ≠ (r.chan i).fd := by
    intro j ne same
    rw [h.fd, h.fd] at same
    exact ne (d.distinct j i same)
  refine ⟨⟨assign r.chan i c', q⟩, by simp only [Registry.apply, hq, ok_bind, pure_ok], ?_, ?_⟩
  · refine ⟨fun j => ?_, fun j => ?_, fun fd ev hev => ?_, frame.failures.trans h.failures⟩
    · by_cases ne : j = i
      · subst ne; simpa using hfd.trans (h.fd j)
      · simpa [ne] using h.fd j
    · by_cases ne : j = i
      · subst ne; simpa using agrees
      · simpa [ne] using (h.agrees j).frame frame (apart j ne)
    · by_cases same : fd = (r.chan i).fd
      · subst same
        have hev : q.interest c'.fd = some ev := by rw [hfd]; exact hev
        cases agrees with
        | absent _ _ none | deleted _ _ none => rw [none] at hev; cases hev
        | added _ _ some =>
          rw [some] at hev
          cases hev
          exact h.fd i
      · exact h.owned fd ev ((frame.interest fd same).symm.trans hev)
  · intro j ne
    exact ⟨by simp [ne], frame.channels _ (apart j ne), frame.interest _ (apart j ne)⟩

theorem Inv.run {d : Descriptors ι} {r : Registry ι} (h : r.Inv d) (ops : List (ι × ChannelOp)) :
    ∃ s, r.run ops = .ok s ∧ s.Inv d := by
  induction ops generalizing r with
  | nil => exact ⟨r, rfl, h⟩
  | cons head ops ih =>
    obtain ⟨i, op⟩ := head
    obtain ⟨s, hs, inv, _⟩ := h.apply i op
    obtain ⟨t, ht, inv'⟩ := ih inv
    exact ⟨t, by simp only [Registry.run, hs, ok_bind, ht], inv'⟩

/-- A channel `epoll_wait` reports is in the epoll set, so its index says so. -/
theorem Inv.poll {d : Descriptors ι} {r : Registry ι} (h : r.Inv d)
    {ready : List (EpollEvent ι)} (hr : r.poller.Ready ready) :
    ∀ i ∈ (r.poller.poll r.chan ready).2.2,
      ((r.poller.poll r.chan ready).2.1 i).index = kAdded := by
  intro i hi
  simp only [EPollPoller.poll, EPollPoller.fillActiveChannels_active, List.mem_map] at hi
  obtain ⟨e, he, rfl⟩ := hi
  obtain ⟨fd, ev, hev, same⟩ := hr.2 e he
  simp only [EPollPoller.poll, EPollPoller.fillActiveChannels_index]
  have here : r.poller.interest (r.chan e.ptr).fd = some ev := by
    rw [h.fd, same, ← h.owned fd ev hev]; exact hev
  cases h.agrees e.ptr with
  | absent _ _ none | deleted _ _ none => rw [none] at here; cases here
  | added index _ _ => exact index

/-- After any history every channel is coherent and no `epoll_ctl` has failed.
The next operation succeeds too and leaves the other channels unchanged, and
every channel the next `poll` reports has index `kAdded`. -/
theorem coherent (d : Descriptors ι) (ops : List (ι × ChannelOp)) :
    ∃ r, (start d).run ops = .ok r ∧ (∀ i, r.Coherent i) ∧ r.poller.failures = 0 ∧
      (∀ i op, ∃ s, r.apply i op = .ok s ∧ ∀ j, j ≠ i → SameAt r s j) ∧
      ∀ ready, r.poller.Ready ready → ∀ i ∈ (r.poller.poll r.chan ready).2.2,
        ((r.poller.poll r.chan ready).2.1 i).index = kAdded := by
  obtain ⟨r, hr, inv⟩ := (start_inv d).run ops
  refine ⟨r, hr, fun i => agrees_coherent (inv.agrees i), inv.failures, fun i op => ?_,
    fun ready hready => inv.poll hready⟩
  obtain ⟨s, hs, _, same⟩ := inv.apply i op
  exact ⟨s, hs, same⟩

end Registry
end Kenmuduo
