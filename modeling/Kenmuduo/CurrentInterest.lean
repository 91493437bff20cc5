import Kenmuduo.Registration

/-!
# Registration and the current interest

`updateChannel` takes a channel that is not in the epoll set into it without a
look at its interest; only where the channel is in the set does it test for an
empty one. So what the set holds depends on the index before the last operation
too, unless that operation leaves some interest.
-/

namespace Kenmuduo

variable {ι : Type} [DecidableEq ι]

namespace Registry

/-- The epoll set holds the channel exactly when it has an interest, with that
mask. -/
def Listed (r : Registry ι) (i : ι) : Prop :=
  r.poller.interest (r.chan i).fd =
    if (r.chan i).isNoneEvent then none else some ⟨(r.chan i).events, i⟩

/-- The operation leaves some interest, or the channel is in the epoll set
before it. -/
def Apt (r : Registry ι) (i : ι) (op : ChannelOp) : Prop :=
  op.events (r.chan i) ≠ kNoneEvent ∨ (r.chan i).index = kAdded

instance (r : Registry ι) (i : ι) (op : ChannelOp) : Decidable (r.Apt i op) :=
  inferInstanceAs (Decidable (_ ∨ _))

theorem apply_chan {r s : Registry ι} {i : ι} {op : ChannelOp} (hop : op ≠ .remove)
    (h : r.apply i op = .ok s) :
    s.chan i = { r.chan i with events := op.events (r.chan i) }.update := by
  obtain ⟨⟨q, c⟩, hq, result⟩ := bind_ok_iff.mp h
  cases result
  rw [request, if_neg hop] at hq
  exact (assign_same ..).trans (EPollPoller.updateChannel_channel hq)

omit [DecidableEq ι] in
/-- The epoll set by the index. -/
theorem Inv.interest {d : Descriptors ι} {r : Registry ι} (h : r.Inv d) (i : ι) :
    r.poller.interest (d.fd i) =
      if (r.chan i).index = kAdded then some ⟨(r.chan i).events, i⟩ else none := by
  rw [← h.fd i]
  cases h.agrees i with
  | absent index _ none => rw [index, if_neg (by decide), none]
  | added index _ some => rw [if_pos index, some]
  | deleted index _ none => rw [index, if_neg (by decide), none]

/-- What an operation leaves. Only one that empties the interest of a channel in
the epoll set takes it out. -/
structure Leaves (d : Descriptors ι) (r : Registry ι) (i : ι) (op : ChannelOp) (s : Registry ι) :
    Prop where
  before : r.Inv d
  after : s.Inv d
  events : (s.chan i).events = op.events (r.chan i)
  interest : s.poller.interest (d.fd i) =
    if (r.chan i).index = kAdded ∧ op.events (r.chan i) = kNoneEvent then none
    else some ⟨op.events (r.chan i), i⟩

theorem apply_leaves {d : Descriptors ι} {r s : Registry ι} {i : ι} {op : ChannelOp}
    (before : r.Inv d) (after : s.Inv d) (hop : op ≠ .remove) (h : r.apply i op = .ok s) :
    Leaves d r i op s := by
  have chan := apply_chan hop h
  have events : (s.chan i).events = op.events (r.chan i) := by rw [chan, Channel.update_events]
  refine ⟨before, after, events, ?_⟩
  rw [after.interest i, events, chan]
  simp only [Channel.update, Channel.isNoneEvent, beq_iff_eq]
  cases before.agrees i with
  | absent index _ _ => simp [index, kNew, kAdded]
  | deleted index _ _ => simp [index, kNew, kAdded, kDeleted]
  | added index _ _ =>
    by_cases empty : op.events (r.chan i) = 0#32
    · simp [index, empty, kNew, kAdded, kDeleted]
    · simp [index, empty, kNew, kAdded, kDeleted]

theorem run_leaves (d : Descriptors ι) (ops : List (ι × ChannelOp)) (i : ι) {op : ChannelOp}
    (hop : op ≠ .remove) :
    ∃ r s, (start d).run ops = .ok r ∧ r.apply i op = .ok s ∧ Leaves d r i op s := by
  obtain ⟨r, hr, before⟩ := (start_inv d).run ops
  obtain ⟨s, hs, after, _⟩ := before.apply i op
  exact ⟨r, s, hr, hs, apply_leaves before after hop hs⟩

omit [DecidableEq ι] in
theorem Leaves.listed_apt {d : Descriptors ι} {r s : Registry ι} {i : ι} {op : ChannelOp}
    (h : Leaves d r i op s) : s.Listed i ↔ r.Apt i op := by
  rw [Listed, Channel.isNoneEvent, h.after.fd, h.interest, h.events, Apt]
  by_cases empty : op.events (r.chan i) = 0#32
  · by_cases added : (r.chan i).index = kAdded
    · simp [empty, added]
    · simp [empty, added]
  · simp [empty]

omit [DecidableEq ι] in
/-- Two operations that leave the same interest leave the same in the epoll set
unless only one of them is apt. -/
theorem Leaves.same_iff {d : Descriptors ι} {r s r' s' : Registry ι} {i : ι} {op op' : ChannelOp}
    (h : Leaves d r i op s) (h' : Leaves d r' i op' s')
    (same : (s'.chan i).events = (s.chan i).events) :
    s'.poller.interest (d.fd i) = s.poller.interest (d.fd i) ↔ (r'.Apt i op' ↔ r.Apt i op) := by
  rw [h.events, h'.events] at same
  rw [h.interest, h'.interest, Apt, Apt, same]
  by_cases empty : op.events (r.chan i) = 0#32
  · by_cases added : (r.chan i).index = kAdded
    · simp [empty, added]
    · simp [empty, added]
  · simp [empty]

/-- A second time, an operation leaves the interest of the first. -/
theorem events_again {c c' : Channel} {op : ChannelOp} (hop : op ≠ .remove)
    (h : c'.events = op.events c) : op.events c' = op.events c := by
  cases op with
  | enableReading =>
    rw [ChannelOp.events, Channel.enableReading, h, ChannelOp.events, Channel.enableReading,
      BitVec.or_assoc, BitVec.or_self]
  | disableReading =>
    rw [ChannelOp.events, Channel.disableReading, h, ChannelOp.events, Channel.disableReading,
      BitVec.and_assoc, BitVec.and_self]
  | enableWriting =>
    rw [ChannelOp.events, Channel.enableWriting, h, ChannelOp.events, Channel.enableWriting,
      BitVec.or_assoc, BitVec.or_self]
  | disableWriting =>
    rw [ChannelOp.events, Channel.disableWriting, h, ChannelOp.events, Channel.disableWriting,
      BitVec.and_assoc, BitVec.and_self]
  | disableAll => rfl
  | remove => exact absurd rfl hop

omit [DecidableEq ι] in
/-- Of an operation and the same again, at most one finds the channel in the
epoll set and empties its interest. -/
theorem Leaves.again_iff {d : Descriptors ι} {r s t : Registry ι} {i : ι} {op : ChannelOp}
    (first : Leaves d r i op s) (second : Leaves d s i op t) (hop : op ≠ .remove) :
    t.poller.interest (d.fd i) = s.poller.interest (d.fd i) ↔
      (s.chan i).events ≠ kNoneEvent := by
  rw [second.interest, events_again hop first.events, ← first.events]
  by_cases empty : (s.chan i).events = 0#32
  · rw [first.after.interest i]
    by_cases added : (s.chan i).index = kAdded
    · simp [empty, added]
    · simp [empty, added]
  · rw [first.interest, ← first.events]
    simp [empty]

/-- After any history the epoll set holds a channel according to its interest
exactly when the last operation is apt. Made once more, that operation changes
nothing in the set exactly when it leaves some interest; and a history that leaves the
same interest leaves the same in the set exactly when both or neither end apt. -/
theorem listed_iff (d : Descriptors ι) (ops : List (ι × ChannelOp)) (i : ι) {op : ChannelOp}
    (hop : op ≠ .remove) :
    ∃ r s, (start d).run ops = .ok r ∧ r.apply i op = .ok s ∧
    (s.Listed i ↔ r.Apt i op) ∧
    (∃ t, s.apply i op = .ok t ∧ (t.poller.interest (d.fd i) = s.poller.interest (d.fd i) ↔
      (s.chan i).events ≠ kNoneEvent)) ∧
    ∀ ops' op', op' ≠ .remove → ∃ r' s', (start d).run ops' = .ok r' ∧
      r'.apply i op' = .ok s' ∧ ((s'.chan i).events = (s.chan i).events →
        (s'.poller.interest (d.fd i) = s.poller.interest (d.fd i) ↔
          (r'.Apt i op' ↔ r.Apt i op))) := by
  obtain ⟨r, s, hr, hs, leaves⟩ := run_leaves d ops i hop
  refine ⟨r, s, hr, hs, leaves.listed_apt, ?_, ?_⟩
  · obtain ⟨t, ht, after, _⟩ := leaves.after.apply i op
    exact ⟨t, ht, leaves.again_iff (apply_leaves leaves.after after hop ht) hop⟩
  · intro ops' op' hop'
    obtain ⟨r', s', hr', hs', leaves'⟩ := run_leaves d ops' i hop'
    exact ⟨r', s', hr', hs', leaves.same_iff leaves'⟩

/-- One channel, as an acceptor has it. -/
def lone : Descriptors Unit := ⟨fun _ => 3, fun _ _ _ => rfl⟩

/-- `disableAll` of a channel that was reading. -/
theorem listed_disabled : ∃ r s, (start lone).run [((), .enableReading)] = .ok r ∧
    r.apply () .disableAll = .ok s ∧ s.Listed () := by
  have run : ((start lone).run [((), .enableReading)]).toOption.map
      (fun r => decide (r.Apt () .disableAll)) = some true := by
    decide +kernel
  obtain ⟨r, s, hr, hs, listed, _⟩ :=
    listed_iff lone [((), .enableReading)] () (show ChannelOp.disableAll ≠ .remove by decide)
  simp only [hr, Except.toOption, Option.map_some, Option.some.injEq, decide_eq_true_eq] at run
  exact ⟨r, s, hr, hs, listed.mpr run⟩

/-- `~Acceptor` without a `listen`: `disableAll` puts the channel into the epoll
set, with an empty mask. -/
theorem not_listed_unlistened : ∃ s, (start lone).apply () .disableAll = .ok s ∧
    (s.chan ()).events = kNoneEvent ∧ s.poller.interest 3 = some ⟨kNoneEvent, ()⟩ ∧
    ¬ s.Listed () := by
  have run : ((start lone).apply () .disableAll).toOption.map
      (fun s => (s.chan (), s.poller.interest 3)) =
      some (⟨3, 0, 0, kAdded, false⟩, some ⟨kNoneEvent, ()⟩) := by
    decide +kernel
  cases hs : (start lone).apply () .disableAll with
  | error e =>
    rw [hs] at run
    cases run
  | ok s =>
    rw [hs] at run
    simp only [Except.toOption, Option.map_some, Option.some.injEq, Prod.mk.injEq] at run
    obtain ⟨chan, interest⟩ := run
    refine ⟨s, rfl, by rw [chan], interest, ?_⟩
    intro listed
    rw [Listed, chan, interest] at listed
    cases listed

end Registry
end Kenmuduo
