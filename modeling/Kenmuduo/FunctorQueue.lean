import Kenmuduo.BatchLog
import Kenmuduo.EventLoop

/-!
# The functor queue

The loop, its mutex and its local vector are a log consumed in batches: the
pushes of all threads are the log, `doPendingFunctor` cuts off and works
through a batch, and everything else the threads do leaves the log alone.
-/

namespace Kenmuduo
open Transition

namespace LoopRun
variable {φ : Type}

def rest (s : LoopRun φ) : List (Queued φ) :=
  match s.pc with
  | .batch functors | .running functors => functors
  | _ => []

def current (s : LoopRun φ) : Option φ :=
  match s.pc with
  | .running _ => s.executed.getLast?.map fun e => e.2.functor
  | _ => none

/-- The abstract log of a state of the loop. -/
structure Refines (s : LoopRun φ) (b : BatchLog (Queued φ)) : Prop where
  log : b.log = s.pushed
  executed : b.executed = s.executed.map Prod.snd
  mark : b.mark = s.swapped
  batch : b.batch = s.rest
  pending : b.pending = s.loop.pendingFunctors

structure SameQueue (s t : LoopRun φ) : Prop where
  threadId : t.loop.threadId = s.loop.threadId
  pushed : t.pushed = s.pushed
  executed : t.executed = s.executed
  swapped : t.swapped = s.swapped
  rest : t.rest = s.rest
  pending : t.loop.pendingFunctors = s.loop.pendingFunctors

structure Pushes (s t : LoopRun φ) (functor : Queued φ) : Prop where
  threadId : t.loop.threadId = s.loop.threadId
  ticket : functor.ticket = s.pushed.length
  pushed : t.pushed = s.pushed ++ [functor]
  executed : t.executed = s.executed
  swapped : t.swapped = s.swapped
  rest : t.rest = s.rest
  pending : t.loop.pendingFunctors = s.loop.pendingFunctors ++ [functor]

/-- A step is the swap of `doPendingFunctor`. -/
structure Swaps (s t : LoopRun φ) : Prop where
  threadId : t.loop.threadId = s.loop.threadId
  pushed : t.pushed = s.pushed
  executed : t.executed = s.executed
  swapped : t.swapped = s.pushed.length
  before : s.rest = []
  rest : t.rest = s.loop.pendingFunctors
  pending : t.loop.pendingFunctors = []

/-- A step starts the next functor of the batch. -/
structure Starts (s t : LoopRun φ) (functor : Queued φ) : Prop where
  threadId : t.loop.threadId = s.loop.threadId
  pushed : t.pushed = s.pushed
  executed : t.executed = s.executed ++ [(s.loop.threadId, functor)]
  swapped : t.swapped = s.swapped
  rest : s.rest = functor :: t.rest
  pending : t.loop.pendingFunctors = s.loop.pendingFunctors

theorem advance_queue {s t : LoopRun φ} (h : s.advance = some t) :
    s.SameQueue t ∨ s.Swaps t ∨ ∃ functor, s.Starts t functor := by
  cases at_ : s.pc with
  | outside | polling => simp [advance, at_] at h
  | swapping =>
    simp only [advance, at_, Option.some.injEq] at h
    subst h
    exact .inr (.inl ⟨rfl, rfl, rfl, rfl, by simp [rest, at_], rfl, rfl⟩)
  | batch functors =>
    cases functors with
    | nil =>
      simp only [advance, at_, Option.some.injEq] at h
      subst h
      exact .inl ⟨rfl, rfl, rfl, rfl, by simp [rest, at_], rfl⟩
    | cons functor functors =>
      simp only [advance, at_, Option.some.injEq] at h
      subst h
      exact .inr (.inr ⟨functor, rfl, rfl, rfl, rfl, by simp [rest, at_], rfl⟩)
  | condition =>
    simp only [advance, at_, Option.some.injEq] at h
    subst h
    exact .inl ⟨rfl, rfl, rfl, rfl, by cases s.loop.quit <;> simp [rest, at_], rfl⟩
  | dispatching activeChannels =>
    rcases activeChannels with _ | ⟨_ | _, _⟩
    all_goals
      simp only [advance, at_, Option.some.injEq] at h
      subst h
      exact .inl ⟨rfl, rfl, rfl, rfl, by simp [rest, at_], rfl⟩
  | entered | handling | calling | running | leaving =>
    simp only [advance, at_, Option.some.injEq] at h
    subst h
    exact .inl ⟨rfl, rfl, rfl, rfl, by simp [rest, at_], rfl⟩

theorem push_queue (s : LoopRun φ) (cb : φ) (thread : Nat) (c : Call) :
    s.Pushes ((s.push cb).setCall thread c) ⟨s.pushed.length, cb⟩ :=
  ⟨rfl, rfl, rfl, rfl, rfl, rfl, rfl⟩

/-- The queue changes by pushes, by the swap and by the start of a functor. -/
theorem step_queue {s t : LoopRun φ} {l : LoopAct φ} (h : s.step l = some t) :
    s.SameQueue t ∨ (∃ functor, l.cb = some functor.functor ∧ s.Pushes t functor) ∨
    s.Swaps t ∨ ∃ functor, s.Starts t functor := by
  cases l with
  | enter =>
    cases at_ : s.pc with
    | outside =>
      simp only [step, at_, Option.ite_none_right_eq_some, Option.some.injEq] at h
      obtain ⟨_, rfl⟩ := h
      exact .inl ⟨rfl, rfl, rfl, rfl, by simp [rest, at_], rfl⟩
    | _ => simp [step, at_] at h
  | advance =>
    simp only [step, Option.ite_none_right_eq_some] at h
    rcases advance_queue h.2 with same | swaps | starts
    · exact .inl same
    · exact .inr (.inr (.inl swaps))
    · exact .inr (.inr (.inr starts))
  | poll activeChannels =>
    cases at_ : s.pc with
    | polling =>
      simp only [step, at_, Option.ite_none_right_eq_some, Option.some.injEq] at h
      obtain ⟨_, rfl⟩ := h
      exact .inl ⟨rfl, rfl, rfl, rfl, by simp [rest, at_], rfl⟩
    | _ => simp [step, at_] at h
  | runInLoop thread cb =>
    simp only [step, Option.ite_none_right_eq_some] at h
    obtain ⟨_, h⟩ := h
    split at h
    · cases h
      exact .inl ⟨rfl, rfl, rfl, rfl, rfl, rfl⟩
    · cases h
      exact .inr (.inl ⟨_, rfl, s.push_queue cb thread .pushed⟩)
  | queueInLoop thread cb =>
    simp only [step, Option.ite_none_right_eq_some, Option.some.injEq] at h
    obtain ⟨_, rfl⟩ := h
    exact .inr (.inl ⟨_, rfl, s.push_queue cb thread .pushed⟩)
  | test thread =>
    simp only [step, Option.ite_none_right_eq_some] at h
    obtain ⟨_, h⟩ := h
    split at h <;> cases h <;> exact .inl ⟨rfl, rfl, rfl, rfl, rfl, rfl⟩
  | wakeup thread =>
    simp only [step, Option.ite_none_right_eq_some, Option.some.injEq] at h
    obtain ⟨_, rfl⟩ := h
    exact .inl ⟨by simp [setCall], rfl, rfl, rfl, rfl, by simp [setCall]⟩
  | quit thread =>
    simp only [step, Option.ite_none_right_eq_some] at h
    obtain ⟨_, h⟩ := h
    split at h <;> cases h <;> exact .inl ⟨rfl, rfl, rfl, rfl, rfl, rfl⟩

theorem advance_current {s t : LoopRun φ} (h : s.advance = some t) :
    t.current = none ∨ ∃ functor, s.Starts t functor ∧ t.current = some functor.functor := by
  cases at_ : s.pc with
  | outside | polling => simp [advance, at_] at h
  | batch functors =>
    cases functors with
    | nil =>
      simp only [advance, at_, Option.some.injEq] at h
      subst h
      exact .inl rfl
    | cons functor functors =>
      simp only [advance, at_, Option.some.injEq] at h
      subst h
      exact .inr ⟨functor, ⟨rfl, rfl, rfl, rfl, by simp [rest, at_], rfl⟩, by simp [current]⟩
  | condition =>
    simp only [advance, at_, Option.some.injEq] at h
    subst h
    exact .inl (by cases s.loop.quit <;> simp [current])
  | dispatching activeChannels =>
    rcases activeChannels with _ | ⟨_ | _, _⟩
    all_goals
      simp only [advance, at_, Option.some.injEq] at h
      subst h
      exact .inl rfl
  | entered | handling | calling | swapping | running | leaving =>
    simp only [advance, at_, Option.some.injEq] at h
    subst h
    exact .inl rfl

/-- A functor runs until it returns. -/
theorem step_current {s t : LoopRun φ} {l : LoopAct φ} (h : s.step l = some t) :
    t.current = none ∨ (t.current = s.current ∧ t.executed = s.executed) ∨
    ∃ functor, s.Starts t functor ∧ t.current = some functor.functor := by
  have still (pc : t.pc = s.pc) : t.current = s.current ∧ t.executed = s.executed := by
    rcases step_queue h with same | ⟨_, _, pushes⟩ | swaps | ⟨functor, starts⟩
    · exact ⟨by simp only [current, pc, same.executed], same.executed⟩
    · exact ⟨by simp only [current, pc, pushes.executed], pushes.executed⟩
    · exact ⟨by simp only [current, pc, swaps.executed], swaps.executed⟩
    · have left : s.rest = functor :: s.rest := by
        simpa only [rest, pc] using starts.rest
      exact absurd left (List.ne_cons_self)
  rcases step_flags h with ⟨_, _, pc, _⟩ | ⟨_, go⟩ | ⟨_, _, _, pc, _⟩ | ⟨_, _, pc, _⟩ | ⟨pc, _⟩
  · exact .inl (by simp only [current, pc])
  · rcases advance_current go with idle | starts
    · exact .inl idle
    · exact .inr (.inr starts)
  · exact .inl (by simp only [current, pc])
  · exact .inr (.inl (still pc))
  · exact .inr (.inl (still pc))

/-- The loop among its threads is a log consumed in batches. -/
theorem refines_batchLog :
    Simulation (machine (φ := φ)) BatchLog.machine Refines where
  start s hs := by
    obtain ⟨threadId, rfl⟩ := hs
    exact ⟨.empty, rfl, rfl, rfl, rfl, rfl, rfl⟩
  step s l t b h r := by
    rcases step_queue h with same | ⟨functor, _, pushes⟩ | swaps | ⟨functor, starts⟩
    · exact ⟨[], b, rfl, by rw [r.log, same.pushed], by rw [r.executed, same.executed],
        by rw [r.mark, same.swapped], by rw [r.batch, same.rest], by rw [r.pending, same.pending]⟩
    · exact ⟨[.push functor], b.push functor, rfl, by simp [r.log, pushes.pushed],
        by simp [r.executed, pushes.executed], by simp [r.mark, pushes.swapped],
        by simp [r.batch, pushes.rest], by simp [r.pending, pushes.pending]⟩
    · have drained : b.batch = [] := by rw [r.batch, swaps.before]
      have enabled := b.batch_nil_iff.mp drained
      exact ⟨[.cut], b.cut, by simp [Machine.exec, BatchLog.machine, enabled],
        by simp [r.log, swaps.pushed], by simp [r.executed, swaps.executed],
        by simp [r.log, swaps.swapped], by rw [b.cut_batch drained, r.pending, swaps.rest],
        by simp [swaps.pending]⟩
    · obtain ⟨c, hc, log, mark, pending, batch, executed⟩ :=
        b.run_cons (r.batch.trans starts.rest)
      exact ⟨[.run], c, by simp [Machine.exec, BatchLog.machine, hc],
        by rw [log, r.log, starts.pushed], by simp [executed, r.executed, starts.executed],
        by rw [mark, r.mark, starts.swapped], batch, by rw [pending, r.pending, starts.pending]⟩

/-- What ran is a prefix of what was pushed. -/
theorem executed_in_order {s : LoopRun φ} (h : machine.Reachable s) :
    s.executed.map Prod.snd <+: s.pushed := by
  obtain ⟨b, _, r⟩ := refines_batchLog.reachable h
  rw [← r.executed, ← r.log]
  exact b.executed_in_order

/-- Tickets number the pushes; what runs, runs on the loop's thread. -/
structure Recorded (s : LoopRun φ) : Prop where
  tickets : s.pushed.map Queued.ticket = List.range s.pushed.length
  thread : ∀ e ∈ s.executed, e.1 = s.loop.threadId

theorem reachable_recorded {s : LoopRun φ} (h : machine.Reachable s) : s.Recorded := by
  refine h.invariant (I := Recorded) ?_ ?_
  · rintro s ⟨threadId, rfl⟩
    exact ⟨rfl, by simp⟩
  · intro s l t inv h
    rcases step_queue h with same | ⟨functor, _, pushes⟩ | swaps | ⟨functor, starts⟩
    · exact ⟨same.pushed ▸ inv.tickets, by rw [same.executed, same.threadId]; exact inv.thread⟩
    · refine ⟨?_, by rw [pushes.executed, pushes.threadId]; exact inv.thread⟩
      rw [pushes.pushed, List.map_append, inv.tickets, List.length_append, List.length_singleton,
        List.range_succ]
      simp [pushes.ticket]
    · exact ⟨swaps.pushed ▸ inv.tickets, by rw [swaps.executed, swaps.threadId]; exact inv.thread⟩
    · refine ⟨starts.pushed ▸ inv.tickets, ?_⟩
      rw [starts.executed, starts.threadId]
      intro e he
      rcases List.mem_append.mp he with before | now
      · exact inv.thread e before
      · exact (List.mem_singleton.mp now) ▸ rfl

theorem Recorded.nodup {s : LoopRun φ} (h : s.Recorded) : s.pushed.Nodup :=
  List.Pairwise.of_map Queued.ticket (fun _ _ apart same => apart (same ▸ rfl))
    (h.tickets ▸ List.nodup_range)

/-- `doPendingFunctor` is between its swap and its return. -/
def inBatch (s : LoopRun φ) : Prop := ∃ functors, s.pc = .batch functors ∨ s.pc = .running functors

/-- The queue under any interleaving: what ran is a prefix of what was pushed,
each functor at most once and on the loop's thread; nothing that was pushed
after a swap runs before the next one; and outside of `doPendingFunctor`
everything pushed before its last swap has run. -/
theorem functors_exactly_once {s : LoopRun φ} (h : machine.Reachable s) :
    s.executed.map Prod.snd <+: s.pushed ∧
    (s.executed.map Prod.snd).Nodup ∧
    (∀ e ∈ s.executed, e.1 = s.loop.threadId) ∧
    (∀ functor ∈ s.pushed.drop s.swapped, functor ∉ s.executed.map Prod.snd) ∧
    (¬ s.inBatch → s.executed.map Prod.snd = s.pushed.take s.swapped) := by
  obtain ⟨b, _, r⟩ := refines_batchLog.reachable h
  have recorded := reachable_recorded h
  refine ⟨executed_in_order h, ?_, recorded.thread, ?_, ?_⟩
  · rw [← r.executed]
    exact (r.log ▸ recorded.nodup).sublist b.executed_in_order.sublist
  · intro functor later
    rw [← r.executed]
    refine b.pending_not_executed (r.log ▸ recorded.nodup) functor ?_
    rwa [BatchLog.pending, r.log, r.mark]
  · intro outside
    have drained : b.batch = [] := by
      rw [r.batch, rest]
      split
      · rename_i functors at_
        exact absurd ⟨functors, .inl at_⟩ outside
      · rename_i functors at_
        exact absurd ⟨functors, .inr at_⟩ outside
      · rfl
    rw [← r.executed, b.executed_of_batch_nil drained, r.log, r.mark]

/-- Another thread queues 10, which runs and queues 11. -/
theorem functors_exactly_once_requeued :
    ∃ s : LoopRun Nat, machine.Reachable s ∧ s.pushed = [⟨0, 10⟩, ⟨1, 11⟩] ∧
      s.executed.map Prod.snd = [⟨0, 10⟩] := by
  have run : (machine.exec ⟨EventLoop.new 1, .outside, fun _ => .none, [], [], 0⟩
      [.enter, .advance, .advance, .queueInLoop 2 10, .test 2, .wakeup 2, .poll [.wakeup],
        .advance, .advance, .advance, .advance, .advance, .queueInLoop 1 11, .test 1, .wakeup 1,
        .advance, .advance]).map
        (fun s : LoopRun Nat => (s.pushed, s.swapped, s.pc)) =
      some ([⟨0, 10⟩, ⟨1, 11⟩], 1, .condition) := by decide
  obtain ⟨s, hs, after⟩ := Option.map_eq_some_iff.mp run
  simp only [Prod.mk.injEq] at after
  obtain ⟨pushed, swapped, at_⟩ := after
  have reached : machine.Reachable s := machine.exec_reachable (.start ⟨1, rfl⟩) _ hs
  obtain ⟨_, _, _, _, finished⟩ := functors_exactly_once reached
  refine ⟨s, reached, pushed, ?_⟩
  rw [finished (by simp [inBatch, at_]), pushed, swapped]
  rfl

end LoopRun
end Kenmuduo
