import Kenmuduo.EarlyFunctors
import Kenmuduo.FunctorQueue
import Kenmuduo.RoundLog

/-!
# How long a functor waits

Every iteration of `loop()` polls once and swaps the queue once, in this order. So
of all polls only one can begin between the push of a functor and its run, and if
the loop was entered with what was queued signalled, that poll returns.
-/

namespace Kenmuduo
open Transition

/-- The polls begun so far, and how many they were at each push and at each run of a
functor. -/
structure Clock where
  polls : Nat
  born : List Nat
  began : List Nat
  deriving Repr

namespace LoopRun
variable {φ : Type}

def isPolling (s : LoopRun φ) : Bool :=
  match s.pc with
  | .polling => true
  | _ => false

/-- The swap of this iteration is still to come. -/
def beforeSwap (s : LoopRun φ) : Bool :=
  match s.pc with
  | .polling | .dispatching _ | .handling _ | .calling | .swapping => true
  | _ => false

def tick (s : LoopRun φ) (_ : LoopAct φ) (t : LoopRun φ) (c : Clock) : Clock where
  polls := if s.isPolling = false ∧ t.isPolling = true then c.polls + 1 else c.polls
  born := if s.pushed.length < t.pushed.length then c.born ++ [c.polls] else c.born
  began := if s.executed.length < t.executed.length then c.began ++ [c.polls] else c.began

def clocked : Machine (LoopRun φ × Clock) (LoopAct φ) := machine.watched ⟨0, [], []⟩ tick

/-- The position of the loop in its round stays the same. -/
structure SameSide (s t : LoopRun φ) : Prop where
  polling : t.isPolling = true → s.isPolling = true
  swap : t.beforeSwap = s.beforeSwap

/-- What a step does to the queue and to the round. -/
inductive Turns (s t : LoopRun φ) : Prop
  | enters : s.pc = .condition → t = { s with pc := .polling } → Turns s t
  | swaps : s.Swaps t → t.isPolling = false → t.beforeSwap = false → Turns s t
  | pushes {functor} : s.Pushes t functor → s.SameSide t → Turns s t
  | starts {functor} : s.Starts t functor → s.SameSide t → Turns s t
  | same : s.SameQueue t → s.SameSide t → Turns s t

theorem SameSide.of_pc {s t : LoopRun φ} (same : t.pc = s.pc) : s.SameSide t := by
  constructor
  · simp only [isPolling, same]
    exact id
  · simp only [beforeSwap, same]

theorem advance_turns {s t : LoopRun φ} (h : s.advance = some t) : s.Turns t := by
  cases at_ : s.pc with
  | outside | polling => simp [advance, at_] at h
  | swapping =>
    simp only [advance, at_, Option.some.injEq] at h
    subst h
    exact .swaps ⟨rfl, rfl, rfl, rfl, by simp [rest, at_], rfl, rfl⟩ rfl rfl
  | batch functors =>
    cases functors with
    | nil =>
      simp only [advance, at_, Option.some.injEq] at h
      subst h
      exact .same ⟨rfl, rfl, rfl, rfl, by simp [rest, at_], rfl⟩
        ⟨by simp [isPolling], by simp [beforeSwap, at_]⟩
    | cons functor functors =>
      simp only [advance, at_, Option.some.injEq] at h
      subst h
      exact .starts ⟨rfl, rfl, rfl, rfl, by simp [rest, at_], rfl⟩
        ⟨by simp [isPolling], by simp [beforeSwap, at_]⟩
  | condition =>
    simp only [advance, at_, Option.some.injEq] at h
    subst h
    cases s.loop.quit with
    | true =>
      exact .same ⟨rfl, rfl, rfl, rfl, by simp [rest, at_], rfl⟩
        ⟨by simp [isPolling], by simp [beforeSwap, at_]⟩
    | false => exact .enters at_ rfl
  | dispatching activeChannels =>
    rcases activeChannels with _ | ⟨_ | _, _⟩
    all_goals
      simp only [advance, at_, Option.some.injEq] at h
      subst h
      exact .same ⟨rfl, rfl, rfl, rfl, by simp [rest, at_], rfl⟩
        ⟨by simp [isPolling], by simp [beforeSwap, at_]⟩
  | entered | handling | calling | running | leaving =>
    simp only [advance, at_, Option.some.injEq] at h
    subst h
    exact .same ⟨rfl, rfl, rfl, rfl, by simp [rest, at_], rfl⟩
      ⟨by simp [isPolling], by simp [beforeSwap, at_]⟩

theorem step_turns {s t : LoopRun φ} {l : LoopAct φ} (h : s.step l = some t) : s.Turns t := by
  cases l with
  | enter =>
    cases at_ : s.pc with
    | outside =>
      simp only [step, at_, Option.ite_none_right_eq_some, Option.some.injEq] at h
      obtain ⟨_, rfl⟩ := h
      exact .same ⟨rfl, rfl, rfl, rfl, by simp [rest, at_], rfl⟩
        ⟨by simp [isPolling], by simp [beforeSwap, at_]⟩
    | _ => simp [step, at_] at h
  | advance =>
    simp only [step, Option.ite_none_right_eq_some] at h
    exact advance_turns h.2
  | poll activeChannels =>
    cases at_ : s.pc with
    | polling =>
      simp only [step, at_, Option.ite_none_right_eq_some, Option.some.injEq] at h
      obtain ⟨_, rfl⟩ := h
      exact .same ⟨rfl, rfl, rfl, rfl, by simp [rest, at_], rfl⟩
        ⟨by simp [isPolling], by simp [beforeSwap, at_]⟩
    | _ => simp [step, at_] at h
  | runInLoop thread cb =>
    simp only [step, Option.ite_none_right_eq_some] at h
    obtain ⟨_, h⟩ := h
    split at h
    · cases h
      exact .same ⟨rfl, rfl, rfl, rfl, rfl, rfl⟩ (.of_pc rfl)
    · cases h
      exact .pushes (s.push_queue cb thread .pushed) (.of_pc rfl)
  | queueInLoop thread cb =>
    simp only [step, Option.ite_none_right_eq_some, Option.some.injEq] at h
    obtain ⟨_, rfl⟩ := h
    exact .pushes (s.push_queue cb thread .pushed) (.of_pc rfl)
  | test thread =>
    simp only [step, Option.ite_none_right_eq_some] at h
    obtain ⟨_, h⟩ := h
    split at h <;> cases h <;> exact .same ⟨rfl, rfl, rfl, rfl, rfl, rfl⟩ (.of_pc rfl)
  | wakeup thread =>
    simp only [step, Option.ite_none_right_eq_some, Option.some.injEq] at h
    obtain ⟨_, rfl⟩ := h
    exact .same ⟨by simp [setCall], rfl, rfl, rfl, rfl, by simp [setCall]⟩ (.of_pc rfl)
  | quit thread =>
    simp only [step, Option.ite_none_right_eq_some] at h
    obtain ⟨_, h⟩ := h
    split at h <;> cases h <;> exact .same ⟨rfl, rfl, rfl, rfl, rfl, rfl⟩ (.of_pc rfl)

/-- The rounds of a state of the loop with its clock: a round begins with a poll. -/
structure Rounds (p : LoopRun φ × Clock) (r : RoundLog (Queued φ)) : Prop where
  log : p.1.Refines r.log
  rounds : r.rounds = p.2.polls
  collects : r.collects = p.1.beforeSwap
  born : r.born = p.2.born
  began : r.began = p.2.began

theorem SameSide.polls {s t : LoopRun φ} {c : Clock} (h : s.SameSide t) (l : LoopAct φ) :
    (tick s l t c).polls = c.polls := by
  apply if_neg
  intro begun
  rw [h.polling begun.2] at begun
  exact Bool.noConfusion begun.1

theorem tick_born {s t : LoopRun φ} {c : Clock} {l : LoopAct φ} (same : t.pushed = s.pushed) :
    (tick s l t c).born = c.born := by
  apply if_neg
  rw [same]
  exact Nat.lt_irrefl _

theorem tick_began {s t : LoopRun φ} {c : Clock} {l : LoopAct φ} (same : t.executed = s.executed) :
    (tick s l t c).began = c.began := by
  apply if_neg
  rw [same]
  exact Nat.lt_irrefl _

theorem Refines.same {s t : LoopRun φ} {b : BatchLog (Queued φ)} (r : s.Refines b)
    (same : s.SameQueue t) : t.Refines b := by
  constructor
  · exact r.log.trans same.pushed.symm
  · rw [same.executed]
    exact r.executed
  · exact r.mark.trans same.swapped.symm
  · exact r.batch.trans same.rest.symm
  · exact r.pending.trans same.pending.symm

theorem Refines.pushes {s t : LoopRun φ} {b : BatchLog (Queued φ)} (r : s.Refines b)
    {functor : Queued φ} (pushes : s.Pushes t functor) : t.Refines (b.push functor) := by
  constructor
  · rw [pushes.pushed, ← r.log]
    rfl
  · rw [pushes.executed, ← r.executed]
    exact b.push_executed functor
  · rw [pushes.swapped]
    exact r.mark
  · rw [pushes.rest, ← r.batch]
    exact b.push_batch functor
  · rw [pushes.pending, ← r.pending]
    exact b.push_pending functor

theorem Refines.swaps {s t : LoopRun φ} {b : BatchLog (Queued φ)} (r : s.Refines b)
    (swaps : s.Swaps t) : t.Refines b.cut := by
  have drained : b.batch = [] := r.batch.trans swaps.before
  constructor
  · exact r.log.trans swaps.pushed.symm
  · rw [swaps.executed]
    exact r.executed
  · rw [swaps.swapped, ← r.log]
    rfl
  · rw [swaps.rest, ← r.pending]
    exact b.cut_batch drained
  · rw [swaps.pending]
    exact b.cut_pending

theorem Refines.starts {s t : LoopRun φ} {b : BatchLog (Queued φ)} (r : s.Refines b)
    {functor : Queued φ} (starts : s.Starts t functor) : ∃ c, b.run = some c ∧ t.Refines c := by
  obtain ⟨c, ran, log, mark, pending, batch, executed⟩ := b.run_cons (r.batch.trans starts.rest)
  refine ⟨c, ran, ?_, ?_, ?_, batch, ?_⟩
  · rw [log, starts.pushed]
    exact r.log
  · rw [executed, r.executed, starts.executed, List.map_append]
    rfl
  · rw [mark, starts.swapped]
    exact r.mark
  · rw [pending, starts.pending]
    exact r.pending

/-- The loop with its clock is a log consumed in rounds. -/
theorem refines_roundLog : Simulation (clocked (φ := φ)) RoundLog.machine Rounds where
  start p hp := by
    obtain ⟨⟨threadId, created⟩, clock⟩ := hp
    refine ⟨⟨.empty, 0, false, [], []⟩, ⟨rfl, rfl, rfl⟩, ?_, ?_, ?_, ?_, ?_⟩
    · rw [created]
      exact ⟨rfl, rfl, rfl, rfl, rfl⟩
    · rw [clock]
    · rw [created]
      rfl
    · rw [clock]
    · rw [clock]
  step p l q r hs rounds := by
    obtain ⟨hs, clock⟩ := Machine.watched_step hs
    have refines := rounds.log
    cases step_turns hs with
    | enters at_ becomes =>
      have drained : r.log.batch = [] := by
        rw [refines.batch, rest, at_]
      have after : r.collects = false := by
        rw [rounds.collects, beforeSwap, at_]
      have same : p.1.SameQueue q.1 := by
        rw [becomes]
        exact ⟨rfl, rfl, rfl, rfl, by simp [rest, at_], rfl⟩
      refine ⟨[.enter], r.enter, ?_, refines.same same, ?_, ?_, ?_, ?_⟩
      · simp only [Machine.exec, RoundLog.machine, r.log.batch_nil_iff.mp drained, after, and_self,
          if_true, Option.bind_some]
      · rw [clock, becomes]
        simp only [RoundLog.enter, rounds.rounds, tick, isPolling, at_, and_self, if_true]
      · rw [becomes]
        rfl
      · rw [clock, tick_born same.pushed]
        exact rounds.born
      · rw [clock, tick_began same.executed]
        exact rounds.began
    | swaps swaps away after =>
      have drained : r.log.batch = [] := refines.batch.trans swaps.before
      have still : (tick p.1 l q.1 p.2).polls = p.2.polls := by
        apply if_neg
        rw [away]
        exact fun begun => Bool.noConfusion begun.2
      refine ⟨[.cut], r.cut, ?_, refines.swaps swaps, ?_, after.symm, ?_, ?_⟩
      · simp only [Machine.exec, RoundLog.machine, r.log.batch_nil_iff.mp drained, if_true,
          Option.bind_some]
      · rw [clock, still]
        exact rounds.rounds
      · rw [clock, tick_born swaps.pushed]
        exact rounds.born
      · rw [clock, tick_began swaps.executed]
        exact rounds.began
    | @pushes functor pushes side =>
      have grows : p.1.pushed.length < q.1.pushed.length := by
        rw [pushes.pushed, List.length_append]
        exact Nat.lt_succ_self _
      refine ⟨[.push functor], r.push functor, rfl, refines.pushes pushes, ?_, ?_, ?_, ?_⟩
      · rw [clock, side.polls]
        exact rounds.rounds
      · exact rounds.collects.trans side.swap.symm
      · rw [clock]
        simp only [tick, if_pos grows, RoundLog.push, rounds.born, rounds.rounds]
      · rw [clock, tick_began pushes.executed]
        exact rounds.began
    | @starts functor starts side =>
      have grows : p.1.executed.length < q.1.executed.length := by
        rw [starts.executed, List.length_append]
        exact Nat.lt_succ_self _
      obtain ⟨b, ran, becomes⟩ := refines.starts starts
      refine ⟨[.run], { r with log := b, began := r.began ++ [r.rounds] }, ?_, becomes, ?_, ?_, ?_,
        ?_⟩
      · simp only [Machine.exec, RoundLog.machine, RoundLog.run, ran, Option.map_some,
          Option.bind_some]
      · rw [clock, side.polls]
        exact rounds.rounds
      · exact rounds.collects.trans side.swap.symm
      · rw [clock, tick_born starts.pushed]
        exact rounds.born
      · rw [clock]
        simp only [tick, if_pos grows, rounds.began, rounds.rounds]
    | same same side =>
      refine ⟨[], r, rfl, refines.same same, ?_, rounds.collects.trans side.swap.symm, ?_, ?_⟩
      · rw [clock, side.polls]
        exact rounds.rounds
      · rw [clock, tick_born same.pushed]
        exact rounds.born
      · rw [clock, tick_began same.executed]
        exact rounds.began

/-- What a clock beside the loop shows of the functors. -/
structure OnTime (s : LoopRun φ) (c : Clock) : Prop where
  /-- Of the polls, at most one began between its push and its run. -/
  run : ∀ k b e : Nat, c.born[k]? = some b → c.began[k]? = some e → b ≤ e ∧ e ≤ b + 1
  counted : c.born.length = s.pushed.length ∧ c.began.length = s.executed.length
  waiting : ∀ k b : Nat, s.executed.length ≤ k → c.born[k]? = some b → c.polls ≤ b + 1

/-- The poll that a functor waits for finds the eventfd readable, or is about to. -/
def Returns (s : LoopRun φ) : Prop := s.pc = .polling → s.loop.pendingFunctors ≠ [] →
  0 < s.loop.wakeupCount ∨ ∃ thread, thread ≠ s.loop.threadId ∧ s.WillWake thread

theorem clocked_onTime {p : LoopRun φ × Clock} (h : clocked.Reachable p) : OnTime p.1 p.2 := by
  obtain ⟨r, reached, rounds⟩ := refines_roundLog.reachable h
  have timely := RoundLog.timely reached
  have log := rounds.log
  have done : r.log.done = p.1.executed.length := by
    have length := congrArg List.length log.executed
    have inside := Nat.le_trans r.log.done_le r.log.mark_le
    rw [BatchLog.executed, List.length_take, List.length_map] at length
    omega
  constructor
  · intro k b e found begun
    rw [← rounds.born] at found
    rw [← rounds.began] at begun
    exact timely.run k b e found begun
  · rw [← rounds.born, ← rounds.began, timely.born, timely.began, log.log, done]
    exact ⟨rfl, rfl⟩
  · intro k b late found
    rw [← rounds.born] at found
    rw [← rounds.rounds]
    exact timely.waiting k b (done ▸ late) found

theorem clocked_awake {p : LoopRun φ × Clock}
    (h : clocked.ReachableBy (fun p => p.1.EntersAwake) p) : p.1.Awake := by
  apply h.invariant (I := fun p => p.1.Awake)
  · exact fun _ start => Created.awake start.1
  · exact fun _ _ _ awake enters hs => step_awake awake enters (Machine.watched_step hs).1

/-- However the threads and the loop take their steps, of all polls at most one begins
between the push of a functor and its run, be it waiting still or run already. When
`loop()` is entered only with what is queued signalled, no such poll blocks. -/
theorem waits_one_poll {p : LoopRun φ × Clock} (h : clocked.Reachable p) : OnTime p.1 p.2 ∧
    (clocked.ReachableBy (fun p => p.1.EntersAwake) p → p.1.Returns) := by
  refine ⟨clocked_onTime h, fun awake at_ queued => ?_⟩
  exact (clocked_awake awake).signalled (.inr (.inr at_)) queued

/-- Another thread queues 10 while the loop polls, and 10 queues 11. -/
def requeueing : List (LoopAct Nat) :=
  [.enter, .advance, .advance, .queueInLoop 2 10, .test 2, .wakeup 2, .poll [.wakeup], .advance,
    .advance, .advance, .advance, .advance, .queueInLoop 1 11, .test 1, .wakeup 1, .advance,
    .advance, .advance]

/-- 10 ran without another poll, and the poll that 11 waits for returns. -/
theorem waits_one_poll_requeued : ∃ p, clocked.exec (constructed, ⟨0, [], []⟩) requeueing = some p ∧
    p.1.pc = .polling ∧ p.2.polls = 2 ∧ p.2.born = [1, 1] ∧ p.2.began = [1] ∧
    OnTime p.1 p.2 ∧ p.1.Returns := by
  have run : (clocked.exec (constructed, ⟨0, [], []⟩) requeueing).map
      (fun p => (p.1.pc, p.2.polls, p.2.born, p.2.began)) =
        some (.polling, 2, [1, 1], [1]) := by decide +kernel
  obtain ⟨p, hp, found⟩ := Option.map_eq_some_iff.mp run
  simp only [Prod.mk.injEq] at found
  obtain ⟨at_, polls, born, began⟩ := found
  have inside : ∀ l ∈ requeueing.tail, ∀ s : LoopRun Nat, s.EntersAwake l := by
    simp [requeueing, EntersAwake]
  have enters : clocked.Steps (fun p => p.1.EntersAwake) (constructed, ⟨0, [], []⟩) requeueing := by
    intro p hp
    refine ⟨fun queued => absurd rfl queued, ?_⟩
    apply Machine.Steps.of_forall
    exact fun q l mem => inside l mem q.1
  have start : clocked.start (constructed, ⟨0, [], []⟩) := ⟨constructed_created, rfl⟩
  have reachable : clocked.ReachableBy (fun p => p.1.EntersAwake) p :=
    .of_steps (.start start) requeueing enters hp
  obtain ⟨onTime, returns⟩ := waits_one_poll (clocked.exec_reachable (.start start) _ hp)
  exact ⟨p, hp, at_, polls, born, began, onTime, returns reachable⟩

end LoopRun
end Kenmuduo
