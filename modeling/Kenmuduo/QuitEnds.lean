import Kenmuduo.Wakeup
import Kenmuduo.Potential

/-!
# How quit() ends loop()

Once `quit_` is set, a loop that has passed its first store polls at most once
more. Its poll cannot block, and what is left of the iteration is bounded by what
was active and what was queued.
-/

namespace Kenmuduo
open Transition

/-- The loop's own steps for an active channel. -/
def Active.steps : Active → Nat
  | wakeup => 1
  | other => 2

/-- What a call still does. -/
def Call.steps : Call → Nat
  | none => 0
  | pushed => 2
  | waking | quitting => 1

namespace LoopRun
variable {φ : Type}

/-- When the loop is to quit, its poll finds the eventfd readable, or a thread in
`quit` is about to write to it. -/
def Woken (s : LoopRun φ) : Prop := s.pc = .polling → s.loop.quit = true →
  0 < s.loop.wakeupCount ∨ ∃ thread, s.calls thread = .quitting

/-- The call that the loop's thread is in. -/
def ownCall (s : LoopRun φ) : Call := s.calls s.loop.threadId

/-- The steps of `loop()` that are left when it is to quit. -/
def loopToGo (s : LoopRun φ) : Nat :=
  match s.pc with
  | .outside => 0
  | .leaving => 1
  | .condition => 2
  | .entered => 3
  | .batch functors => 2 * functors.length + 3
  | .running functors => 2 * functors.length + 4
  | .swapping => 2 * s.loop.pendingFunctors.length + 4
  | .calling => 2 * s.loop.pendingFunctors.length + 5
  | .dispatching activeChannels =>
    (activeChannels.map Active.steps).sum + 2 * s.loop.pendingFunctors.length + 6
  | .handling activeChannels =>
    (activeChannels.map Active.steps).sum + 2 * s.loop.pendingFunctors.length + 7
  | .polling => 2 * s.loop.pendingFunctors.length + 7

/-- The steps that its thread has left, in a call that a handler or functor made
and in `loop()`. -/
def toGo (s : LoopRun φ) : Nat := s.ownCall.steps + s.loopToGo

/-- The polls that are left when it is to quit. -/
def pollsToGo (s : LoopRun φ) : Nat :=
  match s.pc with
  | .polling => 1
  | _ => 0

/-- A step of the loop's thread. -/
def owns (s : LoopRun φ) : LoopAct φ → Nat
  | .advance | .poll _ => 1
  | .test thread | .wakeup thread => if thread = s.loop.threadId then 1 else 0
  | _ => 0

def polls (_ : LoopRun φ) : LoopAct φ → Nat
  | .poll _ => 1
  | _ => 0

/-- What a step can bring the loop's thread to do: the channels that a poll
reports, a functor that is pushed, and the rest of the call that pushes it. -/
def brings (_ : LoopRun φ) : LoopAct φ → Nat
  | .poll activeChannels => (activeChannels.map Active.steps).sum
  | .runInLoop _ _ => 2
  | .queueInLoop _ _ => 4
  | _ => 0

/-- `loop()` is not called again. -/
def Stays (_ : LoopRun φ) (l : LoopAct φ) : Prop := l ≠ .enter

/-- The loop is to quit, and nothing resets that. -/
structure Quitting (s : LoopRun φ) : Prop where
  quit : s.loop.quit = true
  pc : s.pc ≠ .entered

/-! ## Where quit() finds the loop -/

theorem setCall_quitting {s : LoopRun φ} {thread : Nat} {c : Call}
    (other : s.calls thread ≠ .quitting) (h : ∃ k, s.calls k = .quitting) :
    ∃ k, (s.setCall thread c).calls k = .quitting := by
  obtain ⟨k, quitting⟩ := h
  refine ⟨k, ?_⟩
  have apart : k ≠ thread := by
    rintro rfl
    exact other quitting
  simpa [setCall, apart] using quitting

/-- The loop comes to its poll when it is not to quit. -/
theorem advance_polling {s t : LoopRun φ} (h : s.advance = some t) (at_ : t.pc = .polling) :
    t.loop.quit = false := by
  unfold advance at h
  split at h <;> cases h
  case h_2 =>
    simp only at at_ ⊢
    cases hq : s.loop.quit with
    | false => rfl
    | true =>
      rw [hq] at at_
      cases at_
  all_goals cases at_

theorem Woken.step {s t : LoopRun φ} {l : LoopAct φ} (woken : s.Woken) (h : s.step l = some t) :
    t.Woken := by
  intro at_ quit
  cases l with
  | enter =>
    rw [(enter_flags h).2.1] at at_
    cases at_
  | advance =>
    simp only [LoopRun.step, Option.ite_none_right_eq_some] at h
    rw [advance_polling h.2 at_] at quit
    cases quit
  | poll active =>
    simp only [LoopRun.step] at h
    split at h
    · simp only [Option.ite_none_right_eq_some, Option.some.injEq] at h
      obtain ⟨_, rfl⟩ := h
      cases at_
    · cases h
  | runInLoop thread cb =>
    simp only [LoopRun.step, Option.ite_none_right_eq_some] at h
    obtain ⟨free, h⟩ := h
    have other : s.calls thread ≠ .quitting := by
      rw [(free_cases free).1]
      decide
    split at h <;> cases h
    · exact woken at_ quit
    · rcases woken at_ quit with positive | quitting
      · exact .inl positive
      · exact .inr (setCall_quitting (s := s.push cb) other quitting)
  | queueInLoop thread cb =>
    simp only [LoopRun.step, Option.ite_none_right_eq_some, Option.some.injEq] at h
    obtain ⟨free, rfl⟩ := h
    have other : s.calls thread ≠ .quitting := by
      rw [(free_cases free).1]
      decide
    rcases woken at_ quit with positive | quitting
    · exact .inl positive
    · exact .inr (setCall_quitting (s := s.push cb) other quitting)
  | test thread =>
    simp only [LoopRun.step, Option.ite_none_right_eq_some, beq_iff_eq] at h
    obtain ⟨pushed, h⟩ := h
    have other : s.calls thread ≠ .quitting := by
      rw [pushed]
      decide
    split at h <;> cases h
    · exact (woken at_ quit).imp id (setCall_quitting other)
    · exact (woken at_ quit).imp id (setCall_quitting other)
  | wakeup thread =>
    simp only [LoopRun.step, Option.ite_none_right_eq_some, Option.some.injEq] at h
    obtain ⟨_, rfl⟩ := h
    exact .inl s.loop.wakeup_positive
  | quit thread =>
    simp only [LoopRun.step, Option.ite_none_right_eq_some] at h
    obtain ⟨free, h⟩ := h
    split at h <;> cases h
    · exact .inr ⟨thread, by simp [setCall]⟩
    · rename_i own
      -- the loop's own thread calls `quit` from a handler or a functor
      have mine : s.loop.threadId = thread := by simpa [EventLoop.isInLoopThread] using own
      have user := (free_cases free).2 mine.symm
      have at_ : s.pc = .polling := at_
      simp [inUserCode, at_] at user

theorem created_woken {s : LoopRun φ} (h : s.Created) : s.Woken := by
  obtain ⟨threadId, rfl⟩ := h
  intro at_
  cases at_

/-! ## What is left of loop() -/

theorem advance_toGo {s t : LoopRun φ} (quitting : s.Quitting) (h : s.advance = some t) :
    t.Quitting ∧ t.loopToGo < s.loopToGo ∧ t.ownCall = s.ownCall ∧ t.pollsToGo = 0 := by
  have quit := quitting.quit
  cases at_ : s.pc with
  | outside | polling => simp [advance, at_] at h
  | entered => exact absurd at_ quitting.pc
  | condition =>
    simp only [advance, at_, quit, if_true, Option.some.injEq] at h
    subst h
    refine ⟨⟨quit, by simp⟩, by simp [loopToGo, at_], rfl, rfl⟩
  | dispatching active =>
    cases active with
    | nil =>
      simp only [advance, at_, Option.some.injEq] at h
      subst h
      refine ⟨⟨quit, by simp⟩, by simp [loopToGo, at_], rfl, rfl⟩
    | cons channel active =>
      cases channel with
      | wakeup =>
        simp only [advance, at_, Option.some.injEq] at h
        subst h
        refine ⟨⟨quit, by simp⟩, ?_, rfl, rfl⟩
        simp [loopToGo, at_, Active.steps, EventLoop.handleRead]
      | other =>
        simp only [advance, at_, Option.some.injEq] at h
        subst h
        refine ⟨⟨quit, by simp⟩, ?_, rfl, rfl⟩
        simp [loopToGo, at_, Active.steps]
        omega
  | handling active | calling | running functors | leaving =>
    simp only [advance, at_, Option.some.injEq] at h
    subst h
    refine ⟨⟨quit, by simp⟩, by simp [loopToGo, at_], rfl, rfl⟩
  | swapping =>
    simp only [advance, at_, Option.some.injEq] at h
    subst h
    refine ⟨⟨quit, by simp⟩, by simp [loopToGo, at_], rfl, rfl⟩
  | batch functors =>
    cases functors with
    | nil =>
      simp only [advance, at_, Option.some.injEq] at h
      subst h
      refine ⟨⟨quit, by simp⟩, by simp [loopToGo, at_], rfl, rfl⟩
    | cons functor functors =>
      simp only [advance, at_, Option.some.injEq] at h
      subst h
      refine ⟨⟨quit, by simp⟩, ?_, rfl, rfl⟩
      simp only [loopToGo, at_, List.length_cons]
      omega

theorem setCall_ownCall {s : LoopRun φ} {thread : Nat} {c : Call}
    (other : thread ≠ s.loop.threadId) : (s.setCall thread c).ownCall = s.ownCall := by
  simp [ownCall, setCall, Ne.symm other]

theorem setCall_ownCall_self {s : LoopRun φ} {c : Call} :
    (s.setCall s.loop.threadId c).ownCall = c := by
  simp [ownCall, setCall]

/-- A call of any thread brings a functor to the queue at most. -/
theorem Quitting.calls {s t : LoopRun φ} (quitting : s.Quitting) (pc : t.pc = s.pc)
    (quit : t.loop.quit = true) {k m o : Nat}
    (pending : t.loop.pendingFunctors.length = s.loop.pendingFunctors.length + k)
    (call : o + t.ownCall.steps ≤ s.ownCall.steps + m) :
    t.Quitting ∧ o + t.toGo ≤ s.toGo + (2 * k + m) ∧ t.pollsToGo ≤ s.pollsToGo := by
  refine ⟨⟨quit, by rw [pc]; exact quitting.pc⟩, ?_, ?_⟩
  · have loop : t.loopToGo ≤ s.loopToGo + 2 * k := by
      unfold loopToGo
      rw [pc, pending]
      split <;> omega
    unfold toGo
    omega
  · apply Nat.le_of_eq
    unfold pollsToGo
    rw [pc]

theorem quit_ownCall {s t : LoopRun φ} {thread : Nat} (h : s.step (.quit thread) = some t) :
    t.ownCall = s.ownCall := by
  simp only [LoopRun.step, Option.ite_none_right_eq_some] at h
  obtain ⟨_, h⟩ := h
  split at h
  · rename_i foreign
    cases h
    have other : thread ≠ s.loop.threadId := by
      rintro rfl
      simp [EventLoop.isInLoopThread] at foreign
    simp [ownCall, setCall, Ne.symm other]
  · cases h
    rfl

/-- The rest of a call: the thread that makes it comes nearer to its return. -/
theorem owns_call {s : LoopRun φ} {thread : Nat} {c : Call}
    (less : c.steps < (s.calls thread).steps) :
    (if thread = s.loop.threadId then 1 else 0) + (s.setCall thread c).ownCall.steps ≤
      s.ownCall.steps + 0 := by
  by_cases own : thread = s.loop.threadId
  · subst own
    rw [if_pos rfl, setCall_ownCall_self]
    unfold ownCall
    omega
  · rw [if_neg own, setCall_ownCall own]
    omega

theorem Quitting.step {s t : LoopRun φ} {l : LoopAct φ} (quitting : s.Quitting)
    (h : s.step l = some t) (stays : s.Stays l) :
    t.Quitting ∧ s.owns l + t.toGo ≤ s.toGo + s.brings l ∧
      s.polls l + t.pollsToGo ≤ s.pollsToGo + 0 := by
  have quit := quitting.quit
  cases l with
  | enter => exact absurd rfl stays
  | advance =>
    simp only [LoopRun.step, Option.ite_none_right_eq_some] at h
    obtain ⟨next, less, call, away⟩ := advance_toGo quitting h.2
    simp only [owns, brings, polls, toGo, call, away]
    exact ⟨next, by omega, by omega⟩
  | poll active =>
    cases at_ : s.pc with
    | polling =>
      simp only [LoopRun.step, at_, Option.ite_none_right_eq_some, Option.some.injEq] at h
      obtain ⟨_, rfl⟩ := h
      refine ⟨⟨quit, by simp⟩, ?_, ?_⟩
      · simp only [owns, brings, toGo, loopToGo, ownCall, at_]
        omega
      · simp [polls, pollsToGo, at_]
    | _ => simp [LoopRun.step, at_] at h
  | runInLoop thread cb =>
    simp only [LoopRun.step, Option.ite_none_right_eq_some] at h
    obtain ⟨_, h⟩ := h
    simp only [owns, brings, polls]
    split at h
    · cases h
      exact ⟨quitting, by omega, by omega⟩
    · rename_i foreign
      cases h
      have other : thread ≠ s.loop.threadId := by
        rintro rfl
        exact foreign (by simp [EventLoop.isInLoopThread])
      have own : ((s.push cb).setCall thread .pushed).ownCall = s.ownCall :=
        setCall_ownCall (s := s.push cb) other
      obtain ⟨next, less, polled⟩ := quitting.calls (t := (s.push cb).setCall thread .pushed)
        (k := 1) (m := 0) (o := 0) rfl quit (by simp [setCall, push]) (by rw [own]; omega)
      exact ⟨next, by omega, by omega⟩
  | queueInLoop thread cb =>
    simp only [LoopRun.step, Option.ite_none_right_eq_some, Option.some.injEq] at h
    obtain ⟨_, rfl⟩ := h
    have own : ((s.push cb).setCall thread .pushed).ownCall.steps ≤ s.ownCall.steps + 2 := by
      by_cases mine : thread = s.loop.threadId
      · subst mine
        rw [show ((s.push cb).setCall s.loop.threadId .pushed).ownCall = .pushed from
          setCall_ownCall_self (s := s.push cb)]
        exact Nat.le_add_left _ _
      · rw [show ((s.push cb).setCall thread .pushed).ownCall = s.ownCall from
          setCall_ownCall (s := s.push cb) mine]
        omega
    obtain ⟨next, less, polled⟩ := quitting.calls (t := (s.push cb).setCall thread .pushed)
      (k := 1) (m := 2) (o := 0) rfl quit (by simp [setCall, push]) (by omega)
    simp only [owns, brings, polls]
    exact ⟨next, by omega, by omega⟩
  | test thread =>
    simp only [LoopRun.step, Option.ite_none_right_eq_some, beq_iff_eq] at h
    obtain ⟨pushed, h⟩ := h
    have after : ∃ c, c.steps < (s.calls thread).steps ∧ t = s.setCall thread c := by
      rw [pushed]
      split at h <;> cases h
      · exact ⟨.waking, by decide, rfl⟩
      · exact ⟨.none, by decide, rfl⟩
    obtain ⟨c, nearer, rfl⟩ := after
    obtain ⟨next, less, polled⟩ := quitting.calls (t := s.setCall thread c) (k := 0) rfl quit rfl
      (owns_call nearer)
    simp only [owns, brings, polls]
    exact ⟨next, by omega, by omega⟩
  | wakeup thread =>
    simp only [LoopRun.step, Option.ite_none_right_eq_some, Option.some.injEq] at h
    obtain ⟨waking, rfl⟩ := h
    have nearer : Call.none.steps < (s.calls thread).steps := by
      simp only [Bool.or_eq_true, beq_iff_eq] at waking
      rcases waking with at_ | at_ <;> rw [at_] <;> decide
    have same : ({ s with loop := s.loop.wakeup }.setCall thread .none).ownCall =
        (s.setCall thread .none).ownCall := by simp [ownCall, setCall]
    have own : (if thread = s.loop.threadId then 1 else 0) +
        ({ s with loop := s.loop.wakeup }.setCall thread .none).ownCall.steps ≤
          s.ownCall.steps + 0 := by
      rw [same]
      exact owns_call nearer
    obtain ⟨next, less, polled⟩ := quitting.calls
      (t := { s with loop := s.loop.wakeup }.setCall thread .none) (k := 0) rfl
      (by simpa [setCall] using quit) (by simp [setCall]) own
    simp only [owns, brings, polls]
    exact ⟨next, by omega, by omega⟩
  | quit thread =>
    have call := quit_ownCall h
    obtain ⟨pc, quit, pending⟩ := quit_flags h
    obtain ⟨next, less, polled⟩ := quitting.calls (k := 0) (m := 0) (o := 0) pc quit
      (by rw [pending]; rfl) (by rw [call]; omega)
    simp only [owns, brings, polls]
    exact ⟨next, by omega, by omega⟩

/-- Until `loop()` returns its thread can go on, in the call it is in or in `loop()`. -/
theorem next_own {s : LoopRun φ} (inside : s.pc ≠ .outside) :
    ∃ l, s.owns l = 1 ∧ (s.step l).isSome = true := by
  cases call : s.calls s.loop.threadId with
  | pushed =>
    refine ⟨.test s.loop.threadId, by simp [owns], ?_⟩
    simp only [LoopRun.step, call, beq_self_eq_true, if_true]
    split <;> rfl
  | waking | quitting =>
    exact ⟨.wakeup s.loop.threadId, by simp [owns], by simp [LoopRun.step, call]⟩
  | none =>
    by_cases polling : s.pc = .polling
    · exact ⟨.poll [], rfl, by simp [LoopRun.step, polling]⟩
    · refine ⟨.advance, rfl, ?_⟩
      simp only [LoopRun.step, call, beq_self_eq_true, if_true]
      unfold advance
      split
      case h_13 at_ => exact absurd at_ inside
      case h_14 at_ => exact absurd at_ polling
      all_goals rfl

/-- Once `quit_` is set past the start of `loop()`, the loop's poll does not block and
is the last one, and `loop()` returns: its thread can go on until then, and the steps
it takes are bounded by what was active and queued, what that poll reports and what is
pushed from then on. -/
theorem quit_ends {s : LoopRun φ} (h : machine.Reachable s) (quitting : s.Quitting) :
    (s.pc = .polling → 0 < s.loop.wakeupCount ∨ ∃ thread, s.calls thread = .quitting) ∧
    ∀ ls t, machine.Steps Stays s ls → machine.exec s ls = some t →
      machine.spent polls s ls + t.pollsToGo ≤ s.pollsToGo ∧
      machine.spent owns s ls + t.toGo ≤ s.toGo + machine.spent brings s ls ∧
      (t.pc ≠ .outside → ∃ l, t.owns l = 1 ∧ (t.step l).isSome = true) := by
  have woken : s.Woken := h.invariant (fun _ => created_woken) fun _ _ _ woken hs => woken.step hs
  refine ⟨fun at_ => woken at_ quitting.quit, ?_⟩
  intro ls t steps run
  have keeps (s : LoopRun φ) (l : LoopAct φ) (t : LoopRun φ) (quitting : s.Quitting)
      (hs : machine.step s l = some t) (stays : s.Stays l) : t.Quitting :=
    (quitting.step hs stays).1
  refine ⟨?_, ?_, next_own⟩
  · have polled : machine.spent polls s ls + t.pollsToGo ≤
        s.pollsToGo + machine.spent (fun _ _ => 0) s ls :=
      steps.spent_le keeps (fun _ _ _ quitting hs stays => (quitting.step hs stays).2.2)
        quitting run
    rw [Machine.spent_zero] at polled
    exact polled
  · exact steps.spent_le keeps (fun _ _ _ quitting hs stays => (quitting.step hs stays).2.1)
      quitting run

/-- Thread 1 calls `quit` while the loop of thread 0 polls. -/
def quitDuringPoll : List (LoopAct Nat) := [.enter, .advance, .advance, .quit 1]

/-- Its write wakes the loop, which returns. -/
def wokenAndGone : List (LoopAct Nat) :=
  [.wakeup 1, .poll [.wakeup], .advance, .advance, .advance, .advance, .advance, .advance, .advance]

theorem quit_ends_polling : ∃ s t : LoopRun Nat,
    machine.exec ⟨EventLoop.new 0, .outside, fun _ => .none, [], [], 0⟩ quitDuringPoll = some s ∧
    machine.exec s wokenAndGone = some t ∧ t.pc = .outside ∧
    machine.spent owns s wokenAndGone + t.toGo ≤
      s.toGo + machine.spent brings s wokenAndGone := by
  have run : (machine.exec ⟨EventLoop.new 0, .outside, fun _ => .none, [], [], 0⟩
      quitDuringPoll).map (fun s : LoopRun Nat => (s.loop.quit, s.pc, (machine.exec s
        wokenAndGone).map LoopRun.pc)) = some (true, .polling, some .outside) := by decide +kernel
  obtain ⟨s, hs, found⟩ := Option.map_eq_some_iff.mp run
  simp only [Prod.mk.injEq] at found
  obtain ⟨quit, pc, rest⟩ := found
  obtain ⟨t, ht, outside⟩ := Option.map_eq_some_iff.mp rest
  have reachable : machine.Reachable s := machine.exec_reachable (.start ⟨0, rfl⟩) _ hs
  have quitting : s.Quitting := ⟨quit, by simp [pc]⟩
  have stays : machine.Steps Stays s wokenAndGone := by
    apply Machine.Steps.of_forall
    intro _ l mem
    simp only [wokenAndGone, List.mem_cons, List.not_mem_nil, or_false] at mem
    rintro rfl
    simp at mem
  exact ⟨s, t, hs, ht, outside, ((quit_ends reachable quitting).2 _ t stays ht).2.1⟩

end LoopRun
end Kenmuduo
