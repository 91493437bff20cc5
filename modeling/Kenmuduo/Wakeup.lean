import Kenmuduo.EventLoop

/-!
# Wakeups

`queueInLoop` leaves the wakeup out when the loop's own thread pushes while no
functor runs: that is a handler, and the swap of the same iteration follows.
Everywhere else a push is followed by a write to the eventfd, and between a
push and the next poll nothing reads the eventfd without a swap after it.
-/

namespace Kenmuduo
open Transition

namespace LoopRun
variable {φ : Type}

/-- `loop()` was just called, with nothing queued. -/
structure Entered (s : LoopRun φ) : Prop where
  pc : s.pc = .entered
  pending : s.loop.pendingFunctors = []
  call : s.calls s.loop.threadId = .none

def entering : Machine (LoopRun φ) (LoopAct φ) := ⟨Entered, step⟩

/-- When `loop()` is called again, nothing is queued either. -/
def EntersEmpty (s : LoopRun φ) : LoopAct φ → Prop
  | .enter => s.loop.pendingFunctors = []
  | _ => True

/-- The thread has pushed, and its write to the eventfd is still to come. -/
def WillWake (s : LoopRun φ) (thread : Nat) : Prop :=
  s.calls thread = .pushed ∨ s.calls thread = .waking

/-- When `loop()` is called, what is queued has been signalled or is about to
be, by another thread. -/
def EntersAwake (s : LoopRun φ) : LoopAct φ → Prop
  | .enter => s.loop.pendingFunctors ≠ [] →
    0 < s.loop.wakeupCount ∨ ∃ thread, thread ≠ s.loop.threadId ∧ s.WillWake thread
  | _ => True

theorem EntersEmpty.awake {s : LoopRun φ} {l : LoopAct φ} (h : s.EntersEmpty l) :
    s.EntersAwake l := by
  cases l with
  | enter => exact fun queued => absurd h queued
  | _ => trivial

/-- No swap comes before the next poll. -/
def pollsNext (s : LoopRun φ) : Bool :=
  match s.pc with
  | .entered | .condition | .polling | .batch _ | .running _ => true
  | _ => false

/-- Functors run, or are about to. -/
def runsFunctors (s : LoopRun φ) : Bool :=
  match s.pc with
  | .swapping | .batch _ | .running _ => true
  | _ => false

structure Awake (s : LoopRun φ) : Prop where
  wake : s.pollsNext = true → s.loop.pendingFunctors ≠ [] →
    0 < s.loop.wakeupCount ∨ ∃ thread, s.WillWake thread
  flag : s.runsFunctors = true → s.loop.callPendingFunctor = true
  call : s.calls s.loop.threadId ≠ .none → s.inUserCode = true

theorem Entered.awake {s : LoopRun φ} (h : s.Entered) : s.Awake :=
  ⟨fun _ queued => absurd h.pending queued, by simp [runsFunctors, h.pc],
    fun busy => absurd h.call busy⟩

theorem setCall_willWake {s : LoopRun φ} {thread other : Nat} {c : Call}
    (h : s.WillWake other) (apart : other ≠ thread) : (s.setCall thread c).WillWake other := by
  simpa [WillWake, setCall, apart] using h

theorem free_cases {s : LoopRun φ} {thread : Nat} (h : s.free thread = true) :
    s.calls thread = .none ∧ (thread = s.loop.threadId → s.inUserCode = true) := by
  simp only [free, EventLoop.isInLoopThread, Bool.and_eq_true, beq_iff_eq, Bool.or_eq_true,
    Bool.not_eq_true', beq_eq_false_iff_ne, ne_eq] at h
  exact ⟨h.1, fun own => h.2.resolve_left fun apart => apart own.symm⟩

/-- The loop's own steps: on the way to the next poll only the swap could lose
a wakeup, and it leaves nothing queued. -/
theorem advance_awake {s t : LoopRun φ} (inv : s.Awake) (idle : s.calls s.loop.threadId = .none)
    (h : s.advance = some t) : t.Awake := by
  cases at_ : s.pc with
  | outside | polling => simp [advance, at_] at h
  | swapping =>
    simp only [advance, at_, Option.some.injEq] at h
    subst h
    exact ⟨fun _ queued => absurd rfl queued, fun _ => inv.flag (by simp [runsFunctors, at_]),
      fun busy => absurd idle busy⟩
  | batch functors =>
    have wake := inv.wake (by simp [pollsNext, at_])
    have flag := inv.flag (by simp [runsFunctors, at_])
    cases functors with
    | nil =>
      simp only [advance, at_, Option.some.injEq] at h
      subst h
      exact ⟨fun _ => wake, fun runs => by simp [runsFunctors] at runs,
        fun busy => absurd idle busy⟩
    | cons functor functors =>
      simp only [advance, at_, Option.some.injEq] at h
      subst h
      exact ⟨fun _ => wake, fun _ => flag, fun _ => rfl⟩
  | running functors =>
    simp only [advance, at_, Option.some.injEq] at h
    subst h
    exact ⟨fun _ => inv.wake (by simp [pollsNext, at_]),
      fun _ => inv.flag (by simp [runsFunctors, at_]),
      fun busy => absurd idle busy⟩
  | entered =>
    simp only [advance, at_, Option.some.injEq] at h
    subst h
    exact ⟨fun _ => inv.wake (by simp [pollsNext, at_]), fun runs => by simp [runsFunctors] at runs,
      fun busy => absurd idle busy⟩
  | condition =>
    simp only [advance, at_, Option.some.injEq] at h
    subst h
    exact ⟨fun _ => inv.wake (by simp [pollsNext, at_]),
      fun runs => by cases hq : s.loop.quit <;> simp [runsFunctors, hq] at runs,
      fun busy => absurd idle busy⟩
  | dispatching activeChannels =>
    rcases activeChannels with _ | ⟨_ | _, _⟩
    all_goals
      simp only [advance, at_, Option.some.injEq] at h
      subst h
      exact ⟨fun next => by simp [pollsNext] at next, fun runs => by simp [runsFunctors] at runs,
        fun busy => absurd idle busy⟩
  | handling activeChannels | leaving =>
    simp only [advance, at_, Option.some.injEq] at h
    subst h
    exact ⟨fun next => by simp [pollsNext] at next, fun runs => by simp [runsFunctors] at runs,
      fun busy => absurd idle busy⟩
  | calling =>
    simp only [advance, at_, Option.some.injEq] at h
    subst h
    exact ⟨fun next => by simp [pollsNext] at next, fun _ => rfl, fun busy => absurd idle busy⟩

theorem push_awake {s : LoopRun φ} (inv : s.Awake) {thread : Nat} (h : s.free thread = true)
    (cb : φ) :
    ((s.push cb).setCall thread .pushed).Awake := by
  refine ⟨fun _ _ => .inr ⟨thread, .inl (by simp [setCall])⟩, inv.flag, fun busy => ?_⟩
  by_cases own : thread = s.loop.threadId
  · exact (free_cases h).2 own
  · exact inv.call (by simpa [setCall, push, Ne.symm own] using busy)

/-- A call that ends, or that passes its test, outside of the loop's own
wake-less pushes. -/
theorem setCall_awake {s : LoopRun φ} (inv : s.Awake) {thread : Nat} {c : Call}
    (wakes : s.pollsNext = true → s.WillWake thread → c = .waking ∨ 0 < s.loop.wakeupCount)
    (call : thread = s.loop.threadId → c ≠ .none → s.inUserCode = true) :
    (s.setCall thread c).Awake := by
  refine ⟨fun next queued => ?_, inv.flag, fun busy => ?_⟩
  · rcases inv.wake next queued with positive | ⟨other, will⟩
    · exact .inl positive
    · by_cases same : other = thread
      · rcases wakes next (same ▸ will) with rfl | positive
        · exact .inr ⟨thread, .inr (by simp [setCall])⟩
        · exact .inl positive
      · exact .inr ⟨other, setCall_willWake will same⟩
  · by_cases own : thread = s.loop.threadId
    · exact call own (by simpa [setCall, own] using busy)
    · exact inv.call (by simpa [setCall, Ne.symm own] using busy)

theorem test_awake {s t : LoopRun φ} (inv : s.Awake) {thread : Nat}
    (h : s.step (.test thread) = some t) : t.Awake := by
  simp only [step, Option.ite_none_right_eq_some, beq_iff_eq] at h
  obtain ⟨pushed, h⟩ := h
  have user : thread = s.loop.threadId → s.inUserCode = true := by
    rintro rfl
    exact inv.call (by simp [pushed])
  split at h
  · cases h
    exact setCall_awake inv (fun _ _ => .inl rfl) fun own _ => user own
  · rename_i quiet
    simp only [EventLoop.isInLoopThread, Bool.or_eq_true, Bool.not_eq_true', beq_eq_false_iff_ne,
      ne_eq, not_or, Decidable.not_not, Bool.not_eq_true] at quiet
    cases h
    refine setCall_awake inv (fun next _ => ?_) fun _ busy => absurd rfl busy
    -- the loop's thread pushed in a handler: in a functor the flag is set
    have user := user quiet.1.symm
    cases at_ : s.pc with
    | running functors =>
      have flag := inv.flag (by simp [runsFunctors, at_])
      simp [flag] at quiet
    | _ => simp [inUserCode, pollsNext, at_] at user next

theorem wakeup_awake {s t : LoopRun φ} (inv : s.Awake) {thread : Nat}
    (h : s.step (.wakeup thread) = some t) : t.Awake := by
  simp only [step, Option.ite_none_right_eq_some, Option.some.injEq] at h
  obtain ⟨_, rfl⟩ := h
  have woken : Awake { s with loop := s.loop.wakeup } :=
    ⟨fun _ _ => .inl s.loop.wakeup_positive, fun runs => by simpa using inv.flag runs,
      fun busy => inv.call (by simpa using busy)⟩
  exact setCall_awake woken (fun _ _ => .inr s.loop.wakeup_positive) fun _ busy => absurd rfl busy

theorem quit_awake {s t : LoopRun φ} (inv : s.Awake) {thread : Nat}
    (h : s.step (.quit thread) = some t) : t.Awake := by
  simp only [step, Option.ite_none_right_eq_some] at h
  obtain ⟨free, h⟩ := h
  have stored : Awake { s with loop := { s.loop with quit := true } } :=
    ⟨inv.wake, inv.flag, inv.call⟩
  split at h
  · cases h
    refine setCall_awake stored (fun _ will => ?_) fun own _ => (free_cases free).2 own
    rcases will with busy | busy <;> simp [(free_cases free).1] at busy
  · cases h
    exact stored

theorem step_awake {s t : LoopRun φ} {l : LoopAct φ} (inv : s.Awake) (hl : s.EntersAwake l)
    (h : s.step l = some t) : t.Awake := by
  cases l with
  | enter =>
    cases at_ : s.pc with
    | outside =>
      simp only [step, at_, Option.ite_none_right_eq_some, Option.some.injEq, beq_iff_eq] at h
      obtain ⟨idle, rfl⟩ := h
      have wake : s.loop.pendingFunctors ≠ [] →
          0 < s.loop.wakeupCount ∨ ∃ thread, s.WillWake thread := by
        intro queued
        obtain positive | ⟨thread, _, will⟩ := hl queued
        · exact .inl positive
        · exact .inr ⟨thread, will⟩
      exact ⟨fun _ => wake, fun runs => by simp [runsFunctors] at runs,
        fun busy => absurd idle busy⟩
    | _ => simp [step, at_] at h
  | advance =>
    simp only [step, Option.ite_none_right_eq_some, beq_iff_eq] at h
    exact advance_awake inv h.1 h.2
  | poll activeChannels =>
    cases at_ : s.pc with
    | polling =>
      simp only [step, at_, Option.ite_none_right_eq_some, Option.some.injEq] at h
      obtain ⟨_, rfl⟩ := h
      exact ⟨fun next => by simp [pollsNext] at next, fun runs => by simp [runsFunctors] at runs,
        fun busy => by simpa [inUserCode, at_] using inv.call busy⟩
    | _ => simp [step, at_] at h
  | runInLoop thread cb =>
    simp only [step, Option.ite_none_right_eq_some] at h
    obtain ⟨free, h⟩ := h
    split at h
    · cases h
      exact inv
    · cases h
      exact push_awake inv free cb
  | queueInLoop thread cb =>
    simp only [step, Option.ite_none_right_eq_some, Option.some.injEq] at h
    obtain ⟨free, rfl⟩ := h
    exact push_awake inv free cb
  | test thread => exact test_awake inv h
  | wakeup thread => exact wakeup_awake inv h
  | quit thread => exact quit_awake inv h

/-- On the way into `poll` and in it, whatever is queued has been signalled or
is about to be, by another thread. -/
theorem Awake.signalled {s : LoopRun φ} (inv : s.Awake)
    (blocked : s.pc = .entered ∨ s.pc = .condition ∨ s.pc = .polling)
    (queued : s.loop.pendingFunctors ≠ []) :
    0 < s.loop.wakeupCount ∨ ∃ thread, thread ≠ s.loop.threadId ∧ s.WillWake thread := by
  have next : s.pollsNext = true := by
    obtain at_ | at_ | at_ := blocked <;> simp [pollsNext, at_]
  rcases inv.wake next queued with positive | ⟨thread, will⟩
  · exact .inl positive
  · refine .inr ⟨thread, fun own => ?_, will⟩
    have user := inv.call (by rcases will with busy | busy <;> simp [← own, busy])
    obtain at_ | at_ | at_ := blocked <;> simp [inUserCode, at_] at user

/-- A loop that is entered with nothing queued loses no wakeup. -/
theorem no_lost_wakeup {s : LoopRun φ} (h : entering.ReachableBy EntersEmpty s)
    (blocked : s.pc = .entered ∨ s.pc = .condition ∨ s.pc = .polling)
    (queued : s.loop.pendingFunctors ≠ []) :
    0 < s.loop.wakeupCount ∨
    ∃ thread, thread ≠ s.loop.threadId ∧ s.WillWake thread := by
  have inv : s.Awake := h.invariant (I := Awake) (fun _ => Entered.awake)
    fun _ _ _ inv hl step => step_awake inv hl.awake step
  exact inv.signalled blocked queued

/-- A thread pushes and its write fails, the counter being at its maximum. -/
theorem no_lost_wakeup_saturated :
    ∃ s : LoopRun Nat, entering.ReachableBy EntersEmpty s ∧ s.pc = .polling ∧
      s.loop.pendingFunctors = [⟨0, 10⟩] ∧ s.loop.wakeupCount = counterMax ∧
      (0 < s.loop.wakeupCount ∨ ∃ thread, thread ≠ s.loop.threadId ∧ s.WillWake thread) := by
  let start : LoopRun Nat :=
    ⟨{ EventLoop.new 1 with looping := true, wakeupCount := counterMax }, .entered,
      fun _ => .none, [], [], 0⟩
  have run : (entering.exec start [.advance, .advance, .queueInLoop 2 10, .test 2, .wakeup 2]).map
      (fun s : LoopRun Nat => (s.pc, s.loop.pendingFunctors, s.loop.wakeupCount)) =
      some (.polling, [⟨0, 10⟩], counterMax) := by decide
  obtain ⟨s, hs, after⟩ := Option.map_eq_some_iff.mp run
  simp only [Prod.mk.injEq] at after
  obtain ⟨at_, queued, full⟩ := after
  have inside : entering.Steps EntersEmpty start
      [.advance, .advance, .queueInLoop 2 10, .test 2, .wakeup 2] := by
    refine .of_forall (fun _ l hl => ?_) start
    simp only [List.mem_cons, List.not_mem_nil, or_false] at hl
    rcases hl with rfl | rfl | rfl | rfl | rfl <;> trivial
  have reached : entering.ReachableBy EntersEmpty s :=
    .of_steps (.start ⟨rfl, rfl, rfl⟩) _ inside hs
  exact ⟨s, reached, at_, queued, full, no_lost_wakeup reached (.inr (.inr at_)) (by simp [queued])⟩

end LoopRun
end Kenmuduo
