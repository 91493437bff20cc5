import Kenmuduo.Wakeup

/-!
# Functors queued before `loop()`

Before `loop()` and after it, the loop's thread queues without a wakeup, and no
`doPendingFunctor` follows before the next poll. What it queued there waits for
somebody else's wakeup, or for the time limit of the poll.
-/

namespace Kenmuduo
open Transition

namespace LoopRun
variable {φ : Type}

/-- The thread is about to enter `poll`, or in it. -/
def AtPoll (s : LoopRun φ) : Prop :=
  s.pc = .entered ∨ s.pc = .condition ∧ s.loop.quit = false ∨ s.pc = .polling

/-- Functors are queued and nothing will end the poll. -/
def Stranded (s : LoopRun φ) : Prop :=
  s.AtPoll ∧ s.loop.pendingFunctors ≠ [] ∧ s.loop.wakeupCount = 0 ∧
  ∀ thread, thread ≠ s.loop.threadId → ¬ s.WillWake thread

theorem Created.awake {s : LoopRun φ} (h : Created s) : s.Awake := by
  obtain ⟨threadId, rfl⟩ := h
  exact ⟨fun next => by simp [pollsNext] at next, fun runs => by simp [runsFunctors] at runs,
    fun busy => absurd rfl busy⟩

theorem Awake.not_stranded {s : LoopRun φ} (inv : s.Awake) : ¬ s.Stranded := by
  rintro ⟨at_, queued, silent, nobody⟩
  have blocked : s.pc = .entered ∨ s.pc = .condition ∨ s.pc = .polling := by
    obtain at_ | ⟨at_, _⟩ | at_ := at_
    · exact .inl at_
    · exact .inr (.inl at_)
    · exact .inr (.inr at_)
  obtain positive | ⟨thread, other, will⟩ := inv.signalled blocked queued
  · omega
  · exact nobody thread other will

/-- `loop()` is entered with the queue, the counter and the calls as they are. -/
theorem enter_keeps {s t : LoopRun φ} (h : s.step .enter = some t) :
    t.pc = .entered ∧ t.loop.pendingFunctors = s.loop.pendingFunctors ∧
    t.loop.wakeupCount = s.loop.wakeupCount ∧ t.loop.threadId = s.loop.threadId ∧
    t.calls = s.calls := by
  cases at_ : s.pc with
  | outside =>
    simp only [step, at_, Option.ite_none_right_eq_some, Option.some.injEq] at h
    obtain ⟨_, rfl⟩ := h
    exact ⟨rfl, rfl, rfl, rfl, rfl⟩
  | _ => simp [step, at_] at h

/-- If it is not stranded then, it was entered awake. -/
theorem entersAwake_of_not_stranded {s t : LoopRun φ} {l : LoopAct φ} (h : s.step l = some t)
    (going : ¬ t.Stranded) : s.EntersAwake l := by
  cases l with
  | enter =>
    obtain ⟨at_, pending, count, threadId, calls⟩ := enter_keeps h
    intro queued
    apply Classical.byContradiction
    intro silent
    rw [not_or] at silent
    apply going
    refine ⟨.inl at_, by rw [pending]; exact queued, by omega, ?_⟩
    intro thread other will
    apply silent.2
    rw [threadId] at other
    rw [WillWake, calls] at will
    exact ⟨thread, other, will⟩
  | _ => trivial

/-- In a run from the construction of the loop no functor is ever stranded
exactly when, whenever `loop()` is called, the queue is empty, the counter
positive or another thread about to write to it. -/
theorem not_stranded_iff {s : LoopRun φ} (hs : Created s) (ls : List (LoopAct φ)) :
    machine.Always (fun s => ¬ s.Stranded) s ls ↔ machine.Steps EntersAwake s ls := by
  refine always_iff_steps (I := Awake) ?_ ?_ ?_ hs.awake ls
  · exact fun s inv => inv.not_stranded
  · exact fun s l t inv step awake => step_awake inv awake step
  · exact fun s l t inv step going => entersAwake_of_not_stranded step going

/-- The loop of thread 1, just constructed. -/
def constructed : LoopRun Nat := ⟨EventLoop.new 1, .outside, fun _ => .none, [], [], 0⟩

theorem constructed_created : Created constructed := ⟨1, rfl⟩

/-- Another thread queues too, and wakes the loop before it starts. -/
theorem not_stranded_woken : machine.Always (fun s => ¬ s.Stranded) constructed
    [.queueInLoop 1 10, .test 1, .queueInLoop 2 20, .test 2, .wakeup 2, .enter] := by
  refine (not_stranded_iff constructed_created _).mpr ?_
  intro s₁ h₁
  cases h₁
  refine ⟨trivial, fun s₂ h₂ => ?_⟩
  cases h₂
  refine ⟨trivial, fun s₃ h₃ => ?_⟩
  cases h₃
  refine ⟨trivial, fun s₄ h₄ => ?_⟩
  cases h₄
  refine ⟨trivial, fun s₅ h₅ => ?_⟩
  cases h₅
  refine ⟨trivial, fun s₆ h₆ => ?_⟩
  cases h₆
  exact ⟨fun _ => .inl Nat.one_pos, trivial⟩

/-- The loop's own thread queues a functor, starts the loop and sits in
`poll`. -/
theorem stranded_initial : Created constructed ∧
    ∃ t, machine.exec constructed
        [.queueInLoop 1 10, .test 1, .enter, .advance, .advance] = some t ∧
      t.pc = .polling ∧ t.loop.pendingFunctors = [⟨0, 10⟩] ∧ t.loop.wakeupCount = 0 ∧
      t.Stranded ∧ ¬ machine.Always (fun s => ¬ s.Stranded) constructed
        [.queueInLoop 1 10, .test 1, .enter, .advance, .advance] := by
  have calls : ∀ t, machine.exec constructed
      [.queueInLoop 1 10, .test 1, .enter, .advance, .advance] = some t →
      t.pc = .polling ∧ t.loop.pendingFunctors = [⟨0, 10⟩] ∧ t.loop.wakeupCount = 0 ∧
      ∀ thread, t.calls thread = .none := by
    intro t ht
    cases ht
    refine ⟨rfl, rfl, rfl, fun thread => ?_⟩
    by_cases own : thread = 1
    · simp [setCall, own]
    · simp [setCall, own, constructed, push]
  have run : (machine.exec constructed
      [.queueInLoop 1 10, .test 1, .enter, .advance, .advance]).isSome = true := by decide +kernel
  obtain ⟨t, ht⟩ := Option.isSome_iff_exists.mp run
  obtain ⟨at_, queued, silent, idle⟩ := calls t ht
  have stranded : t.Stranded := by
    refine ⟨.inr (.inr at_), by simp [queued], silent, fun thread _ will => ?_⟩
    obtain busy | busy := will
    · simp [idle] at busy
    · simp [idle] at busy
  refine ⟨constructed_created, t, ht, at_, queued, silent, stranded, fun always => ?_⟩
  exact always.final ht stranded

end LoopRun
end Kenmuduo
