import Kenmuduo.QuitSticky

/-!
# startLoop and a thread that has ended

`startLoop` waits for `loop_` to be set, and `threadFunc` sets it back to null
when `loop()` returns. An owner that does not get the mutex in between waits for
a notification that nobody will send.
-/

namespace Kenmuduo
open Transition

def OwnerPc.found (owner : OwnerPc) : Bool := owner == .returning || owner.hasLoop

def FuncPc.hasCleared : FuncPc → Bool
  | cleared | unlocked | finished => true
  | _ => false

namespace ThreadRun
variable {φ : Type}

/-- The thread has ended, and `startLoop` waits for it to set `loop_`. -/
def Abandoned (s : ThreadRun φ) : Prop :=
  s.func = .finished ∧ (s.owner = .testing ∨ s.owner = .waiting) ∧ s.object.loop = false

/-- `threadFunc` sets `loop_` back after `startLoop` has found it set. -/
def ClearsFound (s : ThreadRun φ) : ThreadAct φ → Prop
  | .func => s.func = .clearing → s.owner.found = true
  | _ => True

instance (s : ThreadRun φ) : ∀ l, Decidable (s.ClearsFound l)
  | .func => inferInstanceAs (Decidable (s.func = .clearing → s.owner.found = true))
  | .owner | .destroy | .loop _ => isTrue trivial

/-- What `threadFunc` sets back was found before. -/
structure Met (s : ThreadRun φ) : Prop where
  fresh : s.owner = .created → s.func = .notStarted
  met : s.func.hasCleared = true → s.owner.found = true

/-- `loop_` was set back before `startLoop` has found it set. -/
structure Missed (s : ThreadRun φ) : Prop where
  started : s.owner ≠ .created
  unfound : s.owner.found = false
  cleared : s.func.hasCleared = true
  null : s.object.loop = false

theorem Start.met {s : ThreadRun φ} (h : s.Start) : s.Met := by
  constructor
  · exact fun _ => h.func
  · rw [h.func]
    intro cleared
    cases cleared

theorem Met.not_abandoned {s : ThreadRun φ} (h : s.Met) : ¬ s.Abandoned := by
  rintro ⟨finished, waits, _⟩
  have found := h.met (by rw [finished]; rfl)
  obtain owner | owner := waits
  · rw [owner] at found
    cases found
  · rw [owner] at found
    cases found

/-- The owner does not start again, and finds `loop_` set where it is; what it
has found it keeps. -/
theorem ownerStep_found {s t : ThreadRun φ} (h : s.ownerStep = some t) :
    t.owner ≠ .created ∧ t.object.loop = s.object.loop ∧
    (s.owner = .created ∧ t.func = .constructing ∨ s.owner ≠ .created ∧ t.func = s.func) ∧
    (s.owner.found = true → t.owner.found = true) ∧
    (t.owner.found = true → s.owner.found = true ∨ s.object.loop = true) := by
  cases at_ : s.owner with
  | created =>
    simp only [ownerStep, at_, Option.some.injEq] at h
    subst h
    simp [OwnerPc.found, OwnerPc.hasLoop]
  | quitting | waking =>
    simp only [ownerStep, at_, Option.ite_none_right_eq_some] at h
    obtain ⟨loop, _, rfl⟩ := Option.map_eq_some_iff.mp h.2
    simp [OwnerPc.found, OwnerPc.hasLoop]
  | locking | waiting =>
    simp only [ownerStep, at_, Option.ite_none_left_eq_some, Option.some.injEq] at h
    obtain ⟨_, rfl⟩ := h
    simp [OwnerPc.found, OwnerPc.hasLoop]
  | joining =>
    simp only [ownerStep, at_, Option.ite_none_right_eq_some, Option.some.injEq] at h
    obtain ⟨_, rfl⟩ := h
    simp [OwnerPc.found, OwnerPc.hasLoop]
  | testing | destroying =>
    simp only [ownerStep, at_, Option.some.injEq] at h
    subst h
    cases s.object.loop <;> simp [OwnerPc.found, OwnerPc.hasLoop]
  | returning | releasing =>
    simp only [ownerStep, at_, Option.some.injEq] at h
    subst h
    simp [OwnerPc.found, OwnerPc.hasLoop]
  | started | destroyed => simp [ownerStep, at_] at h

/-- `threadFunc` clears `loop_` in one step, and does not go back behind it. -/
theorem funcStep_cleared {s t : ThreadRun φ} (h : s.funcStep = some t) :
    s.func ≠ .notStarted ∧ t.owner = s.owner ∧
    (t.func.hasCleared = true → s.func = .clearing ∧ t.object.loop = false ∨
      s.func.hasCleared = true ∧ t.object.loop = s.object.loop) ∧
    (s.func = .clearing ∨ s.func.hasCleared = true → t.func.hasCleared = true) := by
  cases at_ : s.func with
  | notStarted | finished => simp [funcStep, at_] at h
  | constructing | publishing | published | clearing | cleared | unlocked =>
    simp only [funcStep, at_, Option.some.injEq] at h
    subst h
    simp [FuncPc.hasCleared]
  | initializing | returned =>
    simp only [funcStep, at_, Option.ite_none_left_eq_some, Option.some.injEq] at h
    obtain ⟨_, rfl⟩ := h
    simp [FuncPc.hasCleared]
  | calling =>
    simp only [funcStep, at_] at h
    obtain ⟨loop, _, rfl⟩ := Option.map_eq_some_iff.mp h
    simp [FuncPc.hasCleared]
  | looping =>
    simp only [funcStep, at_, Option.ite_none_right_eq_some, Option.some.injEq] at h
    obtain ⟨_, rfl⟩ := h
    simp [FuncPc.hasCleared]

/-- The steps of the two threads aside, a step leaves `threadFunc` and `loop_`
alone, and the owner where it has found the loop. -/
theorem step_found {s t : ThreadRun φ} {l : ThreadAct φ} (h : s.step l = some t) :
    (l = .owner ∧ s.ownerStep = some t) ∨ (l = .func ∧ s.funcStep = some t) ∨
    (t.func = s.func ∧ t.object.loop = s.object.loop ∧
      (t.owner = s.owner ∨ s.owner = .started ∧ t.owner = .destroying)) := by
  cases l with
  | owner => exact .inl ⟨rfl, h⟩
  | func => exact .inr (.inl ⟨rfl, h⟩)
  | destroy =>
    simp only [step, Option.ite_none_right_eq_some, Option.some.injEq, Bool.and_eq_true,
      decide_eq_true_eq] at h
    obtain ⟨⟨started, _⟩, rfl⟩ := h
    exact .inr (.inr ⟨rfl, rfl, .inr ⟨started, rfl⟩⟩)
  | loop m =>
    simp only [step, Option.ite_none_right_eq_some] at h
    obtain ⟨loop, _, rfl⟩ := Option.map_eq_some_iff.mp h.2
    exact .inr (.inr ⟨rfl, rfl, .inl rfl⟩)

theorem Met.step {s t : ThreadRun φ} {l : ThreadAct φ} (inv : s.Met) (clears : s.ClearsFound l)
    (h : s.step l = some t) : t.Met := by
  obtain ⟨_, go⟩ | ⟨rfl, go⟩ | ⟨func, _, owner⟩ := step_found h
  · obtain ⟨started, _, func, keeps, _⟩ := ownerStep_found go
    constructor
    · exact fun created => absurd created started
    · intro cleared
      obtain ⟨_, func⟩ | ⟨_, func⟩ := func
      · rw [func] at cleared
        cases cleared
      · rw [func] at cleared
        exact keeps (inv.met cleared)
  · obtain ⟨going, owner, cleared, _⟩ := funcStep_cleared go
    rw [ClearsFound] at clears
    constructor
    · rw [owner]
      exact fun created => absurd (inv.fresh created) going
    · rw [owner]
      intro now
      obtain ⟨clearing, _⟩ | ⟨before, _⟩ := cleared now
      · exact clears clearing
      · exact inv.met before
  · constructor
    · rw [func]
      obtain same | ⟨_, destroying⟩ := owner
      · rw [same]
        exact inv.fresh
      · rw [destroying]
        intro created
        cases created
    · rw [func]
      intro cleared
      obtain same | ⟨_, destroying⟩ := owner
      · rw [same]
        exact inv.met cleared
      · rw [destroying]
        rfl

theorem Met.misses {s t : ThreadRun φ} {l : ThreadAct φ} (inv : s.Met)
    (early : ¬ s.ClearsFound l) (h : s.step l = some t) : t.Missed := by
  cases l with
  | func =>
    simp only [ClearsFound, Classical.not_imp, Bool.not_eq_true] at early
    obtain ⟨clearing, unfound⟩ := early
    obtain ⟨going, owner, cleared, now⟩ := funcStep_cleared h
    have after := now (.inl clearing)
    refine ⟨?_, by rw [owner]; exact unfound, after, ?_⟩
    · rw [owner]
      exact fun created => absurd (inv.fresh created) going
    · obtain ⟨_, null⟩ | ⟨before, _⟩ := cleared after
      · exact null
      · rw [clearing] at before
        cases before
  | owner | destroy | loop => exact absurd trivial early

theorem Missed.step {s t : ThreadRun φ} {l : ThreadAct φ} (m : s.Missed)
    (h : s.step l = some t) : t.Missed := by
  obtain ⟨_, go⟩ | ⟨_, go⟩ | ⟨func, object, owner⟩ := step_found h
  · obtain ⟨started, object, func, _, found⟩ := ownerStep_found go
    refine ⟨started, ?_, ?_, object.trans m.null⟩
    · apply Bool.eq_false_iff.mpr
      intro now
      obtain before | set := found now
      · rw [m.unfound] at before
        cases before
      · rw [m.null] at set
        cases set
    · obtain ⟨created, _⟩ | ⟨_, func⟩ := func
      · exact absurd created m.started
      · rw [func]
        exact m.cleared
  · obtain ⟨_, owner, cleared, now⟩ := funcStep_cleared go
    have after := now (.inr m.cleared)
    refine ⟨by rw [owner]; exact m.started, by rw [owner]; exact m.unfound, after, ?_⟩
    obtain ⟨_, null⟩ | ⟨_, same⟩ := cleared after
    · exact null
    · exact same.trans m.null
  · obtain same | ⟨started, _⟩ := owner
    · exact ⟨by rw [same]; exact m.started, by rw [same]; exact m.unfound,
        by rw [func]; exact m.cleared, object.trans m.null⟩
    · have unfound := m.unfound
      rw [started] at unfound
      cases unfound

/-- The owner that has missed it is in its wait loop, or about to lock. -/
theorem Missed.abandoned {s : ThreadRun φ} (m : s.Missed) (finished : s.func = .finished)
    (inside : s.owner ≠ .locking) : s.Abandoned := by
  refine ⟨finished, ?_, m.null⟩
  have unfound := m.unfound
  cases at_ : s.owner with
  | testing => exact .inl rfl
  | waiting => exact .inr rfl
  | created => exact absurd at_ m.started
  | locking => exact absurd at_ inside
  | _ =>
    rw [at_] at unfound
    cases unfound

/-- In a run where `startLoop` has found `loop_` set before `threadFunc` sets it
back, it never waits for a thread that has ended. In any other run that goes on
until the thread has ended and `startLoop` has the mutex, it does. -/
theorem not_abandoned_iff {s : ThreadRun φ} (hs : s.Start) (ls : List (ThreadAct φ)) :
    (machine.Steps ClearsFound s ls → machine.Always (fun s => ¬ s.Abandoned) s ls) ∧
    ∀ t, machine.exec s ls = some t → t.func = .finished → t.owner ≠ .locking →
      (machine.Always (fun s => ¬ s.Abandoned) s ls ↔ machine.Steps ClearsFound s ls) := by
  have safe : machine.Steps ClearsFound s ls → machine.Always (fun s => ¬ s.Abandoned) s ls :=
    fun steps => steps.always (I := Met) (fun _ inv => inv.not_abandoned)
      (fun _ _ _ inv step clears => inv.step clears step) hs.met
  refine ⟨safe, fun t run finished inside => ⟨fun always => ?_, safe⟩⟩
  obtain steps | missed := machine.steps_or_lost (I := Met)
    (fun _ _ _ inv step clears => inv.step clears step)
    (fun _ _ _ inv step early => inv.misses early step)
    (fun _ _ _ missed step => missed.step step) hs.met ls run
  · exact steps
  · exact absurd (missed.abandoned finished inside) (always.final run)

/-- Thread 3 makes the loop quit once it runs, and the thread ends. -/
def ends : List (ThreadAct Nat) :=
  [.func, .loop .advance, .loop (.quit 3), .loop (.wakeup 3), .loop .advance, .loop .advance,
    .func, .func, .func, .func, .func]

theorem not_abandoned_returned : ∃ t, machine.exec constructed.1 (startsLoop ++ ends) = some t ∧
    t.func = .finished ∧ t.owner = .started ∧
    machine.Always (fun s => ¬ s.Abandoned) constructed.1 (startsLoop ++ ends) := by
  have run : (machine.exec constructed.1 (startsLoop ++ ends)).map (fun t => (t.func, t.owner)) =
      some (.finished, .started) := by decide
  obtain ⟨t, ht, after⟩ := Option.map_eq_some_iff.mp run
  simp only [Prod.mk.injEq] at after
  have steps : machine.Steps ClearsFound constructed.1 (startsLoop ++ ends) := by decide
  exact ⟨t, ht, after.1, after.2, (not_abandoned_iff constructed_start.1 _).1 steps⟩

/-- The owner waits, `loop_` is set and `cond_` notified; before the owner has
the mutex again, the loop quits and the thread ends. -/
theorem abandoned_early : constructed.1.Start ∧ ∃ t,
    machine.exec constructed.1 ([.owner, .owner, .owner, .func, .func, .func, .func] ++ ends) =
      some t ∧
    t.func = .finished ∧ t.owner = .waiting ∧ t.object.loop = false ∧ t.Abandoned ∧
    ¬ machine.Always (fun s => ¬ s.Abandoned) constructed.1
      ([.owner, .owner, .owner, .func, .func, .func, .func] ++ ends) := by
  have run : (machine.exec constructed.1
      ([.owner, .owner, .owner, .func, .func, .func, .func] ++ ends)).map
        (fun t => (t.func, t.owner, t.object.loop)) = some (.finished, .waiting, false) := by
    decide
  obtain ⟨t, ht, after⟩ := Option.map_eq_some_iff.mp run
  simp only [Prod.mk.injEq] at after
  obtain ⟨func, owner, null⟩ := after
  have abandoned : t.Abandoned := ⟨func, .inr owner, null⟩
  refine ⟨constructed_start.1, t, ht, func, owner, null, abandoned, fun always => ?_⟩
  exact always.final ht abandoned

end ThreadRun
end Kenmuduo
