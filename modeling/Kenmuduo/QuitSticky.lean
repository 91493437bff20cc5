import Kenmuduo.EventLoopThread

/-!
# Whether quit() sticks

`startLoop` returns when `loop_` is set, which is before `loop()` clears
`quit_`. A `quit()` in between is forgotten.
-/

namespace Kenmuduo
open Transition

/-- What became of the calls of `quit()` made with the loop that `startLoop`
returned. -/
structure Heed where
  /-- One of them has stored `quit_ = true`. -/
  asked : Bool
  /-- The loop condition has found `quit_` false after that. -/
  ignored : Bool
  deriving DecidableEq, Repr

namespace LoopRun
variable {φ : Type}

/-- Once its flags are initialized, the loop itself leaves `quit_` alone. -/
theorem advance_quit {s t : LoopRun φ} (h : s.advance = some t) (inside : s.pc ≠ .entered) :
    t.pc ≠ .entered ∧ t.loop.quit = s.loop.quit := by
  cases at_ : s.pc with
  | entered => exact absurd at_ inside
  | outside | polling => simp [advance, at_] at h
  | condition =>
    simp only [advance, at_, Option.some.injEq] at h
    subst h
    cases s.loop.quit <;> simp
  | dispatching active =>
    rcases active with _ | ⟨_ | _, _⟩ <;> simp only [advance, at_, Option.some.injEq] at h <;>
      subst h <;> simp [EventLoop.handleRead]
  | batch functors =>
    cases functors <;> simp only [advance, at_, Option.some.injEq] at h <;> subst h <;> simp
  | handling | calling | swapping | running | leaving =>
    simp only [advance, at_, Option.some.injEq] at h
    subst h
    simp

end LoopRun

namespace ThreadRun
variable {φ : Type}

def heed (s : ThreadRun φ) (l : ThreadAct φ) (_ : ThreadRun φ) (q : Heed) : Heed :=
  match l with
  | .owner => { q with asked := q.asked || s.owner == .quitting }
  | .loop (.quit _) => { q with asked := q.asked || s.owner.hasLoop }
  | .loop .advance =>
    { q with ignored := q.ignored || s.loop.pc matches .condition && q.asked && !s.loop.loop.quit }
  | _ => q

def heeding : Machine (ThreadRun φ × Heed) (ThreadAct φ) := machine.watched ⟨false, false⟩ heed

def Heeded (p : ThreadRun φ × Heed) : Prop := p.2.ignored = false

/-- `loop()` has cleared `quit_`. -/
def initialized (s : ThreadRun φ) : Bool :=
  s.func.hasReturned || s.func == .looping && !(s.loop.pc matches .entered)

/-- A `quit()` with the loop that `startLoop` returned comes after `loop()` has
cleared `quit_`. -/
def QuitsInitialized (p : ThreadRun φ × Heed) : ThreadAct φ → Prop
  | .owner => p.1.owner = .quitting → p.1.initialized = true
  | .loop (.quit _) => p.1.owner.hasLoop = true → p.1.initialized = true
  | _ => True

instance (p : ThreadRun φ × Heed) : ∀ l, Decidable (QuitsInitialized p l)
  | .owner => inferInstanceAs (Decidable (p.1.owner = .quitting → p.1.initialized = true))
  | .loop (.quit _) =>
    inferInstanceAs (Decidable (p.1.owner.hasLoop = true → p.1.initialized = true))
  | .destroy | .func | .loop .enter | .loop .advance | .loop (.poll _) | .loop (.runInLoop _ _)
  | .loop (.queueInLoop _ _) | .loop (.test _) | .loop (.wakeup _) => isTrue trivial

/-- Once it was asked to, a loop that runs has its `quit_` set. -/
structure Heeding (p : ThreadRun φ × Heed) : Prop where
  handed : p.2.asked = true → p.1.owner.hasLoop = true
  initialized : p.2.asked = true → p.1.initialized = true
  quit : p.2.asked = true → p.1.func = .looping → p.1.loop.pc ≠ .outside →
    p.1.loop.loop.quit = true
  heeded : Heeded p

/-- Nobody has called a `quit()` that counts. -/
theorem Heeding.of_unasked {p : ThreadRun φ × Heed} (unasked : p.2.asked = false)
    (heeded : Heeded p) : Heeding p := by
  refine ⟨fun now => ?_, fun now => ?_, fun now => ?_, heeded⟩ <;>
    · rw [unasked] at now
      cases now

theorem heed_owner {s : ThreadRun φ} (h : s.owner ≠ .quitting) (t : ThreadRun φ) (q : Heed) :
    heed s .owner t q = q := by
  simp only [heed, beq_eq_false_iff_ne.mpr h, Bool.or_false]

theorem initialized_cases {s : ThreadRun φ} (h : s.initialized = true) :
    s.func.hasReturned = true ∨ (s.func = .looping ∧ s.loop.pc ≠ .entered) := by
  simp only [initialized, Bool.or_eq_true, Bool.and_eq_true, beq_iff_eq, Bool.not_eq_true'] at h
  refine h.imp_right fun inside => ⟨inside.1, fun entered => ?_⟩
  rw [entered] at inside
  cases inside.2

theorem looping_initialized {s : ThreadRun φ} (func : s.func = .looping)
    (inside : s.loop.pc ≠ .entered) : s.initialized = true := by
  simp only [initialized, func, beq_self_eq_true, Bool.true_and, Bool.or_eq_true,
    Bool.not_eq_true']
  right
  cases at_ : s.loop.pc with
  | entered => exact absurd at_ inside
  | _ => trivial

/-- A step of the loop or of a call into it, where every call of `quit()` that
counts comes in time. -/
theorem loop_heeding {p : ThreadRun φ × Heed} {t : ThreadRun φ} {q : Heed} {l : LoopAct φ}
    (inv : Heeding p) (hl : p.1.loop.step l = some t.loop) (func : t.func = p.1.func)
    (owner : p.1.owner.hasLoop = true → t.owner.hasLoop = true) (notEnter : l ≠ .enter)
    (asked : q.asked = true → p.2.asked = true ∨
      ((∃ thread, l = .quit thread) ∧ p.1.owner.hasLoop = true ∧ p.1.initialized = true))
    (heeded : q.ignored = false) : Heeding (t, q) := by
  have ready : q.asked = true → p.1.owner.hasLoop = true ∧ p.1.initialized = true := by
    intro now
    rcases asked now with before | ⟨_, handed, ready⟩
    · exact ⟨inv.handed before, inv.initialized before⟩
    · exact ⟨handed, ready⟩
  refine ⟨fun now => owner (ready now).1, fun now => ?_, fun now looping running => ?_, heeded⟩
  · rcases initialized_cases (ready now).2 with returned | ⟨looping, inside⟩
    · simp [initialized, func, returned]
    · apply looping_initialized (func.trans looping)
      rcases LoopRun.step_flags hl with ⟨enter, _⟩ | ⟨_, go⟩ | ⟨_, _, _, pc, _⟩ | ⟨_, _, pc, _⟩ |
        ⟨pc, _⟩
      · exact absurd enter notEnter
      · exact (LoopRun.advance_quit go inside).1
      · simp [pc]
      · rw [pc]
        exact inside
      · rw [pc]
        exact inside
  · have inside : p.1.loop.pc ≠ .entered := by
      rcases initialized_cases (ready now).2 with returned | ⟨_, inside⟩
      · rw [← func, looping] at returned
        cases returned
      · exact inside
    have looping := func.symm.trans looping
    have set : (∃ thread, l = .quit thread) ∨
        (p.1.loop.pc ≠ .outside → p.1.loop.loop.quit = true) :=
      (asked now).symm.imp (fun new => new.1) fun before => inv.quit before looping
    rcases set with ⟨_, rfl⟩ | set
    · exact (LoopRun.quit_flags hl).2.1
    · rcases LoopRun.step_flags hl with ⟨enter, _⟩ | ⟨_, go⟩ | ⟨_, _, polling, _, quit⟩ |
        ⟨_, _, _, quit, _⟩ | ⟨pc, quit, _⟩
      · exact absurd enter notEnter
      · rw [(LoopRun.advance_quit go inside).2]
        refine set fun out => ?_
        simp [LoopRun.advance, out] at go
      · rw [quit]
        exact set (by simp [polling])
      · exact quit
      · rw [quit]
        exact set (pc ▸ running)

/-- `threadFunc` goes on: it enters `loop()` unasked. -/
theorem func_heeding {p : ThreadRun φ × Heed} {t : ThreadRun φ} (inv : Heeding p)
    (h : p.1.funcStep = some t) : Heeding (t, p.2) := by
  cases at_ : p.1.func with
  | notStarted | finished => simp [funcStep, at_] at h
  | looping =>
    simp only [funcStep, at_, Option.ite_none_right_eq_some, Option.some.injEq] at h
    obtain ⟨_, rfl⟩ := h
    exact ⟨inv.handed, fun _ => rfl, fun _ looping => by simp at looping, inv.heeded⟩
  | returned =>
    simp only [funcStep, at_, Option.ite_none_left_eq_some, Option.some.injEq] at h
    obtain ⟨_, rfl⟩ := h
    exact ⟨inv.handed, fun _ => rfl, fun _ looping => by simp at looping, inv.heeded⟩
  | clearing | cleared | unlocked =>
    simp only [funcStep, at_, Option.some.injEq] at h
    subst h
    exact ⟨inv.handed, fun _ => rfl, fun _ looping => by simp at looping, inv.heeded⟩
  | constructing | initializing | publishing | published | calling =>
    have unasked : p.2.asked = false := by
      cases asked : p.2.asked with
      | false => rfl
      | true =>
        have ready := inv.initialized asked
        simp [initialized, at_, FuncPc.hasReturned] at ready
    exact .of_unasked unasked inv.heeded

/-- `startLoop` and the destructor go on. -/
theorem owner_heeding {p : ThreadRun φ × Heed} {t : ThreadRun φ} (inv : Heeding p)
    (ok : QuitsInitialized p .owner) (h : p.1.ownerStep = some t) :
    Heeding (t, heed p.1 .owner t p.2) := by
  rcases ownerStep_cases h with ⟨new, rfl⟩ | ⟨quits, loop, hq, rfl⟩ | ⟨wakes, loop, hw, rfl⟩ |
    ⟨other, loop, func, _, owner⟩
  · have unasked : p.2.asked = false := by
      cases asked : p.2.asked with
      | false => rfl
      | true =>
        have handed := inv.handed asked
        rw [new] at handed
        cases handed
    rw [heed_owner (by simp [new])]
    exact .of_unasked unasked inv.heeded
  · refine loop_heeding inv hq rfl (fun _ => rfl) (by simp) (fun _ => .inr ?_) inv.heeded
    exact ⟨⟨_, rfl⟩, by rw [quits]; rfl, ok quits⟩
  · refine loop_heeding inv hw rfl (fun _ => rfl) (by simp) (fun now => .inl ?_) inv.heeded
    simpa [heed, wakes] using now
  · rw [heed_owner other]
    refine ⟨fun now => owner (inv.handed now), fun now => ?_, fun now looping running => ?_,
      inv.heeded⟩
    · rw [initialized, func, loop]
      exact inv.initialized now
    · rw [func] at looping
      rw [loop] at running ⊢
      exact inv.quit now looping running

/-- The loop condition is tested: where a `quit()` counts, it finds `quit_` set. -/
theorem advance_heeded {p : ThreadRun φ × Heed} {t : ThreadRun φ} (inv : Heeding p)
    (looping : p.1.func = .looping) : (heed p.1 (.loop .advance) t p.2).ignored = false := by
  have heeded : p.2.ignored = false := inv.heeded
  simp only [heed, heeded, Bool.false_or]
  cases at_ : p.1.loop.pc with
  | condition =>
    cases now : p.2.asked with
    | true => simp [inv.quit now looping (by simp [at_])]
    | false => rfl
  | _ => rfl

theorem step_heeding {p r : ThreadRun φ × Heed} {l : ThreadAct φ} (inv : Heeding p)
    (ok : QuitsInitialized p l) (h : heeding.step p l = some r) : Heeding r := by
  obtain ⟨hl, watched⟩ := Machine.watched_step h
  obtain ⟨t, q⟩ := r
  dsimp only at hl watched
  subst watched
  cases l with
  | func => exact func_heeding inv hl
  | destroy =>
    simp only [machine, step, Option.ite_none_right_eq_some, Option.some.injEq] at hl
    obtain ⟨_, rfl⟩ := hl
    exact ⟨fun _ => rfl, inv.initialized, inv.quit, inv.heeded⟩
  | owner => exact owner_heeding inv ok hl
  | loop m =>
    simp only [machine, step, Option.ite_none_right_eq_some] at hl
    obtain ⟨may, hl⟩ := hl
    obtain ⟨loop, hm, rfl⟩ := Option.map_eq_some_iff.mp hl
    have notEnter : m ≠ .enter := by
      rintro rfl
      cases may
    refine loop_heeding inv hm rfl id notEnter (fun now => ?_) ?_
    · cases m with
      | quit thread =>
        simp only [heed, Bool.or_eq_true] at now
        exact now.imp_right fun handed => ⟨⟨thread, rfl⟩, handed, ok handed⟩
      | _ => exact .inl now
    · cases m with
      | advance => exact advance_heeded inv (by simpa [mayStep] using may)
      | _ => exact inv.heeded

theorem start_heeding {p : ThreadRun φ × Heed} (h : heeding.start p) : Heeding p := by
  refine .of_unasked ?_ ?_
  · rw [h.2]
  · rw [Heeded, h.2]

/-- When every `quit()` with the loop that `startLoop` returned comes after
`loop()` has cleared `quit_`, the loop condition never finds `quit_` false
afterwards. -/
theorem quit_sticks {p : ThreadRun φ × Heed} (h : heeding.ReachableBy QuitsInitialized p) :
    Heeded p :=
  (h.invariant (fun _ => start_heeding) fun _ _ _ inv ok step => step_heeding inv ok step).heeded

/-- An object just constructed, with owner 1 and loop thread 2. -/
def constructed : ThreadRun Nat × Heed where
  fst :=
    { object := ⟨false, false, false, false⟩
      loop := ⟨EventLoop.new 2, .outside, fun _ => .none, [], [], 0⟩
      func := .notStarted
      owner := .created
      ownerId := 1 }
  snd := ⟨false, false⟩

theorem constructed_start : heeding.start constructed :=
  ⟨⟨rfl, ⟨2, rfl⟩, rfl, rfl, by decide⟩, rfl⟩

/-- `startLoop` returns while the new thread is about to call `loop()`. -/
def startsLoop : List (ThreadAct Nat) :=
  [.owner, .func, .func, .func, .func, .owner, .owner, .owner]

/-- The new thread gets into `poll` before the destructor calls `quit()`, and
is joined. -/
def joins : List (ThreadAct Nat) :=
  startsLoop ++ [.func, .loop .advance, .loop .advance, .destroy, .owner, .owner, .owner,
    .loop (.poll [.wakeup]), .loop .advance, .loop .advance, .loop .advance, .loop .advance,
    .loop .advance, .loop .advance, .loop .advance, .func, .func, .func, .func, .func, .owner,
    .owner]

theorem quit_sticks_joined :
    ∃ p, heeding.exec constructed joins = some p ∧ p.1.owner = .destroyed ∧ p.2.asked = true ∧
      Heeded p := by
  have run : (heeding.exec constructed joins).map (fun p => (p.1.owner, p.2.asked)) =
      some (.destroyed, true) := by decide
  obtain ⟨p, hp, after⟩ := Option.map_eq_some_iff.mp run
  simp only [Prod.mk.injEq] at after
  obtain ⟨owner, asked⟩ := after
  have steps : heeding.Steps QuitsInitialized constructed joins := by decide
  exact ⟨p, hp, owner, asked, quit_sticks (.of_steps (.start constructed_start) _ steps hp)⟩

/-- The destructor calls `quit()` before `loop()` clears `quit_`. -/
theorem quit_forgotten :
    ∃ p : ThreadRun Nat × Heed, heeding.Reachable p ∧ p.1.owner = .joining ∧
      p.1.loop.loop.quit = false ∧
      ¬ Heeded p := by
  have run : (heeding.exec constructed (startsLoop ++ [.destroy, .owner, .owner, .owner, .func,
      .loop .advance, .loop .advance])).map
        (fun p => (p.1.owner, p.1.loop.loop.quit, p.2.ignored)) =
      some (.joining, false, true) := by decide
  obtain ⟨p, hp, after⟩ := Option.map_eq_some_iff.mp run
  simp only [Prod.mk.injEq] at after
  obtain ⟨owner, quit, ignored⟩ := after
  refine ⟨p, heeding.exec_reachable (.start constructed_start) _ hp, owner, quit, ?_⟩
  intro heeded
  exact absurd (heeded.symm.trans ignored) (by decide)

end ThreadRun
end Kenmuduo
