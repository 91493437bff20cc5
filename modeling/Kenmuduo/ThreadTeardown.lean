import Kenmuduo.QuitSticky

/-!
# The end of an EventLoopThread

The destructor tests `loop_` without the mutex and joins only a thread whose
`loop_` it has found set. A loop that was made to quit by somebody else may be
gone by the time it is used, the loop may be gone before the destructor's own
`quit()` has returned, and a thread that is not joined may still have to unlock
the mutex.
-/

namespace Kenmuduo
open Transition

namespace LoopRun
variable {φ : Type}

/-- `loop()` returns only after another `quit()`. -/
def stays (s : LoopRun φ) : Bool :=
  match s.pc with
  | .entered => true
  | .outside | .leaving => false
  | _ => !s.loop.quit

/-- `loop()` is called and has not found `quit_` set. -/
def goesOn (s : LoopRun φ) : Bool :=
  match s.pc with
  | .outside | .leaving => false
  | _ => true

/-- `loop()` is about to test `quit_`, which is set. -/
def findsQuit (s : LoopRun φ) : Bool :=
  match s.pc with
  | .condition => s.loop.quit
  | _ => false

theorem stays_goesOn {s : LoopRun φ} (h : s.stays = true) : s.goesOn = true := by
  cases at_ : s.pc with
  | outside | leaving => simp [stays, at_] at h
  | _ => simp [goesOn, at_]

theorem advance_goesOn {s t : LoopRun φ} (h : s.advance = some t) (unset : s.findsQuit = false)
    (goesOn : s.goesOn = true) : t.goesOn = true := by
  cases at_ : s.pc with
  | outside | polling => simp [advance, at_] at h
  | leaving => simp [LoopRun.goesOn, at_] at goesOn
  | condition =>
    simp only [findsQuit, at_] at unset
    simp only [advance, at_, unset, Option.some.injEq] at h
    subst h
    rfl
  | dispatching active =>
    rcases active with _ | ⟨_ | _, _⟩ <;> simp only [advance, at_, Option.some.injEq] at h <;>
      subst h <;> rfl
  | batch functors =>
    cases functors <;> simp only [advance, at_, Option.some.injEq] at h <;> subst h <;> rfl
  | _ =>
    simp only [advance, at_, Option.some.injEq] at h
    subst h
    rfl

/-- A loop goes on until it finds `quit_` set. -/
theorem step_goesOn {s t : LoopRun φ} {l : LoopAct φ} (h : s.step l = some t)
    (unset : l = .advance → s.findsQuit = false) (goesOn : s.goesOn = true) : t.goesOn = true := by
  have still (same : t.pc = s.pc) : t.goesOn = true := by
    unfold LoopRun.goesOn at goesOn ⊢
    rw [same]
    exact goesOn
  rcases step_flags h with ⟨_, _, pc, _⟩ | ⟨advances, go⟩ | ⟨_, _, _, pc, _⟩ | ⟨_, _, pc, _⟩ |
    ⟨pc, _⟩
  · simp [LoopRun.goesOn, pc]
  · exact advance_goesOn go (unset advances) goesOn
  · simp [LoopRun.goesOn, pc]
  · exact still pc
  · exact still pc

theorem advance_stays {s t : LoopRun φ} (h : s.advance = some t) (stays : s.stays = true) :
    t.stays = true := by
  cases at_ : s.pc with
  | outside | polling => simp [advance, at_] at h
  | leaving => simp [LoopRun.stays, at_] at stays
  | condition =>
    simp only [LoopRun.stays, at_, Bool.not_eq_true'] at stays
    simp only [advance, at_, Option.some.injEq] at h
    subst h
    simp [LoopRun.stays, stays]
  | dispatching active =>
    rcases active with _ | ⟨_ | _, _⟩ <;> simp only [advance, at_, Option.some.injEq] at h <;>
      subst h <;> simpa [LoopRun.stays, at_, EventLoop.handleRead] using stays
  | batch functors =>
    cases functors <;> simp only [advance, at_, Option.some.injEq] at h <;> subst h <;>
      simpa [LoopRun.stays, at_] using stays
  | entered =>
    simp only [advance, at_, Option.some.injEq] at h
    subst h
    rfl
  | handling | calling | swapping | running =>
    simp only [advance, at_, Option.some.injEq] at h
    subst h
    simpa [LoopRun.stays, at_] using stays

/-- Only a `quit()` makes a loop return that stays. -/
theorem step_stays {s t : LoopRun φ} {l : LoopAct φ} (h : s.step l = some t)
    (notEnter : l ≠ .enter) (unasked : (∃ thread, l = .quit thread) → s.pc = .entered)
    (stays : s.stays = true) : t.stays = true := by
  rcases step_flags h with ⟨enter, _⟩ | ⟨_, go⟩ | ⟨_, _, polling, pc, quit⟩ | ⟨thread, rfl, pc, _⟩ |
    ⟨pc, quit, _⟩
  · exact absurd enter notEnter
  · exact advance_stays go stays
  · simp only [LoopRun.stays, polling] at stays
    simpa only [LoopRun.stays, pc, quit] using stays
  · simp [LoopRun.stays, pc, unasked ⟨thread, rfl⟩]
  · simpa only [LoopRun.stays, pc, quit] using stays

end LoopRun

namespace ThreadRun
variable {φ : Type}

/-- The destructor calls `quit()` on a loop whose scope is not left before the
call returns, and when it completes the thread is done with `mutex_` and
`loop_`. -/
structure SafelyDestroyed (s : ThreadRun φ) : Prop where
  quits : s.owner = .quitting → s.object.loop = true ∧ s.func.loopAlive = true
  -- `quit()` reads `threadId_` and writes `wakeupFd_` after it has set `quit_`
  wakes : s.owner = .waking → s.func.loopAlive = true
  completes : s.owner = .destroyed → s.func.released = true

/-- `loop()` is about to run or runs, and returns only after another
`quit()`. -/
def remains (s : ThreadRun φ) : Bool :=
  match s.func with
  | .published | .calling => true
  | .looping => s.loop.stays
  | _ => false

/-- `loop()` is about to run or runs, and has not found `quit_` set. -/
def goesOn (s : ThreadRun φ) : Bool :=
  match s.func with
  | .published | .calling => true
  | .looping => s.loop.goesOn
  | _ => false

/-- The destructor finds a loop that remains or a thread that is done with the
object, nobody else makes the loop quit before it does, and the loop does not
find `quit_` set before `quit()` has woken it. -/
def DestroysInTime (s : ThreadRun φ) : ThreadAct φ → Prop
  | .owner => s.owner = .destroying → s.remains = true ∨ s.func.released = true
  | .loop (.quit _) => s.owner = .quitting → s.initialized = false
  | .loop .advance => s.owner = .waking → s.loop.findsQuit = false
  | _ => True

instance (s : ThreadRun φ) : ∀ l, Decidable (s.DestroysInTime l)
  | .owner => inferInstanceAs
      (Decidable (s.owner = .destroying → s.remains = true ∨ s.func.released = true))
  | .loop (.quit _) => inferInstanceAs (Decidable (s.owner = .quitting → s.initialized = false))
  | .loop .advance => inferInstanceAs (Decidable (s.owner = .waking → s.loop.findsQuit = false))
  | .destroy | .func | .loop .enter | .loop (.poll _) | .loop (.runInLoop _ _)
  | .loop (.queueInLoop _ _) | .loop (.test _) | .loop (.wakeup _) => isTrue trivial

/-- `loop_` is set while `threadFunc` is between its two critical sections,
and what the owner has found there still holds. -/
structure Sound (s : ThreadRun φ) : Prop where
  fresh : s.owner = .created → s.func = .notStarted
  exposed : s.object.loop = s.func.exposed
  handed : s.owner = .returning ∨ s.owner.hasLoop = true → s.func.wasPublished = true
  quitting : s.owner = .quitting → s.remains = true
  waking : s.owner = .waking → s.goesOn = true
  ended : s.owner = .releasing ∨ s.owner = .destroyed → s.func.released = true

theorem remains_exposed {s : ThreadRun φ} (h : s.remains = true) :
    s.func.exposed = true ∧ s.func.loopAlive = true := by
  cases at_ : s.func with
  | published | calling | looping => exact ⟨rfl, rfl⟩
  | _ => simp [remains, at_] at h

theorem goesOn_alive {s : ThreadRun φ} (h : s.goesOn = true) : s.func.loopAlive = true := by
  cases at_ : s.func with
  | published | calling | looping => rfl
  | _ => simp [goesOn, at_] at h

theorem remains_goesOn {s : ThreadRun φ} (h : s.remains = true) : s.goesOn = true := by
  cases at_ : s.func with
  | published | calling => simp [goesOn, at_]
  | looping =>
    simp only [remains, at_] at h
    simp only [goesOn, at_]
    exact LoopRun.stays_goesOn h
  | _ => simp [remains, at_] at h

theorem Sound.safe {s : ThreadRun φ} (h : s.Sound) : s.SafelyDestroyed := by
  constructor
  · intro quits
    obtain ⟨exposed, alive⟩ := remains_exposed (h.quitting quits)
    exact ⟨h.exposed.trans exposed, alive⟩
  · intro wakes
    exact goesOn_alive (h.waking wakes)
  · intro ended
    exact h.ended (.inr ended)

theorem Start.sound {s : ThreadRun φ} (h : s.Start) : s.Sound := by
  constructor
  · exact fun _ => h.func
  · rw [h.object, h.func]
    rfl
  · rw [h.owner]
    rintro (other | handed)
    · cases other
    · cases handed
  · rw [h.owner]
    intro other
    cases other
  · rw [h.owner]
    intro other
    cases other
  · rw [h.owner]
    rintro (other | other) <;> cases other

/-- `loop()` goes on, whatever is called while it runs. -/
theorem loop_goesOn {s : ThreadRun φ} {loop : LoopRun φ} {l : LoopAct φ}
    (h : s.loop.step l = some loop) (unset : l = .advance → s.loop.findsQuit = false)
    (goesOn : s.goesOn = true) : ({ s with loop := loop } : ThreadRun φ).goesOn = true := by
  cases at_ : s.func with
  | published | calling => simp [ThreadRun.goesOn]
  | looping =>
    simp only [ThreadRun.goesOn, at_] at goesOn ⊢
    exact LoopRun.step_goesOn h unset goesOn
  | _ => simp [ThreadRun.goesOn, at_] at goesOn

theorem loop_remains {s : ThreadRun φ} {loop : LoopRun φ} {l : LoopAct φ}
    (h : s.loop.step l = some loop) (notEnter : l ≠ .enter)
    (unasked : (∃ thread, l = .quit thread) → s.initialized = false) (remains : s.remains = true) :
    ({ s with loop := loop } : ThreadRun φ).remains = true := by
  cases at_ : s.func with
  | published | calling => simp [ThreadRun.remains]
  | looping =>
    simp only [ThreadRun.remains, at_] at remains ⊢
    refine LoopRun.step_stays h notEnter (fun asked => ?_) remains
    have early := unasked asked
    refine Classical.byContradiction fun inside => ?_
    rw [looping_initialized at_ inside] at early
    cases early
  | _ => simp [ThreadRun.remains, at_] at remains

/-- `threadFunc` does not take back what the owner has found. -/
theorem funcStep_progress {s t : ThreadRun φ} (h : s.funcStep = some t) :
    s.func ≠ .notStarted ∧ t.owner = s.owner ∧
    (s.func.wasPublished = true → t.func.wasPublished = true) ∧
    (s.func.released = true → t.func.released = true) ∧ (s.remains = true → t.remains = true) ∧
    (s.goesOn = true → t.goesOn = true) ∧
    (s.object.loop = s.func.exposed → t.object.loop = t.func.exposed) := by
  cases at_ : s.func with
  | notStarted | finished => simp [funcStep, at_] at h
  | constructing | publishing | published | clearing | cleared | unlocked =>
    simp only [funcStep, at_, Option.some.injEq] at h
    subst h
    simp [FuncPc.wasPublished, FuncPc.released, FuncPc.exposed, remains, goesOn, at_]
  | initializing | returned =>
    simp only [funcStep, at_, Option.ite_none_left_eq_some, Option.some.injEq] at h
    obtain ⟨_, rfl⟩ := h
    simp [FuncPc.wasPublished, FuncPc.released, FuncPc.exposed, remains, goesOn, at_]
  | calling =>
    simp only [funcStep, at_] at h
    obtain ⟨loop, entered, rfl⟩ := Option.map_eq_some_iff.mp h
    have pc := (LoopRun.enter_flags entered).2.1
    simp [FuncPc.wasPublished, FuncPc.released, FuncPc.exposed, remains, goesOn, LoopRun.stays,
      LoopRun.goesOn, pc]
  | looping =>
    simp only [funcStep, at_, Option.ite_none_right_eq_some, Option.some.injEq] at h
    obtain ⟨out, rfl⟩ := h
    have ended : s.goesOn = false := by
      simp only [goesOn, at_, LoopRun.goesOn]
      cases pc : s.loop.pc with
      | outside => rfl
      | _ => simp [pc] at out
    have leaves : ¬ s.remains = true := fun remains => by simp [remains_goesOn remains] at ended
    simp [FuncPc.wasPublished, FuncPc.released, FuncPc.exposed, ended, leaves]

theorem func_sound {s t : ThreadRun φ} (inv : s.Sound) (h : s.funcStep = some t) : t.Sound := by
  obtain ⟨going, owner, published, released, remains, goesOn, exposed⟩ := funcStep_progress h
  constructor
  · rw [owner]
    exact fun new => absurd (inv.fresh new) going
  · exact exposed inv.exposed
  · rw [owner]
    exact fun handed => published (inv.handed handed)
  · rw [owner]
    exact fun quits => remains (inv.quitting quits)
  · rw [owner]
    exact fun wakes => goesOn (inv.waking wakes)
  · rw [owner]
    exact fun ended => released (inv.ended ended)

theorem exposed_cases {func : FuncPc} (h : func.exposed = true) :
    func.wasPublished = true ∧ func.released = false := by
  cases func <;> simp_all [FuncPc.exposed, FuncPc.wasPublished, FuncPc.released]

/-- The owner goes on to a point where it has found out nothing new. -/
theorem Sound.goOn {s t : ThreadRun φ} (inv : s.Sound) (func : t.func = s.func)
    (object : t.object.loop = s.object.loop) (created : t.owner ≠ .created)
    (handed : t.owner = .returning ∨ t.owner.hasLoop = true →
      s.owner = .returning ∨ s.owner.hasLoop = true)
    (quitting : t.owner ≠ .quitting) (waking : t.owner ≠ .waking)
    (ended : t.owner = .releasing ∨ t.owner = .destroyed → s.func.released = true) : t.Sound := by
  constructor
  · exact fun new => absurd new created
  · rw [object, func]
    exact inv.exposed
  · rw [func]
    exact fun now => inv.handed (handed now)
  · exact fun now => absurd now quitting
  · exact fun now => absurd now waking
  · rw [func]
    exact ended

/-- The owner goes on, and finds what `loop_` says. -/
theorem owner_sound {s t : ThreadRun φ} (inv : s.Sound) (intime : s.DestroysInTime .owner)
    (h : s.ownerStep = some t) : t.Sound := by
  have found : s.object.loop = true → s.func.wasPublished = true ∧ s.func.released = false :=
    fun set => exposed_cases (inv.exposed.symm.trans set)
  cases at_ : s.owner with
  | started | destroyed => simp [ownerStep, at_] at h
  | created =>
    simp only [ownerStep, at_, Option.some.injEq] at h
    subst h
    have unset := inv.exposed
    rw [inv.fresh at_] at unset
    refine ⟨?_, unset, ?_, ?_, ?_, ?_⟩
    · intro other
      cases other
    · rintro (other | other) <;> cases other
    · intro other
      cases other
    · intro other
      cases other
    · rintro (other | other) <;> cases other
  | locking | waiting =>
    simp only [ownerStep, at_, Option.ite_none_left_eq_some, Option.some.injEq] at h
    obtain ⟨_, rfl⟩ := h
    exact inv.goOn rfl rfl (by simp) (by simp [OwnerPc.hasLoop]) (by simp) (by simp) (by simp)
  | testing =>
    simp only [ownerStep, at_, Option.some.injEq] at h
    subst h
    cases set : s.object.loop with
    | false =>
      exact inv.goOn rfl rfl (by simp) (by simp [OwnerPc.hasLoop]) (by simp) (by simp) (by simp)
    | true =>
      refine ⟨by simp, inv.exposed, fun _ => (found set).1, by simp, by simp, by simp⟩
  | returning =>
    simp only [ownerStep, at_, Option.some.injEq] at h
    subst h
    exact inv.goOn rfl rfl (by simp) (fun _ => .inl at_) (by simp) (by simp) (by simp)
  | destroying =>
    simp only [ownerStep, at_, Option.some.injEq] at h
    subst h
    have handed := inv.handed (.inr (by rw [at_]; rfl))
    cases set : s.object.loop with
    | false =>
      refine ⟨by simp, set ▸ inv.exposed, fun _ => handed, by simp, by simp, fun _ => ?_⟩
      refine (intime at_).resolve_left fun remains => ?_
      have set' := inv.exposed.trans (remains_exposed remains).1
      rw [set] at set'
      cases set'
    | true =>
      refine ⟨by simp, set ▸ inv.exposed, fun _ => handed, fun _ => ?_, by simp, by simp⟩
      refine (intime at_).resolve_right fun released => ?_
      rw [(found set).2] at released
      cases released
  | quitting =>
    simp only [ownerStep, at_, Option.ite_none_right_eq_some] at h
    obtain ⟨loop, quits, rfl⟩ := Option.map_eq_some_iff.mp h.2
    have handed := inv.handed (.inr (by rw [at_]; rfl))
    refine ⟨by simp, inv.exposed, fun _ => handed, by simp, fun _ => ?_, by simp⟩
    exact loop_goesOn quits (fun other => by cases other) (remains_goesOn (inv.quitting at_))
  | waking =>
    simp only [ownerStep, at_, Option.ite_none_right_eq_some] at h
    obtain ⟨loop, _, rfl⟩ := Option.map_eq_some_iff.mp h.2
    exact inv.goOn rfl rfl (by simp) (fun _ => .inr (by rw [at_]; rfl)) (by simp) (by simp)
      (by simp)
  | joining =>
    simp only [ownerStep, at_, Option.ite_none_right_eq_some, Option.some.injEq] at h
    obtain ⟨finished, rfl⟩ := h
    exact inv.goOn rfl rfl (by simp) (fun _ => .inr (by rw [at_]; rfl)) (by simp) (by simp)
      fun _ => by rw [finished]; rfl
  | releasing =>
    simp only [ownerStep, at_, Option.some.injEq] at h
    subst h
    exact inv.goOn rfl rfl (by simp) (fun _ => .inr (by rw [at_]; rfl)) (by simp) (by simp)
      fun _ => inv.ended (.inl at_)

theorem step_sound {s t : ThreadRun φ} {l : ThreadAct φ} (inv : s.Sound)
    (intime : s.DestroysInTime l) (h : s.step l = some t) : t.Sound := by
  cases l with
  | owner => exact owner_sound inv intime h
  | func => exact func_sound inv h
  | destroy =>
    simp only [step, Option.ite_none_right_eq_some, Option.some.injEq] at h
    obtain ⟨ready, rfl⟩ := h
    have started : s.owner = .started := by simp_all
    have handed : s.owner.hasLoop = true := by
      rw [started]
      rfl
    refine ⟨?_, inv.exposed, fun _ => inv.handed (.inr handed), ?_, ?_, ?_⟩
    · intro other
      cases other
    · intro other
      cases other
    · intro other
      cases other
    · rintro (other | other) <;> cases other
  | loop m =>
    simp only [step, Option.ite_none_right_eq_some] at h
    obtain ⟨may, h⟩ := h
    obtain ⟨loop, hm, rfl⟩ := Option.map_eq_some_iff.mp h
    refine ⟨inv.fresh, inv.exposed, inv.handed, fun quits => ?_, fun wakes => ?_, inv.ended⟩
    · refine loop_remains hm ?_ ?_ (inv.quitting quits)
      · rintro rfl
        cases may
      · rintro ⟨thread, rfl⟩
        exact intime quits
    · refine loop_goesOn hm ?_ (inv.waking wakes)
      rintro rfl
      exact intime wakes

/-- When the destructor finds a loop that remains or a thread that is done,
nobody else makes the loop quit before it does, and the loop does not find that
out before it is woken, the destructor is safe. -/
theorem destroyed_safely {s : ThreadRun φ} (h : machine.ReachableBy DestroysInTime s) :
    s.SafelyDestroyed :=
  (h.invariant (fun _ => Start.sound) fun _ _ _ inv intime step => step_sound inv intime step).safe

/-- Nobody but the destructor makes the loop quit. -/
theorem destroyed_safely_joined :
    ∃ s, machine.exec constructed.1 joins = some s ∧ s.owner = .destroyed ∧ s.SafelyDestroyed := by
  have run : (machine.exec constructed.1 joins).map (fun s => s.owner) = some .destroyed := by
    decide
  obtain ⟨s, hs, owner⟩ := Option.map_eq_some_iff.mp run
  have steps : machine.Steps DestroysInTime constructed.1 joins := by decide
  exact ⟨s, hs, owner, destroyed_safely (.of_steps (.start constructed_start.1) _ steps hs)⟩

/-- Thread 3 makes the loop quit, and it returns. -/
def leaves : List (ThreadAct Nat) :=
  startsLoop ++ [.func, .loop .advance, .loop .advance, .loop (.quit 3), .loop (.wakeup 3),
    .loop (.poll [.wakeup]), .loop .advance, .loop .advance, .loop .advance, .loop .advance,
    .loop .advance, .loop .advance, .loop .advance, .func]

/-- The destructor is to call `quit()` on a loop that is gone by then; or it is
gone between the store of `quit_` and the write to the eventfd; or the
destructor completes while the thread still has to unlock the mutex. -/
theorem destroyed_unsafely :
    (∃ s : ThreadRun Nat, machine.Reachable s ∧ s.owner = .quitting ∧ s.func = .finished ∧
      ¬ s.SafelyDestroyed) ∧
    (∃ s : ThreadRun Nat, machine.Reachable s ∧ s.owner = .waking ∧ s.func = .finished ∧
      ¬ s.SafelyDestroyed) ∧
    (∃ s : ThreadRun Nat, machine.Reachable s ∧ s.owner = .destroyed ∧ s.func = .cleared ∧
      ¬ s.SafelyDestroyed) := by
  refine ⟨?_, ?_, ?_⟩
  · have run : (machine.exec constructed.1 (leaves ++ [.destroy, .owner, .func, .func, .func,
        .func])).map (fun s => (s.owner, s.func)) = some (.quitting, .finished) := by decide
    obtain ⟨s, hs, after⟩ := Option.map_eq_some_iff.mp run
    simp only [Prod.mk.injEq] at after
    obtain ⟨owner, func⟩ := after
    refine ⟨s, machine.exec_reachable (.start constructed_start.1) _ hs, owner, func, ?_⟩
    intro safe
    have alive := (safe.quits owner).2
    rw [func] at alive
    cases alive
  · have run : (machine.exec constructed.1 (startsLoop ++ [.func, .loop .advance, .loop .advance,
        .destroy, .owner, .owner, .loop (.poll []), .loop .advance, .loop .advance, .loop .advance,
        .loop .advance, .loop .advance, .loop .advance, .func, .func, .func, .func, .func])).map
        (fun s => (s.owner, s.func)) = some (.waking, .finished) := by decide
    obtain ⟨s, hs, after⟩ := Option.map_eq_some_iff.mp run
    simp only [Prod.mk.injEq] at after
    obtain ⟨owner, func⟩ := after
    refine ⟨s, machine.exec_reachable (.start constructed_start.1) _ hs, owner, func, ?_⟩
    intro safe
    have alive := safe.wakes owner
    rw [func] at alive
    cases alive
  · have run : (machine.exec constructed.1 (leaves ++ [.func, .func, .destroy, .owner,
        .owner])).map (fun s => (s.owner, s.func)) = some (.destroyed, .cleared) := by decide
    obtain ⟨s, hs, after⟩ := Option.map_eq_some_iff.mp run
    simp only [Prod.mk.injEq] at after
    obtain ⟨owner, func⟩ := after
    refine ⟨s, machine.exec_reachable (.start constructed_start.1) _ hs, owner, func, ?_⟩
    intro safe
    have released := safe.completes owner
    rw [func] at released
    cases released

end ThreadRun
end Kenmuduo
