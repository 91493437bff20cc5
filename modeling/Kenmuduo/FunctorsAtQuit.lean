import Kenmuduo.FunctorQueue

/-!
# Functors at quit

`quit_` is tested at the head of the loop and the queue is taken at its end.
What is queued after the swap of an iteration waits for the next one, which a
`quit()` that comes before the next test cuts off.
-/

namespace Kenmuduo
open Transition

/-- What a return of `loop()` owed, and what had been executed by then. -/
structure LoopReturn (φ : Type) where
  owed : List (Queued φ)
  executed : List (Queued φ)
  deriving DecidableEq, Repr

/-- The calls of `queueInLoop` and `quit` on a loop, from outside. -/
structure QuitLog (φ : Type) where
  /-- The functor a thread has pushed in a call that has not returned. -/
  calling : Nat → Option (Queued φ)
  /-- The functors whose call has returned. -/
  returned : List (Queued φ)
  /-- Those whose call had returned before some `quit()` of this `loop()`. -/
  owed : List (Queued φ)
  returns : List (LoopReturn φ)

namespace QuitLog
variable {φ : Type}

def empty : QuitLog φ := ⟨fun _ => none, [], [], []⟩

def setCalling (q : QuitLog φ) (thread : Nat) (functor : Option (Queued φ)) : QuitLog φ :=
  { q with calling := fun t => if t = thread then functor else q.calling t }

/-- The thread has made a step in a call that it may end. -/
def callReturns (q : QuitLog φ) (thread : Nat) (now : Call) : QuitLog φ :=
  match q.calling thread, now with
  | some functor, .none => { q.setCalling thread none with returned := q.returned ++ [functor] }
  | _, _ => q

def watch (s : LoopRun φ) (l : LoopAct φ) (t : LoopRun φ) (q : QuitLog φ) : QuitLog φ :=
  match l with
  | .runInLoop thread _ | .queueInLoop thread _ =>
    -- in the loop's thread `runInLoop` pushes nothing
    match t.pushed.drop s.pushed.length with
    | functor :: _ => q.setCalling thread (some functor)
    | [] => q
  | .test thread | .wakeup thread => q.callReturns thread (t.calls thread)
  | .quit _ =>
    match s.pc with
    | .outside => q
    | _ => { q with owed := q.returned }
  | .enter => { q with owed := [] }
  | .advance =>
    match s.pc with
    | .leaving => { q with returns := q.returns ++ [⟨q.owed, s.executed.map Prod.snd⟩] }
    | _ => q
  | .poll _ => q

/-- The functors the record names. -/
def Names (q : QuitLog φ) (functor : Queued φ) : Prop :=
  (∃ thread, q.calling thread = some functor) ∨ functor ∈ q.returned ∨ functor ∈ q.owed

theorem callReturns_names {q : QuitLog φ} {thread : Nat} {now : Call} {functor : Queued φ}
    (h : (q.callReturns thread now).Names functor) : q.Names functor := by
  unfold callReturns at h
  split at h
  · rename_i pushed calling
    rcases h with ⟨other, busy⟩ | returned | owed
    · simp only [setCalling] at busy
      split at busy
      · cases busy
      · exact .inl ⟨other, busy⟩
    · rcases List.mem_append.mp returned with before | now
      · exact .inr (.inl before)
      · rw [List.mem_singleton.mp now]
        exact .inl ⟨thread, calling⟩
    · exact .inr (.inr owed)
  · exact h

/-- A step names nothing new but what it pushes. -/
theorem watch_names {s t : LoopRun φ} {l : LoopAct φ} {q : QuitLog φ} {functor : Queued φ}
    (h : (watch s l t q).Names functor) : q.Names functor ∨ functor ∈ t.pushed := by
  cases l with
  | runInLoop thread cb | queueInLoop thread cb =>
    simp only [watch] at h
    split at h
    · rename_i pushed _ new
      rcases h with ⟨other, busy⟩ | known
      · simp only [setCalling] at busy
        split at busy
        · cases busy
          have mem : functor ∈ t.pushed.drop s.pushed.length := new ▸ List.mem_cons_self
          exact .inr (List.mem_of_mem_drop mem)
        · exact .inl (.inl ⟨other, busy⟩)
      · exact .inl (.inr known)
    · exact .inl h
  | test thread | wakeup thread => exact .inl (callReturns_names h)
  | quit thread =>
    simp only [watch] at h
    split at h
    · exact .inl h
    · rcases h with busy | returned | owed
      · exact .inl (.inl busy)
      · exact .inl (.inr (.inl returned))
      · exact .inl (.inr (.inl owed))
  | enter =>
    rcases h with busy | returned | owed
    · exact .inl (.inl busy)
    · exact .inl (.inr (.inl returned))
    · cases owed
  | advance =>
    simp only [watch] at h
    split at h <;> exact .inl h
  | poll active => exact .inl h

theorem watch_quit {s : LoopRun φ} (inside : s.pc ≠ .outside) (t : LoopRun φ) (thread : Nat)
    (q : QuitLog φ) : (watch s (.quit thread) t q).owed = q.returned := by
  cases at_ : s.pc with
  | outside => exact absurd at_ inside
  | _ => simp [watch, at_]

/-- What is owed changes at `quit()`, and when `loop()` is called. -/
theorem watch_owed (s t : LoopRun φ) (l : LoopAct φ) (q : QuitLog φ) :
    (watch s l t q).owed = q.owed ∨ (l = .enter ∧ (watch s l t q).owed = []) ∨
    ∃ thread, l = .quit thread ∧ s.pc ≠ .outside ∧ (watch s l t q).owed = q.returned := by
  cases l with
  | quit thread =>
    by_cases out : s.pc = .outside
    · exact .inl (by simp [watch, out])
    · exact .inr (.inr ⟨thread, rfl, out, watch_quit out t thread q⟩)
  | enter => exact .inr (.inl ⟨rfl, rfl⟩)
  | runInLoop thread cb | queueInLoop thread cb =>
    left
    simp only [watch]
    split <;> rfl
  | test thread | wakeup thread =>
    left
    simp only [watch, callReturns]
    split <;> rfl
  | advance =>
    left
    simp only [watch]
    split <;> rfl
  | poll active => exact .inl rfl

theorem watch_returned (s t : LoopRun φ) (l : LoopAct φ) (q : QuitLog φ) {functor : Queued φ}
    (h : functor ∈ q.returned) : functor ∈ (watch s l t q).returned := by
  cases l with
  | runInLoop thread cb | queueInLoop thread cb =>
    simp only [watch]
    split <;> exact h
  | test thread | wakeup thread =>
    simp only [watch, callReturns]
    split
    · exact List.mem_append_left _ h
    · exact h
  | quit thread | advance =>
    simp only [watch]
    split <;> exact h
  | enter | poll active => exact h

theorem watch_returns (s t : LoopRun φ) (l : LoopAct φ) (q : QuitLog φ) :
    (watch s l t q).returns = q.returns ∨
    (l = .advance ∧ s.pc = .leaving ∧
      (watch s l t q).returns = q.returns ++ [⟨q.owed, s.executed.map Prod.snd⟩]) := by
  cases l with
  | advance =>
    simp only [watch]
    split
    · rename_i at_
      exact .inr ⟨trivial, at_, rfl⟩
    · exact .inl rfl
  | runInLoop thread cb | queueInLoop thread cb =>
    simp only [watch]
    split <;> exact .inl rfl
  | test thread | wakeup thread =>
    simp only [watch, callReturns]
    split <;> exact .inl rfl
  | quit thread =>
    simp only [watch]
    split <;> exact .inl rfl
  | enter | poll active => exact .inl rfl

end QuitLog

namespace LoopRun
variable {φ : Type}

/-- A loop with what its callers see of it. -/
def quitting : Machine (LoopRun φ × QuitLog φ) (LoopAct φ) := machine.watched .empty QuitLog.watch

/-- Whenever `loop()` has returned, all it owed had been executed. -/
def NothingDropped (p : LoopRun φ × QuitLog φ) : Prop :=
  ∀ r ∈ p.2.returns, ∀ functor ∈ r.owed, functor ∈ r.executed

/-- `quit_` is tested before the next swap, or was tested for the last time. -/
def testsFirst (s : LoopRun φ) : Bool :=
  match s.pc with
  | .condition | .batch _ | .running _ | .leaving => true
  | _ => false

/-- A `quit()` that comes before the next swap finds nothing pending that was
queued by a call that has returned. -/
def QuitsDrained (p : LoopRun φ × QuitLog φ) : LoopAct φ → Prop
  | .quit _ => p.1.testsFirst = true →
    ∀ functor ∈ p.2.returned, functor ∉ p.1.loop.pendingFunctors
  | _ => True

instance [DecidableEq φ] (p : LoopRun φ × QuitLog φ) : ∀ l, Decidable (QuitsDrained p l)
  | .quit _ => inferInstanceAs (Decidable (p.1.testsFirst = true →
      ∀ functor ∈ p.2.returned, functor ∉ p.1.loop.pendingFunctors))
  | .enter | .advance | .poll _ | .runInLoop _ _ | .queueInLoop _ _ | .test _ | .wakeup _ =>
    isTrue trivial

/-! ## What the record keeps track of -/

theorem step_pushed {s t : LoopRun φ} {l : LoopAct φ} (h : s.step l = some t) {functor : Queued φ}
    (known : functor ∈ s.pushed) : functor ∈ t.pushed := by
  rcases step_queue h with same | ⟨_, _, pushes⟩ | swaps | ⟨_, starts⟩
  · rw [same.pushed]
    exact known
  · rw [pushes.pushed]
    exact List.mem_append_left _ known
  · rw [swaps.pushed]
    exact known
  · rw [starts.pushed]
    exact known

/-- What the record names has been pushed, and a loop that leaves was told to
quit. -/
structure Tracked (p : LoopRun φ × QuitLog φ) : Prop where
  reached : machine.Reachable p.1
  pushed : ∀ functor, p.2.Names functor → functor ∈ p.1.pushed
  returned : ∀ functor ∈ p.2.owed, functor ∈ p.2.returned
  leaving : p.1.pc = .leaving → p.1.loop.quit = true

theorem start_tracked {p : LoopRun φ × QuitLog φ} (h : quitting.start p) : Tracked p := by
  obtain ⟨created, fresh⟩ := h
  refine ⟨.start created, ?_, ?_, ?_⟩
  · rw [fresh]
    rintro functor (⟨thread, busy⟩ | returned | owed)
    · cases busy
    · cases returned
    · cases owed
  · rw [fresh]
    intro functor owed
    cases owed
  · obtain ⟨threadId, new⟩ := created
    intro at_
    rw [new] at at_
    cases at_

/-- The loop's own steps towards its next test of `quit_`. -/
theorem advance_testsFirst {s t : LoopRun φ} (h : s.advance = some t) :
    (t.testsFirst = true → s.testsFirst = true ∧ t.loop.quit = s.loop.quit ∧
        t.loop.pendingFunctors = s.loop.pendingFunctors ∨
      t.loop.quit = false ∨ t.loop.pendingFunctors = []) ∧
    (t.pc = .leaving → s.pc = .condition ∧ t.loop.quit = true) ∧
    (s.testsFirst = true → s.loop.quit = true → s.pc ≠ .leaving →
      t.testsFirst = true ∧ t.loop.quit = true ∧
        t.loop.pendingFunctors = s.loop.pendingFunctors) := by
  cases hs : s.pc with
  | outside | polling => simp [advance, hs] at h
  | dispatching active =>
    rcases active with _ | ⟨_ | _, _⟩ <;> simp only [advance, hs, Option.some.injEq] at h <;>
      subst h <;> simp [testsFirst, hs]
  | batch functors =>
    cases functors <;> simp only [advance, hs, Option.some.injEq] at h <;> subst h <;>
      simp [testsFirst, hs]
  | condition =>
    simp only [advance, hs, Option.some.injEq] at h
    subst h
    cases quit : s.loop.quit <;> simp [testsFirst, hs]
  | entered | handling | calling | swapping | running | leaving =>
    simp only [advance, hs, Option.some.injEq] at h
    subst h
    simp [testsFirst, hs]

theorem step_tracked {p r : LoopRun φ × QuitLog φ} {l : LoopAct φ} (inv : Tracked p)
    (h : quitting.step p l = some r) : Tracked r := by
  obtain ⟨hl, watched⟩ := Machine.watched_step h
  refine ⟨.next l inv.reached hl, ?_, ?_, ?_⟩
  · intro functor named
    rw [watched] at named
    rcases QuitLog.watch_names named with before | now
    · exact step_pushed hl (inv.pushed functor before)
    · exact now
  · intro functor owed
    rw [watched] at owed ⊢
    apply QuitLog.watch_returned
    rcases QuitLog.watch_owed p.1 r.1 l p.2 with same | ⟨_, none⟩ | ⟨_, _, _, all⟩
    · exact inv.returned functor (same ▸ owed)
    · rw [none] at owed
      cases owed
    · exact all ▸ owed
  · intro at_
    rcases step_flags hl with ⟨_, _, pc, _⟩ | ⟨_, go⟩ | ⟨_, _, _, pc, _⟩ | ⟨_, _, _, quit, _⟩ |
      ⟨pc, quit, _⟩
    · rw [pc] at at_
      cases at_
    · exact ((advance_testsFirst go).2.1 at_).2
    · rw [pc] at at_
      cases at_
    · exact quit
    · rw [quit]
      exact inv.leaving (pc ▸ at_)

/-! ## Nothing is dropped -/

/-- Nothing owed was dropped so far, and nothing owed is pending when the loop
is to leave before the next swap. -/
structure Kept (p : LoopRun φ × QuitLog φ) : Prop extends Tracked p where
  safe : p.1.testsFirst = true → p.1.loop.quit = true →
    ∀ functor ∈ p.2.owed, functor ∉ p.1.loop.pendingFunctors
  settled : NothingDropped p

/-- The loop is to leave before the next swap, with something owed pending. -/
structure Losing (p : LoopRun φ × QuitLog φ) : Prop extends Tracked p where
  late : p.1.testsFirst = true
  quit : p.1.loop.quit = true
  owed : ∃ functor ∈ p.2.owed, functor ∈ p.1.loop.pendingFunctors

/-- What was pushed has run, is left of the batch or is pending. -/
theorem pushed_parts {s : LoopRun φ} (h : machine.Reachable s) :
    s.executed.map Prod.snd ++ s.rest ++ s.loop.pendingFunctors = s.pushed := by
  obtain ⟨b, _, r⟩ := refines_batchLog.reachable h
  rw [← r.executed, ← r.batch, ← r.pending, ← r.log]
  exact b.parts

/-- What was named and is pending after a step was pending before it. -/
theorem step_pending {p : LoopRun φ × QuitLog φ} {t : LoopRun φ} {l : LoopAct φ} (inv : Tracked p)
    (h : p.1.step l = some t) {functor : Queued φ} (named : p.2.Names functor)
    (waits : functor ∈ t.loop.pendingFunctors) : functor ∈ p.1.loop.pendingFunctors := by
  rcases step_queue h with same | ⟨new, _, pushes⟩ | swaps | ⟨_, starts⟩
  · rwa [same.pending] at waits
  · rw [pushes.pending] at waits
    rcases List.mem_append.mp waits with before | now
    · exact before
    · have nodup := (reachable_recorded (.next l inv.reached h)).nodup
      rw [pushes.pushed] at nodup
      have apart := (List.nodup_append.mp nodup).2.2
      exact absurd rfl (apart functor (inv.pushed functor named) functor now)
  · rw [swaps.pending] at waits
    cases waits
  · rwa [starts.pending] at waits

theorem step_safe {p r : LoopRun φ × QuitLog φ} {l : LoopAct φ} (inv : Kept p)
    (h : quitting.step p l = some r) (drained : QuitsDrained p l) (late : r.1.testsFirst = true)
    (quit : r.1.loop.quit = true) : ∀ functor ∈ r.2.owed, functor ∉ r.1.loop.pendingFunctors := by
  obtain ⟨hl, watched⟩ := Machine.watched_step h
  intro functor owed waits
  rw [watched] at owed
  rcases QuitLog.watch_owed p.1 r.1 l p.2 with same | ⟨_, none⟩ | ⟨thread, rfl, _, all⟩
  · rw [same] at owed
    have before := step_pending inv.toTracked hl (.inr (.inr owed)) waits
    rcases step_flags hl with ⟨_, _, pc, _⟩ | ⟨_, go⟩ | ⟨_, _, _, pc, _⟩ | ⟨_, rfl, pc, _⟩ |
      ⟨pc, same, _⟩
    · simp [testsFirst, pc] at late
    · rcases (advance_testsFirst go).1 late with ⟨late, same, _⟩ | same | none
      · exact inv.safe late (same ▸ quit) functor owed before
      · rw [same] at quit
        cases quit
      · rw [none] at waits
        cases waits
    · simp [testsFirst, pc] at late
    · have late : p.1.testsFirst = true := by
        rw [testsFirst, pc] at late
        exact late
      exact drained late functor (inv.returned functor owed) before
    · refine inv.safe ?_ (same ▸ quit) functor owed before
      rw [testsFirst, pc] at late
      exact late
  · rw [none] at owed
    cases owed
  · obtain ⟨pc, _, pending⟩ := quit_flags hl
    rw [all] at owed
    rw [testsFirst, pc] at late
    rw [pending] at waits
    exact drained late functor owed waits

theorem step_keeps {p r : LoopRun φ × QuitLog φ} {l : LoopAct φ} (inv : Kept p)
    (h : quitting.step p l = some r) (drained : QuitsDrained p l) : Kept r := by
  refine ⟨step_tracked inv.toTracked h, step_safe inv h drained, ?_⟩
  obtain ⟨_, watched⟩ := Machine.watched_step h
  rw [NothingDropped, watched]
  rcases QuitLog.watch_returns p.1 r.1 l p.2 with same | ⟨_, at_, more⟩
  · rw [same]
    exact inv.settled
  · rw [more]
    intro e mem functor owed
    rcases List.mem_append.mp mem with before | now
    · exact inv.settled e before functor owed
    · cases List.mem_singleton.mp now
      have quit := inv.leaving at_
      have done := inv.safe (by simp [testsFirst, at_]) quit functor owed
      have pushed := inv.pushed functor (.inr (.inr owed))
      rw [← pushed_parts inv.reached] at pushed
      simpa [rest, at_, done] using pushed

/-! ## What is dropped -/

/-- A `quit()` that comes too early has what it cuts off pending. -/
theorem step_breaks {p r : LoopRun φ × QuitLog φ} {l : LoopAct φ} (inv : Tracked p)
    (h : quitting.step p l = some r) (early : ¬ QuitsDrained p l) : Losing r := by
  obtain ⟨hl, watched⟩ := Machine.watched_step h
  cases l with
  | quit thread =>
    simp only [QuitsDrained, Classical.not_forall] at early
    obtain ⟨late, functor, returned, waits⟩ := early
    obtain ⟨pc, quit, pending⟩ := quit_flags hl
    have inside : p.1.pc ≠ .outside := fun out => by simp [testsFirst, out] at late
    refine ⟨step_tracked inv h, ?_, quit, functor, ?_, ?_⟩
    · rw [testsFirst, pc]
      exact late
    · rw [watched, QuitLog.watch_quit inside]
      exact returned
    · rw [pending]
      exact Classical.not_not.mp waits
  | _ => exact absurd trivial early

theorem owed_stays {p r : LoopRun φ × QuitLog φ} {l : LoopAct φ} (inv : Tracked p)
    (h : quitting.step p l = some r) (inside : p.1.pc ≠ .outside) {functor : Queued φ}
    (owed : functor ∈ p.2.owed) : functor ∈ r.2.owed := by
  obtain ⟨hl, watched⟩ := Machine.watched_step h
  rw [watched]
  rcases QuitLog.watch_owed p.1 r.1 l p.2 with same | ⟨rfl, _⟩ | ⟨_, _, _, all⟩
  · exact same ▸ owed
  · exact absurd (enter_flags hl).1 inside
  · rw [all]
    exact inv.returned functor owed

/-- Nothing saves it: it is still pending when `loop()` returns. -/
theorem step_loses {p r : LoopRun φ × QuitLog φ} {l : LoopAct φ} (lost : Losing p)
    (h : quitting.step p l = some r) : Losing r ∨ ¬ NothingDropped r := by
  obtain ⟨hl, watched⟩ := Machine.watched_step h
  have tracked := step_tracked lost.toTracked h
  have late := lost.late
  have inside : p.1.pc ≠ .outside := fun out => by simp [testsFirst, out] at late
  obtain ⟨functor, owed, waits⟩ := lost.owed
  have still := owed_stays lost.toTracked h inside owed
  rcases step_flags hl with ⟨_, out, _⟩ | ⟨rfl, go⟩ | ⟨_, _, polls, _⟩ | ⟨_, _, pc, quit, pending⟩ |
    ⟨pc, quit, pending⟩
  · exact absurd out inside
  · by_cases at_ : p.1.pc = .leaving
    · right
      intro kept
      have executed := kept ⟨p.2.owed, p.1.executed.map Prod.snd⟩
        (by rw [watched]; simp [QuitLog.watch, at_]) functor owed
      have nodup := (reachable_recorded lost.reached).nodup
      rw [← pushed_parts lost.reached] at nodup
      have apart := (List.nodup_append.mp nodup).2.2
      exact absurd rfl (apart functor (List.mem_append_left _ executed) functor waits)
    · left
      obtain ⟨late, quit, pending⟩ := (advance_testsFirst go).2.2 late lost.quit at_
      exact ⟨tracked, late, quit, functor, still, pending ▸ waits⟩
  · simp [testsFirst, polls] at late
  · left
    refine ⟨tracked, ?_, quit, functor, still, pending ▸ waits⟩
    rw [testsFirst, pc]
    exact late
  · left
    refine ⟨tracked, ?_, quit ▸ lost.quit, functor, still, pending.subset waits⟩
    rw [testsFirst, pc]
    exact late

theorem dropped_stays {p r : LoopRun φ × QuitLog φ} {l : LoopAct φ} (dropped : ¬ NothingDropped p)
    (h : quitting.step p l = some r) : ¬ NothingDropped r := by
  obtain ⟨_, watched⟩ := Machine.watched_step h
  intro kept
  apply dropped
  intro e mem
  refine kept e ?_
  rw [watched]
  rcases QuitLog.watch_returns p.1 r.1 l p.2 with same | ⟨_, _, more⟩
  · rw [same]
    exact mem
  · rw [more]
    exact List.mem_append_left _ mem

/-- A loop of thread 1 that has just been constructed. -/
def idle : LoopRun Nat × QuitLog Nat :=
  (⟨EventLoop.new 1, .outside, fun _ => .none, [], [], 0⟩, .empty)

theorem idle_start : quitting.start idle := ⟨⟨1, rfl⟩, rfl⟩

/-- The loop runs functor 10 of thread 2. -/
def runsOne : List (LoopAct Nat) :=
  [.enter, .advance, .advance, .queueInLoop 2 10, .test 2, .wakeup 2, .poll [.wakeup], .advance,
    .advance, .advance, .advance, .advance]

end LoopRun
end Kenmuduo
