import Kenmuduo.Transition

/-!
# EventLoop

EventLoop.cc: the loop of one thread and the calls every thread makes into it.
Each step is one access to what the threads share: a critical section of
`mutex_`, a flag, the counter of the eventfd. What functors and channel
handlers do is any sequence of calls made while one of them runs.
-/

namespace Kenmuduo
open Transition

/-- The largest value of an eventfd counter. -/
abbrev counterMax : Nat := 18446744073709551614

/-- A functor, with its number in the order of the pushes. -/
structure Queued (φ : Type) where
  ticket : Nat
  functor : φ
  deriving DecidableEq, Repr

structure EventLoop (φ : Type) where
  looping : Bool
  quit : Bool
  callPendingFunctor : Bool
  threadId : Nat
  wakeupCount : Nat
  pendingFunctors : List (Queued φ)
  deriving DecidableEq, Repr

inductive Active
  | wakeup
  | other
  deriving DecidableEq, Repr

/-- Where the loop's thread is. `handling`, `running` and `outside` are other
people's code. -/
inductive Pc (φ : Type)
  | outside
  | entered
  | condition
  | polling
  | dispatching (activeChannels : List Active)
  | handling (activeChannels : List Active)
  | calling
  | swapping
  /-- The functors of the local vector that are still to run. -/
  | batch (functors : List (Queued φ))
  | running (functors : List (Queued φ))
  | leaving
  deriving DecidableEq, Repr

/-- How far a thread is in a call of `queueInLoop` or `quit`. -/
inductive Call
  | none
  | pushed
  | waking
  | quitting
  deriving DecidableEq, Repr

namespace EventLoop
variable {φ : Type}

def new (threadId : Nat) : EventLoop φ := ⟨false, false, false, threadId, 0, []⟩

def isInLoopThread (l : EventLoop φ) (thread : Nat) : Bool := l.threadId == thread

/-- Writes 1; a write that would pass the maximum fails. -/
def wakeup (l : EventLoop φ) : EventLoop φ :=
  if l.wakeupCount < counterMax then { l with wakeupCount := l.wakeupCount + 1 } else l

/-- Reads the counter, which clears it; reading 0 fails. -/
def handleRead (l : EventLoop φ) : EventLoop φ := { l with wakeupCount := 0 }

theorem wakeup_positive (l : EventLoop φ) : 0 < l.wakeup.wakeupCount := by
  unfold wakeup
  split
  · exact Nat.succ_pos _
  · rename_i full
    have : ¬ l.wakeupCount < 18446744073709551614 := full
    omega

@[simp] theorem wakeup_pendingFunctors (l : EventLoop φ) :
    l.wakeup.pendingFunctors = l.pendingFunctors := by
  unfold wakeup
  split <;> rfl

@[simp] theorem wakeup_threadId (l : EventLoop φ) : l.wakeup.threadId = l.threadId := by
  unfold wakeup
  split <;> rfl

@[simp] theorem wakeup_quit (l : EventLoop φ) : l.wakeup.quit = l.quit := by
  unfold wakeup
  split <;> rfl

@[simp] theorem wakeup_callPendingFunctor (l : EventLoop φ) :
    l.wakeup.callPendingFunctor = l.callPendingFunctor := by
  unfold wakeup
  split <;> rfl

end EventLoop

/-- A loop among its threads, and what was pushed and executed. -/
structure LoopRun (φ : Type) where
  loop : EventLoop φ
  pc : Pc φ
  calls : Nat → Call
  pushed : List (Queued φ)
  /-- What ran out of the queue, with the thread it ran on. -/
  executed : List (Nat × Queued φ)
  /-- How much was pushed before the last swap. -/
  swapped : Nat

inductive LoopAct (φ : Type)
  | enter
  /-- The next step of `loop()` and what it calls. -/
  | advance
  | poll (activeChannels : List Active)
  | runInLoop (thread : Nat) (cb : φ)
  | queueInLoop (thread : Nat) (cb : φ)
  | test (thread : Nat)
  | wakeup (thread : Nat)
  | quit (thread : Nat)

/-- The functor a step puts into the queue, or would from another thread. -/
def LoopAct.cb {φ : Type} : LoopAct φ → Option φ
  | runInLoop _ cb | queueInLoop _ cb => some cb
  | _ => Option.none

namespace LoopRun
variable {φ : Type}

def inUserCode (s : LoopRun φ) : Bool :=
  match s.pc with
  | .outside | .handling _ | .running _ => true
  | _ => false

def setCall (s : LoopRun φ) (thread : Nat) (c : Call) : LoopRun φ :=
  { s with calls := fun t => if t = thread then c else s.calls t }

def free (s : LoopRun φ) (thread : Nat) : Bool :=
  s.calls thread == .none && (!s.loop.isInLoopThread thread || s.inUserCode)

def push (s : LoopRun φ) (cb : φ) : LoopRun φ :=
  let functor := ⟨s.pushed.length, cb⟩
  { s with
    loop := { s.loop with pendingFunctors := s.loop.pendingFunctors ++ [functor] }
    pushed := s.pushed ++ [functor] }

/-- The steps of `loop()`, of `doPendingFunctor` and of the wakeup channel's
handler; a handler or functor that runs returns. -/
def advance (s : LoopRun φ) : Option (LoopRun φ) :=
  match s.pc with
  | .entered => some { s with loop := { s.loop with quit := false }, pc := .condition }
  | .condition => some { s with pc := if s.loop.quit then .leaving else .polling }
  | .dispatching [] => some { s with pc := .calling }
  | .dispatching (.wakeup :: rest) =>
    some { s with loop := s.loop.handleRead, pc := .dispatching rest }
  | .dispatching (.other :: rest) => some { s with pc := .handling rest }
  | .handling rest => some { s with pc := .dispatching rest }
  | .calling => some { s with loop := { s.loop with callPendingFunctor := true }, pc := .swapping }
  | .swapping =>
    some { s with
      loop := { s.loop with pendingFunctors := [] }
      pc := .batch s.loop.pendingFunctors
      swapped := s.pushed.length }
  | .batch (functor :: rest) =>
    some { s with executed := s.executed ++ [(s.loop.threadId, functor)], pc := .running rest }
  | .running rest => some { s with pc := .batch rest }
  | .batch [] =>
    some { s with loop := { s.loop with callPendingFunctor := false }, pc := .condition }
  | .leaving => some { s with loop := { s.loop with looping := false }, pc := .outside }
  | .outside | .polling => none

def step (s : LoopRun φ) : LoopAct φ → Option (LoopRun φ)
  | .enter =>
    match s.pc with
    | .outside =>
      if s.calls s.loop.threadId == .none then
        some { s with loop := { s.loop with looping := true }, pc := .entered }
      else none
    | _ => none
  | .advance => if s.calls s.loop.threadId == .none then s.advance else none
  | .poll activeChannels =>
    match s.pc with
    | .polling =>
      if activeChannels.count .wakeup ≤ 1 &&
          (!activeChannels.contains .wakeup || 0 < s.loop.wakeupCount) then
        some { s with pc := .dispatching activeChannels }
      else none
    | _ => none
  | .runInLoop thread cb =>
    if s.free thread then
      -- in the loop's thread the functor runs here, as part of what called it
      if s.loop.isInLoopThread thread then some s else some ((s.push cb).setCall thread .pushed)
    else none
  | .queueInLoop thread cb =>
    if s.free thread then some ((s.push cb).setCall thread .pushed) else none
  | .test thread =>
    if s.calls thread == .pushed then
      if !s.loop.isInLoopThread thread || s.loop.callPendingFunctor then
        some (s.setCall thread .waking)
      else some (s.setCall thread .none)
    else none
  | .wakeup thread =>
    if s.calls thread == .waking || s.calls thread == .quitting then
      some ({ s with loop := s.loop.wakeup }.setCall thread .none)
    else none
  | .quit thread =>
    if s.free thread then
      let s := { s with loop := { s.loop with quit := true } }
      if !s.loop.isInLoopThread thread then some (s.setCall thread .quitting) else some s
    else none

/-- A loop after its construction, called by nobody. -/
def Created (s : LoopRun φ) : Prop :=
  ∃ threadId, s = ⟨EventLoop.new threadId, .outside, fun _ => .none, [], [], 0⟩

def machine : Machine (LoopRun φ) (LoopAct φ) := ⟨Created, step⟩

theorem enter_flags {s t : LoopRun φ} (h : s.step .enter = some t) :
    s.pc = .outside ∧ t.pc = .entered ∧ t.loop.quit = s.loop.quit := by
  cases at_ : s.pc with
  | outside =>
    simp only [step, at_, Option.ite_none_right_eq_some, Option.some.injEq] at h
    obtain ⟨_, rfl⟩ := h
    exact ⟨rfl, rfl, rfl⟩
  | _ => simp [step, at_] at h

theorem quit_flags {s t : LoopRun φ} {thread : Nat} (h : s.step (.quit thread) = some t) :
    t.pc = s.pc ∧ t.loop.quit = true ∧ t.loop.pendingFunctors = s.loop.pendingFunctors := by
  simp only [step, Option.ite_none_right_eq_some] at h
  obtain ⟨_, h⟩ := h
  split at h <;> cases h <;> exact ⟨rfl, rfl, rfl⟩

/-- Where the loop is and whether it is to quit change by `enter`, by the
loop's own steps, by `poll` and by `quit`. -/
theorem step_flags {s t : LoopRun φ} {l : LoopAct φ} (h : s.step l = some t) :
    (l = .enter ∧ s.pc = .outside ∧ t.pc = .entered ∧ t.loop.quit = s.loop.quit) ∨
    (l = .advance ∧ s.advance = some t) ∨
    (∃ active, l = .poll active ∧ s.pc = .polling ∧ t.pc = .dispatching active ∧
      t.loop.quit = s.loop.quit) ∨
    (∃ thread, l = .quit thread ∧ t.pc = s.pc ∧ t.loop.quit = true ∧
      t.loop.pendingFunctors = s.loop.pendingFunctors) ∨
    (t.pc = s.pc ∧ t.loop.quit = s.loop.quit ∧
      s.loop.pendingFunctors <+: t.loop.pendingFunctors) := by
  cases l with
  | enter => exact .inl ⟨rfl, enter_flags h⟩
  | advance =>
    simp only [step, Option.ite_none_right_eq_some] at h
    exact .inr (.inl ⟨rfl, h.2⟩)
  | poll active =>
    cases at_ : s.pc with
    | polling =>
      simp only [step, at_, Option.ite_none_right_eq_some, Option.some.injEq] at h
      obtain ⟨_, rfl⟩ := h
      exact .inr (.inr (.inl ⟨active, rfl, rfl, rfl, rfl⟩))
    | _ => simp [step, at_] at h
  | quit thread => exact .inr (.inr (.inr (.inl ⟨thread, rfl, quit_flags h⟩)))
  | wakeup thread =>
    simp only [step, Option.ite_none_right_eq_some, Option.some.injEq] at h
    obtain ⟨_, rfl⟩ := h
    exact .inr (.inr (.inr (.inr ⟨rfl, by simp [setCall], by simp [setCall]⟩)))
  | test thread =>
    simp only [step, Option.ite_none_right_eq_some] at h
    obtain ⟨_, h⟩ := h
    split at h <;> cases h <;> exact .inr (.inr (.inr (.inr ⟨rfl, rfl, List.prefix_refl _⟩)))
  | runInLoop thread cb =>
    simp only [step, Option.ite_none_right_eq_some] at h
    obtain ⟨_, h⟩ := h
    split at h <;> cases h
    · exact .inr (.inr (.inr (.inr ⟨rfl, rfl, List.prefix_refl _⟩)))
    · exact .inr (.inr (.inr (.inr ⟨rfl, rfl, List.prefix_append _ _⟩)))
  | queueInLoop thread cb =>
    simp only [step, Option.ite_none_right_eq_some, Option.some.injEq] at h
    obtain ⟨_, rfl⟩ := h
    exact .inr (.inr (.inr (.inr ⟨rfl, rfl, List.prefix_append _ _⟩)))

end LoopRun
end Kenmuduo
