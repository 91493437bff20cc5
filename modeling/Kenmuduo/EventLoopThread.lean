import Kenmuduo.EventLoop

/-!
# EventLoopThread

EventLoopThread.cc with what it uses of Thread.cc. One thread, the owner,
calls `startLoop` and later the destructor; the new thread runs `threadFunc`,
whose local variable the loop is. Each access to `loop_` and each locking of
`mutex_` is a step of its own. Other threads may have been given the loop.
-/

namespace Kenmuduo
open Transition

structure EventLoopThread where
  loop : Bool
  exiting : Bool
  /-- `started_` and `joined_` of `thread_`. -/
  started : Bool
  joined : Bool
  deriving DecidableEq, Repr

/-- Where the new thread is in `threadFunc`. -/
inductive FuncPc
  | notStarted
  | constructing
  | initializing
  /-- `mutex_` is locked. -/
  | publishing
  | published
  | calling
  | looping
  | returned
  /-- `mutex_` is locked. -/
  | clearing
  | cleared
  /-- `mutex_` is unlocked, the loop is still to be destroyed. -/
  | unlocked
  | finished
  deriving DecidableEq, Repr

/-- Where the owner is in `startLoop` and in the destructor. -/
inductive OwnerPc
  | created
  | locking
  /-- `mutex_` is locked and `loop_` is tested. -/
  | testing
  | waiting
  | returning
  | started
  | destroying
  | quitting
  | waking
  | joining
  | releasing
  | destroyed
  deriving DecidableEq, Repr

namespace FuncPc

/-- The loop has been constructed, and its scope is not left. -/
def loopAlive : FuncPc → Bool
  | notStarted | constructing | finished => false
  | _ => true

def holdsMutex : FuncPc → Bool
  | publishing | published | clearing | cleared => true
  | _ => false

def released : FuncPc → Bool
  | unlocked | finished => true
  | _ => false

def wasPublished : FuncPc → Bool
  | notStarted | constructing | initializing | publishing => false
  | _ => true

def hasReturned : FuncPc → Bool
  | returned | clearing | cleared | unlocked | finished => true
  | _ => false

def exposed : FuncPc → Bool
  | published | calling | looping | returned | clearing => true
  | _ => false

end FuncPc

def OwnerPc.holdsMutex : OwnerPc → Bool
  | testing | returning => true
  | _ => false

def OwnerPc.hasLoop : OwnerPc → Bool
  | created | locking | testing | waiting | returning => false
  | _ => true

structure ThreadRun (φ : Type) where
  object : EventLoopThread
  loop : LoopRun φ
  func : FuncPc
  owner : OwnerPc
  ownerId : Nat

inductive ThreadAct (φ : Type)
  | owner
  | destroy
  | func
  | loop (l : LoopAct φ)

namespace ThreadRun
variable {φ : Type}

/-- The thread's code can call into the loop. -/
def mayCall (s : ThreadRun φ) (thread : Nat) : Bool :=
  s.func.loopAlive &&
    if thread = s.loop.loop.threadId then s.func == .initializing || s.func == .looping
    else thread != s.ownerId || s.owner == .started

def ownerStep (s : ThreadRun φ) : Option (ThreadRun φ) :=
  match s.owner with
  | .created =>
    some { s with
      object := { s.object with started := true }, func := .constructing, owner := .locking }
  -- `cond_.wait` returns with the mutex, notified or not
  | .locking | .waiting => if s.func.holdsMutex then none else some { s with owner := .testing }
  | .testing => some { s with owner := if s.object.loop then .returning else .waiting }
  | .returning => some { s with owner := .started }
  | .destroying => some { s with owner := if s.object.loop then .quitting else .releasing }
  -- `quit()` on a loop that is gone, or goes before it is woken, has no meaning:
  -- the owner's steps end there
  | .quitting =>
    if s.object.loop && s.func.loopAlive then
      (s.loop.step (.quit s.ownerId)).map fun loop => { s with loop := loop, owner := .waking }
    else none
  | .waking =>
    if s.func.loopAlive then
      (s.loop.step (.wakeup s.ownerId)).map fun loop => { s with loop := loop, owner := .joining }
    else none
  | .joining =>
    if s.func = .finished then
      some { s with object := { s.object with joined := true }, owner := .releasing }
    else none
  | .releasing => some { s with owner := .destroyed }
  | .started | .destroyed => none

def funcStep (s : ThreadRun φ) : Option (ThreadRun φ) :=
  match s.func with
  | .constructing => some { s with func := .initializing }
  | .initializing =>
    if s.owner.holdsMutex || s.loop.calls s.loop.loop.threadId != .none then none
    else some { s with func := .publishing }
  | .publishing => some { s with object := { s.object with loop := true }, func := .published }
  | .published => some { s with func := .calling }
  | .calling => (s.loop.step .enter).map fun loop => { s with loop := loop, func := .looping }
  | .looping => if s.loop.pc matches .outside then some { s with func := .returned } else none
  | .returned => if s.owner.holdsMutex then none else some { s with func := .clearing }
  | .clearing => some { s with object := { s.object with loop := false }, func := .cleared }
  | .cleared => some { s with func := .unlocked }
  | .unlocked => some { s with func := .finished }
  | .notStarted | .finished => none

/-- `enter` is a step of `threadFunc`. -/
def mayStep (s : ThreadRun φ) (l : LoopAct φ) : Bool :=
  match l with
  | .enter => false
  | .advance | .poll _ => s.func == .looping
  | .runInLoop thread _ | .queueInLoop thread _ | .test thread | .wakeup thread | .quit thread =>
    s.mayCall thread

def step (s : ThreadRun φ) : ThreadAct φ → Option (ThreadRun φ)
  | .owner => s.ownerStep
  | .destroy =>
    if s.owner = .started && s.loop.calls s.ownerId == .none then
      some { s with object := { s.object with exiting := false }, owner := .destroying }
    else none
  | .func => s.funcStep
  | .loop l =>
    if s.mayStep l then (s.loop.step l).map fun loop => { s with loop := loop } else none

structure Start (s : ThreadRun φ) : Prop where
  object : s.object = ⟨false, false, false, false⟩
  loop : s.loop.Created
  func : s.func = .notStarted
  owner : s.owner = .created
  apart : s.ownerId ≠ s.loop.loop.threadId

def machine : Machine (ThreadRun φ) (ThreadAct φ) := ⟨Start, step⟩

/-- The owner starts the thread, calls `quit()`, or leaves thread and loop
alone. -/
theorem ownerStep_cases {s t : ThreadRun φ} (h : s.ownerStep = some t) :
    (s.owner = .created ∧ t = { s with
      object := { s.object with started := true }, func := .constructing, owner := .locking }) ∨
    (s.owner = .quitting ∧
      ∃ loop, s.loop.step (.quit s.ownerId) = some loop ∧
        t = { s with loop := loop, owner := .waking }) ∨
    (s.owner = .waking ∧
      ∃ loop, s.loop.step (.wakeup s.ownerId) = some loop ∧
        t = { s with loop := loop, owner := .joining }) ∨
    (s.owner ≠ .quitting ∧ t.loop = s.loop ∧ t.func = s.func ∧ t.object.loop = s.object.loop ∧
      (s.owner.hasLoop = true → t.owner.hasLoop = true)) := by
  cases at_ : s.owner with
  | created =>
    simp only [ownerStep, at_, Option.some.injEq] at h
    exact .inl ⟨rfl, h.symm⟩
  | quitting =>
    simp only [ownerStep, at_, Option.ite_none_right_eq_some] at h
    obtain ⟨loop, hl, rfl⟩ := Option.map_eq_some_iff.mp h.2
    exact .inr (.inl ⟨rfl, loop, hl, rfl⟩)
  | waking =>
    simp only [ownerStep, at_, Option.ite_none_right_eq_some] at h
    obtain ⟨loop, hl, rfl⟩ := Option.map_eq_some_iff.mp h.2
    exact .inr (.inr (.inl ⟨rfl, loop, hl, rfl⟩))
  | locking | waiting =>
    simp only [ownerStep, at_, Option.ite_none_left_eq_some, Option.some.injEq] at h
    obtain ⟨_, rfl⟩ := h
    exact .inr (.inr (.inr ⟨by simp, rfl, rfl, rfl, by simp [OwnerPc.hasLoop]⟩))
  | joining =>
    simp only [ownerStep, at_, Option.ite_none_right_eq_some, Option.some.injEq] at h
    obtain ⟨_, rfl⟩ := h
    exact .inr (.inr (.inr ⟨by simp, rfl, rfl, rfl, by simp [OwnerPc.hasLoop]⟩))
  | testing | destroying =>
    simp only [ownerStep, at_, Option.some.injEq] at h
    subst h
    exact .inr (.inr (.inr ⟨by simp, rfl, rfl, rfl, by cases s.object.loop <;>
      simp [OwnerPc.hasLoop]⟩))
  | returning | releasing =>
    simp only [ownerStep, at_, Option.some.injEq] at h
    subst h
    exact .inr (.inr (.inr ⟨by simp, rfl, rfl, rfl, by simp [OwnerPc.hasLoop]⟩))
  | started | destroyed => simp [ownerStep, at_] at h

end ThreadRun
end Kenmuduo
