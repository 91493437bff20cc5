import Kenmuduo.FunctorQueue
import Kenmuduo.StartLoop
import Kenmuduo.ThreadTeardown

/-!
# The Thread of an EventLoopThread

Thread.cc. `start` waits on a semaphore of its own frame until the new thread has
stored `tid_`. The new thread then calls `func_`, a member of the Thread, and nothing
in Thread.cc says that the Thread still exists by then.
-/

namespace Kenmuduo
open Transition

/-! ## Thread.cc -/

inductive Handle
  | null
  | joinable
  | joined
  | detached
  deriving DecidableEq, Repr

inductive ThreadFault
  | nullThread
  /-- The `std::system_error` of `join` and `detach`. -/
  | notJoinable
  | terminate
  /-- The semaphore of `start` is used after `start` has returned. -/
  | noSemaphore
  | noThread
  deriving DecidableEq, Repr

structure Thread where
  started : Bool
  joined : Bool
  thread : Handle
  tid : Nat
  deriving DecidableEq, Repr

namespace Thread

def new : Thread := ⟨false, false, .null, 0⟩

/-- `start` up to its wait; the `std::thread` that `thread_` had is destroyed. -/
def start (t : Thread) : Except ThreadFault Thread :=
  if t.thread = .joinable then .error .terminate
  else .ok { t with started := true, thread := .joinable }

def join (t : Thread) : Except ThreadFault Thread :=
  match t.thread with
  | .null => .error .nullThread
  | .joinable => .ok { t with joined := true, thread := .joined }
  | .joined | .detached => .error .notJoinable

def detach (t : Thread) : Except ThreadFault Thread :=
  match t.thread with
  | .null => .error .nullThread
  | .joinable => .ok { t with thread := .detached }
  | .joined | .detached => .error .notJoinable

/-- The destructor, with that of `thread_`. -/
def destroy (t : Thread) : Except ThreadFault Thread := do
  let t ← if t.started && !t.joined then t.detach else .ok t
  if t.thread = .joinable then .error .terminate else return t

theorem destroy_running {t : Thread} (started : t.started = true) (joined : t.joined = false)
    (live : t.thread = .joinable) : t.destroy = .ok { t with thread := .detached } := by
  obtain ⟨_, _, _, _⟩ := t
  cases started
  cases joined
  cases live
  rfl

theorem destroy_joined {t : Thread} (joined : t.joined = true) (gone : t.thread = .joined) :
    t.destroy = .ok t := by
  obtain ⟨started, _, _, _⟩ := t
  cases joined
  cases gone
  cases started <;> rfl

end Thread

/-! ## The lambda of `start` -/

inductive LambdaPc
  | unborn
  | storing
  | posting
  | invoking
  | inFunc
  deriving DecidableEq, Repr

def LambdaPc.hasPosted : LambdaPc → Bool
  | invoking | inFunc => true
  | unborn | storing | posting => false

/-- An EventLoopThread with what Thread.cc does for it. Where `run` has the new thread
in `constructing`, it may still be in the lambda. -/
structure SpawnRun (φ : Type) where
  run : ThreadRun φ
  thread : Thread
  sem : Option Nat
  lambda : LambdaPc
  /-- `sem_wait` has returned without the semaphore. -/
  interrupted : Bool
  fault : Option ThreadFault

inductive SpawnAct (φ : Type)
  | run (l : ThreadAct φ)
  | wait
  | signal
  | lambda

namespace SpawnRun
variable {φ : Type}

/-- What the owner's next step does with the Thread. -/
def ofThread (s : SpawnRun φ) : Except ThreadFault Thread :=
  match s.run.owner with
  | .created => s.thread.start
  | .joining => s.thread.join
  | .releasing => s.thread.destroy
  | _ => .ok s.thread

def ownerWith (s : SpawnRun φ) (run : ThreadRun φ) : SpawnRun φ :=
  match s.ofThread with
  | .ok thread =>
    if s.run.owner = .created then
      { s with run := run, thread := thread, sem := some 0, lambda := .storing }
    else { s with run := run, thread := thread }
  | .error fault => { s with fault := some fault }

/-- The lambda refers to the Thread and to the semaphore. -/
def lambdaStep (s : SpawnRun φ) : Option (SpawnRun φ) :=
  match s.lambda with
  | .unborn | .inFunc => none
  | .storing =>
    if s.run.owner = .destroyed then some { s with fault := some .noThread }
    else some { s with
      thread := { s.thread with tid := s.run.loop.loop.threadId }, lambda := .posting }
  | .posting =>
    match s.sem with
    | some n => some { s with sem := some (n + 1), lambda := .invoking }
    | none => some { s with lambda := .invoking, fault := some .noSemaphore }
  | .invoking =>
    if s.run.owner = .destroyed then some { s with fault := some .noThread }
    else some { s with lambda := .inFunc }

/-- The thread that takes this step is not in Thread.cc. -/
def ready (s : SpawnRun φ) : ThreadAct φ → Bool
  | .owner | .destroy => s.sem.isNone
  | .func => s.lambda == .inFunc
  | .loop _ => true

def follow (s : SpawnRun φ) : ThreadAct φ → ThreadRun φ → SpawnRun φ
  | .owner, run => s.ownerWith run
  | .destroy, run | .func, run | .loop _, run => { s with run := run }

def step (s : SpawnRun φ) (l : SpawnAct φ) : Option (SpawnRun φ) :=
  if s.fault ≠ none then none
  else match l with
    | .run l => if s.ready l then (s.run.step l).map (s.follow l) else none
    | .wait =>
      match s.sem with
      | some (_ + 1) => some { s with sem := none }
      | some 0 | none => none
    | .signal =>
      match s.sem with
      | some 0 => some { s with sem := none, interrupted := true }
      | some (_ + 1) | none => none
    | .lambda => s.lambdaStep

structure Start (s : SpawnRun φ) : Prop where
  run : s.run.Start
  thread : s.thread = Thread.new
  sem : s.sem = none
  lambda : s.lambda = .unborn
  interrupted : s.interrupted = false
  fault : s.fault = none

def machine : Machine (SpawnRun φ) (SpawnAct φ) := ⟨Start, step⟩

/-- Thread.cc under an EventLoopThread. -/
structure Sound (s : SpawnRun φ) : Prop where
  refines : ThreadRun.machine.Reachable s.run
  wrong : s.fault ≠ none ↔ s.interrupted = true ∧ s.lambda.hasPosted = true
  only : ∀ fault ∈ s.fault, fault = .noSemaphore
  told : s.run.owner ≠ .created → s.sem = none → s.interrupted = false →
    s.thread.tid = s.run.loop.loop.threadId
  ended : s.run.owner = .destroyed → s.thread.thread = .detached ∨
    s.thread.thread = .joined ∧ s.run.func = .finished

end SpawnRun

/-! ## The handshake of `startLoop` -/

namespace ThreadRun
variable {φ : Type}

/-- The owner has found `loop_` set only when it was, whatever happens later. -/
structure Handed (s : ThreadRun φ) : Prop where
  fresh : s.owner = .created → s.func = .notStarted
  exposed : s.object.loop = s.func.exposed
  handed : s.owner.found = true → s.func.wasPublished = true

theorem Start.handed {s : ThreadRun φ} (h : s.Start) : s.Handed := by
  constructor
  · exact fun _ => h.func
  · rw [h.object, h.func]
    rfl
  · rw [h.owner]
    intro found
    cases found

theorem Handed.owner {s t : ThreadRun φ} (inv : s.Handed) (h : s.ownerStep = some t) :
    t.Handed := by
  obtain ⟨started, object, func, _, found⟩ := ownerStep_found h
  obtain ⟨created, constructing⟩ | ⟨_, same⟩ := func
  · have unset : s.object.loop = false := by
      rw [inv.exposed, inv.fresh created]
      rfl
    refine ⟨fun created => absurd created started, ?_, fun now => ?_⟩
    · rw [object, unset, constructing]
      rfl
    · obtain before | set := found now
      · rw [created] at before
        cases before
      · rw [unset] at set
        cases set
  · refine ⟨fun created => absurd created started, ?_, fun now => ?_⟩
    · rw [object, same]
      exact inv.exposed
    · rw [same]
      obtain before | set := found now
      · exact inv.handed before
      · exact (exposed_cases (inv.exposed.symm.trans set)).1

theorem Handed.step {s t : ThreadRun φ} {l : ThreadAct φ} (inv : s.Handed)
    (h : s.step l = some t) : t.Handed := by
  obtain ⟨_, go⟩ | ⟨_, go⟩ | ⟨func, object, owner⟩ := step_found h
  · exact inv.owner go
  · obtain ⟨going, owner, published, _, _, _, exposed⟩ := funcStep_progress go
    refine ⟨?_, exposed inv.exposed, ?_⟩
    · rw [owner]
      exact fun created => absurd (inv.fresh created) going
    · rw [owner]
      exact fun found => published (inv.handed found)
  · obtain same | ⟨started, destroying⟩ := owner
    · refine ⟨?_, ?_, ?_⟩
      · rw [same, func]
        exact inv.fresh
      · rw [object, func]
        exact inv.exposed
      · rw [same, func]
        exact inv.handed
    · refine ⟨?_, ?_, fun _ => ?_⟩
      · rw [destroying]
        exact OwnerPc.noConfusion
      · rw [object, func]
        exact inv.exposed
      · rw [func]
        apply inv.handed
        rw [started]
        rfl

inductive OwnerMoves (s t : ThreadRun φ) : Prop
  | starts : s.owner = .created → t.owner = .locking → t.func = .constructing → OwnerMoves s t
  | joins : s.owner = .joining → s.func = .finished → t.owner = .releasing → t.func = s.func →
      OwnerMoves s t
  | releases : s.owner = .releasing → t.owner = .destroyed → t.func = s.func → OwnerMoves s t
  | goesOn : s.owner ≠ .created → s.owner ≠ .joining → s.owner ≠ .releasing →
      s.owner ≠ .destroyed → t.owner ≠ .created → t.owner ≠ .destroyed → t.func = s.func →
      OwnerMoves s t

theorem ownerStep_moves {s t : ThreadRun φ} (h : s.ownerStep = some t) : s.OwnerMoves t := by
  cases at_ : s.owner with
  | created =>
    simp only [ownerStep, at_, Option.some.injEq] at h
    subst h
    exact .starts at_ rfl rfl
  | joining =>
    simp only [ownerStep, at_, Option.ite_none_right_eq_some, Option.some.injEq] at h
    obtain ⟨finished, rfl⟩ := h
    exact .joins at_ finished rfl rfl
  | releasing =>
    simp only [ownerStep, at_, Option.some.injEq] at h
    subst h
    exact .releases at_ rfl rfl
  | started | destroyed => simp [ownerStep, at_] at h
  | locking | waiting =>
    simp only [ownerStep, at_, Option.ite_none_left_eq_some, Option.some.injEq] at h
    obtain ⟨_, rfl⟩ := h
    apply OwnerMoves.goesOn <;> simp [at_]
  | testing | destroying =>
    simp only [ownerStep, at_, Option.some.injEq] at h
    subst h
    cases s.object.loop <;> apply OwnerMoves.goesOn <;> simp [at_]
  | returning =>
    simp only [ownerStep, at_, Option.some.injEq] at h
    subst h
    apply OwnerMoves.goesOn <;> simp [at_]
  | quitting | waking =>
    simp only [ownerStep, at_, Option.ite_none_right_eq_some] at h
    obtain ⟨loop, _, rfl⟩ := Option.map_eq_some_iff.mp h.2
    apply OwnerMoves.goesOn <;> simp [at_]

end ThreadRun

namespace LoopRun
variable {φ : Type}

theorem step_threadId {s t : LoopRun φ} {l : LoopAct φ} (h : s.step l = some t) :
    t.loop.threadId = s.loop.threadId := by
  obtain same | ⟨_, _, pushes⟩ | swaps | ⟨_, starts⟩ := step_queue h
  · exact same.threadId
  · exact pushes.threadId
  · exact swaps.threadId
  · exact starts.threadId

end LoopRun

namespace ThreadRun
variable {φ : Type}

theorem step_threadId {s t : ThreadRun φ} {l : ThreadAct φ} (h : s.step l = some t) :
    t.loop.loop.threadId = s.loop.loop.threadId := by
  cases l with
  | owner =>
    obtain ⟨_, rfl⟩ | ⟨_, loop, hl, rfl⟩ | ⟨_, loop, hl, rfl⟩ | ⟨_, loop, _⟩ := ownerStep_cases h
    · rfl
    · exact LoopRun.step_threadId hl
    · exact LoopRun.step_threadId hl
    · rw [loop]
  | destroy =>
    simp only [step, Option.ite_none_right_eq_some, Option.some.injEq] at h
    obtain ⟨_, rfl⟩ := h
    rfl
  | loop m =>
    simp only [step, Option.ite_none_right_eq_some] at h
    obtain ⟨loop, hm, rfl⟩ := Option.map_eq_some_iff.mp h.2
    exact LoopRun.step_threadId hm
  | func =>
    simp only [step] at h
    cases at_ : s.func with
    | notStarted | finished => simp [funcStep, at_] at h
    | constructing | publishing | published | clearing | cleared | unlocked =>
      simp only [funcStep, at_, Option.some.injEq] at h
      subst h
      rfl
    | initializing | returned =>
      simp only [funcStep, at_, Option.ite_none_left_eq_some, Option.some.injEq] at h
      obtain ⟨_, rfl⟩ := h
      rfl
    | calling =>
      simp only [funcStep, at_] at h
      obtain ⟨loop, entered, rfl⟩ := Option.map_eq_some_iff.mp h
      exact LoopRun.step_threadId entered
    | looping =>
      simp only [funcStep, at_, Option.ite_none_right_eq_some, Option.some.injEq] at h
      obtain ⟨_, rfl⟩ := h
      rfl

inductive Holds (s : ThreadRun φ) (t : Thread) : Prop
  | null : s.owner = .created → t.joined = false → t.thread = .null → Holds s t
  | running : s.owner ≠ .created → s.owner ≠ .destroyed → t.started = true → t.joined = false →
      t.thread = .joinable → Holds s t
  | joined : s.owner = .releasing ∨ s.owner = .destroyed → t.joined = true → t.thread = .joined →
      s.func = .finished → Holds s t
  | detached : s.owner = .destroyed → t.thread = .detached → Holds s t

theorem Holds.store {s : ThreadRun φ} {t : Thread} (h : s.Holds t) (tid : Nat) :
    s.Holds { t with tid := tid } := by
  cases h with
  | null created joined null => exact .null created joined null
  | running created destroyed started joined live =>
    exact .running created destroyed started joined live
  | joined late joined gone finished => exact .joined late joined gone finished
  | detached destroyed gone => exact .detached destroyed gone

end ThreadRun

/-! ## One step -/

namespace SpawnRun
variable {φ : Type}

structure Kept (s : SpawnRun φ) : Prop where
  reachable : ThreadRun.machine.Reachable s.run
  handle : s.run.Holds s.thread
  unborn : s.lambda = .unborn ↔ s.run.owner = .created
  outside : s.lambda ≠ .inFunc → s.run.func.wasPublished = false
  waiting : ∀ n ∈ s.sem, s.run.owner = .locking ∧ n = if s.lambda.hasPosted then 1 else 0
  returned : s.run.owner ≠ .created → s.sem = none →
    s.interrupted = true ∨ s.lambda.hasPosted = true
  interrupted : s.interrupted = true → s.run.owner ≠ .created ∧ s.sem = none
  tid : s.lambda = .posting ∨ s.lambda.hasPosted = true →
    s.thread.tid = s.run.loop.loop.threadId
  wrong : s.fault ≠ none ↔ s.interrupted = true ∧ s.lambda.hasPosted = true
  only : ∀ fault ∈ s.fault, fault = .noSemaphore

theorem Kept.handed {s : SpawnRun φ} (h : s.Kept) : s.run.Handed := by
  apply h.reachable.invariant
  · exact fun _ start => start.handed
  · exact fun _ _ _ inv step => inv.step step

/-- The Thread exists while the new thread is in the lambda: `startLoop` waits longer. -/
theorem Kept.outlives {s : SpawnRun φ} (h : s.Kept) (inside : s.lambda ≠ .inFunc) :
    s.run.owner ≠ .destroyed := by
  intro destroyed
  have published := h.handed.handed (by rw [destroyed]; rfl)
  rw [h.outside inside] at published
  cases published

theorem Start.kept {s : SpawnRun φ} (h : s.Start) : s.Kept := by
  refine ⟨.start h.run, .null h.run.owner ?_ ?_, ?_, fun _ => ?_, fun n some => ?_,
    fun started => absurd h.run.owner started, fun signalled => ?_, fun told => ?_, ?_,
    fun fault some => ?_⟩
  · rw [h.thread]
    rfl
  · rw [h.thread]
    rfl
  · exact iff_of_true h.lambda h.run.owner
  · rw [h.run.func]
    rfl
  · rw [h.sem] at some
    cases some
  · rw [h.interrupted] at signalled
    cases signalled
  · rw [h.lambda] at told
    obtain other | other := told <;> cases other
  · rw [h.fault, h.interrupted]
    exact iff_of_false (fun none => none rfl) fun both => Bool.noConfusion both.1
  · rw [h.fault] at some
    cases some

theorem Kept.starts {s : SpawnRun φ} {run : ThreadRun φ} (h : s.Kept) (right : s.fault = none)
    (hs : s.run.step .owner = some run) (created : s.run.owner = .created)
    (owner : run.owner = .locking) (func : run.func = .constructing) :
    (s.ownerWith run).Kept := by
  have joined : s.thread.joined = false ∧ s.thread.thread = .null := by
    cases h.handle with
    | null _ joined null => exact ⟨joined, null⟩
    | running started => exact absurd created started
    | joined late =>
      rw [created] at late
      obtain late | late := late <;> cases late
    | detached late =>
      rw [created] at late
      cases late
  have quiet : s.interrupted = false := by
    apply Bool.eq_false_iff.mpr
    exact fun signalled => (h.interrupted signalled).1 created
  have begun : s.ofThread = .ok { s.thread with started := true, thread := .joinable } := by
    rw [ofThread, created]
    simp only [Thread.start, joined.2, reduceCtorEq, if_false]
  simp only [ownerWith, begun, created, if_true]
  refine ⟨.next .owner h.reachable hs, .running ?_ ?_ rfl joined.1 rfl, ?_, fun _ => ?_, ?_, ?_,
    ?_, fun told => ?_, ?_, ?_⟩
  · simp only [owner]
    exact OwnerPc.noConfusion
  · simp only [owner]
    exact OwnerPc.noConfusion
  · simp only [owner]
    exact iff_of_false LambdaPc.noConfusion OwnerPc.noConfusion
  · simp only [func]
    rfl
  · intro n here
    cases here
    exact ⟨owner, rfl⟩
  · exact fun _ none => nomatch none
  · simp only [quiet]
    exact Bool.noConfusion
  · obtain other | other := told <;> cases other
  · simp only [right, quiet]
    exact iff_of_false (fun none => none rfl) fun both => Bool.noConfusion both.1
  · simp only [right]
    exact fun _ none => nomatch none

/-- `start` has returned, and the owner takes a step. -/
theorem Kept.goOn {s : SpawnRun φ} {run : ThreadRun φ} {l : ThreadAct φ} {thread : Thread}
    (h : s.Kept) (idle : s.sem = none) (hs : s.run.step l = some run)
    (before : s.run.owner ≠ .created) (after : run.owner ≠ .created) (func : run.func = s.run.func)
    (tid : thread.tid = s.thread.tid)
    (handle : run.Holds thread) :
    ({ s with run := run, thread := thread } : SpawnRun φ).Kept := by
  refine ⟨.next l h.reachable hs, handle, ?_, ?_, ?_, ?_, ?_, ?_, h.wrong, h.only⟩
  · exact iff_of_false (fun unborn => before (h.unborn.mp unborn)) after
  · simp only [func]
    exact h.outside
  · simp only [idle]
    exact fun _ none => nomatch none
  · exact fun _ _ => h.returned before idle
  · exact fun signalled => ⟨after, idle⟩
  · simp only [tid, ThreadRun.step_threadId hs]
    exact h.tid

theorem Kept.owner {s t : SpawnRun φ} (h : s.Kept) (hs : s.step (.run .owner) = some t) :
    t.Kept := by
  simp only [step, ne_eq, ite_not, Option.ite_none_right_eq_some, ready, Option.isNone_iff_eq_none]
    at hs
  obtain ⟨right, idle, hs⟩ := hs
  obtain ⟨run, moved, rfl⟩ := Option.map_eq_some_iff.mp hs
  simp only [follow]
  cases ThreadRun.ownerStep_moves moved with
  | starts created owner func => exact h.starts right moved created owner func
  | joins joining finished owner func =>
    have live : s.thread.thread = .joinable := by
      cases h.handle with
      | running _ _ _ _ live => exact live
      | null other | detached other =>
        rw [joining] at other
        cases other
      | joined late =>
        rw [joining] at late
        obtain late | late := late <;> cases late
    have ended : s.ofThread = .ok { s.thread with joined := true, thread := .joined } := by
      rw [ofThread, joining]
      simp only [Thread.join, live]
    simp only [ownerWith, ended, joining, reduceCtorEq, if_false]
    refine h.goOn idle moved ?_ ?_ func rfl (.joined (.inl owner) rfl rfl (func.trans finished))
    · rw [joining]
      exact OwnerPc.noConfusion
    · rw [owner]
      exact OwnerPc.noConfusion
  | releases releasing owner func =>
    have created : s.run.owner ≠ .created := by
      rw [releasing]
      exact OwnerPc.noConfusion
    have destroyed : run.owner ≠ .created := by
      rw [owner]
      exact OwnerPc.noConfusion
    cases h.handle with
    | null other => exact absurd other created
    | detached other =>
      rw [releasing] at other
      cases other
    | running _ _ started joined live =>
      have ended : s.ofThread = .ok { s.thread with thread := .detached } := by
        rw [ofThread, releasing]
        exact Thread.destroy_running started joined live
      simp only [ownerWith, ended, created, if_false]
      exact h.goOn idle moved created destroyed func rfl (.detached owner rfl)
    | joined _ joined gone finished =>
      have ended : s.ofThread = .ok s.thread := by
        rw [ofThread, releasing]
        exact Thread.destroy_joined joined gone
      simp only [ownerWith, ended, created, if_false]
      exact h.goOn idle moved created destroyed func rfl
        (.joined (.inr owner) joined gone (func.trans finished))
  | goesOn created joining releasing destroyed created' destroyed' func =>
    have same : s.ofThread = .ok s.thread := by
      unfold ofThread
      split <;> first | rfl | contradiction
    simp only [ownerWith, same, created, if_false]
    refine h.goOn idle moved created created' func rfl ?_
    cases h.handle with
    | null other => exact absurd other created
    | detached other => exact absurd other destroyed
    | joined late => exact absurd late (not_or.mpr ⟨releasing, destroyed⟩)
    | running _ _ started joined live => exact .running created' destroyed' started joined live

theorem Kept.destroy {s t : SpawnRun φ} (h : s.Kept) (hs : s.step (.run .destroy) = some t) :
    t.Kept := by
  simp only [step, ne_eq, ite_not, Option.ite_none_right_eq_some, ready, Option.isNone_iff_eq_none]
    at hs
  obtain ⟨_, idle, hs⟩ := hs
  obtain ⟨run, moved, rfl⟩ := Option.map_eq_some_iff.mp hs
  have called := moved
  simp only [ThreadRun.step, Option.ite_none_right_eq_some, Option.some.injEq, Bool.and_eq_true,
    decide_eq_true_eq] at called
  obtain ⟨⟨started, _⟩, rfl⟩ := called
  refine h.goOn idle moved ?_ OwnerPc.noConfusion rfl rfl ?_
  · rw [started]
    exact OwnerPc.noConfusion
  · cases h.handle with
    | null other | detached other =>
      rw [started] at other
      cases other
    | joined late =>
      rw [started] at late
      obtain late | late := late <;> cases late
    | running _ _ begun joined live =>
      exact .running OwnerPc.noConfusion OwnerPc.noConfusion begun joined live

/-- The other threads take a step; the new thread has left the lambda, or has not. -/
theorem Kept.others {s : SpawnRun φ} {run : ThreadRun φ} {l : ThreadAct φ} (h : s.Kept)
    (hs : s.run.step l = some run) (owner : run.owner = s.run.owner)
    (outside : s.lambda ≠ .inFunc → run.func = s.run.func)
    (finished : s.run.func = .finished → run.func = .finished) :
    ({ s with run := run } : SpawnRun φ).Kept := by
  refine ⟨.next l h.reachable hs, ?_, ?_, fun inside => ?_, ?_, ?_, ?_, ?_, h.wrong, h.only⟩
  · cases h.handle with
    | null created joined null => exact .null (owner.trans created) joined null
    | running created destroyed started joined live =>
      rw [← owner] at created destroyed
      exact .running created destroyed started joined live
    | joined late joined gone ended =>
      rw [← owner] at late
      exact .joined late joined gone (finished ended)
    | detached destroyed gone => exact .detached (owner.trans destroyed) gone
  · simp only [owner]
    exact h.unborn
  · simp only [outside inside]
    exact h.outside inside
  · simp only [owner]
    exact h.waiting
  · simp only [owner]
    exact h.returned
  · simp only [owner]
    exact h.interrupted
  · simp only [ThreadRun.step_threadId hs]
    exact h.tid

theorem Kept.run {s t : SpawnRun φ} {l : ThreadAct φ} (h : s.Kept)
    (hs : s.step (.run l) = some t) : t.Kept := by
  cases l with
  | owner => exact h.owner hs
  | destroy => exact h.destroy hs
  | func =>
    simp only [step, ne_eq, ite_not, Option.ite_none_right_eq_some, ready, beq_iff_eq] at hs
    obtain ⟨_, inFunc, hs⟩ := hs
    obtain ⟨run, moved, rfl⟩ := Option.map_eq_some_iff.mp hs
    refine h.others moved (ThreadRun.funcStep_progress moved).2.1
      (fun outside => absurd inFunc outside) fun finished => ?_
    simp [ThreadRun.step, ThreadRun.funcStep, finished] at moved
  | loop m =>
    simp only [step, ne_eq, ite_not, Option.ite_none_right_eq_some, ready] at hs
    obtain ⟨_, _, hs⟩ := hs
    obtain ⟨run, moved, rfl⟩ := Option.map_eq_some_iff.mp hs
    have called := moved
    simp only [ThreadRun.step, Option.ite_none_right_eq_some] at called
    obtain ⟨loop, _, rfl⟩ := Option.map_eq_some_iff.mp called.2
    exact h.others moved rfl (fun _ => rfl) id

/-- `sem_wait` returns with the semaphore, which the new thread has posted. -/
theorem Kept.wait {s t : SpawnRun φ} (h : s.Kept) (hs : s.step .wait = some t) : t.Kept := by
  simp only [step, ne_eq, ite_not, Option.ite_none_right_eq_some] at hs
  obtain ⟨_, hs⟩ := hs
  cases taken : s.sem with
  | none => simp [taken] at hs
  | some n =>
    obtain ⟨locking, count⟩ := h.waiting n taken
    cases n with
    | zero => simp [taken] at hs
    | succ n =>
      simp only [taken, Option.some.injEq] at hs
      subst hs
      have posted : s.lambda.hasPosted = true := by
        apply Classical.byContradiction
        intro early
        rw [if_neg early] at count
        cases count
      exact ⟨h.reachable, h.handle, h.unborn, h.outside, (fun _ none => nomatch none),
        fun _ _ => .inr posted, fun signalled => ⟨(h.interrupted signalled).1, rfl⟩, h.tid,
        h.wrong, h.only⟩

/-- It returns with nothing: the new thread has not posted yet. -/
theorem Kept.signal {s t : SpawnRun φ} (h : s.Kept) (hs : s.step .signal = some t) : t.Kept := by
  simp only [step, ne_eq, ite_not, Option.ite_none_right_eq_some] at hs
  obtain ⟨right, hs⟩ := hs
  cases taken : s.sem with
  | none => simp [taken] at hs
  | some n =>
    obtain ⟨locking, count⟩ := h.waiting n taken
    cases n with
    | succ n => simp [taken] at hs
    | zero =>
      simp only [taken, Option.some.injEq] at hs
      subst hs
      have unposted : s.lambda.hasPosted ≠ true := by
        intro posted
        rw [if_pos posted] at count
        cases count
      refine ⟨h.reachable, h.handle, h.unborn, h.outside, (fun _ none => nomatch none),
        fun _ _ => .inl rfl, fun _ => ⟨?_, rfl⟩, h.tid, ?_, h.only⟩
      · rw [locking]
        exact OwnerPc.noConfusion
      · exact iff_of_false (fun wrong => wrong right) fun both => unposted both.2

/-- The new thread goes on in the lambda, the semaphore aside. -/
theorem Kept.move {s : SpawnRun φ} (h : s.Kept) {lambda : LambdaPc} {thread : Thread}
    (born : s.run.owner ≠ .created) (inside : s.lambda ≠ .inFunc) (going : lambda ≠ .unborn)
    (same : lambda.hasPosted = s.lambda.hasPosted) (handle : s.run.Holds thread)
    (tid : thread.tid = s.run.loop.loop.threadId) :
    ({ s with thread := thread, lambda := lambda } : SpawnRun φ).Kept := by
  refine ⟨h.reachable, handle, iff_of_false going born, fun _ => h.outside inside, ?_, ?_,
    h.interrupted, fun _ => tid, ?_, h.only⟩
  · simp only [same]
    exact h.waiting
  · simp only [same]
    exact h.returned
  · simp only [same]
    exact h.wrong

/-- The new thread posts; there is no semaphore when a signal came first. -/
theorem Kept.post {s t : SpawnRun φ} (h : s.Kept) (right : s.fault = none)
    (at_ : s.lambda = .posting) (hs : s.lambdaStep = some t) : t.Kept := by
  have born : s.run.owner ≠ .created := by
    intro created
    rw [h.unborn.mpr created] at at_
    cases at_
  have outside := h.outside (by rw [at_]; exact LambdaPc.noConfusion)
  have tid := h.tid (.inl at_)
  cases open_ : s.sem with
  | some n =>
    simp only [lambdaStep, at_, open_, Option.some.injEq] at hs
    subst hs
    obtain ⟨locking, count⟩ := h.waiting n open_
    rw [at_] at count
    have quiet : s.interrupted ≠ true := by
      intro signalled
      rw [(h.interrupted signalled).2] at open_
      cases open_
    refine ⟨h.reachable, h.handle, iff_of_false LambdaPc.noConfusion born, fun _ => outside,
      fun m here => ?_, (fun _ none => nomatch none), fun signalled => absurd signalled quiet,
      fun _ => tid, ?_, h.only⟩
    · cases here
      exact ⟨locking, by rw [count]; rfl⟩
    · exact iff_of_false (fun wrong => wrong right) fun both => quiet both.1
  | none =>
    simp only [lambdaStep, at_, open_, Option.some.injEq] at hs
    subst hs
    have signalled : s.interrupted = true := by
      refine (h.returned born open_).resolve_right fun posted => ?_
      rw [at_] at posted
      cases posted
    refine ⟨h.reachable, h.handle, iff_of_false LambdaPc.noConfusion born, fun _ => outside,
      (fun _ none => nomatch none), fun _ _ => .inl signalled, fun _ => ⟨born, rfl⟩,
      fun _ => tid, ?_, fun fault here => ?_⟩
    · exact iff_of_true (fun none => nomatch none) ⟨signalled, rfl⟩
    · cases here
      rfl

theorem Kept.lambda {s t : SpawnRun φ} (h : s.Kept) (hs : s.step .lambda = some t) : t.Kept := by
  simp only [step, ne_eq, ite_not, Option.ite_none_right_eq_some] at hs
  obtain ⟨right, hs⟩ := hs
  have still : s.lambda ≠ .unborn → s.run.owner ≠ .created :=
    fun born created => born (h.unborn.mpr created)
  cases at_ : s.lambda with
  | unborn | inFunc => simp [lambdaStep, at_] at hs
  | posting => exact h.post right at_ hs
  | storing =>
    have inside : s.lambda ≠ .inFunc := by
      rw [at_]
      exact LambdaPc.noConfusion
    simp only [lambdaStep, at_, h.outlives inside, if_false, Option.some.injEq] at hs
    subst hs
    exact h.move (still (by rw [at_]; exact LambdaPc.noConfusion)) inside LambdaPc.noConfusion
      (by rw [at_]; rfl) (h.handle.store _) rfl
  | invoking =>
    have inside : s.lambda ≠ .inFunc := by
      rw [at_]
      exact LambdaPc.noConfusion
    simp only [lambdaStep, at_, h.outlives inside, if_false, Option.some.injEq] at hs
    subst hs
    exact h.move (still (by rw [at_]; exact LambdaPc.noConfusion)) inside LambdaPc.noConfusion
      (by rw [at_]; rfl) h.handle (h.tid (.inr (by rw [at_]; rfl)))

theorem Kept.step {s t : SpawnRun φ} {l : SpawnAct φ} (h : s.Kept) (hs : s.step l = some t) :
    t.Kept := by
  cases l with
  | run l => exact h.run hs
  | wait => exact h.wait hs
  | signal => exact h.signal hs
  | lambda => exact h.lambda hs

theorem Kept.sound {s : SpawnRun φ} (h : s.Kept) : s.Sound := by
  refine ⟨h.reachable, h.wrong, h.only, fun created idle quiet => ?_, fun destroyed => ?_⟩
  · refine h.tid (.inr ((h.returned created idle).resolve_left fun signalled => ?_))
    rw [quiet] at signalled
    cases signalled
  · cases h.handle with
    | null created =>
      rw [destroyed] at created
      cases created
    | running _ other => exact absurd destroyed other
    | joined _ _ gone finished => exact .inr ⟨gone, finished⟩
    | detached _ gone => exact .inl gone

/-! ## Every run -/

/-- However the owner, the new thread and the others are scheduled, the Thread goes wrong
exactly when a signal ends the wait of `start` before the post. -/
theorem started_soundly {s : SpawnRun φ} (h : machine.Reachable s) : s.Sound := by
  have kept : s.Kept := by
    apply h.invariant
    · exact fun _ start => start.kept
    · exact fun _ _ _ inv step => inv.step step
  exact kept.sound

def constructed : SpawnRun Nat where
  run := ThreadRun.constructed.1
  thread := Thread.new
  sem := none
  lambda := .unborn
  interrupted := false
  fault := none

theorem constructed_start : constructed.Start :=
  ⟨ThreadRun.constructed_start.1, rfl, rfl, rfl, rfl, rfl⟩

/-- A signal comes while the new thread stores `tid_`, which then posts to a frame that
is gone. Without the signal the thread is started and joined. -/
theorem started_soundly_signal :
    (∃ s, machine.exec constructed [.run .owner, .lambda, .signal, .lambda] = some s ∧
      s.interrupted = true ∧ s.fault = some .noSemaphore ∧ s.Sound) ∧
    ∃ s, machine.exec constructed ([.run .owner, .lambda, .lambda, .wait, .lambda] ++
        ThreadRun.joins.tail.map .run) = some s ∧
      s.run.owner = .destroyed ∧ s.thread = ⟨true, true, .joined, 2⟩ ∧ s.fault = none ∧
      s.Sound := by
  constructor
  · have run : (machine.exec constructed [.run .owner, .lambda, .signal, .lambda]).map
        (fun s => (s.interrupted, s.fault)) = some (true, some .noSemaphore) := by decide
    obtain ⟨s, hs, after⟩ := Option.map_eq_some_iff.mp run
    simp only [Prod.mk.injEq] at after
    exact ⟨s, hs, after.1, after.2,
      started_soundly (machine.exec_reachable (.start constructed_start) _ hs)⟩
  · have run : (machine.exec constructed ([.run .owner, .lambda, .lambda, .wait, .lambda] ++
        ThreadRun.joins.tail.map .run)).map (fun s => (s.run.owner, s.thread, s.fault)) =
          some (.destroyed, ⟨true, true, .joined, 2⟩, none) := by decide
    obtain ⟨s, hs, after⟩ := Option.map_eq_some_iff.mp run
    simp only [Prod.mk.injEq] at after
    exact ⟨s, hs, after.1, after.2.1, after.2.2,
      started_soundly (machine.exec_reachable (.start constructed_start) _ hs)⟩

end SpawnRun
end Kenmuduo
