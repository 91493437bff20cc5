import Kenmuduo.EPollPoller
import Kenmuduo.ThreadTeardown

/-!
# Starting the server

`TcpServer::start` may be called by any number of threads. The one that finds
`started_` zero makes the threads of the pool, one after the other, each with
`startLoop`, and then has the base loop listen. `started_` is an `int` and wraps.
-/

namespace Kenmuduo
open Transition

/-- Where a thread is in `start`. -/
inductive StartPc
  | outside
  /-- `EventLoopThreadPool::start` tests `i < numThreads_`. -/
  | pool (i : Nat)
  /-- `startLoop` of the thread at index `k` of `threads_`. -/
  | starting (i k : Nat)
  | posting
  deriving DecidableEq

structure StartRun (φ : Type) where
  baseId : Nat
  started : Nat
  numThreads : Int
  initCallback : Bool
  threads : List (ThreadRun φ)
  loops : List Nat
  callers : Nat → StartPc
  initialized : Nat
  pending : Nat
  listens : Nat
  calls : Nat
  begun : Nat

inductive StartAct (φ : Type)
  | setThreadNum (n : Int)
  /-- `started_++ == 0`. -/
  | start (thread : Nat)
  /-- The caller's next step; `tid` is the thread id that a new thread gets. -/
  | next (thread tid : Nat)
  | thread (k : Nat) (l : ThreadAct φ)
  | runFunctor

def ThreadRun.made {φ : Type} (ownerId tid : Nat) : ThreadRun φ where
  object := ⟨false, false, false, false⟩
  loop := ⟨EventLoop.new tid, .outside, fun _ => .none, [], [], 0⟩
  func := .notStarted
  owner := .created
  ownerId := ownerId

theorem ThreadRun.made_start {φ : Type} {ownerId tid : Nat} (apart : ownerId ≠ tid) :
    (made ownerId tid : ThreadRun φ).Start :=
  ⟨rfl, ⟨tid, rfl⟩, rfl, rfl, apart⟩

namespace StartRun
variable {φ : Type}

def fresh (s : StartRun φ) (thread tid : Nat) : Bool :=
  tid != thread && tid != s.baseId && s.threads.all fun t => tid != t.loop.loop.threadId

/-- The owner's steps are those of a caller in `startLoop`, and nothing is destroyed. -/
def allows (s : StartRun φ) (k : Nat) (t : ThreadRun φ) : ThreadAct φ → Bool
  | .owner =>
    match s.callers t.ownerId with
    | .starting _ j => j == k
    | .outside | .pool _ | .posting => false
  | .destroy => false
  | .func | .loop _ => true

def step (s : StartRun φ) : StartAct φ → Option (StartRun φ)
  | .setThreadNum n => if s.calls = 0 then some { s with numThreads := n } else none
  | .start thread =>
    if s.callers thread = .outside then
      let next := { s with started := (s.started + 1) % 4294967296, calls := s.calls + 1 }
      if s.started = 0 then
        some { next with callers := assign s.callers thread (.pool 0), begun := s.begun + 1 }
      else some next
    else none
  | .next thread tid =>
    match s.callers thread with
    | .outside => none
    | .pool i =>
      if i < s.numThreads then
        if s.fresh thread tid then
          some { s with
            threads := s.threads ++ [ThreadRun.made thread tid]
            callers := assign s.callers thread (.starting i s.threads.length) }
        else none
      else
        some { s with
          initialized := if s.numThreads = 0 ∧ s.initCallback then s.initialized + 1
            else s.initialized
          callers := assign s.callers thread .posting }
    | .starting i k =>
      match s.threads[k]? with
      | some t =>
        if t.owner = .started then
          some { s with
            loops := s.loops ++ [k], callers := assign s.callers thread (.pool (i + 1)) }
        else none
      | none => none
    | .posting =>
      let next := { s with callers := assign s.callers thread .outside }
      if thread = s.baseId then some { next with listens := s.listens + 1 }
      else some { next with pending := s.pending + 1 }
  | .thread k l =>
    match s.threads[k]? with
    | some t =>
      if s.allows k t l then (t.step l).map fun u => { s with threads := s.threads.set k u }
      else none
    | none => none
  | .runFunctor =>
    if 0 < s.pending then some { s with pending := s.pending - 1, listens := s.listens + 1 }
    else none

structure Start (s : StartRun φ) : Prop where
  started : s.started = 0
  threads : s.threads = []
  loops : s.loops = []
  callers : ∀ thread, s.callers thread = .outside
  initialized : s.initialized = 0
  pending : s.pending = 0
  listens : s.listens = 0
  calls : s.calls = 0
  begun : s.begun = 0

def machine : Machine (StartRun φ) (StartAct φ) := ⟨Start, step⟩

/-- The pool is complete: as many loops as asked for, each of a thread of its own that
has run the callback and published the loop. -/
structure Complete (s : StartRun φ) : Prop where
  loops : s.loops = List.range s.numThreads.toNat
  threads : s.threads.length = s.numThreads.toNat
  ready : ∀ t ∈ s.threads, t.owner = .started ∧ t.func.wasPublished = true
  initialized : s.initialized = if s.numThreads = 0 ∧ s.initCallback then 1 else 0

/-- The server is started once, and listens when the pool is complete, once. -/
structure Prepared (s : StartRun φ) : Prop where
  begun : s.begun ≤ 1
  once : s.listens + s.pending ≤ 1
  complete : 0 < s.listens + s.pending → s.Complete

/-- `started_` does not come round to zero again. -/
def BeforeWrap (s : StartRun φ) : StartAct φ → Prop
  | .start _ => s.calls < 4294967296
  | _ => True

instance (s : StartRun φ) : ∀ l, Decidable (s.BeforeWrap l)
  | .start _ => inferInstanceAs (Decidable (s.calls < 4294967296))
  | .setThreadNum _ | .next _ _ | .thread _ _ | .runFunctor => isTrue trivial

structure Gathered (s : StartRun φ) (i : Nat) : Prop where
  begun : s.begun = 1
  called : 0 < s.calls
  within : i ≤ s.numThreads.toNat
  loops : s.loops = List.range i
  ready : ∀ t ∈ s.threads.take i, t.owner = .started

structure Silent (s : StartRun φ) : Prop where
  pending : s.pending = 0
  listens : s.listens = 0

def Others (s : StartRun φ) (thread : Nat) : Prop :=
  ∀ other, other ≠ thread → s.callers other = .outside

inductive Phase (s : StartRun φ) : Prop
  | idle : s.calls = 0 → s.begun = 0 → s.loops = [] → s.threads = [] → s.initialized = 0 →
      s.Silent → (∀ thread, s.callers thread = .outside) → Phase s
  | pool {thread i} : s.Gathered i → s.threads.length = i → s.initialized = 0 → s.Silent →
      s.callers thread = .pool i → s.Others thread → Phase s
  | starting {thread i} : s.Gathered i → i < s.numThreads → s.threads.length = i + 1 →
      s.initialized = 0 → s.Silent → s.callers thread = .starting i i → s.Others thread → Phase s
  | posting {thread} : s.Gathered s.numThreads.toNat →
      s.threads.length = s.numThreads.toNat →
      s.initialized = (if s.numThreads = 0 ∧ s.initCallback then 1 else 0) → s.Silent →
      s.callers thread = .posting → s.Others thread → Phase s
  | posted : s.Gathered s.numThreads.toNat → s.threads.length = s.numThreads.toNat →
      s.initialized = (if s.numThreads = 0 ∧ s.initCallback then 1 else 0) →
      s.listens + s.pending = 1 → (∀ thread, s.callers thread = .outside) → Phase s

/-- A thread of the pool: nobody destroys it. -/
structure Kept (t : ThreadRun φ) : Prop where
  reachable : ThreadRun.machine.ReachableBy ThreadRun.DestroysInTime t
  owner : t.owner.hasLoop = false ∨ t.owner = .started

structure Ordered (s : StartRun φ) : Prop where
  few : s.calls ≤ 4294967296
  started : s.started = s.calls % 4294967296
  threads : ∀ t ∈ s.threads, Kept t
  phase : s.Phase

/-! ## The threads of the pool -/

/-- A thread that is not destroyed stays started. -/
theorem Kept.step {t u : ThreadRun φ} {l : ThreadAct φ} (h : Kept t) (stays : l ≠ .destroy)
    (hs : t.step l = some u) : Kept u ∧ (t.owner = .started → u.owner = .started) := by
  have intact (owner : OwnerPc) (late : owner.hasLoop = true) (other : owner ≠ .started) :
      t.owner ≠ owner := by
    rintro rfl
    obtain early | started := h.owner
    · rw [early] at late
      cases late
    · exact other started
  have intime : t.DestroysInTime l := by
    cases l with
    | owner => exact fun at_ => absurd at_ (intact .destroying rfl OwnerPc.noConfusion)
    | loop m =>
      cases m with
      | quit thread => exact fun at_ => absurd at_ (intact .quitting rfl OwnerPc.noConfusion)
      | advance => exact fun at_ => absurd at_ (intact .waking rfl OwnerPc.noConfusion)
      | _ => trivial
    | _ => trivial
  have reachable : ThreadRun.machine.ReachableBy ThreadRun.DestroysInTime u :=
    .next l h.reachable intime hs
  suffices moved : (u.owner.hasLoop = false ∨ u.owner = .started) ∧
      (t.owner = .started → u.owner = .started) from ⟨⟨reachable, moved.1⟩, moved.2⟩
  have still (same : u.owner = t.owner) : (u.owner.hasLoop = false ∨ u.owner = .started) ∧
      (t.owner = .started → u.owner = .started) := by
    rw [same]
    exact ⟨h.owner, id⟩
  cases l with
  | destroy => exact absurd rfl stays
  | func => exact still (ThreadRun.funcStep_progress hs).2.1
  | loop m =>
    simp only [ThreadRun.step, Option.ite_none_right_eq_some] at hs
    obtain ⟨loop, _, rfl⟩ := Option.map_eq_some_iff.mp hs.2
    exact still rfl
  | owner =>
    simp only [ThreadRun.step] at hs
    cases at_ : t.owner with
    | created | returning =>
      simp only [ThreadRun.ownerStep, at_, Option.some.injEq] at hs
      subst hs
      simp [OwnerPc.hasLoop]
    | locking | waiting =>
      simp only [ThreadRun.ownerStep, at_, Option.ite_none_left_eq_some, Option.some.injEq] at hs
      obtain ⟨_, rfl⟩ := hs
      simp [OwnerPc.hasLoop]
    | testing =>
      simp only [ThreadRun.ownerStep, at_, Option.some.injEq] at hs
      subst hs
      cases t.object.loop <;> simp [OwnerPc.hasLoop]
    | started => simp [ThreadRun.ownerStep, at_] at hs
    | _ => exact absurd at_ (intact _ rfl OwnerPc.noConfusion)

/-- A thread that has been started has published its loop. -/
theorem Kept.published {t : ThreadRun φ} (h : Kept t) (started : t.owner = .started) :
    t.func.wasPublished = true := by
  have sound : t.Sound := by
    apply h.reachable.invariant
    · exact fun _ start => ThreadRun.Start.sound start
    · exact fun _ _ _ inv intime hs => ThreadRun.step_sound inv intime hs
  exact sound.handed (.inr (by rw [started]; rfl))

theorem made_kept {ownerId tid : Nat} (apart : ownerId ≠ tid) :
    Kept (ThreadRun.made ownerId tid : ThreadRun φ) :=
  ⟨.start (ThreadRun.made_start apart), .inl rfl⟩

theorem Gathered.set {s : StartRun φ} {i k : Nat} {t u : ThreadRun φ} (h : s.Gathered i)
    (here : s.threads[k]? = some t) (stays : t.owner = .started → u.owner = .started) :
    ({ s with threads := s.threads.set k u } : StartRun φ).Gathered i := by
  refine ⟨h.begun, h.called, h.within, h.loops, fun v mem => ?_⟩
  simp only [List.take_set] at mem
  by_cases early : k < i
  · cases List.mem_or_eq_of_mem_set mem with
    | inl old => exact h.ready v old
    | inr new =>
      rw [new]
      apply stays
      apply h.ready
      apply List.mem_of_getElem? (i := k)
      rw [List.getElem?_take_of_lt early]
      exact here
  · rw [List.set_eq_of_length_le] at mem
    · exact h.ready v mem
    · rw [List.length_take]
      omega

/-! ## One step -/

theorem Start.ordered {s : StartRun φ} (h : s.Start) : s.Ordered := by
  refine ⟨?_, ?_, ?_, ?_⟩
  · rw [h.calls]
    exact Nat.zero_le _
  · rw [h.calls, h.started]
  · intro t mem
    rw [h.threads] at mem
    cases mem
  · exact .idle h.calls h.begun h.loops h.threads h.initialized ⟨h.pending, h.listens⟩ h.callers

theorem Ordered.setThreadNum {s : StartRun φ} (h : s.Ordered) (n : Int) (none : s.calls = 0) :
    ({ s with numThreads := n } : StartRun φ).Ordered := by
  refine ⟨h.few, h.started, h.threads, ?_⟩
  cases h.phase with
  | idle calls begun loops threads initialized silent callers =>
    exact .idle calls begun loops threads initialized ⟨silent.1, silent.2⟩ callers
  | pool gathered | starting gathered | posting gathered | posted gathered =>
    exact absurd gathered.called (by omega)

theorem Gathered.call {s : StartRun φ} {i : Nat} (h : s.Gathered i) (started : Nat) :
    ({ s with started := started, calls := s.calls + 1 } : StartRun φ).Gathered i :=
  ⟨h.begun, Nat.succ_pos _, h.within, h.loops, h.ready⟩

/-- A call finds `started_` zero when it is the first. -/
theorem Ordered.start {s t : StartRun φ} {thread : Nat} (h : s.Ordered)
    (few : s.calls < 4294967296) (hs : s.step (.start thread) = some t) : t.Ordered := by
  have started : s.started = s.calls := by
    rw [h.started]
    exact Nat.mod_eq_of_lt few
  simp only [StartRun.step, Option.ite_none_right_eq_some] at hs
  obtain ⟨outside, hs⟩ := hs
  split at hs
  · rename_i zero
    have first : s.calls = 0 := by omega
    cases hs
    refine ⟨few, by simp only [started], h.threads, ?_⟩
    cases h.phase with
    | idle calls begun loops threads initialized silent callers =>
      refine .pool (i := 0) ⟨?_, Nat.succ_pos _, Nat.zero_le _, loops, ?_⟩ ?_
        initialized ⟨silent.1, silent.2⟩ (assign_same _ thread _) fun other apart => ?_
      · simp only [begun]
      · intro t mem
        cases mem
      · simp only [threads, List.length_nil]
      · simp only [assign_other _ _ apart, callers]
    | pool gathered | starting gathered | posting gathered | posted gathered =>
      exact absurd gathered.called (by omega)
  · cases hs
    refine ⟨few, by simp only [started], h.threads, ?_⟩
    cases h.phase with
    | idle calls => exact absurd calls (by omega)
    | pool gathered threads initialized silent here others =>
      exact .pool (gathered.call _) threads initialized ⟨silent.1, silent.2⟩ here others
    | starting gathered more threads initialized silent here others =>
      exact .starting (gathered.call _) more threads initialized ⟨silent.1, silent.2⟩ here others
    | posting gathered threads initialized silent here others =>
      exact .posting (gathered.call _) threads initialized ⟨silent.1, silent.2⟩ here others
    | posted gathered threads initialized once callers =>
      exact .posted (gathered.call _) threads initialized once callers

theorem Others.here {s : StartRun φ} {thread caller : Nat} (others : s.Others thread)
    (inside : s.callers caller ≠ .outside) : caller = thread := by
  apply Decidable.byContradiction
  exact fun apart => inside (others caller apart)

theorem Phase.testing {s : StartRun φ} {caller i : Nat} (h : s.Phase)
    (at_ : s.callers caller = .pool i) : s.Gathered i ∧ s.threads.length = i ∧
      s.initialized = 0 ∧ s.Silent ∧ s.Others caller := by
  have inside : s.callers caller ≠ .outside := by rw [at_]; exact StartPc.noConfusion
  cases h with
  | idle _ _ _ _ _ _ callers | posted _ _ _ _ callers => exact absurd (callers caller) inside
  | pool gathered threads initialized silent here others =>
    obtain rfl := others.here inside
    cases here.symm.trans at_
    exact ⟨gathered, threads, initialized, silent, others⟩
  | starting _ _ _ _ _ here others | posting _ _ _ _ here others =>
    obtain rfl := others.here inside
    cases here.symm.trans at_

theorem Phase.inStartLoop {s : StartRun φ} {caller i k : Nat} (h : s.Phase)
    (at_ : s.callers caller = .starting i k) : k = i ∧ s.Gathered i ∧ i < s.numThreads ∧
      s.threads.length = i + 1 ∧ s.initialized = 0 ∧ s.Silent ∧ s.Others caller := by
  have inside : s.callers caller ≠ .outside := by rw [at_]; exact StartPc.noConfusion
  cases h with
  | idle _ _ _ _ _ _ callers | posted _ _ _ _ callers => exact absurd (callers caller) inside
  | starting gathered more threads initialized silent here others =>
    obtain rfl := others.here inside
    cases here.symm.trans at_
    exact ⟨rfl, gathered, more, threads, initialized, silent, others⟩
  | pool _ _ _ _ here others | posting _ _ _ _ here others =>
    obtain rfl := others.here inside
    cases here.symm.trans at_

theorem Phase.handing {s : StartRun φ} {caller : Nat} (h : s.Phase)
    (at_ : s.callers caller = .posting) : s.Gathered s.numThreads.toNat ∧
      s.threads.length = s.numThreads.toNat ∧
      s.initialized = (if s.numThreads = 0 ∧ s.initCallback then 1 else 0) ∧ s.Silent ∧
      s.Others caller := by
  have inside : s.callers caller ≠ .outside := by rw [at_]; exact StartPc.noConfusion
  cases h with
  | idle _ _ _ _ _ _ callers | posted _ _ _ _ callers => exact absurd (callers caller) inside
  | posting gathered threads initialized silent here others =>
    obtain rfl := others.here inside
    exact ⟨gathered, threads, initialized, silent, others⟩
  | pool _ _ _ _ here others | starting _ _ _ _ _ here others =>
    obtain rfl := others.here inside
    cases here.symm.trans at_

theorem Others.assign {s : StartRun φ} {caller : Nat} (h : s.Others caller) (pc : StartPc)
    {other : Nat} (apart : other ≠ caller) : assign s.callers caller pc other = .outside := by
  rw [assign_other _ _ apart]
  exact h other apart

/-- The loop's test: another thread is made, or the pool is complete. -/
theorem Ordered.test {s t : StartRun φ} {caller tid i : Nat} (h : s.Ordered)
    (at_ : s.callers caller = .pool i) (hs : s.step (.next caller tid) = some t) :
    t.Ordered := by
  obtain ⟨gathered, threads, initialized, silent, others⟩ := h.phase.testing at_
  simp only [StartRun.step, at_] at hs
  split at hs
  · rename_i more
    split at hs
    · rename_i new
      cases hs
      have apart : caller ≠ tid := by
        simp only [fresh, Bool.and_eq_true, bne_iff_ne] at new
        exact Ne.symm new.1.1
      refine ⟨h.few, h.started, fun t mem => ?_, .starting (i := i)
        ⟨gathered.1, gathered.2, gathered.3, gathered.4, fun t mem => ?_⟩ more ?_ initialized
        ⟨silent.1, silent.2⟩ ?_ fun other apart => others.assign _ apart⟩
      · cases List.mem_append.mp mem with
        | inl old => exact h.threads t old
        | inr new =>
          rw [List.mem_singleton.mp new]
          exact made_kept apart
      · simp only [List.take_append_of_le_length (Nat.le_of_eq threads.symm)] at mem
        exact gathered.ready t mem
      · simp only [List.length_append, List.length_singleton, threads]
      · simp only [assign_same, threads]
    · cases hs
  · rename_i done
    cases hs
    have all : i = s.numThreads.toNat := by
      have within := gathered.within
      omega
    subst all
    refine ⟨h.few, h.started, h.threads, .posting
      ⟨gathered.1, gathered.2, gathered.3, gathered.4, gathered.5⟩ threads ?_
      ⟨silent.1, silent.2⟩ (assign_same _ caller _) fun other apart => others.assign _ apart⟩
    simp only [initialized]

theorem Ordered.gather {s t : StartRun φ} {caller tid i k : Nat} (h : s.Ordered)
    (at_ : s.callers caller = .starting i k) (hs : s.step (.next caller tid) = some t) :
    t.Ordered := by
  obtain ⟨rfl, gathered, more, threads, initialized, silent, others⟩ := h.phase.inStartLoop at_
  simp only [StartRun.step, at_] at hs
  split at hs
  · rename_i u here
    simp only [Option.ite_none_right_eq_some, Option.some.injEq] at hs
    obtain ⟨started, rfl⟩ := hs
    refine ⟨h.few, h.started, h.threads, .pool (i := k + 1)
      ⟨gathered.1, gathered.2, ?_, ?_, fun t mem => ?_⟩ threads initialized
      ⟨silent.1, silent.2⟩ (assign_same _ caller _) fun other apart => others.assign _ apart⟩
    · simp only
      omega
    · simp only [gathered.loops, List.range_succ]
    · simp only [List.take_add_one, here, Option.toList_some] at mem
      cases List.mem_append.mp mem with
      | inl old => exact gathered.ready t old
      | inr new =>
        rw [List.mem_singleton.mp new]
        exact started
  · cases hs

theorem Ordered.post {s t : StartRun φ} {caller tid : Nat} (h : s.Ordered)
    (at_ : s.callers caller = .posting) (hs : s.step (.next caller tid) = some t) :
    t.Ordered := by
  obtain ⟨gathered, threads, initialized, silent, others⟩ := h.phase.handing at_
  have outside (other : Nat) : assign s.callers caller .outside other = .outside := by
    by_cases here : other = caller
    · rw [here, assign_same]
    · exact others.assign _ here
  have same : Gathered { s with callers := assign s.callers caller .outside }
      s.numThreads.toNat := ⟨gathered.1, gathered.2, gathered.3, gathered.4, gathered.5⟩
  simp only [StartRun.step, at_] at hs
  split at hs
  · cases hs
    refine ⟨h.few, h.started, h.threads, .posted ⟨same.1, same.2, same.3, same.4, same.5⟩ threads
      initialized ?_ outside⟩
    simp only [silent.1, silent.2]
  · cases hs
    refine ⟨h.few, h.started, h.threads, .posted ⟨same.1, same.2, same.3, same.4, same.5⟩ threads
      initialized ?_ outside⟩
    simp only [silent.1, silent.2]

theorem Ordered.thread {s t : StartRun φ} {k : Nat} {l : ThreadAct φ} (h : s.Ordered)
    (hs : s.step (.thread k l) = some t) : t.Ordered := by
  simp only [StartRun.step] at hs
  split at hs
  · rename_i v here
    simp only [Option.ite_none_right_eq_some] at hs
    obtain ⟨allowed, hs⟩ := hs
    obtain ⟨u, ran, rfl⟩ := Option.map_eq_some_iff.mp hs
    have stays : l ≠ .destroy := by
      rintro rfl
      cases allowed
    obtain ⟨kept, started⟩ := (h.threads v (List.mem_of_getElem? here)).step stays ran
    have length : (s.threads.set k u).length = s.threads.length := List.length_set
    refine ⟨h.few, h.started, fun w mem => ?_, ?_⟩
    · cases List.mem_or_eq_of_mem_set mem with
      | inl old => exact h.threads w old
      | inr new =>
        rw [new]
        exact kept
    · cases h.phase with
      | idle _ _ _ threads =>
        rw [threads] at here
        cases here
      | pool gathered threads initialized silent caller others =>
        exact .pool (gathered.set here started) (length.trans threads) initialized
          ⟨silent.1, silent.2⟩ caller others
      | starting gathered more threads initialized silent caller others =>
        exact .starting (gathered.set here started) more (length.trans threads) initialized
          ⟨silent.1, silent.2⟩ caller others
      | posting gathered threads initialized silent caller others =>
        exact .posting (gathered.set here started) (length.trans threads) initialized
          ⟨silent.1, silent.2⟩ caller others
      | posted gathered threads initialized once callers =>
        exact .posted (gathered.set here started) (length.trans threads) initialized once callers
  · cases hs

theorem Ordered.runFunctor {s t : StartRun φ} (h : s.Ordered)
    (hs : s.step .runFunctor = some t) : t.Ordered := by
  simp only [StartRun.step, Option.ite_none_right_eq_some, Option.some.injEq] at hs
  obtain ⟨waits, rfl⟩ := hs
  refine ⟨h.few, h.started, h.threads, ?_⟩
  cases h.phase with
  | idle _ _ _ _ _ silent | pool _ _ _ silent | starting _ _ _ _ silent | posting _ _ _ silent =>
    exact absurd silent.pending (by omega)
  | posted gathered threads initialized once callers =>
    have still : s.listens + 1 + (s.pending - 1) = 1 := by omega
    exact .posted ⟨gathered.1, gathered.2, gathered.3, gathered.4, gathered.5⟩ threads
      initialized still callers

theorem Ordered.step {s t : StartRun φ} {l : StartAct φ} (h : s.Ordered) (ok : s.BeforeWrap l)
    (hs : s.step l = some t) : t.Ordered := by
  cases l with
  | setThreadNum n =>
    simp only [StartRun.step, Option.ite_none_right_eq_some, Option.some.injEq] at hs
    obtain ⟨none, rfl⟩ := hs
    exact h.setThreadNum n none
  | start thread => exact h.start ok hs
  | thread k l => exact h.thread hs
  | runFunctor => exact h.runFunctor hs
  | next caller tid =>
    cases at_ : s.callers caller with
    | outside => simp [StartRun.step, at_] at hs
    | pool i => exact h.test at_ hs
    | starting i k => exact h.gather at_ hs
    | posting => exact h.post at_ hs

theorem Ordered.prepared {s : StartRun φ} (h : s.Ordered) : s.Prepared := by
  cases h.phase with
  | idle _ begun _ _ _ silent =>
    refine ⟨by omega, ?_, fun some => ?_⟩
    · rw [silent.1, silent.2]
      exact Nat.zero_le 1
    · rw [silent.1, silent.2] at some
      cases some
  | pool gathered _ _ silent | starting gathered _ _ _ silent | posting gathered _ _ silent =>
    refine ⟨Nat.le_of_eq gathered.begun, ?_, fun some => ?_⟩
    · rw [silent.1, silent.2]
      exact Nat.zero_le 1
    · rw [silent.1, silent.2] at some
      cases some
  | posted gathered threads initialized once =>
    refine ⟨Nat.le_of_eq gathered.begun, Nat.le_of_eq once, fun _ => ?_⟩
    refine ⟨gathered.loops, threads, fun t mem => ?_, initialized⟩
    have started : t.owner = .started := by
      apply gathered.ready
      rw [List.take_of_length_le (Nat.le_of_eq threads)]
      exact mem
    exact ⟨started, (h.threads t mem).published started⟩

/-- When `started_` comes round to zero, the server is started again. -/
theorem Ordered.wraps {s t : StartRun φ} {l : StartAct φ} (h : s.Ordered)
    (hs : s.step l = some t) (prepared : t.Prepared) : s.BeforeWrap l := by
  cases l with
  | start thread =>
    apply Decidable.byContradiction
    intro late
    have late : ¬ s.calls < 4294967296 := late
    have last : s.calls = 4294967296 := Nat.le_antisymm h.few (Nat.le_of_not_lt late)
    have zero : s.started = 0 := by
      rw [h.started, last]
    have begun : s.begun = 1 := by
      cases h.phase with
      | idle calls => exact absurd calls (by omega)
      | pool gathered | starting gathered | posting gathered | posted gathered =>
        exact gathered.begun
    simp only [StartRun.step, zero, if_true, Option.ite_none_right_eq_some,
      Option.some.injEq] at hs
    obtain ⟨_, rfl⟩ := hs
    have twice := prepared.begun
    simp only [begun] at twice
    omega
  | _ => trivial

/-- However the callers of `start` and the threads of the pool are scheduled, the
server is started once, and its acceptor listens once, when every loop of the pool has
been published by its thread, exactly as long as `start` is called no more than 2^32
times. -/
theorem prepared_iff {s : StartRun φ} (hs : s.Start) (ls : List (StartAct φ)) :
    machine.Always Prepared s ls ↔ machine.Steps BeforeWrap s ls := by
  apply always_iff_steps (I := Ordered) (fun _ h => h.prepared) ?_ ?_ hs.ordered
  · exact fun _ _ _ ordered ran ok => ordered.step ok ran
  · exact fun _ _ _ ordered ran prepared => ordered.wraps ran prepared

def unstarted : StartRun Nat where
  baseId := 1
  started := 0
  numThreads := 0
  initCallback := false
  threads := []
  loops := []
  callers := fun _ => .outside
  initialized := 0
  pending := 0
  listens := 0
  calls := 0
  begun := 0

theorem unstarted_start : unstarted.Start :=
  ⟨rfl, rfl, rfl, fun _ => rfl, rfl, rfl, rfl, rfl, rfl⟩

/-- Threads 2 and 1 call `start`, and thread 2 makes one thread; the base loop runs
`listen`. -/
def bothStart : List (StartAct Nat) :=
  [.setThreadNum 1, .start 2, .start 1, .next 2 7, .thread 0 .owner, .thread 0 .owner,
    .thread 0 .owner, .thread 0 .func, .thread 0 .func, .thread 0 .func, .thread 0 .func,
    .thread 0 .owner, .thread 0 .owner, .thread 0 .owner, .next 2 0, .next 2 0, .next 2 0,
    .runFunctor]

theorem prepared_iff_both : machine.Always Prepared unstarted bothStart ∧
    ∃ t, machine.exec unstarted bothStart = some t ∧ t.listens = 1 ∧ t.loops = [0] := by
  have run : (machine.exec unstarted bothStart).map (fun t => (t.listens, t.loops)) =
      some (1, [0]) := by decide +kernel
  have few : machine.Steps BeforeWrap unstarted bothStart := by decide +kernel
  obtain ⟨t, ht, found⟩ := Option.map_eq_some_iff.mp run
  obtain ⟨listens, loops⟩ := Prod.mk.inj found
  exact ⟨(prepared_iff unstarted_start bothStart).mpr few, t, ht, listens, loops⟩

end StartRun
end Kenmuduo
