import Kenmuduo.Ownership
import Kenmuduo.Potential

/-!
# The last pointer

A step lets go of pointers: one that a thread of the user has stored, the
arguments of callbacks that return, what a batch held to its end, and what a
task held that is done and has not handed it on. The connection is gone with the
last of them.
-/

namespace Kenmuduo
open Transition

namespace ServerRun

/-- The task hands its pointer on: to the functor it posts, to the close
callback, to a callback of the user or to a functor that it queues. -/
def handsOn (s : ServerRun) (answer : Answer) (task : Task) : Bool :=
  match task with
  | .runInLoop _ _ | .removeConnection _ | .functor (.removeConnectionInLoop _) => true
  | task =>
    match s.result answer task with
    | some (_, .ok (_, effects)) =>
      effects.contains .closeCallback || effects.any (fun e => e.callback.isSome) ||
        effects.any Effect.queues
    | _ => false

end ServerRun

namespace OwnedRun

/-- `use_count()` of the connection's pointers. -/
def useCount (s : OwnedRun) (conn : Nat) : Nat :=
  (s.entered conn).toNat + total
    (fun thread => (s.pointers thread).count conn + (s.kept thread conn).toNat) s.threads

/-- The pointers that a step lets go of. -/
def dropped (s : OwnedRun) : OwnerAct → List Nat
  | .drop _ conn => [conn]
  | .returns thread => ((s.callbacks thread).filter fun callback =>
      !decide (callback.2 < (s.run.todo thread).length)).map Prod.fst
  | .server (.runFunctor loop) =>
    match s.run.frame loop with
    | .batch [] => s.called loop ++ s.running loop
    | _ => []
  | .server (.task thread answer) =>
    match s.run.todo thread with
    | task :: _ => if s.run.handsOn answer task then [] else task.binds.toList
    | [] => []
  | _ => []

/-- `connectionDestroyed` of the connection has run, or is about to. -/
def gone (s : OwnedRun) (l : OwnerAct) (conn : Nat) : Bool :=
  s.run.destroyed conn ||
    match l with
    | .server (.task thread _) => (s.run.todo thread).head?.bind Task.destroying == some conn
    | _ => false

/-- The server remembers its connections, and of a connection that is gone and
due not all pointers are let go of. -/
def Keeps (due : OwnedRun → Nat → Bool) (s : OwnedRun) (l : OwnerAct) : Prop :=
  (∀ act ∈ l.act, s.Remembers act) ∧
  ∀ conn ∈ s.dropped l, s.gone l conn = true → due s conn = true →
    (s.dropped l).count conn < s.useCount conn

instance (due : OwnedRun → Nat → Bool) (s : OwnedRun) (l : OwnerAct) :
    Decidable (s.Keeps due l) :=
  inferInstanceAs (Decidable ((∀ act ∈ l.act, s.Remembers act) ∧
    ∀ conn ∈ s.dropped l, s.gone l conn = true → due s conn = true →
      (s.dropped l).count conn < s.useCount conn))

end OwnedRun

/-! ## Where pointers go -/

namespace ServerRun

theorem mem_tasks {s : ServerRun} {thread : Nat} {task : Task} : task ∈ s.tasks thread ↔
    task ∈ s.todo thread ∨ ∃ cb, (cb ∈ s.pendingFunctors thread ∨
      cb ∈ (s.frame thread).functors) ∧ .functor cb = task := by
  simp only [tasks, List.mem_append, List.mem_map]

/-- A task leaves the other tasks with their threads. -/
theorem runTask_tasks {s t : ServerRun} {thread k : Nat} {answer : Answer} {task old : Task}
    (ran : s.runTask k answer task = some t) (mem : old ∈ s.tasks thread) :
    old ∈ t.tasks thread := by
  rcases mem_tasks.mp mem with own | ⟨cb, queued | batched, rfl⟩
  · exact mem_tasks.mpr (.inl (runTask_keeps ran (p := .todo thread) own))
  · have kept := runTask_keeps ran (p := .pending thread) (List.mem_map_of_mem queued)
    obtain ⟨cb', still, same⟩ := List.mem_map.mp kept
    exact mem_tasks.mpr (.inr ⟨cb', .inl still, same⟩)
  · refine mem_tasks.mpr (.inr ⟨cb, .inr ?_, rfl⟩)
    rw [runTask_frame ran]
    exact batched

/-- What waits for a thread waits on, until the thread takes it up. -/
theorem step_tasks {s t : ServerRun} {act : ServerAct} {thread : Nat} {task : Task}
    (ran : s.step act = some t) (mem : task ∈ s.tasks thread) : task ∈ t.tasks thread ∨
      ∃ answer rest, act = .task thread answer ∧ s.todo thread = task :: rest := by
  have functor {p : Place} {cb : ServerFunctor} (here : p.thread = some thread)
      (waits : .functor cb ∈ s.work [] p) (placed : ∀ k, p ≠ .todo k) :
      .functor cb ∈ t.tasks thread := by
    rcases step_waits ran waits with ⟨q, same, mem, _⟩ | ⟨_, _, _, _, own, _⟩ | ⟨_, _, _, other⟩
    · exact mem_tasks_of_work mem (same.trans here) fun _ other => by cases other
    · exact absurd own (placed _)
    · cases other
  rcases mem_tasks.mp mem with own | ⟨cb, queued | batched, rfl⟩
  · rcases step_waits (p := .todo thread) ran own with
      ⟨q, same, waits, rfl | ⟨cb, rfl⟩⟩ | ⟨_, answer, rest, rfl, here, next⟩ | ⟨_, _, none, _⟩
    · exact .inl (mem_tasks.mpr (.inl waits))
    · exact .inl (mem_tasks_of_work waits same fun _ other => by cases other)
    · cases here
      exact .inr ⟨answer, rest, rfl, next⟩
    · cases none
  · exact .inl (functor (p := .pending thread) rfl (List.mem_map_of_mem queued) (by simp))
  · exact .inl (functor (p := .frame thread) rfl (batch_work batched) (by simp))

theorem result_binds {s : ServerRun} {answer : Answer} {task : Task} {conn k : Nat}
    {result : Except Fault (TcpConnection × List Effect)}
    (hr : s.result answer task = some (k, result)) (binds : task.binds = some conn) :
    k = conn := by
  cases task with
  | functor cb =>
    cases cb with
    | connectEstablished | connectionDestroyed =>
      cases hr
      exact Option.some.inj binds
    | _ => cases binds <;> cases hr
  | handleClose | handleError | handleRead | handleWrite =>
    cases hr
    exact Option.some.inj binds
  | setDisconnecting | destroyServer => cases binds
  | runInLoop | removeConnection => cases hr

theorem handsOn_effects {s : ServerRun} {answer : Answer} {task : Task} {conn : Nat}
    {c : TcpConnection} {effects : List Effect}
    (hr : s.result answer task = some (conn, .ok (c, effects)))
    (hands : s.handsOn answer task = true) :
    effects.contains .closeCallback = true ∨ effects.any (fun e => e.callback.isSome) = true ∨
      effects.any Effect.queues = true := by
  unfold handsOn at hands
  split at hands
  · cases hr
  · cases hr
  · cases hr
  · rw [hr] at hands
    simpa only [Bool.or_eq_true, or_assoc] using hands

end ServerRun

namespace OwnedRun

theorem mem_pointers {s : OwnedRun} {thread conn : Nat} : conn ∈ s.pointers thread ↔
    (∃ task ∈ s.run.tasks thread, task.binds = some conn) ∨ conn ∈ s.called thread ∨
      conn ∈ s.queued thread ∨ conn ∈ s.running thread ∨
      conn ∈ (s.callbacks thread).map Prod.fst := by
  simp only [pointers, List.mem_append, List.mem_filterMap, or_assoc]

/-- More pointers than `n` are an entry, pointers of other threads, or more than
`n` of this one. -/
theorem holder {s : OwnedRun} {conn n : Nat} (k : Nat) (spare : n < s.useCount conn) :
    s.entered conn = true ∨
    (∃ thread, thread < s.threads ∧ thread ≠ k ∧
      (conn ∈ s.pointers thread ∨ s.kept thread conn = true)) ∨
    (k < s.threads ∧ n < (s.pointers k).count conn + (s.kept k conn).toNat) := by
  cases entered : s.entered conn with
  | true => exact .inl rfl
  | false =>
    refine .inr (Classical.or_iff_not_imp_left.mpr fun alone => ?_)
    have none : ∀ i, i < s.threads → i ≠ k →
        (s.pointers i).count conn + (s.kept i conn).toNat = 0 := by
      intro i below other
      refine Classical.byContradiction fun some => alone ⟨i, below, other, ?_⟩
      cases stores : s.kept i conn with
      | true => exact .inr rfl
      | false =>
        rw [stores] at some
        exact .inl (List.count_pos_iff.mp (Nat.pos_of_ne_zero some))
    have own := total_others none
    simp only [useCount, entered, Bool.toNat_false, Nat.zero_add] at spare
    split at own
    · exact ⟨by assumption, by omega⟩
    · omega

/-! ## What a step leaves -/

/-- A batch ends. -/
def Ends (s : OwnedRun) (l : OwnerAct) (loop : Nat) : Prop :=
  l = .server (.runFunctor loop) ∧ s.run.frame loop = .batch []

/-- What a step leaves with a thread. -/
structure Leaves (s t : OwnedRun) (l : OwnerAct) (thread : Nat) : Prop where
  tasks : ∀ task ∈ s.run.tasks thread, task ∈ t.run.tasks thread ∨
    ∃ answer rest, l = .server (.task thread answer) ∧ s.run.todo thread = task :: rest
  called : s.Ends l thread ∨ ∀ conn ∈ s.called thread, conn ∈ t.called thread
  queued : ∀ conn ∈ s.queued thread, conn ∈ t.queued thread ∨ conn ∈ t.running thread
  running : s.Ends l thread ∨ ∀ conn ∈ s.running thread, conn ∈ t.running thread
  callbacks : ∀ callback ∈ s.callbacks thread, callback ∈ t.callbacks thread ∨
    (l = .returns thread ∧ ¬ callback.2 < (s.run.todo thread).length)
  kept : ∀ conn, s.kept thread conn = true → t.kept thread conn = true ∨ l = .drop thread conn

/-- Only a batch holds what the user's functors in it bind. -/
def Swept (s : OwnedRun) : Prop :=
  ∀ loop, s.running loop = [] ∨ ∃ functors, s.run.frame loop = .batch functors

theorem Leaves.user {s t : OwnedRun} {l : OwnerAct} {thread : Nat} (run : t.run = s.run)
    (called : t.called = s.called) (queued : t.queued = s.queued) (running : t.running = s.running)
    (callbacks : ∀ callback ∈ s.callbacks thread, callback ∈ t.callbacks thread ∨
      (l = .returns thread ∧ ¬ callback.2 < (s.run.todo thread).length))
    (kept : ∀ conn, s.kept thread conn = true → t.kept thread conn = true ∨ l = .drop thread conn) :
    s.Leaves t l thread := by
  refine ⟨?_, .inr ?_, ?_, .inr ?_, callbacks, kept⟩
  · rw [run]
    exact fun _ => .inl
  · rw [called]
    exact fun _ => id
  · rw [queued]
    exact fun _ => .inl
  · rw [running]
    exact fun _ => id

theorem performed_leaves (s : OwnedRun) (k conn : Nat) (c : TcpConnection) (effects : List Effect)
    (thread : Nat) :
    (∀ other ∈ s.queued thread, other ∈ (s.performed k conn c effects).queued thread) ∧
    ∀ callback ∈ s.callbacks thread,
      callback ∈ (s.performed k conn c effects).callbacks thread := by
  constructor
  · intro other mem
    simp only [performed]
    split
    · by_cases home : thread = c.loop
      · subst home
        rw [assign_same]
        exact List.mem_append_left _ mem
      · rw [assign_other _ _ home]
        exact mem
    · exact mem
  · intro callback mem
    simp only [performed]
    split
    · by_cases own : thread = k
      · subst own
        rw [assign_same]
        exact List.mem_cons_of_mem _ mem
      · rw [assign_other _ _ own]
        exact mem
    · exact mem

theorem follow_leaves {s : OwnedRun} {act : ServerAct} {run : ServerRun} (swept : s.Swept)
    (ran : s.run.step act = some run) (thread : Nat) :
    s.Leaves (s.follow act run) (.server act) thread := by
  have tasks : ∀ task ∈ s.run.tasks thread, task ∈ (s.follow act run).run.tasks thread ∨
      ∃ answer rest, OwnerAct.server act = .server (.task thread answer) ∧
        s.run.todo thread = task :: rest := by
    intro task waits
    rw [(s.follow_run act run).1]
    rcases ServerRun.step_tasks ran waits with still | ⟨answer, rest, rfl, next⟩
    · exact .inl still
    · exact .inr ⟨answer, rest, rfl, next⟩
  cases act with
  | newConnection | poll | send | shutdown | destroyServer =>
    exact ⟨tasks, .inr fun _ => id, fun _ => .inl, .inr fun _ => id, fun _ => .inl, fun _ => .inl⟩
  | dispatch loop locked =>
    simp only [follow] at tasks ⊢
    split
    · rename_i hf
      simp only [hf] at tasks
      by_cases here : thread = loop
      · subst here
        refine ⟨tasks, .inr fun _ => id, ?_, .inr ?_, fun _ => .inl, fun _ => .inl⟩
        · intro conn queues
          exact .inr (by simpa only [swap, assign_same] using queues)
        · intro conn runs
          rcases swept thread with none | ⟨functors, batch⟩
          · rw [none] at runs
            cases runs
          · rw [hf] at batch
            cases batch
      · refine ⟨tasks, .inr fun _ => id, ?_, .inr ?_, fun _ => .inl, fun _ => .inl⟩
        · intro conn queues
          exact .inl (by simpa only [swap, assign_other _ _ here] using queues)
        · intro conn runs
          simpa only [swap, assign_other _ _ here] using runs
    · rename_i hf
      exact ⟨by simpa only [hf] using tasks, .inr fun _ => id, fun _ => .inl, .inr fun _ => id,
        fun _ => .inl, fun _ => .inl⟩
  | runFunctor loop =>
    simp only [follow] at tasks ⊢
    cases hf : (s.run.frame loop).functors with
    | cons cb rest =>
      simp only [hf] at tasks
      refine ⟨tasks, .inr ?_, fun _ => .inl, .inr fun _ => id, fun _ => .inl, fun _ => .inl⟩
      intro conn calls
      by_cases here : thread = loop
      · subst here
        simp only [assign_same]
        exact List.mem_append_right _ calls
      · simpa only [assign_other _ _ here] using calls
    | nil =>
      simp only [hf] at tasks
      by_cases here : thread = loop
      · subst here
        have ends : s.Ends (.server (.runFunctor thread)) thread := by
          refine ⟨rfl, ?_⟩
          cases ServerRun.stepped ran with
          | next at_ _ =>
            rw [at_] at hf
            cases hf
          | batchEnd at_ _ => exact at_
        exact ⟨tasks, .inl ends, fun _ => .inl, .inl ends, fun _ => .inl, fun _ => .inl⟩
      · refine ⟨tasks, .inr ?_, fun _ => .inl, .inr ?_, fun _ => .inl, fun _ => .inl⟩
        · intro conn calls
          simpa only [assign_other _ _ here] using calls
        · intro conn runs
          simpa only [assign_other _ _ here] using runs
  | task k answer =>
    simp only [follow] at tasks ⊢
    split
    · rename_i conn c effects hr
      simp only [hr] at tasks
      obtain ⟨queued, callbacks⟩ :=
        performed_leaves { s with run := run } k conn c effects thread
      exact ⟨tasks, .inr fun _ => id, fun conn mem => .inl (queued conn mem), .inr fun _ => id,
        fun callback mem => .inl (callbacks callback mem), fun _ => .inl⟩
    · rename_i hr
      exact ⟨by simpa only [hr] using tasks, .inr fun _ => id, fun _ => .inl, .inr fun _ => id,
        fun _ => .inl, fun _ => .inl⟩

theorem step_leaves {s t : OwnedRun} {l : OwnerAct} (swept : s.Swept) (h : s.step l = some t)
    (thread : Nat) : s.Leaves t l thread := by
  cases l with
  | server act =>
    simp only [step] at h
    split at h
    · obtain ⟨run, ran, rfl⟩ := Option.map_eq_some_iff.mp h
      exact follow_leaves swept ran thread
    · cases h
  | poll loop activeChannels acceptor =>
    simp only [step] at h
    split at h
    · obtain ⟨run, ran, rfl⟩ := Option.map_eq_some_iff.mp h
      refine ⟨fun task waits => ?_, .inr fun _ => id, fun _ => .inl, .inr fun _ => id,
        fun _ => .inl, fun _ => .inl⟩
      rcases ServerRun.step_tasks ran waits with still | ⟨_, _, same, _⟩
      · exact .inl still
      · cases same
    · cases h
  | acceptFails =>
    simp only [step] at h
    split at h
    · split at h <;> cases h
      exact .user rfl rfl rfl rfl (fun _ => .inl) fun _ => .inl
    · cases h
  | returns k =>
    simp only [step] at h
    split at h <;> cases h
    refine .user rfl rfl rfl rfl (fun callback mem => ?_) fun _ => .inl
    by_cases here : thread = k
    · subst here
      by_cases stays : callback.2 < (s.run.todo thread).length
      · refine .inl ?_
        simp only [assign_same]
        exact List.mem_filter.mpr ⟨mem, decide_eq_true stays⟩
      · exact .inr ⟨rfl, stays⟩
    · exact .inl (by simpa only [assign_other _ _ here] using mem)
  | copy k conn =>
    simp only [step] at h
    split at h <;> cases h
    refine .user rfl rfl rfl rfl (fun _ => .inl) fun other stores => .inl ?_
    by_cases here : thread = k
    · subst here
      simp only [assign_same]
      by_cases same : other = conn
      · rw [same, assign_same]
      · rw [assign_other _ _ same]
        exact stores
    · simpa only [assign_other _ _ here] using stores
  | drop k conn =>
    simp only [step] at h
    split at h <;> cases h
    refine .user rfl rfl rfl rfl (fun _ => .inl) fun other stores => ?_
    by_cases here : thread = k
    · subst here
      by_cases same : other = conn
      · exact .inr (by rw [same])
      · refine .inl ?_
        simp only [assign_same]
        rw [assign_other _ _ same]
        exact stores
    · exact .inl (by simpa only [assign_other _ _ here] using stores)

/-! ## What is handed on -/

theorem step_follow {s t : OwnedRun} {act : ServerAct} (h : s.step (.server act) = some t) :
    act.thread < s.threads ∧ s.run.step act = some t.run ∧ t = s.follow act t.run := by
  simp only [step] at h
  split at h
  · rename_i may
    rw [Bool.and_eq_true, decide_eq_true_eq] at may
    obtain ⟨run, ran, rfl⟩ := Option.map_eq_some_iff.mp h
    rw [(s.follow_run act run).1]
    exact ⟨may.1, ran, rfl⟩
  · cases h

theorem functorHome_bound {s : OwnedRun} (kept : s.Kept) {cb : ServerFunctor} {conn : Nat}
    (valid : s.run.ValidFunctor cb) (binds : cb.binds = some conn) :
    s.run.functorHome cb < s.threads := by
  cases cb with
  | connectEstablished k | connectionDestroyed k => exact kept.loop_bound valid
  | removeConnectionInLoop k =>
    obtain ⟨n, within, _⟩ := kept.loops
    exact Nat.lt_of_le_of_lt (Nat.zero_le n) within
  | sendInLoop | shutdownInLoop => cases binds

theorem binds_known {s : OwnedRun} (kept : s.Kept) {p : Place} {task : Task} {conn : Nat}
    (mem : task ∈ s.run.work [] p) (binds : task.binds = some conn) : conn < s.run.accepted := by
  have valid := ServerRun.waiting_valid kept.inv mem
  cases task with
  | functor cb | runInLoop loop cb =>
    cases cb with
    | connectEstablished k | connectionDestroyed k =>
      cases binds
      exact valid
    | removeConnectionInLoop k =>
      cases binds
      exact ServerRun.told_known kept.inv valid
    | sendInLoop | shutdownInLoop => cases binds
  | handleClose | handleError | handleRead | handleWrite | removeConnection =>
    cases binds
    exact ServerRun.told_known kept.inv valid
  | setDisconnecting | destroyServer => cases binds

/-- A function of a connection makes a callback, or queues a functor of the user. -/
theorem performed_owned {s t : OwnedRun} {k conn : Nat} {answer : Answer} {task : Task}
    {rest : List Task} {c : TcpConnection} {effects : List Effect} (kept : s.Kept)
    (known : conn < s.run.accepted) (h : s.step (.server (.task k answer)) = some t)
    (next : s.run.todo k = task :: rest)
    (hr : s.run.result answer task = some (conn, .ok (c, effects)))
    (hands : effects.contains .closeCallback = true ∨
      effects.any (fun e => e.callback.isSome) = true ∨ effects.any Effect.queues = true) :
    t.owned conn = true := by
  obtain ⟨bound, ran, followed⟩ := step_follow h
  have threads : t.threads = s.threads := (step_run h).1
  simp only [follow, next, List.head?_cons, Option.bind_some, hr] at followed
  rcases hands with closes | calls | queues
  · obtain ⟨_, c', effects', same, performs⟩ := ServerRun.step_performs ran next hr
    obtain ⟨rfl, rfl⟩ := Prod.mk.inj (Except.ok.inj same)
    refine pointer_owned (show k < t.threads from threads ▸ bound) (mem_pointers.mpr (.inl ?_))
    refine ⟨.removeConnection conn, ServerRun.mem_tasks.mpr (.inl ?_), rfl⟩
    rw [performs.todo, closes]
    simp
  · refine pointer_owned (show k < t.threads from threads ▸ bound) (mem_pointers.mpr ?_)
    rw [followed]
    simp [performed, calls]
  · have home : c.loop < t.threads := by
      rw [threads, ServerRun.result_loop hr]
      exact kept.loop_bound known
    refine pointer_owned home (mem_pointers.mpr ?_)
    rw [followed]
    simp [performed, queues]

/-- A pointer that is handed on is there after the step. -/
theorem handsOn_owned {s t : OwnedRun} {k conn : Nat} {answer : Answer} {task : Task}
    {rest : List Task} (kept : s.Kept) (h : s.step (.server (.task k answer)) = some t)
    (next : s.run.todo k = task :: rest) (binds : task.binds = some conn)
    (hands : s.run.handsOn answer task = true) : t.owned conn = true := by
  obtain ⟨bound, ran, _⟩ := step_follow h
  have threads : t.threads = s.threads := (step_run h).1
  have waits : task ∈ s.run.work [] (.todo k) := ServerRun.mem_todo next
  have valid := ServerRun.waiting_valid kept.inv waits
  have known := binds_known kept waits binds
  obtain ⟨_, run⟩ := ServerRun.step_runs ran next
  -- a new task of a thread holds it
  have goesOn (new : Task) {p : Place} {thread : Nat} (here : p.thread = some thread)
      (within : thread < s.threads) (mem : new ∈ t.run.work [] p) (holds : new.binds = some conn)
      (visits : ∀ other, new ≠ .handleError other) : t.owned conn = true :=
    pointer_owned (threads ▸ within)
      (mem_pointers.mpr (.inl ⟨new, ServerRun.mem_tasks_of_work mem here visits, holds⟩))
  generalize arrived : t.run = u at ran run goesOn
  cases ServerRun.runTask_ran run with
  | performs hr _ =>
    obtain rfl := ServerRun.result_binds hr binds
    exact performed_owned kept known h next hr (ServerRun.handsOn_effects hr hands)
  | @hands loop cb =>
    have home := (kept.home _ _ waits).posts loop cb rfl
    have within : loop < s.threads := home ▸ functorHome_bound kept valid binds
    by_cases inline : k = loop
    · refine goesOn (.functor cb) (p := .todo k) rfl bound ?_ binds (by simp)
      rw [ServerRun.runInLoop, if_pos inline]
      exact ServerRun.call_calls _ _ _ _
    · refine goesOn (.functor cb) (p := .pending loop) rfl within ?_ binds (by simp)
      rw [ServerRun.runInLoop, if_neg inline]
      exact ServerRun.queueInLoop_queues _ _ _
  | erases =>
    cases binds
    exact (Destroying.of_remove kept threads known (arrived ▸ ran) next).owned
  | removes =>
    refine goesOn (.runInLoop 0 (.removeConnectionInLoop _)) (p := .todo k) rfl bound ?_ binds
      (by simp)
    exact ServerRun.call_calls _ _ _ _
  | destroyed | destroys => cases binds

/-! ## What is left -/

end OwnedRun

/-- The thread that takes the step. -/
def OwnerAct.acting : OwnerAct → Nat
  | .server act => act.thread
  | .poll loop _ _ => loop
  | .acceptFails => 0
  | .returns thread | .copy thread _ | .drop thread _ => thread

namespace OwnedRun

section
variable {s t : OwnedRun} {l : OwnerAct} {thread conn : Nat}

theorem Leaves.ofTask (leaves : s.Leaves t l thread) {task : Task}
    (waits : task ∈ s.run.tasks thread) (binds : task.binds = some conn) :
    conn ∈ t.pointers thread ∨
      ∃ answer rest, l = .server (.task thread answer) ∧ s.run.todo thread = task :: rest := by
  rcases leaves.tasks task waits with still | taken
  · exact .inl (mem_pointers.mpr (.inl ⟨task, still, binds⟩))
  · exact .inr taken

theorem Leaves.ofCalled (leaves : s.Leaves t l thread) (mem : conn ∈ s.called thread) :
    conn ∈ t.pointers thread ∨ s.Ends l thread := by
  rcases leaves.called with ends | still
  · exact .inr ends
  · exact .inl (mem_pointers.mpr (.inr (.inl (still conn mem))))

theorem Leaves.ofQueued (leaves : s.Leaves t l thread) (mem : conn ∈ s.queued thread) :
    conn ∈ t.pointers thread := by
  rcases leaves.queued conn mem with still | swapped
  · exact mem_pointers.mpr (.inr (.inr (.inl still)))
  · exact mem_pointers.mpr (.inr (.inr (.inr (.inl swapped))))

theorem Leaves.ofRunning (leaves : s.Leaves t l thread) (mem : conn ∈ s.running thread) :
    conn ∈ t.pointers thread ∨ s.Ends l thread := by
  rcases leaves.running with ends | still
  · exact .inr ends
  · exact .inl (mem_pointers.mpr (.inr (.inr (.inr (.inl (still conn mem))))))

theorem Leaves.ofCallback (leaves : s.Leaves t l thread) {callback : Nat × Nat}
    (mem : callback ∈ s.callbacks thread) : callback.1 ∈ t.pointers thread ∨
      (l = .returns thread ∧ ¬ callback.2 < (s.run.todo thread).length) := by
  rcases leaves.callbacks callback mem with still | done
  · exact .inl (mem_pointers.mpr (.inr (.inr (.inr (.inr (List.mem_map_of_mem still))))))
  · exact .inr done

/-- A pointer stays with its thread, unless the thread takes up a task, comes to
the end of a batch or returns from callbacks. -/
theorem Leaves.pointers (leaves : s.Leaves t l thread) (mem : conn ∈ s.pointers thread) :
    conn ∈ t.pointers thread ∨
    (∃ answer task rest, l = .server (.task thread answer) ∧
      s.run.todo thread = task :: rest ∧ task.binds = some conn) ∨
    s.Ends l thread ∨ l = .returns thread := by
  rcases mem_pointers.mp mem with ⟨task, waits, binds⟩ | calls | queues | runs | returns
  · rcases leaves.ofTask waits binds with still | ⟨answer, rest, taken, next⟩
    · exact .inl still
    · exact .inr (.inl ⟨answer, task, rest, taken, next, binds⟩)
  · exact (leaves.ofCalled calls).imp_right fun ends => .inr (.inl ends)
  · exact .inl (leaves.ofQueued queues)
  · exact (leaves.ofRunning runs).imp_right fun ends => .inr (.inl ends)
  · obtain ⟨callback, made, rfl⟩ := List.mem_map.mp returns
    exact (leaves.ofCallback made).imp_right fun done => .inr (.inr done.1)

theorem count_pointers (s : OwnedRun) (thread conn : Nat) : (s.pointers thread).count conn =
    ((s.run.tasks thread).filterMap Task.binds).count conn + (s.called thread).count conn +
      (s.queued thread).count conn + (s.running thread).count conn +
      ((s.callbacks thread).map Prod.fst).count conn := by
  simp only [OwnedRun.pointers, List.count_append]

/-- When a batch ends, the rest of the thread's pointers stay. -/
theorem ends_left (leaves : s.Leaves t (.server (.runFunctor thread)) thread)
    (ends : s.run.frame thread = .batch [])
    (spare : (s.dropped (.server (.runFunctor thread))).count conn <
      (s.pointers thread).count conn) : conn ∈ t.pointers thread := by
  simp only [dropped, ends, List.count_append, count_pointers] at spare
  have left : 0 < ((s.run.tasks thread).filterMap Task.binds).count conn ∨
      0 < (s.queued thread).count conn ∨ 0 < ((s.callbacks thread).map Prod.fst).count conn := by
    omega
  simp only [List.count_pos_iff] at left
  rcases left with binds | queues | returns
  · obtain ⟨task, waits, binds⟩ := List.mem_filterMap.mp binds
    exact (leaves.ofTask waits binds).resolve_right (by rintro ⟨_, _, same, _⟩; cases same)
  · exact leaves.ofQueued queues
  · obtain ⟨callback, made, rfl⟩ := List.mem_map.mp returns
    exact (leaves.ofCallback made).resolve_right (by rintro ⟨same, _⟩; cases same)

/-- When callbacks return, the rest of the thread's pointers stay. -/
theorem returns_left (leaves : s.Leaves t (.returns thread) thread)
    (spare : (s.dropped (.returns thread)).count conn < (s.pointers thread).count conn) :
    conn ∈ t.pointers thread := by
  by_cases mem : conn ∈ ((s.callbacks thread).filter fun callback =>
      decide (callback.2 < (s.run.todo thread).length)).map Prod.fst
  · obtain ⟨callback, going, rfl⟩ := List.mem_map.mp mem
    obtain ⟨made, later⟩ := List.mem_filter.mp going
    exact (leaves.ofCallback made).resolve_right fun done => done.2 (of_decide_eq_true later)
  · have split := List.countP_eq_countP_filter_add (s.callbacks thread)
      ((fun k => k == conn) ∘ Prod.fst) fun callback =>
        decide (callback.2 < (s.run.todo thread).length)
    simp only [← List.countP_map] at split
    simp only [dropped, count_pointers] at spare
    have none := List.count_eq_zero.mpr mem
    have left : 0 < ((s.run.tasks thread).filterMap Task.binds).count conn ∨
        0 < (s.called thread).count conn ∨ 0 < (s.queued thread).count conn ∨
        0 < (s.running thread).count conn := by
      simp only [List.count] at spare none ⊢
      omega
    simp only [List.count_pos_iff] at left
    rcases left with binds | calls | queues | runs
    · obtain ⟨task, waits, binds⟩ := List.mem_filterMap.mp binds
      exact (leaves.ofTask waits binds).resolve_right (by rintro ⟨_, _, same, _⟩; cases same)
    · exact (leaves.ofCalled calls).resolve_right (by rintro ⟨same, _⟩; cases same)
    · exact leaves.ofQueued queues
    · exact (leaves.ofRunning runs).resolve_right (by rintro ⟨same, _⟩; cases same)

/-- When a task is done, the rest of the thread's pointers stay. -/
theorem task_left {answer : Answer} {task : Task} {rest : List Task}
    (leaves : s.Leaves t (.server (.task thread answer)) thread)
    (ran : s.run.step (.task thread answer) = some t.run) (next : s.run.todo thread = task :: rest)
    (spare : task.binds.toList.count conn < (s.pointers thread).count conn) :
    conn ∈ t.pointers thread := by
  have others : ((s.run.tasks thread).filterMap Task.binds).count conn =
      task.binds.toList.count conn +
        ((((s.run.setTodo thread rest).tasks thread).filterMap Task.binds).count conn) := by
    simp only [ServerRun.tasks, next, ServerRun.setTodo, assign_same, List.cons_append,
      List.filterMap_cons]
    cases task.binds with
    | none => simp
    | some k => simp [List.count_cons, Nat.add_comm]
  rw [count_pointers, others] at spare
  have left : 0 < (((s.run.setTodo thread rest).tasks thread).filterMap Task.binds).count conn ∨
      0 < (s.called thread).count conn ∨ 0 < (s.queued thread).count conn ∨
      0 < (s.running thread).count conn ∨ 0 < ((s.callbacks thread).map Prod.fst).count conn := by
    omega
  simp only [List.count_pos_iff] at left
  rcases left with binds | calls | queues | runs | returns
  · obtain ⟨old, waits, binds⟩ := List.mem_filterMap.mp binds
    obtain ⟨_, run⟩ := ServerRun.step_runs ran next
    exact mem_pointers.mpr (.inl ⟨old, ServerRun.runTask_tasks run waits, binds⟩)
  · exact (leaves.ofCalled calls).resolve_right (by rintro ⟨same, _⟩; cases same)
  · exact leaves.ofQueued queues
  · exact (leaves.ofRunning runs).resolve_right (by rintro ⟨same, _⟩; cases same)
  · obtain ⟨callback, made, rfl⟩ := List.mem_map.mp returns
    exact (leaves.ofCallback made).resolve_right (by rintro ⟨same, _⟩; cases same)

end

/-- What the thread that takes the step has left owns the connection. -/
theorem acting_owned {s t : OwnedRun} {l : OwnerAct} {thread conn : Nat} (kept : s.Kept)
    (swept : s.Swept) (h : s.step l = some t) (bound : thread < s.threads)
    (spare : (s.dropped l).count conn <
      (s.pointers thread).count conn + (s.kept thread conn).toNat) : t.owned conn = true := by
  have leaves := step_leaves swept h thread
  have threads : t.threads = s.threads := (step_run h).1
  have holds (left : conn ∈ t.pointers thread) : t.owned conn = true :=
    pointer_owned (threads ▸ bound) left
  cases stores : s.kept thread conn with
  | true =>
    rcases leaves.kept conn stores with still | rfl
    · exact kept_owned (threads ▸ bound) still
    · rw [stores, Bool.toNat_true] at spare
      simp only [dropped, List.count_singleton_self] at spare
      have mem : conn ∈ s.pointers thread := List.count_pos_iff.mp (by omega)
      rcases leaves.pointers mem with still | ⟨_, _, _, other, _⟩ | ⟨other, _⟩ | other
      · exact holds still
      · cases other
      · cases other
      · cases other
  | false =>
    rw [stores, Bool.toNat_false, Nat.add_zero] at spare
    have mem : conn ∈ s.pointers thread := List.count_pos_iff.mp (by omega)
    rcases leaves.pointers mem with
      still | ⟨answer, task, rest, rfl, next, binds⟩ | ⟨rfl, ends⟩ | rfl
    · exact holds still
    · simp only [dropped, next] at spare
      split at spare
      · rename_i hands
        exact handsOn_owned kept h next binds hands
      · exact holds (task_left leaves (step_follow h).2.1 next spare)
    · exact holds (ends_left leaves ends spare)
    · exact holds (returns_left leaves spare)

/-- A connection is owned as long as a step does not let go of all its pointers. -/
theorem spare_owned {s t : OwnedRun} {l : OwnerAct} {conn : Nat} (kept : s.Kept)
    (swept : s.Swept) (h : s.step l = some t) (remembers : ∀ act ∈ l.act, s.Remembers act)
    (spare : (s.dropped l).count conn < s.useCount conn) : t.owned conn = true := by
  have threads : t.threads = s.threads := (step_run h).1
  rcases holder l.acting spare with entered | ⟨thread, bound, other, holds⟩ | ⟨bound, own⟩
  · obtain ⟨_, ⟨_, same⟩ | ⟨act, hact, actor, ran⟩⟩ := step_run h
    · refine entered_owned ?_
      rw [entered_same same threads]
      exact entered
    · rcases entered_step entered kept threads actor ran (remembers act hact) with still | waits
      · exact entered_owned still
      · exact waits.owned
  · have leaves := step_leaves swept h thread
    rcases holds with pointer | stores
    · rcases leaves.pointers pointer with still | ⟨_, _, _, rfl, _⟩ | ⟨rfl, _⟩ | rfl
      · exact pointer_owned (threads ▸ bound) still
      · exact absurd rfl other
      · exact absurd rfl other
      · exact absurd rfl other
    · rcases leaves.kept conn stores with still | rfl
      · exact kept_owned (threads ▸ bound) still
      · exact absurd rfl other
  · exact acting_owned kept swept h bound own

theorem useCount_pos {s : OwnedRun} {conn : Nat} (h : s.owned conn = true) :
    0 < s.useCount conn := by
  rw [OwnedRun.owned, Bool.or_eq_true, List.any_eq_true] at h
  rcases h with entered | ⟨thread, mem, holds⟩
  · simp only [useCount, entered, Bool.toNat_true]
    omega
  · refine Nat.lt_of_lt_of_le ?_ (Nat.le_add_left _ _)
    refine Nat.lt_of_lt_of_le ?_ (le_total (List.mem_range.mp mem))
    rw [Bool.or_eq_true, List.contains_iff_mem] at holds
    rcases holds with pointer | stores
    · exact Nat.add_pos_left (List.count_pos_iff.mpr pointer) _
    · rw [stores]
      exact Nat.succ_pos _

theorem Start.swept {s : OwnedRun} (h : s.Start) : s.Swept := fun loop => .inl (h.running loop)

theorem follow_swept {s : OwnedRun} {act : ServerAct} {run : ServerRun} (swept : s.Swept)
    (ran : s.run.step act = some run) : (s.follow act run).Swept := by
  intro loop
  rw [(s.follow_run act run).1]
  have still (frame : run.frame loop = s.run.frame loop)
      (running : (s.follow act run).running loop = s.running loop) :
      (s.follow act run).running loop = [] ∨ ∃ functors, run.frame loop = .batch functors := by
    rw [frame, running]
    exact swept loop
  by_cases other : loop = act.thread
  · subst other
    cases ServerRun.stepped ran with
    | accept | send | sendNot | shutdown | shutdownNot | destroyServer => exact still rfl rfl
    | poll hf => exact .inl ((swept _).resolve_right (by simp [ServerAct.thread, hf]))
    | visit hf =>
      refine .inl ?_
      simp only [follow, hf]
      exact (swept _).resolve_right (by simp [ServerAct.thread, hf])
    | swap | next => exact .inr ⟨_, assign_same _ _ _⟩
    | batchEnd hf =>
      refine .inl ?_
      simp only [follow, hf, LoopFrame.functors, ServerAct.thread, assign_same]
    | task _ _ run =>
      refine still (congrFun (ServerRun.runTask_frame run) _) ?_
      simp only [follow]
      split <;> rfl
  · refine still (ServerRun.step_frame ran other) ?_
    cases act with
    | dispatch k locked =>
      simp only [follow]
      split
      · exact assign_other _ _ other
      · rfl
    | runFunctor k =>
      simp only [follow]
      split
      · rfl
      · exact assign_other _ _ other
    | task k answer =>
      simp only [follow]
      split <;> rfl
    | _ => rfl

theorem Swept.step {s t : OwnedRun} {l : OwnerAct} (swept : s.Swept) (h : s.step l = some t) :
    t.Swept := by
  cases l with
  | server act =>
    obtain ⟨_, ran, followed⟩ := step_follow h
    rw [followed]
    exact follow_swept swept ran
  | poll k active acceptor =>
    simp only [OwnedRun.step] at h
    split at h
    · obtain ⟨run, ran, rfl⟩ := Option.map_eq_some_iff.mp h
      -- nothing but the acceptor tells this step from one of the server
      exact follow_swept swept ran
    · cases h
  | acceptFails =>
    simp only [OwnedRun.step] at h
    split at h
    · split at h <;> cases h
      exact swept
    · cases h
  | returns | copy | drop =>
    simp only [OwnedRun.step] at h
    split at h <;> cases h
    exact swept

theorem gone_of_destroyed {s t : OwnedRun} {l : OwnerAct} {conn : Nat} (h : s.step l = some t)
    (ended : t.run.destroyed conn = true) : s.gone l conn = true := by
  unfold gone
  rw [Bool.or_eq_true]
  obtain ⟨_, ⟨_, same⟩ | ⟨act, hact, _, ran⟩⟩ := step_run h
  · exact .inl (same ▸ ended)
  · rcases (ServerRun.step_destroyed ran conn).mp ended with was | ⟨thread, answer, rest, rfl, next⟩
    · exact .inl was
    · refine .inr ?_
      cases l with
      | server act =>
        cases hact
        simp [next, Task.destroying]
      | _ => cases hact

/-- A connection that is not destroyed is owned, and one that is due stays owned. -/
theorem Keeps.owned {due : OwnedRun → Nat → Bool} {s t : OwnedRun} {l : OwnerAct} {conn : Nat}
    (keeps : s.Keeps due l) (kept : s.Kept) (swept : s.Swept) (h : s.step l = some t)
    (known : conn < t.run.accepted) (waits : due s conn = true)
    (before : s.owned conn = true) : t.owned conn = true := by
  cases ended : t.run.destroyed conn with
  | false => exact (kept.step h keeps.1).owned known ended
  | true =>
    refine spare_owned kept swept h keeps.1 ?_
    by_cases mem : conn ∈ s.dropped l
    · exact keeps.2 conn mem (gone_of_destroyed h ended) waits
    · rw [List.count_eq_zero.mpr mem]
      exact useCount_pos before

end OwnedRun
end Kenmuduo
