import Kenmuduo.Confinement

/-!
# Who owns a connection

A server with the holders of the shared_ptr of each connection: its entry in
`connections_`, functors that bind it, functions that are running, and the
user's threads. A functor that binds `this` holds nothing, and neither do the
active channels of a loop.
-/

namespace Kenmuduo
open Transition

/-! ## Holders -/

/-- The connection whose shared_ptr a functor binds. -/
def ServerFunctor.binds : ServerFunctor → Option Nat
  | connectEstablished conn | connectionDestroyed conn | removeConnectionInLoop conn => some conn
  | sendInLoop _ _ | shutdownInLoop _ => none

/-- The connection whose `this` a functor binds. -/
def ServerFunctor.bindsThis : ServerFunctor → Option Nat
  | sendInLoop conn _ | shutdownInLoop conn => some conn
  | connectEstablished _ | connectionDestroyed _ | removeConnectionInLoop _ => none

/-- The connection that is held until the task is done: by a functor, by the
guard of `handleEvent`, or by the argument of `closeCallback_`. -/
def Task.binds : Task → Option Nat
  | functor cb | runInLoop _ cb => cb.binds
  | handleClose conn | handleError conn | handleRead conn | handleWrite conn
  | removeConnection conn => some conn
  | setDisconnecting _ | destroyServer _ => none

def Task.bindsThis : Task → Option Nat
  | functor cb | runInLoop _ cb => cb.bindsThis
  | handleClose _ | handleError _ | handleRead _ | handleWrite _ | removeConnection _
  | setDisconnecting _ | destroyServer _ => none

/-- `queueInLoop` of a functor that binds a user's callback and the connection. -/
def Effect.queues : Effect → Bool
  | writeComplete | highWater _ => true
  | _ => false

def LoopFrame.functors : LoopFrame → List ServerFunctor
  | batch functors => functors
  | polling | dispatching _ => []

def LoopFrame.activeChannels : LoopFrame → List (Nat × Mask)
  | dispatching activeChannels => activeChannels
  | polling | batch _ => []

/-- What waits for a thread: its own tasks, and the functors of its loop. -/
def ServerRun.tasks (s : ServerRun) (thread : Nat) : List Task :=
  s.todo thread ++
    (s.pendingFunctors thread ++ (s.frame thread).functors).map .functor

structure OwnedRun where
  run : ServerRun
  threads : Nat
  /-- A thread of the user keeps a pointer to the connection. -/
  kept : Nat → Nat → Bool
  /-- The callbacks a thread is in: their connection, and how many tasks are
  left when they return. -/
  callbacks : Nat → List (Nat × Nat)
  /-- What the functors of the batch that have been called still hold. -/
  called : Nat → List Nat
  /-- What the user's functors in a loop's queue hold. -/
  queued : Nat → List Nat
  /-- What those in its batch hold. -/
  running : Nat → List Nat
  /-- The acceptor's channel is active and still to be visited. -/
  acceptorDue : Bool

inductive OwnerAct
  | server (l : ServerAct)
  | poll (loop : Nat) (activeChannels : List (Nat × Mask)) (acceptor : Bool)
  | acceptFails
  | returns (thread : Nat)
  /-- The user stores a pointer that the thread has, or copies one that is stored. -/
  | copy (thread conn : Nat)
  | drop (thread conn : Nat)

namespace OwnedRun

def tearing (s : OwnedRun) : Bool :=
  (List.range s.threads).any fun thread => (s.run.todo thread).any fun
    | .destroyServer _ => true
    | _ => false

/-- `~TcpServer` has reset the connection's entry, or was begun without it. -/
def passed (s : OwnedRun) (conn : Nat) : Bool :=
  (List.range s.threads).any fun thread => (s.run.todo thread).any fun
    | .destroyServer conns => !conns.contains conn
    | _ => false

def entered (s : OwnedRun) (conn : Nat) : Bool :=
  match s.run.server with
  | some server => server.connections.any (fun item => item.2 == conn) && !s.passed conn
  | none => false

/-- The connections a thread has pointers to, with what waits for it. -/
def pointers (s : OwnedRun) (thread : Nat) : List Nat :=
  (s.run.tasks thread).filterMap Task.binds ++ s.called thread ++ s.queued thread ++
    s.running thread ++ (s.callbacks thread).map Prod.fst

def owned (s : OwnedRun) (conn : Nat) : Bool :=
  s.entered conn || (List.range s.threads).any fun thread =>
    (s.pointers thread).contains conn || s.kept thread conn

/-- The user's code on the thread has a pointer to the connection. -/
def has (s : OwnedRun) (thread conn : Nat) : Bool :=
  s.kept thread conn || ((s.callbacks thread).map Prod.fst).contains conn ||
    (s.running thread).contains conn

def ready (s : OwnedRun) (thread : Nat) : Bool :=
  (s.callbacks thread).all fun callback => callback.2 < (s.run.todo thread).length

/-! ## Steps -/

/-- A thread goes on when its callbacks have returned; `tie_` can be locked while
its connection is owned; the user acts on connections it has a pointer to. -/
def allows (s : OwnedRun) : ServerAct → Bool
  | .newConnection _ => s.ready 0 && s.acceptorDue
  | .poll _ _ => false
  | .dispatch loop locked => s.ready loop &&
    match (s.run.frame loop).activeChannels with
    | (conn, _) :: _ => locked == s.owned conn
    | [] => loop != 0 || !s.acceptorDue
  | .runFunctor thread | .task thread _ => s.ready thread
  | .send thread conn _ | .shutdown thread conn => s.has thread conn
  | .destroyServer _ _ => !s.tearing

def swap (s : OwnedRun) (loop : Nat) : OwnedRun :=
  { s with
    running := assign s.running loop (s.queued loop)
    queued := assign s.queued loop [] }

/-- A function of the connection makes callbacks and queues functors. -/
def performed (s : OwnedRun) (thread conn : Nat) (c : TcpConnection) (effects : List Effect) :
    OwnedRun :=
  { s with
    callbacks :=
      if effects.any fun e => e.callback.isSome then
        assign s.callbacks thread ((conn, (s.run.todo thread).length) :: s.callbacks thread)
      else s.callbacks
    queued :=
      if effects.any Effect.queues then assign s.queued c.loop (s.queued c.loop ++ [conn])
      else s.queued }

/-- What holds pointers after a step of the server to `t`. -/
def follow (s : OwnedRun) (l : ServerAct) (t : ServerRun) : OwnedRun :=
  let next := { s with run := t }
  match l with
  | .newConnection _ => { next with acceptorDue := false }
  | .dispatch loop _ =>
    match s.run.frame loop with
    | .dispatching [] => next.swap loop
    | _ => next
  | .runFunctor loop =>
    match (s.run.frame loop).functors with
    | cb :: _ =>
      { next with called := assign s.called loop (cb.binds.toList ++ s.called loop) }
    | [] => { next with called := assign s.called loop [], running := assign s.running loop [] }
  | .task thread answer =>
    match (s.run.todo thread).head?.bind (s.run.result answer) with
    | some (conn, .ok (c, effects)) => next.performed thread conn c effects
    | _ => next
  | .poll _ _ | .send _ _ _ | .shutdown _ _ | .destroyServer _ _ => next

def step (s : OwnedRun) : OwnerAct → Option OwnedRun
  | .server l =>
    if l.thread < s.threads && s.allows l then (s.run.step l).map (s.follow l) else none
  | .poll loop activeChannels acceptor =>
    if loop < s.threads && s.ready loop then
      (s.run.step (.poll loop activeChannels)).map fun t =>
        { s with
          run := t
          acceptorDue := if loop = 0 then acceptor && s.run.server.isSome else s.acceptorDue }
    else none
  | .acceptFails =>
    match s.run.server, s.run.frame 0, s.run.todo 0 with
    | some _, .dispatching _, [] =>
      if s.ready 0 && s.acceptorDue then some { s with acceptorDue := false } else none
    | _, _, _ => none
  | .returns thread =>
    if s.run.inUserCode thread then
      some { s with callbacks := assign s.callbacks thread ((s.callbacks thread).filter
        fun callback => callback.2 < (s.run.todo thread).length) }
    else none
  | .copy thread conn =>
    if thread < s.threads && s.run.inUserCode thread &&
        (s.has thread conn || (List.range s.threads).any fun other => s.kept other conn) then
      some { s with kept := assign s.kept thread (assign (s.kept thread) conn true) }
    else none
  | .drop thread conn =>
    if s.run.inUserCode thread && s.kept thread conn then
      some { s with kept := assign s.kept thread (assign (s.kept thread) conn false) }
    else none

/-- A server before its first connection; no thread has a pointer. -/
structure Start (s : OwnedRun) : Prop where
  run : s.run.Start
  threads : ∀ server, s.run.server = some server → server.next = 0 ∧ server.numLoops < s.threads
  kept : ∀ thread conn, s.kept thread conn = false
  callbacks : ∀ thread, s.callbacks thread = []
  called : ∀ loop, s.called loop = []
  queued : ∀ loop, s.queued loop = []
  running : ∀ loop, s.running loop = []
  acceptorDue : s.acceptorDue = false

def machine : Machine OwnedRun OwnerAct := ⟨Start, step⟩

end OwnedRun

/-! ## How long a connection is owned -/

/-- The task is `connectionDestroyed` of the connection, or has it run. -/
def Task.destroys (conn : Nat) : Task → Bool
  | functor (.connectionDestroyed c) | runInLoop _ (.connectionDestroyed c) => c == conn
  | _ => false

theorem Task.destroys_cases {conn : Nat} {task : Task} (h : task.destroys conn = true) :
    task = .functor (.connectionDestroyed conn) ∨
      ∃ loop, task = .runInLoop loop (.connectionDestroyed conn) := by
  unfold destroys at h
  split at h
  · exact .inl (by rw [beq_iff_eq.mp h])
  · exact .inr ⟨_, by rw [beq_iff_eq.mp h]⟩
  · cases h

theorem Task.destroys_binds {conn : Nat} {task : Task} (h : task.destroys conn = true) :
    task.binds = some conn := by
  rcases destroys_cases h with rfl | ⟨loop, rfl⟩ <;> rfl

/-- The connection that `removeConnectionInLoop` is about to remove. -/
def Task.erasing : Task → Option Nat
  | functor (.removeConnectionInLoop conn) => some conn
  | _ => none

namespace ServerRun

theorem mem_tasks_of_work {s : ServerRun} {thread : Nat} {p : Place} {task : Task}
    (mem : task ∈ s.work [] p) (here : p.thread = some thread)
    (inactive : ∀ conn, task ≠ .handleError conn) : task ∈ s.tasks thread := by
  unfold tasks
  cases p with
  | todo k =>
    cases here
    exact List.mem_append_left _ mem
  | pending loop =>
    cases here
    rw [List.map_append]
    exact List.mem_append_right _ (List.mem_append_left _ mem)
  | frame loop =>
    cases here
    rw [work_frame] at mem
    rw [List.map_append]
    cases hf : s.frame thread with
    | polling =>
      rw [hf] at mem
      cases mem
    | dispatching active =>
      rw [hf] at mem
      obtain ⟨channel, _, rfl⟩ := List.mem_map.mp mem
      exact absurd rfl (inactive channel.1)
    | batch functors =>
      rw [hf] at mem
      exact List.mem_append_right _ (List.mem_append_right _ mem)
  | hand => cases mem

/-- A functor of a loop's batch waits with the loop. -/
theorem batch_work {s : ServerRun} {loop : Nat} {cb : ServerFunctor}
    (mem : cb ∈ (s.frame loop).functors) : .functor cb ∈ s.work [] (.frame loop) := by
  rw [work_frame]
  cases hf : s.frame loop with
  | polling | dispatching active =>
    rw [hf] at mem
    cases mem
  | batch functors =>
    rw [hf] at mem
    exact List.mem_map_of_mem mem

theorem work_of_mem_tasks {s : ServerRun} {thread : Nat} {task : Task}
    (mem : task ∈ s.tasks thread) : ∃ p, p.thread = some thread ∧ task ∈ s.work [] p := by
  unfold tasks at mem
  rw [List.map_append] at mem
  rcases List.mem_append.mp mem with own | functors
  · exact ⟨.todo thread, rfl, own⟩
  rcases List.mem_append.mp functors with queued | batched
  · exact ⟨.pending thread, rfl, queued⟩
  · obtain ⟨cb, inside, rfl⟩ := List.mem_map.mp batched
    exact ⟨.frame thread, rfl, batch_work inside⟩

end ServerRun

def OwnerAct.act : OwnerAct → Option ServerAct
  | server l => some l
  | poll loop activeChannels _ => some (.poll loop activeChannels)
  | acceptFails | returns _ | copy _ _ | drop _ _ => none

namespace OwnedRun

@[simp] theorem performed_run (s : OwnedRun) (thread conn : Nat) (c : TcpConnection)
    (effects : List Effect) : (s.performed thread conn c effects).run = s.run := rfl

theorem follow_run (s : OwnedRun) (l : ServerAct) (t : ServerRun) :
    (s.follow l t).run = t ∧ (s.follow l t).threads = s.threads := by
  cases l with
  | dispatch | runFunctor | task =>
    simp only [follow]
    split <;> exact ⟨rfl, rfl⟩
  | _ => exact ⟨rfl, rfl⟩

theorem step_run {s t : OwnedRun} {l : OwnerAct} (h : s.step l = some t) :
    t.threads = s.threads ∧ ((l.act = none ∧ t.run = s.run) ∨
      ∃ act, l.act = some act ∧ act.thread < s.threads ∧ s.run.step act = some t.run) := by
  cases l with
  | server l =>
    simp only [step] at h
    split at h
    · rename_i may
      rw [Bool.and_eq_true, decide_eq_true_eq] at may
      obtain ⟨run, ran, rfl⟩ := Option.map_eq_some_iff.mp h
      obtain ⟨next, threads⟩ := s.follow_run l run
      exact ⟨threads, .inr ⟨l, rfl, may.1, by rw [next, ran]⟩⟩
    · cases h
  | poll loop activeChannels acceptor =>
    simp only [step] at h
    split at h
    · rename_i may
      rw [Bool.and_eq_true, decide_eq_true_eq] at may
      obtain ⟨run, ran, rfl⟩ := Option.map_eq_some_iff.mp h
      exact ⟨rfl, .inr ⟨_, rfl, may.1, ran⟩⟩
    · cases h
  | acceptFails =>
    simp only [step] at h
    split at h
    · split at h <;> cases h
      exact ⟨rfl, .inl ⟨rfl, rfl⟩⟩
    · cases h
  | returns thread | copy thread conn | drop thread conn =>
    simp only [step] at h
    split at h <;> cases h
    exact ⟨rfl, .inl ⟨rfl, rfl⟩⟩

theorem entered_same {s t : OwnedRun} {conn : Nat} (run : t.run = s.run)
    (threads : t.threads = s.threads) : t.entered conn = s.entered conn := by
  unfold entered passed
  rw [run, threads]

theorem entered_owned {s : OwnedRun} {conn : Nat} (h : s.entered conn = true) :
    s.owned conn = true := by
  rw [owned, h]
  rfl

theorem pointer_owned {s : OwnedRun} {thread conn : Nat} (bound : thread < s.threads)
    (mem : conn ∈ s.pointers thread) : s.owned conn = true := by
  rw [owned, Bool.or_eq_true]
  refine .inr (List.any_eq_true.mpr ⟨thread, List.mem_range.mpr bound, ?_⟩)
  rw [List.contains_iff_mem.mpr mem]
  rfl

theorem kept_owned {s : OwnedRun} {thread conn : Nat} (bound : thread < s.threads)
    (stores : s.kept thread conn = true) : s.owned conn = true := by
  rw [owned, Bool.or_eq_true]
  refine .inr (List.any_eq_true.mpr ⟨thread, List.mem_range.mpr bound, ?_⟩)
  rw [stores, Bool.or_true]

/-- `connectionDestroyed` of the connection waits for a thread. -/
def Destroying (s : OwnedRun) (conn : Nat) : Prop :=
  ∃ thread, thread < s.threads ∧ ∃ task ∈ s.run.tasks thread, task.destroys conn = true

theorem Destroying.of_work {s : OwnedRun} {thread conn : Nat} {p : Place} {task : Task}
    (bound : thread < s.threads) (here : p.thread = some thread) (mem : task ∈ s.run.work [] p)
    (destroys : task.destroys conn = true) : s.Destroying conn := by
  refine ⟨thread, bound, task, ServerRun.mem_tasks_of_work mem here ?_, destroys⟩
  rintro other rfl
  cases destroys

theorem Destroying.owned {s : OwnedRun} {conn : Nat} (h : s.Destroying conn) :
    s.owned conn = true := by
  obtain ⟨thread, bound, task, mem, destroys⟩ := h
  have pointer : conn ∈ s.pointers thread := by
    have bound : conn ∈ (s.run.tasks thread).filterMap Task.binds :=
      List.mem_filterMap.mpr ⟨task, mem, task.destroys_binds destroys⟩
    simp only [pointers, List.mem_append, bound, true_or]
  rw [OwnedRun.owned, Bool.or_eq_true]
  refine .inr (List.any_eq_true.mpr ⟨thread, List.mem_range.mpr bound, ?_⟩)
  rw [List.contains_iff_mem.mpr pointer]
  rfl

theorem entered_iff {s : OwnedRun} {conn : Nat} : s.entered conn = true ↔
    ∃ server, s.run.server = some server ∧ (∃ item ∈ server.connections, item.2 = conn) ∧
      ∀ thread, thread < s.threads → ∀ conns, .destroyServer conns ∈ s.run.todo thread →
        conn ∈ conns := by
  have passed_iff : s.passed conn = false ↔ ∀ thread, thread < s.threads → ∀ conns,
      .destroyServer conns ∈ s.run.todo thread → conn ∈ conns := by
    rw [← Bool.not_eq_true, passed, List.any_eq_true]
    simp only [List.any_eq_true, List.mem_range]
    constructor
    · intro none thread bound conns mem
      by_cases here : conn ∈ conns
      · exact here
      · exact (none ⟨thread, bound, _, mem, by simpa using here⟩).elim
    · rintro all ⟨thread, bound, task, mem, past⟩
      split at past
      · rename_i conns
        simp [all thread bound conns mem] at past
      · cases past
  unfold entered
  split
  · rename_i server hs
    rw [Bool.and_eq_true, Bool.not_eq_true', passed_iff, List.any_eq_true]
    simp only [hs, Option.some.injEq, beq_iff_eq]
    constructor
    · exact fun here => ⟨server, rfl, here⟩
    · rintro ⟨_, rfl, here⟩
      exact here
  · rename_i none
    simp [none]

/-! ## What the server does not forget -/

/-- No connection is accepted under a name that is in use, or while the server is
destroyed, and none is removed under the name of another one. -/
def Remembers (s : OwnedRun) : ServerAct → Prop
  | .newConnection _ => s.tearing = false ∧ ∀ server ∈ s.run.server,
      ∀ item ∈ server.connections, item.1 ≠ server.getNextLoop.2.connName
  | .task thread _ => ∀ task ∈ (s.run.todo thread).head?, ∀ conn ∈ task.erasing,
      ∀ server ∈ s.run.server, ∀ item ∈ server.connections,
        item.1 = (s.run.conn conn).name → item.2 = conn
  | _ => True

instance (s : OwnedRun) : ∀ l, Decidable (s.Remembers l)
  | .newConnection _ => inferInstanceAs (Decidable (s.tearing = false ∧ ∀ server ∈ s.run.server,
      ∀ item ∈ server.connections, item.1 ≠ server.getNextLoop.2.connName))
  | .task thread _ => inferInstanceAs (Decidable (∀ task ∈ (s.run.todo thread).head?,
      ∀ conn ∈ task.erasing, ∀ server ∈ s.run.server, ∀ item ∈ server.connections,
        item.1 = (s.run.conn conn).name → item.2 = conn))
  | .poll _ _ | .dispatch _ _ | .runFunctor _ | .send _ _ _ | .shutdown _ _
  | .destroyServer _ _ => isTrue trivial

/-- What holds in every run; a connection that is not destroyed has an entry, or
`connectionDestroyed` waits for it. -/
structure Kept (s : OwnedRun) : Prop where
  inv : s.run.forgetting.Inv []
  home : s.run.AtHome
  loops : ∃ n, n < s.threads ∧ s.run.OnLoops n
  early : ∀ conn, s.run.destroyed conn = true → conn < s.run.accepted
  held : ∀ conn, conn < s.run.accepted → s.run.destroyed conn = false →
    s.entered conn = true ∨ s.Destroying conn

theorem Kept.loop_bound {s : OwnedRun} (kept : s.Kept) {conn : Nat}
    (known : conn < s.run.accepted) : (s.run.conn conn).loop < s.threads := by
  obtain ⟨n, bound, onLoops⟩ := kept.loops
  exact Nat.lt_of_le_of_lt (onLoops.loops conn known) bound

theorem Kept.owned {s : OwnedRun} (kept : s.Kept) {conn : Nat} (known : conn < s.run.accepted)
    (alive : s.run.destroyed conn = false) : s.owned conn = true := by
  rcases kept.held conn known alive with entered | destroying
  · rw [OwnedRun.owned, entered]
    rfl
  · exact destroying.owned

theorem Destroying.step {s t : OwnedRun} {act : ServerAct} {conn : Nat} (h : s.Destroying conn)
    (kept : s.Kept) (threads : t.threads = s.threads) (ran : s.run.step act = some t.run) :
    t.Destroying conn ∨ t.run.destroyed conn = true := by
  obtain ⟨thread, bound, task, mem, destroys⟩ := h
  obtain ⟨p, here, mem⟩ := ServerRun.work_of_mem_tasks mem
  rcases ServerRun.step_waits ran mem with ⟨q, same, mem', _⟩ | taken | ⟨_, other, _, rfl⟩
  · exact .inl (.of_work (threads ▸ bound) (same.trans here) mem' destroys)
  · obtain ⟨first, answer, rest, rfl, rfl, next⟩ := taken
    cases here
    rcases Task.destroys_cases destroys with rfl | ⟨loop, rfl⟩
    · exact .inr ((ServerRun.step_destroyed ran conn).mpr (.inr ⟨_, _, _, rfl, next⟩))
    · have known : conn < s.run.accepted := ServerRun.waiting_valid kept.inv mem
      obtain rfl : loop = (s.run.conn conn).loop := (kept.home _ _ mem).posts loop _ rfl
      obtain ⟨_, run⟩ := ServerRun.step_runs ran next
      have same : (s.run.setTodo thread rest).runInLoop thread (s.run.conn conn).loop
          (.connectionDestroyed conn) = t.run := Option.some.inj run
      have functor : (Task.functor (.connectionDestroyed conn)).destroys conn = true :=
        beq_self_eq_true conn
      refine .inl ?_
      by_cases inline : thread = (s.run.conn conn).loop
      · rw [ServerRun.runInLoop, if_pos inline] at same
        refine .of_work (p := .todo thread) (threads ▸ bound) rfl ?_ functor
        rw [← same]
        exact ServerRun.call_calls _ _ _ _
      · rw [ServerRun.runInLoop, if_neg inline] at same
        refine .of_work (p := .pending (s.run.conn conn).loop) (threads ▸ kept.loop_bound known) rfl
          ?_ functor
        rw [← same]
        exact ServerRun.queueInLoop_queues _ _ _
  · cases destroys

theorem destroyServer_arrives {s t : ServerRun} {act : ServerAct} (ran : s.step act = some t)
    {thread : Nat} {conns : List Nat} (mem : .destroyServer conns ∈ t.todo thread) :
    .destroyServer conns ∈ s.todo thread ∨
    (act = .destroyServer thread conns ∧
      ∃ server, s.server = some server ∧ conns.Perm (server.connections.map Prod.snd)) ∨
    ∃ answer conn rest, act = .task thread answer ∧
      s.todo thread = .destroyServer (conn :: conns) :: rest := by
  rcases ServerRun.step_arrives (p := .todo thread) ran mem with old | arrives
  · exact .inl old
  · cases arrives with
    | event hf events =>
      obtain h | h | h | h := ServerRun.mem_handleEvent events <;> cases h
    | @task _ answer first rest _ _ next _ follows =>
      cases follows with
      | rest => exact .inr (.inr ⟨answer, _, rest, rfl, next⟩)
    | destroyServer =>
      cases ServerRun.stepped ran with
      | destroyServer hs _ permitted => exact .inr (.inl ⟨rfl, _, hs, permitted⟩)

/-- `~TcpServer` has `connectionDestroyed` run for the next connection. -/
theorem Destroying.of_destroyServer {s t : OwnedRun} {thread conn : Nat} {answer : Answer}
    {conns : List Nat} {rest : List Task} (threads : t.threads = s.threads)
    (bound : thread < s.threads) (ran : s.run.step (.task thread answer) = some t.run)
    (next : s.run.todo thread = .destroyServer (conn :: conns) :: rest) : t.Destroying conn := by
  obtain ⟨_, run⟩ := ServerRun.step_runs ran next
  have same : (s.run.setTodo thread rest).call thread
      [.runInLoop (s.run.conn conn).loop (.connectionDestroyed conn), .destroyServer conns] =
      t.run := Option.some.inj run
  have waits : .runInLoop (s.run.conn conn).loop (.connectionDestroyed conn) ∈
      t.run.work [] (.todo thread) := by
    rw [← same]
    exact ServerRun.call_calls _ _ _ _
  exact .of_work (threads ▸ bound) rfl waits (beq_self_eq_true conn)

theorem Destroying.of_remove {s t : OwnedRun} {thread conn : Nat} {answer : Answer}
    {rest : List Task} (kept : s.Kept) (threads : t.threads = s.threads)
    (known : conn < s.run.accepted) (ran : s.run.step (.task thread answer) = some t.run)
    (next : s.run.todo thread = .functor (.removeConnectionInLoop conn) :: rest) :
    t.Destroying conn := by
  obtain ⟨_, run⟩ := ServerRun.step_runs ran next
  have waits : .functor (.connectionDestroyed conn) ∈
      t.run.work [] (.pending (s.run.conn conn).loop) := by
    simp only [ServerRun.runTask, ServerRun.runFunctor] at run
    split at run
    · rw [← Option.some.inj run]
      exact ServerRun.queueInLoop_queues _ _ _
    · cases run
  exact .of_work (threads ▸ kept.loop_bound known) rfl waits (beq_self_eq_true conn)

/-- A connection leaves `connections_` when `connectionDestroyed` waits for it. -/
theorem entered_step {s t : OwnedRun} {act : ServerAct} {conn : Nat} (h : s.entered conn = true)
    (kept : s.Kept) (threads : t.threads = s.threads) (bound : act.thread < s.threads)
    (ran : s.run.step act = some t.run) (remembers : s.Remembers act) :
    t.entered conn = true ∨ t.Destroying conn := by
  obtain ⟨server, hs, ⟨item, mem, rfl⟩, ahead⟩ := entered_iff.mp h
  have known : item.2 < s.run.accepted := kept.inv.registered server hs item mem
  by_cases next : ∃ thread answer rest conns, act = .task thread answer ∧
      s.run.todo thread = .destroyServer (item.2 :: conns) :: rest
  · obtain ⟨thread, answer, rest, conns, rfl, next⟩ := next
    exact .inr (.of_destroyServer threads bound ran next)
  -- the entry is not the one that `~TcpServer` comes to next
  have ahead' : ∀ thread, thread < t.threads → ∀ conns,
      .destroyServer conns ∈ t.run.todo thread → item.2 ∈ conns := by
    intro thread below conns due
    rw [threads] at below
    rcases destroyServer_arrives ran due with
      old | ⟨_, server', hs', perm⟩ | ⟨answer, first, rest, rfl, now⟩
    · exact ahead thread below conns old
    · cases hs.symm.trans hs'
      exact perm.mem_iff.mpr (List.mem_map_of_mem mem)
    · have still := ahead thread below (first :: conns) (by rw [now]; exact List.mem_cons_self)
      rcases List.mem_cons.mp still with rfl | later
      · exact absurd ⟨thread, answer, rest, conns, rfl, now⟩ next
      · exact later
  cases ServerRun.step_serves ran with
  | same same =>
    rw [hs] at same
    exact .inl (entered_iff.mpr ⟨server, same, ⟨item, mem, rfl⟩, ahead'⟩)
  | @accept server' sockfd hact hs' now =>
    subst hact
    cases hs.symm.trans hs'
    have stays : item ∈ (server.newConnection s.run.accepted sockfd).2.connections :=
      TcpServer.newConnection_keeps mem (remembers.2 server hs item mem)
    exact .inl (entered_iff.mpr ⟨_, now, ⟨item, stays, rfl⟩, ahead'⟩)
  | @erase server' thread answer conn rest hact now hs' erased =>
    subst hact
    cases hs.symm.trans hs'
    by_cases named : item.1 = (s.run.conn conn).name
    · have own : item.2 = conn :=
        remembers (.functor (.removeConnectionInLoop conn)) (by rw [now]; rfl) conn rfl server hs
          item mem named
      subst own
      exact .inr (.of_remove kept threads known ran now)
    · exact .inl (entered_iff.mpr ⟨_, erased,
        ⟨item, List.mem_filter.mpr ⟨mem, by simpa using named⟩, rfl⟩, ahead'⟩)
  | @destroyed thread answer rest hact now _ =>
    subst hact
    have left := ahead thread bound [] (by rw [now]; exact List.mem_cons_self)
    cases left

theorem Kept.held_step {s t : OwnedRun} {act : ServerAct} (kept : s.Kept)
    (threads : t.threads = s.threads) (bound : act.thread < s.threads)
    (ran : s.run.step act = some t.run) (remembers : s.Remembers act) {conn : Nat}
    (known : conn < t.run.accepted) (alive : t.run.destroyed conn = false) :
    t.entered conn = true ∨ t.Destroying conn := by
  have alive' : s.run.destroyed conn = false := by
    rw [← Bool.not_eq_true] at alive ⊢
    exact fun gone => alive ((ServerRun.step_destroyed ran conn).mpr (.inl gone))
  by_cases old : conn < s.run.accepted
  · rcases kept.held conn old alive' with entered | destroying
    · exact entered_step entered kept threads bound ran remembers
    · refine .inr ((destroying.step kept threads ran).resolve_right ?_)
      rw [alive]
      exact Bool.false_ne_true
  · obtain ⟨sockfd, server, rfl, hs, rfl, _, now, _⟩ := ServerRun.step_newest ran old known
    refine .inl (entered_iff.mpr ⟨_, now, ⟨_, server.newConnection_enters _ sockfd, rfl⟩, ?_⟩)
    intro thread below conns due
    rw [threads] at below
    have idle : ∀ conns, .destroyServer conns ∉ s.run.todo thread := by
      intro conns busy
      have tearing : s.tearing = true :=
        List.any_eq_true.mpr ⟨thread, List.mem_range.mpr below, List.any_eq_true.mpr ⟨_, busy, rfl⟩⟩
      rw [remembers.1] at tearing
      cases tearing
    rcases destroyServer_arrives ran due with was | ⟨same, _⟩ | ⟨_, _, _, same, _⟩
    · exact absurd was (idle conns)
    · cases same
    · cases same

/-- What holds in every run goes on to hold while the server remembers its
connections. -/
theorem Kept.step {s t : OwnedRun} {l : OwnerAct} (kept : s.Kept) (h : s.step l = some t)
    (remembers : ∀ act ∈ l.act, s.Remembers act) : t.Kept := by
  obtain ⟨threads, ⟨_, same⟩ | ⟨act, hact, bound, ran⟩⟩ := step_run h
  · have destroying (conn : Nat) : t.Destroying conn ↔ s.Destroying conn := by
      unfold Destroying
      rw [same, threads]
    refine ⟨same ▸ kept.inv, same ▸ kept.home, ?_, ?_, ?_⟩
    · rw [same, threads]
      exact kept.loops
    · rw [same]
      exact kept.early
    · intro conn known alive
      rw [entered_same same threads, destroying]
      rw [same] at known alive
      exact kept.held conn known alive
  · obtain ⟨n, within, onLoops⟩ := kept.loops
    refine ⟨ServerRun.step_forgetting_inv kept.inv ran,
      ServerRun.step_atHome kept.inv kept.home ran, ⟨n, threads ▸ within, onLoops.step ran⟩, ?_, ?_⟩
    · intro conn gone
      have grows : s.run.accepted ≤ t.run.accepted := by
        rcases ServerRun.step_accepted ran with same | ⟨_, next⟩ <;> omega
      rcases (ServerRun.step_destroyed ran conn).mp gone with was | ⟨thread, _, rest, _, next⟩
      · exact Nat.lt_of_lt_of_le (kept.early conn was) grows
      · have mem : .functor (.connectionDestroyed conn) ∈ s.run.work [] (.todo thread) :=
          ServerRun.mem_todo next
        exact Nat.lt_of_lt_of_le (ServerRun.waiting_valid kept.inv mem) grows
    · intro conn known alive
      exact kept.held_step threads bound ran (remembers act hact) known alive

theorem start_kept {s : OwnedRun} (h : s.Start) : s.Kept := by
  obtain ⟨inv, home⟩ := ServerRun.reachable_atHome (.start h.run)
  obtain ⟨server, hs, _⟩ := h.run.server
  obtain ⟨next, bound⟩ := h.threads server hs
  refine ⟨inv, home, ⟨_, bound, h.run.onLoops hs next⟩, ?_, ?_⟩
  · intro conn gone
    rw [h.run.destroyed] at gone
    cases gone
  · intro conn known
    rw [h.run.accepted] at known
    cases known

def newborn : OwnedRun where
  run := ServerRun.newborn
  threads := 3
  kept := fun _ _ => false
  callbacks := fun _ => []
  called := fun _ => []
  queued := fun _ => []
  running := fun _ => []
  acceptorDue := false

theorem newborn_start : newborn.Start := by
  refine ⟨ServerRun.newborn_start, fun server hs => ?_, fun _ _ => rfl, fun _ => rfl, fun _ => rfl,
    fun _ => rfl, fun _ => rfl, rfl⟩
  cases hs
  exact ⟨rfl, by decide⟩

end OwnedRun
end Kenmuduo
