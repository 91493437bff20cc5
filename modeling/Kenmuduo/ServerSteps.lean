import Kenmuduo.ServerInvariant

/-!
# What a step of a server can do

Where tasks come from, which function of which connection a task is, and what
a step leaves of everything else.
-/

namespace Kenmuduo
open Transition

/-! ## Functions of a connection -/

/-- `read` finds the end of the stream. -/
def Answer.ends (answer : Answer) : Bool :=
  match answer.read with
  | .delivered [] => true
  | _ => false

theorem Answer.ends_iff {answer : Answer} : answer.ends = true ↔ answer.read = .delivered [] := by
  unfold ends
  split
  · rename_i eof
    simp [eof]
  · rename_i other
    simpa using other

/-- The connection whose `state_` the task sets to `kDisconnecting`. -/
def Task.closing (answer : Answer) : Task → Option Nat
  | setDisconnecting conn | handleClose conn => some conn
  | handleRead conn => if answer.ends then some conn else none
  | functor _ | runInLoop _ _ | handleError _ | handleWrite _ | removeConnection _
  | destroyServer _ => none

/-- The connection whose `connectEstablished` the task is. -/
def Task.establishing : Task → Option Nat
  | functor (.connectEstablished conn) => some conn
  | _ => none

/-- The connection whose `connectionDestroyed` the task is. -/
def Task.destroying : Task → Option Nat
  | functor (.connectionDestroyed conn) => some conn
  | _ => none

/-- The body of `~TcpServer` is done; the members are still to go. -/
def Task.ending : Task → Bool
  | destroyServer [] => true
  | _ => false

/-- A connection is closed by `handleRead` when it finds the end of the stream. -/
theorem TcpConnection.handleRead_ends {c c' : TcpConnection} {answer : Answer}
    {effects : List Effect} (possible : answer.possible = true)
    (h : c.handleRead answer.read = .ok (c', effects)) :
    effects = [.connectionCallback false, .closeCallback] ↔ answer.ends = true := by
  cases hread : answer.read with
  | failed errno =>
    rw [hread] at h
    rw [handleRead_failed h]
    simp [Answer.ends, hread]
  | delivered bytes =>
    have fits : bytes.length ≤ vectorMax := by simpa [Answer.possible, hread] using possible
    rw [hread] at h
    rw [handleRead_delivered fits h]
    cases bytes <;> simp [Answer.ends, hread]

namespace ServerRun

/-- The connection whose function the task is, and what the function returns. -/
def result (s : ServerRun) (answer : Answer) :
    Task → Option (Nat × Except Fault (TcpConnection × List Effect))
  | .functor (.connectEstablished conn) => some (conn, (s.conn conn).connectEstablished)
  | .functor (.connectionDestroyed conn) => some (conn, (s.conn conn).connectionDestroyed)
  | .functor (.sendInLoop conn data) =>
    some (conn, (s.conn conn).sendInLoop { data with mem := answer.mem } answer.write)
  | .functor (.shutdownInLoop conn) =>
    some (conn, .ok (s.conn conn, (s.conn conn).shutdownInLoop))
  | .handleClose conn => some (conn, (s.conn conn).handleClose)
  | .handleError conn => some (conn, .ok (s.conn conn).handleError)
  | .handleRead conn => some (conn, (s.conn conn).handleRead answer.read)
  | .handleWrite conn => some (conn, (s.conn conn).handleWrite answer.write)
  | .setDisconnecting conn => some (conn, .ok ((s.conn conn).setState .kDisconnecting, []))
  | .functor (.removeConnectionInLoop _) | .runInLoop _ _ | .removeConnection _
  | .destroyServer _ => none

/-- What a function of a connection leaves: the close callback is still to come. -/
structure Performs (s t : ServerRun) (thread conn : Nat) (c : TcpConnection)
    (effects : List Effect) : Prop where
  log : t.log = assign s.log conn (s.log conn ++ effects.filterMap Effect.callback)
  todo : t.todo = assign s.todo thread
    ((if effects.contains .closeCallback then [.removeConnection conn] else []) ++ s.todo thread)
  pendingFunctors : t.pendingFunctors = s.pendingFunctors
  frame : t.frame = s.frame
  server : t.server = s.server
  accepted : t.accepted = s.accepted
  conn : t.conn = assign s.conn conn c

theorem perform_performs {s t : ServerRun} {thread conn : Nat}
    {result : Except Fault (TcpConnection × List Effect)}
    (h : s.perform thread conn result = some t) :
    ∃ c effects, result = .ok (c, effects) ∧ s.Performs t thread conn c effects ∧
      t.destroyed = s.destroyed := by
  unfold perform at h
  split at h
  · cases h
    exact ⟨_, _, rfl, ⟨rfl, rfl, rfl, rfl, rfl, rfl, rfl⟩, rfl⟩
  · cases h

/-- A task that is a function of a connection. -/
theorem runTask_performs {s t : ServerRun} {thread conn : Nat} {answer : Answer} {task : Task}
    {result : Except Fault (TcpConnection × List Effect)}
    (hr : s.result answer task = some (conn, result)) (h : s.runTask thread answer task = some t) :
    ∃ c effects, result = .ok (c, effects) ∧ s.Performs t thread conn c effects := by
  have plain : s.perform thread conn result = some t →
      ∃ c effects, result = .ok (c, effects) ∧ s.Performs t thread conn c effects := by
    intro h
    obtain ⟨c, effects, ok, performs, _⟩ := perform_performs h
    exact ⟨c, effects, ok, performs⟩
  cases task with
  | functor cb =>
    cases cb with
    | connectionDestroyed k =>
      cases hr
      simp only [runTask, runFunctor] at h
      obtain ⟨u, hu, rfl⟩ := Option.map_eq_some_iff.mp h
      obtain ⟨c, effects, ok, performs, _⟩ := perform_performs hu
      exact ⟨c, effects, ok, performs.1, performs.2, performs.3, performs.4, performs.5,
        performs.6, performs.7⟩
    | removeConnectionInLoop k => cases hr
    | connectEstablished k | sendInLoop k data | shutdownInLoop k =>
      cases hr
      exact plain h
  | setDisconnecting k =>
    cases hr
    rw [runTask, ← perform_setConn s thread] at h
    exact plain h
  | handleClose k | handleError k | handleRead k | handleWrite k =>
    cases hr
    exact plain h
  | runInLoop _ _ | removeConnection _ | destroyServer _ => cases hr

/-- What a task leads to: a function of its connection, or what the server does. -/
inductive Ran (s : ServerRun) (thread : Nat) (answer : Answer) : Task → ServerRun → Prop
  | performs {task t conn c effects} : s.result answer task = some (conn, .ok (c, effects)) →
      s.Performs t thread conn c effects → Ran s thread answer task t
  | hands {loop cb} : Ran s thread answer (.runInLoop loop cb) (s.runInLoop thread loop cb)
  | erases {server : TcpServer} {conn} : s.server = some server →
      Ran s thread answer (.functor (.removeConnectionInLoop conn))
        (({ s with server := some (server.erase (s.conn conn).name) } : ServerRun).queueInLoop
          (s.conn conn).loop (.connectionDestroyed conn))
  | removes {server conn} : s.server = some server →
      Ran s thread answer (.removeConnection conn)
        (s.call thread [.runInLoop 0 (.removeConnectionInLoop conn)])
  | destroyed : Ran s thread answer (.destroyServer []) { s with server := none }
  | destroys {conn conns} : Ran s thread answer (.destroyServer (conn :: conns))
      (s.call thread [.runInLoop (s.conn conn).loop (.connectionDestroyed conn),
        .destroyServer conns])

theorem runTask_ran {s t : ServerRun} {thread : Nat} {answer : Answer} {task : Task}
    (h : s.runTask thread answer task = some t) : s.Ran thread answer task t := by
  cases hr : s.result answer task with
  | some performed =>
    obtain ⟨conn, result⟩ := performed
    obtain ⟨c, effects, rfl, performs⟩ := runTask_performs hr h
    exact .performs hr performs
  | none =>
    cases task with
    | functor cb =>
      cases cb with
      | removeConnectionInLoop conn =>
        simp only [runTask, runFunctor] at h
        split at h
        · rename_i server
          cases h
          exact .erases server
        · cases h
      | _ => cases hr
    | runInLoop loop cb =>
      cases h
      exact .hands
    | removeConnection conn =>
      simp only [runTask] at h
      split at h
      · rename_i server
        cases h
        exact .removes server
      · cases h
    | destroyServer conns =>
      cases conns with
      | nil =>
        cases h
        exact .destroyed
      | cons conn conns =>
        cases h
        exact .destroys
    | _ => cases hr

/-- Only `handleClose`, and `handleRead` at the end of the stream, make the
close callback. -/
theorem result_closes {s : ServerRun} {answer : Answer} {task : Task} {conn : Nat}
    {c : TcpConnection} {effects : List Effect} (possible : answer.possible = true)
    (hr : s.result answer task = some (conn, .ok (c, effects)))
    (closes : effects.contains .closeCallback = true) :
    task = .handleClose conn ∨ (task = .handleRead conn ∧ answer.read = .delivered []) := by
  have internal : effects.all Effect.internal = true → False := by
    intro quiet
    have absent := TcpConnection.not_mem_of_internal (e := .closeCallback) quiet rfl
    exact absent (List.contains_iff_mem.mp closes)
  cases task with
  | functor cb =>
    cases cb with
    | connectEstablished k =>
      obtain ⟨rfl, ran⟩ := Prod.mk.inj (Option.some.inj hr)
      obtain ⟨_, rfl⟩ := TcpConnection.connectEstablished_ok ran
      cases closes
    | connectionDestroyed k =>
      obtain ⟨rfl, ran⟩ := Prod.mk.inj (Option.some.inj hr)
      obtain ⟨_, _, rfl⟩ | ⟨_, _, rfl⟩ := TcpConnection.connectionDestroyed_ok ran
      · cases closes
      · cases closes
    | removeConnectionInLoop k => cases hr
    | sendInLoop k data =>
      obtain ⟨rfl, ran⟩ := Prod.mk.inj (Option.some.inj hr)
      exact (internal (TcpConnection.sendInLoop_internal ran).2.2).elim
    | shutdownInLoop k =>
      cases hr
      exact (internal (TcpConnection.shutdownInLoop_internal _)).elim
  | handleClose k =>
    obtain ⟨rfl, ran⟩ := Prod.mk.inj (Option.some.inj hr)
    exact .inl rfl
  | handleError k =>
    cases hr
    cases closes
  | handleRead k =>
    obtain ⟨rfl, ran⟩ := Prod.mk.inj (Option.some.inj hr)
    refine .inr ⟨rfl, ?_⟩
    cases hread : answer.read with
    | failed errno =>
      rw [hread] at ran
      rw [TcpConnection.handleRead_failed ran] at closes
      cases closes
    | delivered bytes =>
      have fits : bytes.length ≤ vectorMax := by simpa [Answer.possible, hread] using possible
      rw [hread] at ran
      rw [TcpConnection.handleRead_delivered fits ran] at closes
      split at closes
      · rename_i none
        rw [none]
      · cases closes
  | handleWrite k =>
    obtain ⟨rfl, ran⟩ := Prod.mk.inj (Option.some.inj hr)
    exact (internal (TcpConnection.handleWrite_internal ran).2.2).elim
  | setDisconnecting k =>
    cases hr
    cases closes
  | runInLoop _ _ | removeConnection _ | destroyServer _ => cases hr

/-! ## Where tasks come from -/

/-- What a task leaves to be done, and where. -/
inductive Follows (s : ServerRun) (thread : Nat) (answer : Answer) : Task → Place → Task → Prop
  | inline {cb} : Follows s thread answer (.runInLoop thread cb) (.todo thread) (.functor cb)
  | queue {loop cb} : thread ≠ loop →
      Follows s thread answer (.runInLoop loop cb) (.pending loop) (.functor cb)
  | close {conn} :
      Follows s thread answer (.handleClose conn) (.todo thread) (.removeConnection conn)
  | eof {conn} : answer.read = .delivered [] →
      Follows s thread answer (.handleRead conn) (.todo thread) (.removeConnection conn)
  | remove {conn server} : s.server = some server →
      Follows s thread answer (.removeConnection conn) (.todo thread)
        (.runInLoop 0 (.removeConnectionInLoop conn))
  | erase {conn server} : s.server = some server →
      Follows s thread answer (.functor (.removeConnectionInLoop conn))
        (.pending (s.conn conn).loop) (.functor (.connectionDestroyed conn))
  | destroy {conn conns} :
      Follows s thread answer (.destroyServer (conn :: conns)) (.todo thread)
        (.runInLoop (s.conn conn).loop (.connectionDestroyed conn))
  | rest {conn conns} :
      Follows s thread answer (.destroyServer (conn :: conns)) (.todo thread)
        (.destroyServer conns)

/-- A step puts the task at the place. -/
inductive Arrives (s : ServerRun) : ServerAct → Place → Task → Prop
  | accept {server sockfd} : s.server = some server →
      Arrives s (.newConnection sockfd) (.todo 0)
        (.runInLoop (server.newConnection s.accepted sockfd).1.loop
          (.connectEstablished s.accepted))
  | report {loop activeChannels conn revents} : s.canReport loop activeChannels = true →
      (conn, revents) ∈ activeChannels →
      Arrives s (.poll loop activeChannels) (.frame loop) (.handleError conn)
  | event {loop conn revents rest task} :
      s.frame loop = .dispatching ((conn, revents) :: rest) → task ∈ handleEvent conn revents →
      Arrives s (.dispatch loop true) (.todo loop) task
  | swap {loop locked cb} : s.frame loop = .dispatching [] → cb ∈ s.pendingFunctors loop →
      Arrives s (.dispatch loop locked) (.frame loop) (.functor cb)
  | next {loop cb rest} : s.frame loop = .batch (cb :: rest) →
      Arrives s (.runFunctor loop) (.todo loop) (.functor cb)
  | task {thread answer task rest place new} : s.todo thread = task :: rest →
      answer.possible = true → Follows s thread answer task place new →
      Arrives s (.task thread answer) place new
  | send {thread conn data} : s.log conn ≠ [] → (s.conn conn).state = .kConnected →
      Arrives s (.send thread conn data) (.todo thread)
        (.runInLoop (s.conn conn).loop (.sendInLoop conn data))
  | store {thread conn} : s.log conn ≠ [] → (s.conn conn).state = .kConnected →
      Arrives s (.shutdown thread conn) (.todo thread) (.setDisconnecting conn)
  | shutdown {thread conn} : s.log conn ≠ [] → (s.conn conn).state = .kConnected →
      Arrives s (.shutdown thread conn) (.todo thread)
        (.runInLoop (s.conn conn).loop (.shutdownInLoop conn))
  | destroyServer {thread conns} :
      Arrives s (.destroyServer thread conns) (.todo thread) (.destroyServer conns)

theorem mem_call {s : ServerRun} {thread : Nat} {tasks : List Task} {p : Place} {task : Task}
    (h : task ∈ (s.call thread tasks).work [] p) :
    task ∈ s.work [] p ∨ (p = .todo thread ∧ task ∈ tasks) := by
  rw [work_call] at h
  split at h
  · rename_i here
    rcases List.mem_append.mp h with new | old
    · exact .inr ⟨here, new⟩
    · exact .inl (here ▸ old)
  · exact .inl h

theorem mem_queueInLoop {s : ServerRun} {loop : Nat} {cb : ServerFunctor} {p : Place} {task : Task}
    (h : task ∈ (s.queueInLoop loop cb).work [] p) :
    task ∈ s.work [] p ∨ (p = .pending loop ∧ task = .functor cb) := by
  rw [queueInLoop, work_setPending] at h
  split at h
  · rename_i here
    rw [List.map_append] at h
    rcases List.mem_append.mp h with old | new
    · exact .inl (here ▸ old)
    · exact .inr ⟨here, List.mem_singleton.mp new⟩
  · exact .inl h

theorem mem_setTodo {s : ServerRun} {thread : Nat} {tasks : List Task} {p : Place} {task : Task}
    (h : task ∈ (s.setTodo thread tasks).work [] p) :
    (p ≠ .todo thread ∧ task ∈ s.work [] p) ∨ (p = .todo thread ∧ task ∈ tasks) := by
  rw [work_setTodo] at h
  split at h
  · rename_i here
    exact .inr ⟨here, h⟩
  · rename_i elsewhere
    exact .inl ⟨elsewhere, h⟩

theorem mem_setFrame {s : ServerRun} {loop : Nat} {frame : LoopFrame} {p : Place} {task : Task}
    (h : task ∈ (s.setFrame loop frame).work [] p) :
    (p ≠ .frame loop ∧ task ∈ s.work [] p) ∨ (p = .frame loop ∧ task ∈ frame.tasks) := by
  rw [work_setFrame] at h
  split at h
  · rename_i here
    exact .inr ⟨here, h⟩
  · rename_i elsewhere
    exact .inl ⟨elsewhere, h⟩

theorem Performs.mem_work {s t : ServerRun} {thread conn : Nat} {c : TcpConnection}
    {effects : List Effect} (h : s.Performs t thread conn c effects) {p : Place} {task : Task}
    (mem : task ∈ t.work [] p) : task ∈ s.work [] p ∨ (p = .todo thread ∧
      effects.contains .closeCallback = true ∧ task = .removeConnection conn) := by
  cases p with
  | todo other =>
    rw [work_todo, h.todo, assign] at mem
    split at mem
    · rename_i same
      rcases List.mem_append.mp mem with new | old
      · split at new
        · rename_i closes
          exact .inr ⟨congrArg Place.todo same, closes, List.mem_singleton.mp new⟩
        · cases new
      · exact .inl (same ▸ old)
    · exact .inl mem
  | pending loop =>
    rw [work_pending, h.pendingFunctors] at mem
    exact .inl mem
  | frame loop =>
    rw [work_frame, h.frame] at mem
    exact .inl mem
  | hand => cases mem

theorem runTask_arrives {s t : ServerRun} {thread : Nat} {answer : Answer} {task : Task}
    (possible : answer.possible = true) (h : s.runTask thread answer task = some t) {p : Place}
    {new : Task} (mem : new ∈ t.work [] p) :
    new ∈ s.work [] p ∨ s.Follows thread answer task p new := by
  cases runTask_ran h with
  | performs hr performs =>
    rcases performs.mem_work mem with old | ⟨rfl, closes, rfl⟩
    · exact .inl old
    · rcases result_closes possible hr closes with rfl | ⟨rfl, eof⟩
      · exact .inr .close
      · exact .inr (.eof eof)
  | hands =>
    unfold runInLoop at mem
    split at mem
    · rename_i same
      subst same
      rcases mem_call mem with old | ⟨rfl, inline⟩
      · exact .inl old
      · rw [List.mem_singleton.mp inline]
        exact .inr .inline
    · rename_i other
      rcases mem_queueInLoop mem with old | ⟨rfl, rfl⟩
      · exact .inl old
      · exact .inr (.queue other)
  | erases hs =>
    rcases mem_queueInLoop mem with old | ⟨rfl, rfl⟩
    · refine .inl ?_
      cases p <;> exact old
    · exact .inr (.erase hs)
  | removes hs =>
    rcases mem_call mem with old | ⟨rfl, now⟩
    · exact .inl old
    · rw [List.mem_singleton.mp now]
      exact .inr (.remove hs)
  | destroyed =>
    refine .inl ?_
    cases p <;> exact mem
  | destroys =>
    rcases mem_call mem with old | ⟨rfl, now⟩
    · exact .inl old
    · cases now with
      | head => exact .inr .destroy
      | tail _ now =>
        rw [List.mem_singleton.mp now]
        exact .inr .rest

/-- Every task of the next state was there before or arrives. -/
theorem step_arrives {s t : ServerRun} {l : ServerAct} (h : s.step l = some t) {p : Place}
    {task : Task} (mem : task ∈ t.work [] p) : task ∈ s.work [] p ∨ s.Arrives l p task := by
  cases stepped h with
  | accept hs _ _ =>
    rcases mem_call mem with old | ⟨rfl, now⟩
    · refine .inl ?_
      cases p <;> exact old
    · rw [List.mem_singleton.mp now]
      exact .inr (.accept hs)
  | poll _ _ can =>
    rcases mem_setFrame mem with ⟨_, old⟩ | ⟨rfl, now⟩
    · exact .inl old
    · obtain ⟨⟨conn, revents⟩, active, rfl⟩ := List.mem_map.mp now
      exact .inr (.report can active)
  | visit hf ht =>
    rcases mem_setTodo mem with ⟨_, old⟩ | ⟨rfl, now⟩
    · rcases mem_setFrame old with ⟨_, old⟩ | ⟨rfl, later⟩
      · exact .inl old
      · refine .inl ?_
        rw [work_frame, hf]
        exact List.mem_cons_of_mem _ later
    · split at now
      · rename_i found
        rw [found]
        exact .inr (.event hf now)
      · cases now
  | swap hf ht =>
    rw [work_setPending] at mem
    split at mem
    · cases mem
    · rcases mem_setFrame mem with ⟨_, old⟩ | ⟨rfl, now⟩
      · exact .inl old
      · obtain ⟨cb, waits, rfl⟩ := List.mem_map.mp now
        exact .inr (.swap hf waits)
  | next hf ht =>
    rcases mem_setTodo mem with ⟨_, old⟩ | ⟨rfl, now⟩
    · rcases mem_setFrame old with ⟨_, old⟩ | ⟨rfl, later⟩
      · exact .inl old
      · refine .inl ?_
        rw [work_frame, hf]
        exact List.mem_cons_of_mem _ later
    · rw [List.mem_singleton.mp now]
      exact .inr (.next hf)
  | batchEnd hf ht =>
    rcases mem_setFrame mem with ⟨_, old⟩ | ⟨rfl, now⟩
    · exact .inl old
    · cases now
  | @task thread answer first rest _ next possible ran =>
    rcases runTask_arrives possible ran mem with old | follows
    · rcases mem_setTodo old with ⟨_, old⟩ | ⟨rfl, later⟩
      · exact .inl old
      · refine .inl ?_
        rw [work_todo, next]
        exact List.mem_cons_of_mem first later
    · refine .inr (.task next possible ?_)
      cases follows with
      | inline => exact .inline
      | queue other => exact .queue other
      | close => exact .close
      | eof read => exact .eof read
      | remove hs => exact .remove hs
      | erase hs => exact .erase hs
      | destroy => exact .destroy
      | rest => exact .rest
  | send _ told up =>
    rcases mem_call mem with old | ⟨rfl, now⟩
    · exact .inl old
    · rw [List.mem_singleton.mp now]
      exact .inr (.send told up)
  | shutdown _ told up =>
    rcases mem_call mem with old | ⟨rfl, now⟩
    · exact .inl old
    · cases now with
      | head => exact .inr (.store told up)
      | tail _ now =>
        rw [List.mem_singleton.mp now]
        exact .inr (.shutdown told up)
  | sendNot | shutdownNot => exact .inl mem
  | destroyServer _ _ _ =>
    rcases mem_call mem with old | ⟨rfl, now⟩
    · exact .inl old
    · rw [List.mem_singleton.mp now]
      exact .inr .destroyServer

/-! ## What becomes of the connections -/

/-- A step that takes up the task. -/
theorem step_runs {s t : ServerRun} {thread : Nat} {answer : Answer} {task : Task}
    {rest : List Task} (h : s.step (.task thread answer) = some t)
    (next : s.todo thread = task :: rest) :
    answer.possible = true ∧ (s.setTodo thread rest).runTask thread answer task = some t := by
  cases stepped h with
  | task here possible ran =>
    obtain ⟨rfl, rfl⟩ := List.cons.inj (next.symm.trans here)
    exact ⟨possible, ran⟩

/-- A step that takes up a task which is a function of a connection. -/
theorem step_performs {s t : ServerRun} {thread conn : Nat} {answer : Answer} {task : Task}
    {rest : List Task} {result : Except Fault (TcpConnection × List Effect)}
    (h : s.step (.task thread answer) = some t) (next : s.todo thread = task :: rest)
    (hr : s.result answer task = some (conn, result)) :
    answer.possible = true ∧ ∃ c effects, result = .ok (c, effects) ∧
      (s.setTodo thread rest).Performs t thread conn c effects := by
  obtain ⟨possible, ran⟩ := step_runs h next
  exact ⟨possible, runTask_performs (s := s.setTodo thread rest) hr ran⟩

/-- What a connection is after a step. -/
inductive Becomes (s : ServerRun) (l : ServerAct) (conn : Nat) (c : TcpConnection) : Prop
  | same : c = s.conn conn → Becomes s l conn c
  | new {server sockfd} : l = .newConnection sockfd → s.server = some server →
      conn = s.accepted → c = (server.newConnection conn sockfd).1 → Becomes s l conn c
  | ran {thread answer task rest effects} : l = .task thread answer →
      s.todo thread = task :: rest → answer.possible = true →
      s.result answer task = some (conn, .ok (c, effects)) → Becomes s l conn c

theorem runTask_conn {s t : ServerRun} {thread : Nat} {answer : Answer} {task : Task}
    (none : s.result answer task = none) (h : s.runTask thread answer task = some t) :
    t.conn = s.conn ∧ t.log = s.log ∧ t.accepted = s.accepted ∧ t.destroyed = s.destroyed := by
  cases runTask_ran h with
  | performs hr _ => cases none.symm.trans hr
  | hands =>
    unfold runInLoop
    split <;> exact ⟨rfl, rfl, rfl, rfl⟩
  | erases | removes | destroyed | destroys => exact ⟨rfl, rfl, rfl, rfl⟩

/-- A step that accepts a connection. -/
theorem step_accepts {s t : ServerRun} {sockfd : Nat}
    (h : s.step (.newConnection sockfd) = some t) :
    ∃ server, s.server = some server ∧
      t.conn = assign s.conn s.accepted (server.newConnection s.accepted sockfd).1 ∧
      t.server = some (server.newConnection s.accepted sockfd).2 ∧
      t.accepted = s.accepted + 1 ∧ t.log = s.log ∧ t.destroyed = s.destroyed := by
  cases stepped h with
  | @accept server _ _ hs _ _ => exact ⟨server, hs, rfl, rfl, rfl, rfl, rfl⟩

/-- The steps that are no tasks leave the connections alone but for a new one. -/
theorem step_quiet {s t : ServerRun} {l : ServerAct} (h : s.step l = some t) :
    (∃ thread answer, l = .task thread answer) ∨
    (t.log = s.log ∧ t.destroyed = s.destroyed ∧
      ((t.conn = s.conn ∧ t.accepted = s.accepted ∧ t.server = s.server) ∨
        ∃ sockfd server, l = .newConnection sockfd ∧ s.server = some server ∧
          t.conn = assign s.conn s.accepted (server.newConnection s.accepted sockfd).1 ∧
          t.accepted = s.accepted + 1)) := by
  cases stepped h with
  | @accept server _ sockfd hs _ _ =>
    exact .inr ⟨rfl, rfl, .inr ⟨sockfd, server, rfl, hs, rfl, rfl⟩⟩
  | @task thread answer _ _ _ _ _ _ => exact .inl ⟨thread, answer, rfl⟩
  | _ => exact .inr ⟨rfl, rfl, .inl ⟨rfl, rfl, rfl⟩⟩

/-- A step that takes up a task. -/
theorem step_task {s t : ServerRun} {thread : Nat} {answer : Answer}
    (h : s.step (.task thread answer) = some t) :
    ∃ task rest, s.todo thread = task :: rest ∧ answer.possible = true ∧
      (s.setTodo thread rest).runTask thread answer task = some t := by
  cases stepped h with
  | task next possible ran => exact ⟨_, _, next, possible, ran⟩

/-- What a step does to the connections: it performs a function of one, accepts
one, or leaves them all alone. -/
inductive Acts (s t : ServerRun) : ServerAct → Prop
  | performs {thread answer task rest conn c effects} : s.todo thread = task :: rest →
      answer.possible = true → s.result answer task = some (conn, .ok (c, effects)) →
      (s.setTodo thread rest).Performs t thread conn c effects → Acts s t (.task thread answer)
  | accepts {server sockfd} : s.server = some server →
      t.conn = assign s.conn s.accepted (server.newConnection s.accepted sockfd).1 →
      t.log = s.log → t.accepted = s.accepted + 1 → Acts s t (.newConnection sockfd)
  | rests {l} : t.conn = s.conn → t.log = s.log → t.accepted = s.accepted → Acts s t l

theorem step_acts {s t : ServerRun} {l : ServerAct} (h : s.step l = some t) : s.Acts t l := by
  obtain ⟨thread, answer, rfl⟩ | ⟨log, _, quiet⟩ := step_quiet h
  · obtain ⟨task, rest, next, possible, ran⟩ := step_task h
    cases hr : s.result answer task with
    | none =>
      obtain ⟨conn, log, accepted, _⟩ := runTask_conn (s := s.setTodo thread rest) hr ran
      exact .rests conn log accepted
    | some performed =>
      obtain ⟨k, result⟩ := performed
      obtain ⟨c, effects, rfl, performs⟩ := runTask_performs (s := s.setTodo thread rest) hr ran
      exact .performs next possible hr performs
  · obtain ⟨conn, accepted, _⟩ | ⟨sockfd, server, rfl, hs, new, accepted⟩ := quiet
    · exact .rests conn log accepted
    · exact .accepts hs new log accepted

theorem step_becomes {s t : ServerRun} {l : ServerAct} (h : s.step l = some t) (conn : Nat) :
    s.Becomes l conn (t.conn conn) := by
  cases step_acts h with
  | performs next possible hr performs =>
    rw [performs.conn, assign]
    split
    · rename_i here
      subst here
      exact .ran rfl next possible hr
    · exact .same rfl
  | accepts hs new =>
    rw [new, assign]
    split
    · rename_i here
      subst here
      exact .new rfl hs rfl rfl
    · exact .same rfl
  | rests same => exact .same (by rw [same])

theorem step_accepted {s t : ServerRun} {l : ServerAct} (h : s.step l = some t) :
    t.accepted = s.accepted ∨ (∃ sockfd, l = .newConnection sockfd) ∧
      t.accepted = s.accepted + 1 := by
  cases step_acts h with
  | performs _ _ _ performs => exact .inl performs.accepted
  | accepts _ _ _ next => exact .inr ⟨⟨_, rfl⟩, next⟩
  | rests _ _ same => exact .inl same

/-- Logs only grow. -/
theorem step_log {s t : ServerRun} {l : ServerAct} (h : s.step l = some t) (conn : Nat) :
    ∃ more, t.log conn = s.log conn ++ more := by
  cases step_acts h with
  | performs _ _ _ performs =>
    rw [performs.log, assign]
    split
    · rename_i here
      exact ⟨_, by rw [here]; rfl⟩
    · exact ⟨[], by rw [List.append_nil]; rfl⟩
  | accepts _ _ same | rests _ same => exact ⟨[], by rw [same, List.append_nil]⟩

/-- A connection that was not there before the step is the one it accepts. -/
theorem step_newest {s t : ServerRun} {l : ServerAct} (h : s.step l = some t) {conn : Nat}
    (late : ¬ conn < s.accepted) (early : conn < t.accepted) :
    ∃ sockfd server, l = .newConnection sockfd ∧ s.server = some server ∧ conn = s.accepted ∧
      t.conn conn = (server.newConnection conn sockfd).1 ∧
      t.server = some (server.newConnection conn sockfd).2 ∧ t.log = s.log := by
  obtain same | ⟨⟨sockfd, rfl⟩, next⟩ := step_accepted h
  · exact absurd (same ▸ early) late
  · obtain rfl : conn = s.accepted := by omega
    obtain ⟨server, was, conns, now, _, log, _⟩ := step_accepts h
    exact ⟨sockfd, server, rfl, was, rfl, by rw [conns, assign_same], now, log⟩

/-- What a function of a connection leaves alone; only `handleRead` takes up the
input. -/
theorem result_same {s : ServerRun} {answer : Answer} {task : Task} {conn : Nat}
    {c : TcpConnection} {effects : List Effect}
    (hr : s.result answer task = some (conn, .ok (c, effects))) :
    c = { s.conn conn with
      state := c.state
      channel := c.channel
      inputBuffer := c.inputBuffer
      outputBuffer := c.outputBuffer } ∧
    (c.inputBuffer = (s.conn conn).inputBuffer ∨ task = .handleRead conn) := by
  cases task with
  | functor cb =>
    cases cb with
    | connectEstablished k =>
      obtain ⟨rfl, ran⟩ := Prod.mk.inj (Option.some.inj hr)
      rw [(TcpConnection.connectEstablished_ok ran).1]
      exact ⟨rfl, .inl rfl⟩
    | connectionDestroyed k =>
      obtain ⟨rfl, ran⟩ := Prod.mk.inj (Option.some.inj hr)
      obtain ⟨_, rfl, _⟩ | ⟨_, rfl, _⟩ := TcpConnection.connectionDestroyed_ok ran
      · exact ⟨rfl, .inl rfl⟩
      · exact ⟨rfl, .inl rfl⟩
    | removeConnectionInLoop k => cases hr
    | sendInLoop k data =>
      obtain ⟨rfl, ran⟩ := Prod.mk.inj (Option.some.inj hr)
      rw [TcpConnection.sendInLoop_same ran]
      exact ⟨rfl, .inl rfl⟩
    | shutdownInLoop k =>
      cases hr
      exact ⟨rfl, .inl rfl⟩
  | handleClose k =>
    obtain ⟨rfl, ran⟩ := Prod.mk.inj (Option.some.inj hr)
    rw [(TcpConnection.handleClose_ok ran).1]
    exact ⟨rfl, .inl rfl⟩
  | handleError k =>
    cases hr
    exact ⟨rfl, .inl rfl⟩
  | handleRead k =>
    obtain ⟨rfl, ran⟩ := Prod.mk.inj (Option.some.inj hr)
    obtain ⟨input, ⟨rfl, _⟩ | ⟨rfl, _⟩⟩ := TcpConnection.handleRead_ok ran
    · exact ⟨rfl, .inr rfl⟩
    · exact ⟨rfl, .inr rfl⟩
  | handleWrite k =>
    obtain ⟨rfl, ran⟩ := Prod.mk.inj (Option.some.inj hr)
    rw [TcpConnection.handleWrite_same ran]
    exact ⟨rfl, .inl rfl⟩
  | setDisconnecting k =>
    cases hr
    exact ⟨rfl, .inl rfl⟩
  | runInLoop _ _ | removeConnection _ | destroyServer _ => cases hr

/-- A function of a connection changes neither its loop nor its name. -/
theorem result_loop {s : ServerRun} {answer : Answer} {task : Task} {conn : Nat}
    {c : TcpConnection} {effects : List Effect}
    (hr : s.result answer task = some (conn, .ok (c, effects))) :
    c.loop = (s.conn conn).loop := by
  rw [(result_same hr).1]

/-- What a function of a connection stores in `state_`. -/
theorem result_state {s : ServerRun} {answer : Answer} {task : Task} {conn : Nat}
    {c : TcpConnection} {effects : List Effect} (possible : answer.possible = true)
    (hr : s.result answer task = some (conn, .ok (c, effects))) :
    (c.state = (s.conn conn).state ∧ task.closing answer = none ∧ task.establishing = none) ∨
    (task = .functor (.connectEstablished conn) ∧ c.state = .kConnected) ∨
    (task = .functor (.connectionDestroyed conn) ∧ (s.conn conn).state = .kConnected ∧
      c.state = .kDisconnected) ∨
    (task.closing answer = some conn ∧ c.state = .kDisconnecting) := by
  cases task with
  | functor cb =>
    cases cb with
    | connectEstablished k =>
      obtain ⟨rfl, ran⟩ := Prod.mk.inj (Option.some.inj hr)
      rw [(TcpConnection.connectEstablished_ok ran).1]
      exact .inr (.inl ⟨rfl, rfl⟩)
    | connectionDestroyed k =>
      obtain ⟨rfl, ran⟩ := Prod.mk.inj (Option.some.inj hr)
      obtain ⟨connected, rfl, _⟩ | ⟨_, rfl, _⟩ := TcpConnection.connectionDestroyed_ok ran
      · exact .inr (.inr (.inl ⟨rfl, connected, rfl⟩))
      · exact .inl ⟨rfl, rfl, rfl⟩
    | removeConnectionInLoop k => cases hr
    | sendInLoop k data =>
      obtain ⟨rfl, ran⟩ := Prod.mk.inj (Option.some.inj hr)
      exact .inl ⟨(TcpConnection.sendInLoop_internal ran).1, rfl, rfl⟩
    | shutdownInLoop k =>
      cases hr
      exact .inl ⟨rfl, rfl, rfl⟩
  | handleClose k =>
    obtain ⟨rfl, ran⟩ := Prod.mk.inj (Option.some.inj hr)
    rw [(TcpConnection.handleClose_ok ran).1]
    exact .inr (.inr (.inr ⟨rfl, rfl⟩))
  | handleError k =>
    cases hr
    exact .inl ⟨rfl, rfl, rfl⟩
  | handleRead k =>
    obtain ⟨rfl, ran⟩ := Prod.mk.inj (Option.some.inj hr)
    have told := TcpConnection.handleRead_ends possible ran
    obtain ⟨input, ⟨rfl, other⟩ | ⟨rfl, both⟩⟩ := TcpConnection.handleRead_ok ran
    · refine .inl ⟨rfl, if_neg fun ends => ?_, rfl⟩
      rw [told.mpr ends] at other
      simp at other
    · exact .inr (.inr (.inr ⟨if_pos (told.mp both), rfl⟩))
  | handleWrite k =>
    obtain ⟨rfl, ran⟩ := Prod.mk.inj (Option.some.inj hr)
    exact .inl ⟨(TcpConnection.handleWrite_internal ran).1, rfl, rfl⟩
  | setDisconnecting k =>
    cases hr
    exact .inr (.inr (.inr ⟨rfl, rfl⟩))
  | runInLoop _ _ | removeConnection _ | destroyServer _ => cases hr

theorem closing_result {s : ServerRun} {answer : Answer} {task : Task} {conn : Nat}
    (closing : task.closing answer = some conn) :
    ∃ result, s.result answer task = some (conn, result) := by
  cases task with
  | setDisconnecting k | handleClose k =>
    cases closing
    exact ⟨_, rfl⟩
  | handleRead k =>
    simp only [Task.closing, Option.ite_none_right_eq_some, Option.some.injEq] at closing
    obtain ⟨_, rfl⟩ := closing
    exact ⟨_, rfl⟩
  | _ => cases closing

/-- A task that closes a connection leaves it closing. -/
theorem step_closing {s t : ServerRun} {thread conn : Nat} {answer : Answer} {task : Task}
    {rest : List Task} (h : s.step (.task thread answer) = some t)
    (next : s.todo thread = task :: rest) (closing : task.closing answer = some conn) :
    (t.conn conn).state = .kDisconnecting := by
  obtain ⟨result, hr⟩ := closing_result (s := s) closing
  obtain ⟨possible, c, effects, rfl, performs⟩ := step_performs h next hr
  rw [performs.conn, assign_same]
  obtain ⟨_, none, _⟩ | ⟨rfl, _⟩ | ⟨rfl, _⟩ | ⟨_, closed⟩ := result_state possible hr
  · rw [none] at closing
    cases closing
  · cases closing
  · cases closing
  · exact closed

/-! ## What becomes of the server and of the loops -/

/-- What a step does to the server. -/
inductive Serves (s t : ServerRun) (l : ServerAct) : Prop
  | same : t.server = s.server → Serves s t l
  | accept {server sockfd} : l = .newConnection sockfd → s.server = some server →
      t.server = some (server.newConnection s.accepted sockfd).2 → Serves s t l
  | erase {server thread answer conn rest} : l = .task thread answer →
      s.todo thread = .functor (.removeConnectionInLoop conn) :: rest →
      s.server = some server → t.server = some (server.erase (s.conn conn).name) → Serves s t l
  | destroyed {thread answer rest} : l = .task thread answer →
      s.todo thread = .destroyServer [] :: rest → t.server = none → Serves s t l

theorem step_serves {s t : ServerRun} {l : ServerAct} (h : s.step l = some t) : s.Serves t l := by
  obtain ⟨thread, answer, rfl⟩ | ⟨_, _, ⟨_, _, same⟩ | ⟨sockfd, _, rfl, _⟩⟩ := step_quiet h
  · obtain ⟨task, rest, next, _, ran⟩ := step_task h
    cases runTask_ran ran with
    | performs _ performs => exact .same performs.server
    | hands =>
      unfold runInLoop
      split <;> exact .same rfl
    | erases hs => exact .erase rfl next hs rfl
    | removes | destroys => exact .same rfl
    | destroyed => exact .destroyed rfl next rfl
  · exact .same same
  · obtain ⟨server, hs, _, accepted, _⟩ := step_accepts h
    exact .accept rfl hs accepted

theorem runTask_frame {s t : ServerRun} {thread : Nat} {answer : Answer} {task : Task}
    (h : s.runTask thread answer task = some t) : t.frame = s.frame := by
  cases runTask_ran h with
  | performs _ performs => exact performs.frame
  | hands =>
    unfold runInLoop
    split <;> rfl
  | erases | removes | destroyed | destroys => rfl

end ServerRun

/-- The thread that comes to the tasks of a place. -/
def Place.thread : Place → Option Nat
  | todo thread => some thread
  | pending loop | frame loop => some loop
  | hand => none

/-- The thread that takes the step. -/
def ServerAct.thread : ServerAct → Nat
  | newConnection _ => 0
  | poll loop _ | dispatch loop _ | runFunctor loop => loop
  | task thread _ | send thread _ _ | shutdown thread _ | destroyServer thread _ => thread

namespace ServerRun

/-- A loop stays where it is while other threads step. -/
theorem step_frame {s t : ServerRun} {l : ServerAct} (h : s.step l = some t) {loop : Nat}
    (other : loop ≠ l.thread) : t.frame loop = s.frame loop := by
  cases stepped h with
  | poll | visit | swap | next | batchEnd => exact assign_other _ _ other
  | task _ _ ran =>
    rw [runTask_frame ran]
    rfl
  | _ => rfl

/-- A thread is given tasks by its own steps only. -/
theorem arrives_todo {s : ServerRun} {l : ServerAct} {thread : Nat} {task : Task}
    (h : s.Arrives l (.todo thread) task) : thread = l.thread := by
  cases h with
  | task _ _ follows => cases follows <;> rfl
  | _ => rfl

/-! ## What leaves -/

/-- Calls put tasks in front of those that wait. -/
theorem call_keeps {s : ServerRun} {thread : Nat} {tasks : List Task} {p : Place} {old : Task}
    (mem : old ∈ s.work [] p) : old ∈ (s.call thread tasks).work [] p := by
  rw [work_call]
  split
  · rename_i here
    subst here
    exact List.mem_append_right tasks mem
  · exact mem

/-- What waits goes on to wait, unless its place is given other tasks. -/
theorem setTodo_keeps {s : ServerRun} {p : Place} {old : Task} (mem : old ∈ s.work [] p)
    (thread : Nat) (tasks : List Task) :
    old ∈ (s.setTodo thread tasks).work [] p ∨ (p = .todo thread ∧ old ∈ s.todo thread) := by
  by_cases here : p = .todo thread
  · subst here
    exact .inr ⟨rfl, mem⟩
  · rw [work_setTodo, if_neg here]
    exact .inl mem

theorem setFrame_keeps {s : ServerRun} {p : Place} {old : Task} (mem : old ∈ s.work [] p)
    (loop : Nat) (frame : LoopFrame) :
    old ∈ (s.setFrame loop frame).work [] p ∨
      (p = .frame loop ∧ old ∈ (s.frame loop).tasks) := by
  by_cases here : p = .frame loop
  · subst here
    exact .inr ⟨rfl, mem⟩
  · rw [work_setFrame, if_neg here]
    exact .inl mem

theorem setPending_keeps {s : ServerRun} {p : Place} {old : Task} (mem : old ∈ s.work [] p)
    (loop : Nat) (functors : List ServerFunctor) :
    old ∈ (s.setPending loop functors).work [] p ∨
      (p = .pending loop ∧ old ∈ (s.pendingFunctors loop).map .functor) := by
  by_cases here : p = .pending loop
  · subst here
    exact .inr ⟨rfl, mem⟩
  · rw [work_setPending, if_neg here]
    exact .inl mem

theorem queueInLoop_keeps {s : ServerRun} {loop : Nat} {cb : ServerFunctor} {p : Place}
    {old : Task} (mem : old ∈ s.work [] p) : old ∈ (s.queueInLoop loop cb).work [] p := by
  rw [queueInLoop, work_setPending]
  split
  · rename_i here
    subst here
    rw [List.map_append]
    exact List.mem_append_left _ mem
  · exact mem

theorem queueInLoop_queues (s : ServerRun) (loop : Nat) (cb : ServerFunctor) :
    .functor cb ∈ (s.queueInLoop loop cb).work [] (.pending loop) := by
  rw [queueInLoop, work_setPending, if_pos rfl, List.map_append]
  exact List.mem_append_right _ (List.mem_singleton_self _)

theorem call_calls (s : ServerRun) (thread : Nat) (task : Task) (tasks : List Task) :
    task ∈ (s.call thread (task :: tasks)).work [] (.todo thread) := by
  rw [work_call, if_pos rfl]
  exact List.mem_cons_self

theorem setTodo_call {s : ServerRun} {thread : Nat} (idle : s.todo thread = [])
    (tasks : List Task) : s.setTodo thread tasks = s.call thread tasks := by
  rw [call, idle, List.append_nil]

/-- A task leaves the other tasks where they wait. -/
theorem runTask_keeps {s t : ServerRun} {thread : Nat} {answer : Answer} {task : Task}
    (h : s.runTask thread answer task = some t) {p : Place} {old : Task}
    (mem : old ∈ s.work [] p) : old ∈ t.work [] p := by
  cases runTask_ran h with
  | performs _ performs =>
    cases p with
    | todo k =>
      rw [work_todo, performs.todo, assign]
      split
      · rename_i same
        exact List.mem_append_right _ (same ▸ mem)
      · exact mem
    | pending loop =>
      rw [work_pending, performs.pendingFunctors]
      exact mem
    | frame loop =>
      rw [work_frame, performs.frame]
      exact mem
    | hand => cases mem
  | hands =>
    unfold runInLoop
    split
    · exact call_keeps mem
    · exact queueInLoop_keeps mem
  | erases =>
    refine queueInLoop_keeps ?_
    cases p <;> exact mem
  | removes | destroys => exact call_keeps mem
  | destroyed => cases p <;> exact mem

/-- What waits stays with its thread until it is taken up; only functors go to
another place. -/
theorem step_waits {s t : ServerRun} {l : ServerAct} (h : s.step l = some t) {p : Place}
    {task : Task} (mem : task ∈ s.work [] p) :
    (∃ q, q.thread = p.thread ∧ task ∈ t.work [] q ∧ (q = p ∨ ∃ cb, task = .functor cb)) ∨
    (∃ thread answer rest, l = .task thread answer ∧ p = .todo thread ∧
      s.todo thread = task :: rest) ∨
    ∃ loop conn, p = .frame loop ∧ task = .handleError conn := by
  have stays (mem : task ∈ t.work [] p) :
      ∃ q, q.thread = p.thread ∧ task ∈ t.work [] q ∧ (q = p ∨ ∃ cb, task = .functor cb) :=
    ⟨p, rfl, mem, .inl rfl⟩
  cases stepped h with
  | accept _ _ _ =>
    refine .inl (stays (call_keeps ?_))
    cases p <;> exact mem
  | @poll loop activeChannels hf _ _ =>
    rcases setFrame_keeps mem loop (.dispatching activeChannels) with kept | ⟨_, left⟩
    · exact .inl (stays kept)
    · rw [hf] at left
      cases left
  | @visit loop _ _ _ rest hf ht =>
    rcases setFrame_keeps mem loop (.dispatching rest) with kept | ⟨here, left⟩
    · rcases setTodo_keeps kept loop _ with kept | ⟨_, left⟩
      · exact .inl (stays kept)
      · have idle : task ∈ s.todo loop := left
        rw [ht] at idle
        cases idle
    · rw [hf] at left
      obtain ⟨active, _, rfl⟩ := List.mem_map.mp left
      exact .inr (.inr ⟨loop, active.1, here, rfl⟩)
  | @swap loop _ hf _ =>
    rcases setFrame_keeps mem loop (.batch (s.pendingFunctors loop)) with kept | ⟨_, left⟩
    · rcases setPending_keeps kept loop [] with kept | ⟨rfl, queued⟩
      · exact .inl (stays kept)
      · obtain ⟨cb, _, same⟩ := List.mem_map.mp queued
        refine .inl ⟨.frame loop, rfl, ?_, .inr ⟨cb, same.symm⟩⟩
        rw [work_setPending, if_neg (by simp), work_setFrame, if_pos rfl]
        exact queued
    · rw [hf] at left
      cases left
  | @next loop cb rest hf ht =>
    rcases setFrame_keeps mem loop (.batch rest) with kept | ⟨rfl, left⟩
    · rcases setTodo_keeps kept loop [.functor cb] with kept | ⟨_, left⟩
      · exact .inl (stays kept)
      · have idle : task ∈ s.todo loop := left
        rw [ht] at idle
        cases idle
    · rw [hf] at left
      rcases List.mem_cons.mp left with rfl | later
      · refine .inl ⟨.todo loop, rfl, ?_, .inr ⟨cb, rfl⟩⟩
        rw [work_setTodo, if_pos rfl]
        exact List.mem_singleton_self _
      · refine .inl (stays ?_)
        rw [work_setTodo, if_neg (by simp), work_setFrame, if_pos rfl]
        exact later
  | @batchEnd loop hf _ =>
    rcases setFrame_keeps mem loop .polling with kept | ⟨_, left⟩
    · exact .inl (stays kept)
    · rw [hf] at left
      cases left
  | @task thread answer first rest _ next _ ran =>
    rcases setTodo_keeps mem thread rest with kept | ⟨rfl, left⟩
    · exact .inl (stays (runTask_keeps ran kept))
    · rw [next] at left
      rcases List.mem_cons.mp left with rfl | later
      · exact .inr (.inl ⟨thread, answer, rest, rfl, rfl, next⟩)
      · refine .inl (stays (runTask_keeps ran ?_))
        rw [work_setTodo, if_pos rfl]
        exact later
  | send | shutdown | destroyServer => exact .inl (stays (call_keeps mem))
  | sendNot | shutdownNot => exact .inl (stays mem)

theorem perform_destroyed {s t : ServerRun} {thread conn : Nat}
    {result : Except Fault (TcpConnection × List Effect)}
    (h : s.perform thread conn result = some t) : t.destroyed = s.destroyed := by
  obtain ⟨_, _, _, _, same⟩ := perform_performs h
  exact same

theorem runTask_destroyed {s t : ServerRun} {thread : Nat} {answer : Answer} {task : Task}
    (h : s.runTask thread answer task = some t) :
    t.destroyed = match task.destroying with
      | some conn => assign s.destroyed conn true
      | none => s.destroyed := by
  have other (none : s.result answer task = none) : t.destroyed = s.destroyed :=
    (runTask_conn none h).2.2.2
  cases task with
  | functor cb =>
    cases cb with
    | connectionDestroyed conn =>
      simp only [runTask, runFunctor] at h
      obtain ⟨u, hu, rfl⟩ := Option.map_eq_some_iff.mp h
      show assign u.destroyed conn true = _
      rw [perform_destroyed hu]
      rfl
    | removeConnectionInLoop conn => exact other rfl
    | connectEstablished conn | shutdownInLoop conn =>
      simp only [runTask, runFunctor] at h
      exact perform_destroyed h
    | sendInLoop conn data =>
      simp only [runTask, runFunctor] at h
      exact perform_destroyed h
  | handleClose conn | handleError conn | handleRead conn | handleWrite conn =>
    simp only [runTask] at h
    exact perform_destroyed h
  | setDisconnecting conn =>
    cases h
    rfl
  | runInLoop _ _ | removeConnection _ | destroyServer _ => exact other rfl

/-- A connection is destroyed by its `connectionDestroyed` alone. -/
theorem step_destroyed {s t : ServerRun} {l : ServerAct} (h : s.step l = some t) (conn : Nat) :
    t.destroyed conn = true ↔ s.destroyed conn = true ∨ ∃ thread answer rest,
      l = .task thread answer ∧ s.todo thread = .functor (.connectionDestroyed conn) :: rest := by
  by_cases runs : ∃ thread answer, l = .task thread answer
  · obtain ⟨thread, answer, rfl⟩ := runs
    obtain ⟨task, rest, next, _, ran⟩ := step_task h
    rw [runTask_destroyed ran]
    have this_one : (∃ thread' answer' rest', ServerAct.task thread answer = .task thread' answer' ∧
        s.todo thread' = .functor (.connectionDestroyed conn) :: rest') ↔
        task = .functor (.connectionDestroyed conn) := by
      constructor
      · rintro ⟨_, _, rest', ⟨⟩, now⟩
        rw [next] at now
        exact (List.cons.inj now).1
      · rintro rfl
        exact ⟨thread, answer, rest, rfl, next⟩
    rw [this_one]
    cases hd : task.destroying with
    | none =>
      have other : task ≠ .functor (.connectionDestroyed conn) := by
        rintro rfl
        cases hd
      exact ⟨.inl, fun gone => gone.resolve_right other⟩
    | some k =>
      obtain rfl : task = .functor (.connectionDestroyed k) := by
        unfold Task.destroying at hd
        split at hd <;> cases hd
        rfl
      show assign s.destroyed k true conn = true ↔ _
      by_cases here : conn = k
      · subst here
        simp
      · rw [assign_other _ _ here]
        simp [Ne.symm here]
  · rw [((step_quiet h).resolve_left runs).2.1]
    refine ⟨.inl, fun gone => gone.resolve_right ?_⟩
    rintro ⟨thread, answer, rest, rfl, next⟩
    exact runs ⟨thread, answer, rfl⟩

end ServerRun
end Kenmuduo
