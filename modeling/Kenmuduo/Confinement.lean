import Kenmuduo.AnyOrder
import Kenmuduo.CallbackOrder
import Kenmuduo.PollerCalls

/-!
# Which thread runs what

Every function of a connection and every call of its poller is made by the
thread of the connection's loop; the map of connections is the base loop's.
What is queued with a loop, posted to it or active in its poller belongs to
it, and this goes over from each step to the next.
-/

namespace Kenmuduo
open Transition

inductive ConnFunction
  | connectEstablished | handleRead | handleWrite | handleClose | handleError
  | sendInLoop | shutdownInLoop | connectionDestroyed
  deriving DecidableEq, Repr

/-- What a thread executes of a server and its connections. -/
inductive Executed
  | function (conn : Nat) (f : ConnFunction)
  | updateChannel (conn : Nat)
  | removeChannel (conn : Nat)
  | newConnection
  | removeConnectionInLoop
  deriving DecidableEq, Repr

def PollerCall.executed (conn : Nat) : PollerCall → Executed
  | updateChannel _ => .updateChannel conn
  | removeChannel _ => .removeChannel conn

namespace ServerRun

/-- The poller calls of a task that is a function of a connection. -/
def pollerCalls (s : ServerRun) (answer : Answer) : Task → List PollerCall
  | .functor (.connectEstablished conn) => (s.conn conn).connectEstablishedCalls
  | .functor (.connectionDestroyed conn) => (s.conn conn).connectionDestroyedCalls
  | .functor (.sendInLoop conn data) =>
    (s.conn conn).sendInLoopCalls { data with mem := answer.mem } answer.write
  | .handleClose conn => (s.conn conn).handleCloseCalls
  | .handleRead conn => (s.conn conn).handleReadCalls answer.read
  | .handleWrite conn => (s.conn conn).handleWriteCalls answer.write
  | .functor (.shutdownInLoop _) | .functor (.removeConnectionInLoop _) | .runInLoop _ _
  | .handleError _ | .removeConnection _ | .setDisconnecting _ | .destroyServer _ => []

/-- The poller calls account for all that a task does to a channel. -/
theorem result_channel {s : ServerRun} {answer : Answer} {task : Task} {conn : Nat}
    {c : TcpConnection} {effects : List Effect}
    (hr : s.result answer task = some (conn, .ok (c, effects))) :
    c.channel = PollerCall.final (s.conn conn).channel (s.pollerCalls answer task) := by
  cases task with
  | functor cb =>
    cases cb with
    | connectEstablished k =>
      obtain ⟨rfl, ran⟩ := Prod.mk.inj (Option.some.inj hr)
      exact TcpConnection.connectEstablished_channel ran
    | connectionDestroyed k =>
      obtain ⟨rfl, ran⟩ := Prod.mk.inj (Option.some.inj hr)
      exact TcpConnection.connectionDestroyed_channel ran
    | removeConnectionInLoop k => cases hr
    | sendInLoop k data =>
      obtain ⟨rfl, ran⟩ := Prod.mk.inj (Option.some.inj hr)
      exact TcpConnection.sendInLoop_channel ran
    | shutdownInLoop k =>
      cases hr
      rfl
  | handleClose k =>
    obtain ⟨rfl, ran⟩ := Prod.mk.inj (Option.some.inj hr)
    exact TcpConnection.handleClose_channel ran
  | handleRead k =>
    obtain ⟨rfl, ran⟩ := Prod.mk.inj (Option.some.inj hr)
    exact TcpConnection.handleRead_channel ran
  | handleWrite k =>
    obtain ⟨rfl, ran⟩ := Prod.mk.inj (Option.some.inj hr)
    exact TcpConnection.handleWrite_channel ran
  | handleError k | setDisconnecting k =>
    cases hr
    rfl
  | runInLoop _ _ | removeConnection _ | destroyServer _ => cases hr

/-- The functions of a connection that are called while `handleRead` or
`handleWrite` runs. -/
def nested (result : Except Fault (TcpConnection × List Effect)) : List ConnFunction :=
  match result with
  | .ok (_, effects) =>
    (if effects.contains .closeCallback then [.handleClose] else []) ++
    (if effects.contains .handleError then [.handleError] else []) ++
    (if effects.contains .shutdownWrite then [.shutdownInLoop] else [])
  | .error _ => []

/-- The connection whose functions a task runs, and the functions. -/
def functions (s : ServerRun) (answer : Answer) : Task → List (Nat × ConnFunction)
  | .functor (.connectEstablished conn) => [(conn, .connectEstablished)]
  | .functor (.connectionDestroyed conn) => [(conn, .connectionDestroyed)]
  | .functor (.sendInLoop conn _) => [(conn, .sendInLoop)]
  | .functor (.shutdownInLoop conn) => [(conn, .shutdownInLoop)]
  | .handleClose conn => [(conn, .handleClose)]
  | .handleError conn => [(conn, .handleError)]
  | .handleRead conn => (conn, .handleRead) ::
      (nested ((s.conn conn).handleRead answer.read)).map fun f => (conn, f)
  | .handleWrite conn => (conn, .handleWrite) ::
      (nested ((s.conn conn).handleWrite answer.write)).map fun f => (conn, f)
  | .functor (.removeConnectionInLoop _) | .runInLoop _ _ | .removeConnection _
  | .setDisconnecting _ | .destroyServer _ => []

/-- What a task executes. -/
def taskExecutes (s : ServerRun) (answer : Answer) (task : Task) : List Executed :=
  (s.functions answer task).map (fun f => .function f.1 f.2) ++
  (match s.result answer task with
    | some (conn, _) => (s.pollerCalls answer task).map (PollerCall.executed conn)
    | none => []) ++
  (match task with
    | .functor (.removeConnectionInLoop _) => [.removeConnectionInLoop]
    | _ => [])

/-- What a step executes, with the thread it runs on. -/
def executes (s : ServerRun) : ServerAct → List (Nat × Executed)
  | .newConnection _ => [(0, .newConnection)]
  | .task thread answer =>
    match s.todo thread with
    | task :: _ => (s.taskExecutes answer task).map fun e => (thread, e)
    | [] => []
  | .poll _ _ | .dispatch _ _ | .runFunctor _ | .send _ _ _ | .shutdown _ _
  | .destroyServer _ _ => []

/-- The thread that is to execute it. -/
def homeOf (s : ServerRun) : Executed → Nat
  | .function conn _ | .updateChannel conn | .removeChannel conn => (s.conn conn).loop
  | .newConnection | .removeConnectionInLoop => 0

/-- The loop that a functor is to be run by. -/
def functorHome (s : ServerRun) : ServerFunctor → Nat
  | .removeConnectionInLoop _ => 0
  | .connectEstablished conn | .connectionDestroyed conn | .sendInLoop conn _
  | .shutdownInLoop conn => (s.conn conn).loop

/-- The thread that a task is to be run by, if there is one. -/
def home (s : ServerRun) : Task → Option Nat
  | .functor cb => some (s.functorHome cb)
  | .handleClose conn | .handleError conn | .handleRead conn | .handleWrite conn
  | .removeConnection conn => some (s.conn conn).loop
  | .runInLoop _ _ | .setDisconnecting _ | .destroyServer _ => none

/-- Where a task waits, and where it posts to, is its home. -/
structure TaskAtHome (s : ServerRun) (p : Place) (task : Task) : Prop where
  waits : ∀ thread, s.home task = some thread → p.thread = some thread
  posts : ∀ loop cb, task = .runInLoop loop cb → loop = s.functorHome cb

def AtHome (s : ServerRun) : Prop := ∀ p, ∀ task ∈ s.work [] p, s.TaskAtHome p task

/-- A loop never changes, once the connection is there. -/
theorem step_loop {s t : ServerRun} {l : ServerAct} (h : s.step l = some t) (conn : Nat) :
    (t.conn conn).loop = (s.conn conn).loop ∨
      (∃ sockfd, l = .newConnection sockfd) ∧ conn = s.accepted := by
  rcases step_becomes h conn with same | ⟨hl, _, new, _⟩ | ⟨_, _, _, hr⟩
  · exact .inl (by rw [same])
  · exact .inr ⟨⟨_, hl⟩, new⟩
  · exact .inl (result_loop hr)

/-- The pool has `n` io loops, and every connection is on one of them or on the
base loop. -/
structure OnLoops (s : ServerRun) (n : Nat) : Prop where
  pool : ∀ server, s.server = some server →
    server.numLoops = n ∧ (server.next = 0 ∨ server.next < n)
  loops : ∀ conn, conn < s.accepted → (s.conn conn).loop ≤ n

theorem Start.onLoops {s : ServerRun} {server : TcpServer} (h : s.Start)
    (hs : s.server = some server) (next : server.next = 0) : s.OnLoops server.numLoops := by
  constructor
  · intro server' same
    cases hs.symm.trans same
    exact ⟨rfl, .inl next⟩
  · intro conn early
    rw [h.accepted] at early
    cases early

/-- Connections keep their loops, and new ones are on loops of the pool. -/
theorem OnLoops.step {s t : ServerRun} {l : ServerAct} {n : Nat} (h : s.OnLoops n)
    (hs : s.step l = some t) : t.OnLoops n := by
  constructor
  · intro server now
    cases step_serves hs with
    | same same => exact h.pool server (same ▸ now)
    | @accept before sockfd _ was accepted =>
      obtain ⟨rfl, range⟩ := h.pool before was
      obtain ⟨numLoops, range, _⟩ := TcpServer.newConnection_pool range s.accepted sockfd
      cases accepted.symm.trans now
      exact ⟨numLoops, range⟩
    | erase _ _ was erased =>
      cases erased.symm.trans now
      have pool := h.pool _ was
      exact pool
    | destroyed _ _ none =>
      rw [none] at now
      cases now
  · intro conn early
    by_cases old : conn < s.accepted
    · rcases step_loop hs conn with same | ⟨_, new⟩
      · rw [same]
        exact h.loops conn old
      · exact absurd old (by omega)
    · obtain ⟨sockfd, server, _, was, rfl, new, _⟩ := step_newest hs old early
      obtain ⟨rfl, range⟩ := h.pool server was
      rw [new]
      exact (TcpServer.newConnection_pool range s.accepted sockfd).2.2

/-- What waits for connections that exist has its home where it had it. -/
theorem functorHome_kept {s t : ServerRun} (inv : s.forgetting.Inv [])
    (loops : ∀ conn, conn < s.accepted → (t.conn conn).loop = (s.conn conn).loop)
    {cb : ServerFunctor} (valid : s.ValidFunctor cb) : t.functorHome cb = s.functorHome cb := by
  cases cb with
  | removeConnectionInLoop conn => rfl
  | connectEstablished conn | connectionDestroyed conn => exact loops conn valid
  | sendInLoop conn data | shutdownInLoop conn => exact loops conn (told_known inv valid)

theorem home_kept {s t : ServerRun} (inv : s.forgetting.Inv [])
    (loops : ∀ conn, conn < s.accepted → (t.conn conn).loop = (s.conn conn).loop)
    {task : Task} (valid : s.Valid task) : t.home task = s.home task := by
  cases task with
  | functor cb => exact congrArg some (functorHome_kept inv loops valid)
  | handleClose conn | handleError conn | handleRead conn | handleWrite conn
  | removeConnection conn => exact congrArg some (loops conn (told_known inv valid))
  | runInLoop _ _ | setDisconnecting _ | destroyServer _ => rfl

theorem TaskAtHome.kept {s t : ServerRun} {p : Place} {task : Task} (h : s.TaskAtHome p task)
    (inv : s.forgetting.Inv [])
    (loops : ∀ conn, conn < s.accepted → (t.conn conn).loop = (s.conn conn).loop)
    (valid : s.Valid task) : t.TaskAtHome p task := by
  constructor
  · rw [home_kept inv loops valid]
    exact h.waits
  · rintro loop cb rfl
    rw [functorHome_kept inv loops valid]
    exact h.posts loop cb rfl

theorem TaskAtHome.same {s t : ServerRun} {p : Place} {task : Task} (h : s.TaskAtHome p task)
    (loops : ∀ conn, (t.conn conn).loop = (s.conn conn).loop) : t.TaskAtHome p task := by
  have functors (cb : ServerFunctor) : t.functorHome cb = s.functorHome cb := by
    cases cb with
    | removeConnectionInLoop conn => rfl
    | connectEstablished conn | connectionDestroyed conn | shutdownInLoop conn => exact loops conn
    | sendInLoop conn data => exact loops conn
  have homes : t.home task = s.home task := by
    cases task with
    | functor cb => exact congrArg some (functors cb)
    | handleClose conn | handleError conn | handleRead conn | handleWrite conn
    | removeConnection conn => exact congrArg some (loops conn)
    | runInLoop _ _ | setDisconnecting _ | destroyServer _ => rfl
  constructor
  · rw [homes]
    exact h.waits
  · intro loop cb posted
    rw [functors]
    exact h.posts loop cb posted

/-! ## What arrives -/

theorem TaskAtHome.posted {s : ServerRun} {p : Place} {loop : Nat} {cb : ServerFunctor}
    (h : loop = s.functorHome cb) : s.TaskAtHome p (.runInLoop loop cb) := by
  constructor
  · intro thread home
    cases home
  · rintro _ _ same
    cases same
    exact h

theorem TaskAtHome.at {s : ServerRun} {p : Place} {task : Task} {thread : Nat}
    (home : s.home task = some thread) (here : p.thread = some thread) : s.TaskAtHome p task := by
  constructor
  · intro other same
    rw [home] at same
    exact here.trans same
  · rintro loop cb rfl
    cases home

/-- What has no home can wait anywhere. -/
theorem TaskAtHome.anywhere {s : ServerRun} {p : Place} {task : Task}
    (home : s.home task = none) (posts : ∀ loop cb, task ≠ .runInLoop loop cb) :
    s.TaskAtHome p task := by
  constructor
  · intro thread same
    rw [home] at same
    cases same
  · intro loop cb same
    exact absurd same (posts loop cb)

theorem handleEvent_home {s : ServerRun} {conn : Nat} {revents : Mask} {task : Task}
    (h : task ∈ handleEvent conn revents) : s.home task = some (s.conn conn).loop := by
  obtain rfl | rfl | rfl | rfl := mem_handleEvent h <;> rfl

/-- What follows a task at home is at home. -/
theorem follows_home {s : ServerRun} {thread : Nat} {answer : Answer} {task new : Task} {p : Place}
    (home : s.TaskAtHome (.todo thread) task) (h : s.Follows thread answer task p new) :
    s.TaskAtHome p new := by
  cases h with
  | inline =>
    rename_i cb
    have here := home.posts thread cb rfl
    have waits : s.home (.functor cb) = some thread := congrArg some here.symm
    exact .at waits rfl
  | queue other =>
    rename_i loop cb
    have here := home.posts loop cb rfl
    exact .at (congrArg some here.symm) rfl
  | close =>
    have here := home.waits _ rfl
    exact .at rfl here
  | eof _ =>
    have here := home.waits _ rfl
    exact .at rfl here
  | remove _ => exact .posted rfl
  | erase _ => exact .at rfl rfl
  | destroy => exact .posted rfl
  | rest => exact .anywhere rfl (by intro _ _ same; cases same)

/-- A step other than an accept puts tasks where they are at home. -/
theorem arrives_home {s : ServerRun} {l : ServerAct} {p : Place} {task : Task} (home : s.AtHome)
    (old : ∀ sockfd, l ≠ .newConnection sockfd) (h : s.Arrives l p task) :
    s.TaskAtHome p task := by
  cases h with
  | accept _ => exact absurd rfl (old _)
  | report can active =>
    rename_i loop activeChannels conn revents
    simp only [canReport, Bool.and_eq_true, List.all_eq_true, decide_eq_true_eq, beq_iff_eq] at can
    have same : (s.conn conn).loop = loop := (can.2 _ active).1.1.2
    exact .at (congrArg some same) rfl
  | event hf mem =>
    rename_i loop conn revents rest
    have active : Task.handleError conn ∈ s.work [] (.frame loop) := mem_active hf
    have here := (home _ _ active).waits _ rfl
    exact .at (handleEvent_home mem) here
  | @swap loop _ cb hf waits =>
    have queued : Task.functor cb ∈ s.work [] (.pending loop) := List.mem_map_of_mem waits
    exact .at rfl ((home _ _ queued).waits _ rfl)
  | next hf =>
    rename_i loop cb rest
    have batched : Task.functor cb ∈ s.work [] (.frame loop) := mem_batch hf
    exact .at rfl ((home _ _ batched).waits _ rfl)
  | @task thread answer first rest _ _ next _ follows =>
    have first : first ∈ s.work [] (.todo thread) := mem_todo next
    exact follows_home (home _ _ first) follows
  | send _ _ => exact .posted rfl
  | store _ _ => exact .anywhere rfl (by intro _ _ same; cases same)
  | shutdown _ _ => exact .posted rfl
  | destroyServer => exact .anywhere rfl (by intro _ _ same; cases same)

/-- Whatever waits, waits at home, after every step. -/
theorem step_atHome {s t : ServerRun} {l : ServerAct} (inv : s.forgetting.Inv []) (home : s.AtHome)
    (h : s.step l = some t) : t.AtHome := by
  intro p task mem
  have loops : ∀ conn, conn < s.accepted → (t.conn conn).loop = (s.conn conn).loop := by
    intro conn early
    rcases step_loop h conn with same | ⟨_, new⟩
    · exact same
    · exact absurd early (by omega)
  rcases step_arrives h mem with was | arrives
  · exact (home p task was).kept inv loops (waiting_valid inv was)
  · cases l with
    | newConnection sockfd =>
      cases arrives with
      | accept hs =>
        obtain ⟨server, hs', conns, _⟩ := step_accepts h
        cases hs.symm.trans hs'
        refine .posted ?_
        rw [functorHome, conns, assign_same]
    | _ =>
      have old := arrives_home home (by intro _ same; cases same) arrives
      refine old.same fun conn => ?_
      rcases step_loop h conn with same | ⟨⟨_, accepts⟩, _⟩
      · exact same
      · cases accepts

/-! ## What is executed -/

theorem functions_home {s : ServerRun} {answer : Answer} {task : Task} {f : Nat × ConnFunction}
    (h : f ∈ s.functions answer task) : s.home task = some (s.conn f.1).loop := by
  cases task with
  | functor cb =>
    cases cb with
    | removeConnectionInLoop conn => cases h
    | connectEstablished conn | connectionDestroyed conn | shutdownInLoop conn =>
      rw [List.mem_singleton.mp h]
      rfl
    | sendInLoop conn data =>
      rw [List.mem_singleton.mp h]
      rfl
  | handleClose conn | handleError conn =>
    rw [List.mem_singleton.mp h]
    rfl
  | handleRead conn | handleWrite conn =>
    cases h with
    | head => rfl
    | tail _ inner =>
      obtain ⟨g, _, rfl⟩ := List.mem_map.mp inner
      rfl
  | runInLoop _ _ | removeConnection _ | setDisconnecting _ | destroyServer _ => cases h

/-- A task that calls the poller for a connection is at home with it. -/
theorem pollerCalls_home {s : ServerRun} {answer : Answer} {task : Task} {conn : Nat}
    {result : Except Fault (TcpConnection × List Effect)} {call : PollerCall}
    (hr : s.result answer task = some (conn, result)) (h : call ∈ s.pollerCalls answer task) :
    s.home task = some (s.conn conn).loop := by
  cases task with
  | functor cb =>
    cases cb with
    | removeConnectionInLoop k => cases hr
    | shutdownInLoop k => cases h
    | connectEstablished k | connectionDestroyed k =>
      cases hr
      rfl
    | sendInLoop k data =>
      cases hr
      rfl
  | handleClose k | handleRead k | handleWrite k =>
    cases hr
    rfl
  | handleError k | setDisconnecting k => cases h
  | runInLoop _ _ | removeConnection _ | destroyServer _ => cases hr

theorem taskExecutes_home {s : ServerRun} {answer : Answer} {task : Task} {e : Executed}
    (h : e ∈ s.taskExecutes answer task) : s.home task = some (s.homeOf e) := by
  simp only [taskExecutes, List.mem_append] at h
  rcases h with (h | h) | h
  · obtain ⟨f, hf, rfl⟩ := List.mem_map.mp h
    exact functions_home hf
  · split at h
    · rename_i conn result hr
      obtain ⟨call, hc, rfl⟩ := List.mem_map.mp h
      have home := pollerCalls_home hr hc
      cases call <;> exact home
    · cases h
  · split at h
    · rw [List.mem_singleton.mp h]
      rfl
    · cases h

/-- What is taken up by a thread is at home with it. -/
theorem executes_home {s : ServerRun} {l : ServerAct} (home : s.AtHome)
    {e : Nat × Executed} (mem : e ∈ s.executes l) : e.1 = s.homeOf e.2 := by
  cases l with
  | newConnection sockfd =>
    rw [List.mem_singleton.mp mem]
    rfl
  | task thread answer =>
    simp only [executes] at mem
    split at mem
    · rename_i task rest next
      obtain ⟨e, he, rfl⟩ := List.mem_map.mp mem
      have first : task ∈ s.work [] (.todo thread) := mem_todo next
      have here := (home _ task first).waits _ (taskExecutes_home he)
      exact Option.some.inj here
    · cases mem
  | _ => cases mem

theorem reachable_atHome {s : ServerRun} (h : machine.Reachable s) :
    s.forgetting.Inv [] ∧ s.AtHome := by
  refine Machine.Reachable.invariant (I := fun s => s.forgetting.Inv [] ∧ s.AtHome) ?_ ?_ h
  · intro s hs
    refine ⟨hs.forgetting_inv, fun p task mem => ?_⟩
    rw [hs.work] at mem
    cases mem
  · rintro s l t ⟨inv, home⟩ h
    exact ⟨step_forgetting_inv inv h, step_atHome inv home h⟩

/-- Only two functions change the server's connections before the end of its
destructor. -/
theorem serves_executes {s t : ServerRun} {l : ServerAct} (h : s.Serves t l) :
    t.server = s.server ∨ t.server = none ∨
      ∃ thread, (thread, .newConnection) ∈ s.executes l ∨
        (thread, .removeConnectionInLoop) ∈ s.executes l := by
  cases h with
  | same same => exact .inl same
  | accept hl _ _ =>
    subst hl
    exact .inr (.inr ⟨0, .inl List.mem_cons_self⟩)
  | @erase _ thread _ _ _ hl next _ _ =>
    subst hl
    refine .inr (.inr ⟨thread, .inr ?_⟩)
    simp only [executes, next]
    exact List.mem_map_of_mem (by simp [taskExecutes])
  | destroyed _ _ none => exact .inr (.inl none)

/-- In every reachable state, whatever a step executes is executed by the thread
of the connection's loop, or by the base loop's; a connection keeps its loop;
and only what the base loop's thread executes changes the server's connections,
until its destructor is done. -/
theorem confined {s t : ServerRun} {l : ServerAct} (hs : machine.Reachable s)
    (h : s.step l = some t) :
    (∀ e ∈ s.executes l, e.1 = s.homeOf e.2) ∧
    (∀ conn, conn < s.accepted → (t.conn conn).loop = (s.conn conn).loop) ∧
    (t.server = s.server ∨ t.server = none ∨
      (0, .newConnection) ∈ s.executes l ∨ (0, .removeConnectionInLoop) ∈ s.executes l) := by
  obtain ⟨inv, home⟩ := reachable_atHome hs
  have homes : ∀ e ∈ s.executes l, e.1 = s.homeOf e.2 := fun e mem => executes_home home mem
  refine ⟨homes, fun conn early => ?_, ?_⟩
  · rcases step_loop h conn with same | ⟨_, new⟩
    · exact same
    · exact absurd early (by omega)
  · rcases serves_executes (step_serves h) with same | none | ⟨thread, accepts | removes⟩
    · exact .inl same
    · exact .inr (.inl none)
    · have base : thread = 0 := homes _ accepts
      exact .inr (.inr (.inl (base ▸ accepts)))
    · have base : thread = 0 := homes _ removes
      exact .inr (.inr (.inr (base ▸ removes)))

/-- The io loop's thread closes connection 0, and calls the poller for it. -/
theorem confined_closing : ∃ s t, machine.exec newborn (closing.take 10) = some s ∧
    s.step (.task 1 eof) = some t ∧
    s.executes (.task 1 eof) =
      [(1, .function 0 .handleRead), (1, .function 0 .handleClose), (1, .updateChannel 0)] ∧
    ∀ e ∈ s.executes (.task 1 eof), e.1 = s.homeOf e.2 := by
  have run : ((machine.exec newborn (closing.take 10)).bind fun s =>
      (s.step (.task 1 eof)).map fun _ => s.executes (.task 1 eof)) =
      some [(1, .function 0 .handleRead), (1, .function 0 .handleClose),
        (1, .updateChannel 0)] := by
    decide +kernel
  obtain ⟨s, hs, run⟩ := Option.bind_eq_some_iff.mp run
  obtain ⟨t, ht, executed⟩ := Option.map_eq_some_iff.mp run
  have reachable : machine.Reachable s := machine.exec_reachable (.start newborn_start) _ hs
  exact ⟨s, t, hs, ht, executed, (confined reachable ht).1⟩

end ServerRun
end Kenmuduo
