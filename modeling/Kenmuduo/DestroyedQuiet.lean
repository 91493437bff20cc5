import Kenmuduo.Confinement

/-!
# A connection after connectionDestroyed

A server with the pollers of its loops. After `connectionDestroyed` a
connection is to be kDisconnected and with no poller, and functors that were
queued for it are to do nothing. `sendInLoop` does nothing for a kDisconnected
connection only, but `handleClose` leaves it kDisconnecting, and then
`connectionDestroyed` does not change the state.
-/

namespace Kenmuduo
open Transition

structure PolledRun where
  run : ServerRun
  /-- What the poller of each loop has of connections. -/
  poller : Nat → EPollPoller Nat
  /-- `connectEstablished` has run. -/
  established : Nat → Bool
  /-- `connectionDestroyed` has run since. -/
  destroyed : Nat → Bool
  /-- And since then a function of the connection has written to its socket,
  appended to its output or registered its channel. -/
  disturbed : Nat → Bool

/-- What a step does in a function of a connection. -/
structure Doing where
  conn : Nat
  task : Task
  effects : List Effect
  calls : List PollerCall

/-- Bytes for the socket or for `outputBuffer_`. -/
def Effect.output : Effect → Bool
  | written _ | copied _ _ => true
  | _ => false

def PollerCall.registers : PollerCall → Bool
  | updateChannel _ => true
  | removeChannel _ => false

def Doing.disturbs (d : Doing) : Bool :=
  d.effects.any Effect.output || d.calls.any PollerCall.registers

def ServerRun.doing (s : ServerRun) : ServerAct → Option Doing
  | .task thread answer =>
    match s.todo thread with
    | task :: _ =>
      match s.result answer task with
      | some (conn, .ok (_, effects)) => some ⟨conn, task, effects, s.pollerCalls answer task⟩
      | _ => none
    | [] => none
  | _ => none

theorem Task.establishing_isSome {task : Task} (h : task.establishing.isSome = true) :
    ∃ conn, task = .functor (.connectEstablished conn) := by
  unfold establishing at h
  split at h
  · exact ⟨_, rfl⟩
  · cases h

theorem Task.destroying_isSome {task : Task} (h : task.destroying.isSome = true) :
    ∃ conn, task = .functor (.connectionDestroyed conn) := by
  unfold destroying at h
  split at h
  · exact ⟨_, rfl⟩
  · cases h

namespace PolledRun

/-- A connection that is destroyed and quiet. -/
structure Buried (p : PolledRun) (conn : Nat) : Prop where
  state : (p.run.conn conn).state = .kDisconnected
  index : (p.run.conn conn).channel.index = kNew
  absent : ∀ loop, (p.poller loop).Absent conn
  undisturbed : p.disturbed conn = false

/-- After `d`, which found the pollers in order. -/
def record (p : PolledRun) (run : ServerRun) (d : Doing) (poller : EPollPoller Nat) :
    PolledRun where
  run := run
  poller := assign p.poller (p.run.conn d.conn).loop poller
  established :=
    if d.task.establishing.isSome then assign p.established d.conn true else p.established
  destroyed :=
    if d.task.destroying.isSome && p.established d.conn then assign p.destroyed d.conn true
    else p.destroyed
  disturbed :=
    if p.destroyed d.conn && d.disturbs then assign p.disturbed d.conn true else p.disturbed

theorem assign_true {f : Nat → Bool} {set : Bool} {k conn : Nat} :
    (if set then assign f conn true else f) k = true ↔ f k = true ∨ (k = conn ∧ set = true) := by
  by_cases same : k = conn
  · cases set <;> simp [same]
  · cases set <;> simp [same]

theorem record_established {p : PolledRun} {run : ServerRun} {d : Doing} {poller : EPollPoller Nat}
    {k : Nat} : (p.record run d poller).established k = true ↔
      p.established k = true ∨ (k = d.conn ∧ d.task.establishing.isSome = true) :=
  assign_true

theorem record_destroyed {p : PolledRun} {run : ServerRun} {d : Doing} {poller : EPollPoller Nat}
    {k : Nat} : (p.record run d poller).destroyed k = true ↔
      p.destroyed k = true ∨
        (k = d.conn ∧ (d.task.destroying.isSome && p.established d.conn) = true) :=
  assign_true

theorem record_disturbed {p : PolledRun} {run : ServerRun} {d : Doing} {poller : EPollPoller Nat}
    {k : Nat} : (p.record run d poller).disturbed k = true ↔
      p.disturbed k = true ∨ (k = d.conn ∧ (p.destroyed d.conn && d.disturbs) = true) :=
  assign_true

/-- A step of the server; an `epoll_ctl` that may not fail ends the process. -/
def step (p : PolledRun) (l : ServerAct) : Option PolledRun :=
  (p.run.step l).bind fun run =>
    match p.run.doing l with
    | some d =>
      match (p.poller (p.run.conn d.conn).loop).calls d.conn d.calls with
      | .ok poller => some (p.record run d poller)
      | .error _ => none
    | none => some { p with run := run }

structure Start (p : PolledRun) : Prop where
  run : p.run.Start
  poller : ∀ loop, p.poller loop = .new
  established : ∀ conn, p.established conn = false
  destroyed : ∀ conn, p.destroyed conn = false
  disturbed : ∀ conn, p.disturbed conn = false

def machine : Machine PolledRun ServerAct := ⟨Start, step⟩

/-- Every established connection whose `connectionDestroyed` has run is quiet. -/
def Quiet (p : PolledRun) : Prop := ∀ conn, p.destroyed conn = true → p.Buried conn

/-- Nothing stores kDisconnecting in a destroyed connection, and an established
one is destroyed while it is kConnected, or again. -/
def Settles (p : PolledRun) (answer : Answer) (task : Task) : Prop :=
  (∀ conn ∈ task.closing answer, p.destroyed conn = false) ∧
  ∀ conn ∈ task.destroying, p.established conn = true →
    (p.run.conn conn).state = .kConnected ∨ (p.run.conn conn).state = .kDisconnected

instance (p : PolledRun) (answer : Answer) (task : Task) : Decidable (p.Settles answer task) :=
  inferInstanceAs (Decidable (_ ∧ _))

/-- The step's task settles. -/
def Settled (p : PolledRun) : ServerAct → Prop
  | .task thread answer => ∀ task ∈ (p.run.todo thread).head?, p.Settles answer task
  | _ => True

instance (p : PolledRun) : ∀ l, Decidable (p.Settled l)
  | .task thread answer =>
    inferInstanceAs (Decidable (∀ task ∈ (p.run.todo thread).head?, p.Settles answer task))
  | .newConnection _ | .poll _ _ | .dispatch _ _ | .runFunctor _ | .send _ _ _ | .shutdown _ _
  | .destroyServer _ _ => isTrue trivial

/-! ## What a step does -/

theorem doing_task {s : ServerRun} {l : ServerAct} {d : Doing} (h : s.doing l = some d) :
    ∃ thread answer rest c, l = .task thread answer ∧ s.todo thread = d.task :: rest ∧
      s.result answer d.task = some (d.conn, .ok (c, d.effects)) ∧
      d.calls = s.pollerCalls answer d.task := by
  cases l with
  | task thread answer =>
    simp only [ServerRun.doing] at h
    split at h
    · rename_i task rest next
      split at h
      · rename_i conn c effects hr
        cases h
        exact ⟨thread, answer, rest, c, rfl, next, hr, rfl⟩
      · cases h
    · cases h
  | _ => cases h

/-- A step does something with one connection, or leaves all that there are alone. -/
inductive Steps (p : PolledRun) (l : ServerAct) (q : PolledRun) : Prop
  | quiet : p.run.doing l = none →
      (∀ conn, conn < p.run.accepted → q.run.conn conn = p.run.conn conn) →
      q = { p with run := q.run } → Steps p l q
  | ran {thread answer task rest conn c effects poller} : l = .task thread answer →
      answer.possible = true → p.run.todo thread = task :: rest →
      p.run.result answer task = some (conn, .ok (c, effects)) →
      (p.poller (p.run.conn conn).loop).calls conn (p.run.pollerCalls answer task) = .ok poller →
      q.run.conn = assign p.run.conn conn c → q.run.accepted = p.run.accepted →
      q.run.log = assign p.run.log conn (p.run.log conn ++ effects.filterMap Effect.callback) →
      q = p.record q.run ⟨conn, task, effects, p.run.pollerCalls answer task⟩ poller →
      Steps p l q

theorem step_steps {p q : PolledRun} {l : ServerAct} (h : p.step l = some q) :
    p.run.step l = some q.run ∧ p.Steps l q := by
  obtain ⟨run, hs, rest⟩ := Option.bind_eq_some_iff.mp h
  split at rest
  · rename_i d hd
    obtain ⟨thread, answer, later, c, rfl, next, hr, calls⟩ := doing_task hd
    split at rest
    · rename_i poller ok
      cases rest
      obtain ⟨possible, c', effects', same, performs⟩ := ServerRun.step_performs hs next hr
      cases same
      have made : d = ⟨d.conn, d.task, d.effects, p.run.pollerCalls answer d.task⟩ := by
        rw [← calls]
      refine ⟨hs, .ran rfl possible next hr (calls ▸ ok) performs.conn performs.accepted
        performs.log ?_⟩
      rw [← made]
      rfl
    · cases rest
  · rename_i none
    cases rest
    refine ⟨hs, .quiet none (fun conn early => ?_) rfl⟩
    rcases ServerRun.step_becomes hs conn with same | ⟨_, _, new, _⟩ | ⟨hl, next, _, hr⟩
    · exact same
    · exact absurd early (by omega)
    · rename_i thread answer task rest effects
      subst hl
      simp only [ServerRun.doing, next, hr] at none
      cases none

/-- A function of a kDisconnected connection that stores nothing in `state_`. -/
theorem calm {s : ServerRun} {answer : Answer} {task : Task} {conn : Nat} {c : TcpConnection}
    {effects : List Effect} (possible : answer.possible = true)
    (hr : s.result answer task = some (conn, .ok (c, effects)))
    (gone : (s.conn conn).state = .kDisconnected) (idle : (s.conn conn).channel.isWriting = false)
    (open_ : task.closing answer = none) (old : task.establishing = none) :
    effects.any Effect.output = false ∧ (s.pollerCalls answer task = [] ∨
      s.pollerCalls answer task = [.removeChannel (s.conn conn).channel]) := by
  cases task with
  | functor cb =>
    cases cb with
    | connectEstablished k => cases old
    | connectionDestroyed k =>
      obtain ⟨rfl, ran⟩ := Prod.mk.inj (Option.some.inj hr)
      have other : (s.conn k).state ≠ .kConnected := by rw [gone]; decide
      obtain ⟨up, _⟩ | ⟨_, _, rfl⟩ := TcpConnection.connectionDestroyed_ok ran
      · exact absurd up other
      · exact ⟨rfl, .inr (if_neg other)⟩
    | removeConnectionInLoop k => cases hr
    | sendInLoop k data =>
      obtain ⟨rfl, ran⟩ := Prod.mk.inj (Option.some.inj hr)
      rw [TcpConnection.sendInLoop_disconnected gone] at ran
      cases ran
      exact ⟨rfl, .inl (if_pos gone)⟩
    | shutdownInLoop k =>
      cases hr
      refine ⟨?_, .inl rfl⟩
      unfold TcpConnection.shutdownInLoop
      split <;> rfl
  | handleClose k => cases open_
  | handleError k =>
    cases hr
    exact ⟨rfl, .inl rfl⟩
  | handleRead k =>
    obtain ⟨rfl, ran⟩ := Prod.mk.inj (Option.some.inj hr)
    have more : effects ≠ [.connectionCallback false, .closeCallback] := by
      intro both
      have ends := (TcpConnection.handleRead_ends possible ran).mp both
      simp [Task.closing, ends] at open_
    refine ⟨?_, .inl (TcpConnection.handleReadCalls_open ran more)⟩
    obtain ⟨_, ⟨_, rfl | rfl⟩ | ⟨_, both⟩⟩ := TcpConnection.handleRead_ok ran
    · rfl
    · rfl
    · exact absurd both more
  | handleWrite k =>
    obtain ⟨rfl, ran⟩ := Prod.mk.inj (Option.some.inj hr)
    rw [TcpConnection.handleWrite_idle idle] at ran
    cases ran
    exact ⟨rfl, .inl (if_neg (by simp [idle]))⟩
  | setDisconnecting k => cases open_
  | runInLoop _ _ | removeConnection _ | destroyServer _ => cases hr

/-- A kDisconnected connection asks for no write events. -/
theorem gone_idle {s : ServerRun} {answer : Answer} {task : Task} {conn : Nat} {c : TcpConnection}
    {effects : List Effect} (possible : answer.possible = true)
    (hr : s.result answer task = some (conn, .ok (c, effects)))
    (idle : (s.conn conn).state = .kDisconnected → (s.conn conn).channel.isWriting = false)
    (gone : c.state = .kDisconnected) : c.channel.isWriting = false := by
  have channel := ServerRun.result_channel hr
  obtain ⟨same, open_, old⟩ | ⟨_, up⟩ | ⟨rfl, connected, _⟩ | ⟨_, closed⟩ :=
    ServerRun.result_state possible hr
  · have was := same.symm.trans gone
    obtain ⟨_, none | removes⟩ := calm possible hr was (idle was) open_ old
    · rw [channel, none]
      exact idle was
    · rw [channel, removes]
      exact idle was
  · rw [gone] at up
    cases up
  · rw [channel, ServerRun.pollerCalls, TcpConnection.connectionDestroyedCalls, if_pos connected]
    simp [PollerCall.final, PollerCall.leaves]
  · rw [gone] at closed
    cases closed

/-! ## What every run keeps -/

structure Kept (p : PolledRun) : Prop where
  inv : p.run.forgetting.Inv []
  entered : ∀ conn, conn < p.run.accepted →
    (p.poller (p.run.conn conn).loop).Entered conn (p.run.conn conn).channel
  absent : ∀ loop conn, p.run.accepted ≤ conn ∨ loop ≠ (p.run.conn conn).loop →
    (p.poller loop).Absent conn
  idle : ∀ conn, conn < p.run.accepted → (p.run.conn conn).state = .kDisconnected →
    (p.run.conn conn).channel.isWriting = false
  told : ∀ conn, p.established conn = true → p.run.log conn ≠ []
  order : ∀ conn, p.destroyed conn = true → p.established conn = true
  later : ∀ conn, p.disturbed conn = true → p.destroyed conn = true

theorem Start.kept {p : PolledRun} (h : p.Start) : p.Kept := by
  have nothing (loop conn : Nat) : (p.poller loop).Absent conn := by
    rw [h.poller]
    exact ⟨fun _ here => (nomatch here), fun _ _ here => (nomatch here)⟩
  refine ⟨h.run.forgetting_inv, fun conn early => ?_, fun loop conn _ => nothing loop conn,
    fun conn early => ?_, fun conn up => ?_, fun conn gone => ?_, fun conn late => ?_⟩
  · rw [h.run.accepted] at early
    cases early
  · rw [h.run.accepted] at early
    cases early
  · rw [h.established] at up
    cases up
  · rw [h.destroyed] at gone
    cases gone
  · rw [h.disturbed] at late
    cases late

theorem pollerCalls_chain {s : ServerRun} {answer : Answer} {task : Task} {conn : Nat}
    {result : Except Fault (TcpConnection × List Effect)}
    (hr : s.result answer task = some (conn, result)) :
    PollerCall.Chain (s.conn conn).channel (s.pollerCalls answer task) := by
  cases task with
  | functor cb =>
    cases cb with
    | connectEstablished k =>
      cases hr
      exact TcpConnection.connectEstablished_chain _
    | connectionDestroyed k =>
      cases hr
      exact TcpConnection.connectionDestroyed_chain _
    | sendInLoop k data =>
      cases hr
      exact TcpConnection.sendInLoop_chain _ _ _
    | shutdownInLoop k | removeConnectionInLoop k => trivial
  | handleClose k =>
    cases hr
    exact TcpConnection.handleClose_chain _
  | handleRead k =>
    cases hr
    exact TcpConnection.handleRead_chain _ _
  | handleWrite k =>
    cases hr
    exact TcpConnection.handleWrite_chain _ _
  | handleError k | setDisconnecting k | runInLoop _ _ | removeConnection _ | destroyServer _ =>
    trivial

/-- A step that is no function of a connection, with a new connection or not. -/
theorem Kept.quiet {p q : PolledRun} {l : ServerAct} (kept : p.Kept)
    (hs : p.run.step l = some q.run)
    (same : ∀ conn, conn < p.run.accepted → q.run.conn conn = p.run.conn conn)
    (made : q = { p with run := q.run }) : q.Kept := by
  have inv := ServerRun.step_forgetting_inv kept.inv hs
  have poller : q.poller = p.poller := by rw [made]
  have established : q.established = p.established := by rw [made]
  have destroyed : q.destroyed = p.destroyed := by rw [made]
  have disturbed : q.disturbed = p.disturbed := by rw [made]
  have new : ∀ conn, p.run.accepted ≤ conn → conn < q.run.accepted →
      (q.run.conn conn).state = .kConnecting ∧ (q.run.conn conn).channel.index = kNew := by
    intro conn late early
    obtain ⟨_, _, _, _, _, _, _, log⟩ := ServerRun.step_newest hs (Nat.not_lt.mpr late) early
    refine inv.fresh conn early ((ServerRun.forgetting_log q.run conn).mpr ?_)
    rw [log]
    exact Decidable.byContradiction fun told =>
      absurd (ServerRun.told_known kept.inv told) (Nat.not_lt.mpr late)
  refine ⟨inv, fun conn early => ?_, fun loop conn away => ?_, fun conn early => ?_,
    fun conn up => ?_, ?_, ?_⟩
  · rw [poller]
    by_cases old : conn < p.run.accepted
    · rw [same conn old]
      exact kept.entered conn old
    · exact (kept.absent _ conn (.inl (Nat.not_lt.mp old))).entered
        (new conn (Nat.not_lt.mp old) early).2
  · rw [poller]
    by_cases old : conn < p.run.accepted
    · refine kept.absent loop conn (away.elim (fun late => .inl ?_) fun other => .inr ?_)
      · have grows := ServerRun.step_accepted hs
        omega
      · rw [same conn old] at other
        exact other
    · exact kept.absent loop conn (.inl (Nat.not_lt.mp old))
  · by_cases old : conn < p.run.accepted
    · rw [same conn old]
      exact kept.idle conn old
    · rw [(new conn (Nat.not_lt.mp old) early).1]
      intro gone
      cases gone
  · rw [established] at up
    obtain ⟨more, log⟩ := ServerRun.step_log hs conn
    rw [log]
    exact List.append_ne_nil_of_left_ne_nil (kept.told conn up) more
  · rw [destroyed, established]
    exact kept.order
  · rw [disturbed, destroyed]
    exact kept.later

/-- A function of a connection changes that connection and its loop's poller. -/
theorem Kept.ran {p q : PolledRun} {answer : Answer} {task : Task} {conn : Nat}
    {c : TcpConnection} {effects : List Effect} {poller : EPollPoller Nat} (kept : p.Kept)
    (inv : q.run.forgetting.Inv []) (known : conn < p.run.accepted)
    (possible : answer.possible = true)
    (hr : p.run.result answer task = some (conn, .ok (c, effects)))
    (ok : (p.poller (p.run.conn conn).loop).calls conn (p.run.pollerCalls answer task) = .ok poller)
    (conns : q.run.conn = assign p.run.conn conn c) (accepted : q.run.accepted = p.run.accepted)
    (log : q.run.log = assign p.run.log conn (p.run.log conn ++ effects.filterMap Effect.callback))
    (made : q = p.record q.run ⟨conn, task, effects, p.run.pollerCalls answer task⟩ poller) :
    q.Kept := by
  have pollers : q.poller = assign p.poller (p.run.conn conn).loop poller :=
    congrArg PolledRun.poller made
  have loops : ∀ k, (q.run.conn k).loop = (p.run.conn k).loop := by
    intro k
    rw [conns, assign]
    split
    · rename_i here
      rw [here]
      exact ServerRun.result_loop hr
    · rfl
  have chain := pollerCalls_chain hr
  obtain ⟨entered, within⟩ := (kept.entered conn known).calls chain ok
  rw [← ServerRun.result_channel hr] at entered
  refine ⟨inv, fun k early => ?_, fun loop k away => ?_, fun k early => ?_, fun k up => ?_,
    fun k gone => ?_, fun k late => ?_⟩
  · rw [accepted] at early
    rw [loops, conns, pollers, assign]
    by_cases here : k = conn
    · rw [here, if_pos rfl, assign_same]
      exact entered
    · rw [assign_other _ _ here]
      split
      · rename_i loop
        have was := kept.entered k early
        rw [loop] at was
        exact was.within within here
      · exact kept.entered k early
  · rw [accepted, loops] at away
    have was := kept.absent loop k away
    rw [pollers, assign]
    split
    · rename_i mine
      rw [mine] at was
      refine was.within within fun here => ?_
      rw [here] at away
      exact away.elim (fun late => absurd known (Nat.not_lt.mpr late)) fun other => other mine
    · exact was
  · rw [accepted] at early
    rw [conns, assign]
    split
    · exact gone_idle possible hr (kept.idle conn known)
    · exact kept.idle k early
  · rw [made, record_established] at up
    rw [log, assign]
    rcases up with old | ⟨rfl, now⟩
    · split
      · rename_i here
        exact List.append_ne_nil_of_left_ne_nil (here ▸ kept.told k old) _
      · exact kept.told k old
    · rw [if_pos rfl]
      obtain ⟨conn, rfl⟩ := Task.establishing_isSome now
      obtain ⟨_, ran⟩ := Prod.mk.inj (Option.some.inj hr)
      rw [(TcpConnection.connectEstablished_ok ran).2]
      exact List.append_ne_nil_of_right_ne_nil _ (by simp [Effect.callback])
  · rw [made, record_destroyed] at gone
    rw [made, record_established]
    rcases gone with old | ⟨rfl, now⟩
    · exact .inl (kept.order k old)
    · exact .inl (Bool.and_eq_true_iff.mp now).2
  · rw [made, record_disturbed] at late
    rw [made, record_destroyed]
    rcases late with old | ⟨rfl, now⟩
    · exact .inl (kept.later k old)
    · exact .inl (Bool.and_eq_true_iff.mp now).1

theorem Kept.step {p q : PolledRun} {l : ServerAct} (kept : p.Kept) (h : p.step l = some q) :
    q.Kept := by
  obtain ⟨hs, steps⟩ := step_steps h
  cases steps with
  | quiet _ same made => exact kept.quiet hs same made
  | @ran thread answer task rest _ _ _ _ hl possible next hr ok conns accepted log made =>
    have inv := ServerRun.step_forgetting_inv kept.inv hs
    have mem : task ∈ p.run.work [] (.todo thread) := ServerRun.mem_todo next
    have known := ServerRun.result_known kept.inv (ServerRun.waiting_valid kept.inv mem) hr
    exact kept.ran inv known possible hr ok conns accepted log made

/-! ## When destroyed connections are quiet -/

theorem Kept.absent_all {p : PolledRun} (kept : p.Kept) {conn : Nat} (known : conn < p.run.accepted)
    (new : (p.run.conn conn).channel.index = kNew) (loop : Nat) : (p.poller loop).Absent conn := by
  by_cases mine : loop = (p.run.conn conn).loop
  · rw [mine]
    exact (kept.entered conn known).absent new
  · exact kept.absent loop conn (.inr mine)

theorem Kept.known {p : PolledRun} (kept : p.Kept) {conn : Nat} (gone : p.destroyed conn = true) :
    conn < p.run.accepted :=
  ServerRun.told_known kept.inv (kept.told conn (kept.order conn gone))

/-- `connectionDestroyed` leaves a connection that was not closing quiet. -/
theorem destroyed_state {s : ServerRun} {answer : Answer} {conn : Nat} {c : TcpConnection}
    {effects : List Effect}
    (hr : s.result answer (.functor (.connectionDestroyed conn)) = some (conn, .ok (c, effects)))
    (was : (s.conn conn).state = .kConnected ∨ (s.conn conn).state = .kDisconnected) :
    c.state = .kDisconnected ∧ c.channel.index = kNew := by
  obtain ⟨_, ran⟩ := Prod.mk.inj (Option.some.inj hr)
  obtain ⟨_, rfl, _⟩ | ⟨other, rfl, _⟩ := TcpConnection.connectionDestroyed_ok ran
  · exact ⟨rfl, rfl⟩
  · exact ⟨was.resolve_left other, rfl⟩

/-- The task of a quiet connection leaves it quiet, when it settles. -/
theorem Buried.ran {p : PolledRun} {answer : Answer} {task : Task} {thread : Nat} {rest : List Task}
    {conn : Nat} {c : TcpConnection} {effects : List Effect} (kept : p.Kept)
    (gone : p.destroyed conn = true) (buried : p.Buried conn) (possible : answer.possible = true)
    (next : p.run.todo thread = task :: rest)
    (hr : p.run.result answer task = some (conn, .ok (c, effects))) (ok : p.Settles answer task) :
    c.state = .kDisconnected ∧ c.channel.index = kNew ∧
      (Doing.mk conn task effects (p.run.pollerCalls answer task)).disturbs = false := by
  have open_ : task.closing answer = none := by
    refine Option.eq_none_iff_forall_ne_some.mpr fun k closing => ?_
    obtain ⟨_, hk⟩ := ServerRun.closing_result (s := p.run) closing
    cases hr.symm.trans hk
    have away := ok.1 conn closing
    rw [gone] at away
    cases away
  have old : task.establishing = none := by
    refine Option.eq_none_iff_forall_ne_some.mpr fun k new => ?_
    obtain ⟨d, rfl⟩ := Task.establishing_isSome (Option.isSome_iff_exists.mpr ⟨k, new⟩)
    obtain rfl : d = conn := (Prod.mk.inj (Option.some.inj hr)).1
    have mem : Task.functor (.connectEstablished d) ∈ p.run.work [] (.todo thread) :=
      ServerRun.mem_todo next
    have establishes : Task.establishes d (.functor (.connectEstablished d)) = true :=
      beq_self_eq_true d
    exact kept.told d (kept.order d gone) (ServerRun.waiting_fresh kept.inv mem establishes).2.1
  have idle := kept.idle conn (kept.known gone) buried.state
  obtain ⟨silent, calls⟩ := calm possible hr buried.state idle open_ old
  have channel := ServerRun.result_channel hr
  refine ⟨?_, ?_, ?_⟩
  · obtain ⟨same, _⟩ | ⟨rfl, _⟩ | ⟨_, _, dead⟩ | ⟨closing, _⟩ := ServerRun.result_state possible hr
    · exact same.trans buried.state
    · cases old
    · exact dead
    · rw [open_] at closing
      cases closing
  · rcases calls with none | removes
    · rw [channel, none]
      exact buried.index
    · rw [channel, removes]
      rfl
  · rw [Doing.disturbs, silent]
    rcases calls with none | removes
    · rw [none]
      rfl
    · rw [removes]
      rfl

/-- What is settled stays quiet. -/
theorem quiet_step {p q : PolledRun} {l : ServerAct} (kept : p.Kept) (quiet : p.Quiet)
    (h : p.step l = some q) (ok : p.Settled l) : q.Quiet := by
  have after := kept.step h
  intro k gone
  obtain ⟨_, steps⟩ := step_steps h
  cases steps with
  | quiet _ same made =>
    have was : p.destroyed k = true := by rwa [made] at gone
    have conn := same k (kept.known was)
    have buried := quiet k was
    have index : (q.run.conn k).channel.index = kNew := by rw [conn]; exact buried.index
    refine ⟨by rw [conn]; exact buried.state, index, after.absent_all (after.known gone) index, ?_⟩
    rw [made]
    exact buried.undisturbed
  | @ran thread answer task rest conn c effects poller hl possible next hr calls conns _ _ made =>
    subst hl
    have settles := ok task (by rw [next]; rfl)
    have gone' := gone
    rw [made, record_destroyed] at gone'
    have undisturbed : p.disturbed k = false → (k = conn → p.destroyed conn = true →
        (Doing.mk conn task effects (p.run.pollerCalls answer task)).disturbs = false) →
        q.disturbed k = false := by
      intro was still
      refine Bool.eq_false_iff.mpr fun disturbed => ?_
      rw [made, record_disturbed] at disturbed
      rcases disturbed with old | ⟨same, now⟩
      · rw [was] at old
        cases old
      · obtain ⟨dead, noise⟩ := Bool.and_eq_true_iff.mp now
        rw [still same dead] at noise
        cases noise
    by_cases here : k = conn
    · subst here
      have now : (q.run.conn k) = c := by rw [conns, assign_same]
      by_cases was : p.destroyed k = true
      · obtain ⟨state, index, still⟩ :=
          (quiet k was).ran kept was possible next hr settles
        rw [← now] at state index
        exact ⟨state, index, after.absent_all (after.known gone) index,
          undisturbed (quiet k was).undisturbed fun _ _ => still⟩
      · obtain ⟨_, dies⟩ := gone'.resolve_left was
        obtain ⟨destroys, up⟩ := Bool.and_eq_true_iff.mp dies
        obtain ⟨d, same⟩ := Task.destroying_isSome destroys
        have same : task = .functor (.connectionDestroyed d) := same
        subst same
        cases (Prod.mk.inj (Option.some.inj hr)).1
        obtain ⟨state, index⟩ := destroyed_state hr (settles.2 _ rfl up)
        rw [← now] at state index
        refine ⟨state, index, after.absent_all (after.known gone) index,
          undisturbed (Bool.eq_false_iff.mpr fun late => was (kept.later _ late))
            fun _ dead => absurd dead was⟩
    · have was := gone'.resolve_right fun both => here both.1
      have buried := quiet k was
      have now : q.run.conn k = p.run.conn k := by rw [conns, assign_other _ _ here]
      have index : (q.run.conn k).channel.index = kNew := by rw [now]; exact buried.index
      exact ⟨by rw [now]; exact buried.state, index, after.absent_all (after.known gone) index,
        undisturbed buried.undisturbed fun same => absurd same here⟩

/-- What is not settled does not stay quiet. -/
theorem quiet_settled {p q : PolledRun} {l : ServerAct}
    (h : p.step l = some q) (quiet : q.Quiet) : p.Settled l := by
  obtain ⟨hs, steps⟩ := step_steps h
  cases l with
  | task thread answer =>
    intro task first
    obtain ⟨rest, next⟩ := List.head?_eq_some_iff.mp first
    have stays : ∀ k, p.destroyed k = true → q.destroyed k = true := by
      intro k was
      cases steps with
      | quiet _ _ made => rwa [made]
      | ran _ _ _ _ _ _ _ _ made =>
        rw [made, record_destroyed]
        exact .inl was
    refine ⟨fun k closing => ?_, fun k destroys up => ?_⟩
    · refine Bool.eq_false_iff.mpr fun was => ?_
      have state := (quiet k (stays k was)).state
      rw [ServerRun.step_closing hs next closing] at state
      cases state
    · obtain ⟨d, rfl⟩ := Task.destroying_isSome (Option.isSome_iff_exists.mpr ⟨k, destroys⟩)
      cases destroys
      obtain ⟨_, c, effects, hr, performs⟩ := ServerRun.step_performs hs next rfl
      have gone : q.destroyed k = true := by
        cases steps with
        | quiet none _ _ => simp [ServerRun.doing, next, ServerRun.result, hr] at none
        | ran hl _ next' hr' _ _ _ _ made =>
          cases hl
          cases next.symm.trans next'
          cases (Prod.mk.inj (Option.some.inj hr')).1
          rw [made, record_destroyed]
          exact .inr ⟨rfl, Bool.and_eq_true_iff.mpr ⟨rfl, up⟩⟩
      have state := (quiet k gone).state
      rw [performs.conn, assign_same] at state
      obtain ⟨connected, _⟩ | ⟨_, rfl, _⟩ := TcpConnection.connectionDestroyed_ok hr
      · exact .inl connected
      · exact .inr state
  | _ => trivial

/-- Destroyed connections stay quiet exactly when nothing stores kDisconnecting
in one of them, and none is destroyed while it is closing. -/
theorem quiet_iff {p : PolledRun} (hp : p.Start) (ls : List ServerAct) :
    machine.Always Quiet p ls ↔ machine.Steps Settled p ls := by
  refine Transition.always_iff_steps (I := fun p => p.Kept ∧ p.Quiet) ?_ ?_ ?_ ⟨hp.kept, ?_⟩ ls
  · rintro p ⟨_, quiet⟩
    exact quiet
  · rintro p l q ⟨kept, quiet⟩ h ok
    exact ⟨kept.step h, quiet_step kept quiet h ok⟩
  · intro p l q _ h quiet
    exact quiet_settled h quiet
  · intro conn gone
    rw [hp.destroyed] at gone
    cases gone

/-- A server with one io loop. -/
def listening : PolledRun where
  run := ServerRun.newborn
  poller := fun _ => .new
  established := fun _ => false
  destroyed := fun _ => false
  disturbed := fun _ => false

theorem listening_start : listening.Start :=
  ⟨ServerRun.newborn_start, fun _ => rfl, fun _ => rfl, fun _ => rfl, fun _ => rfl⟩

def greeting : Message := Message.ofList [104, 105] (by decide)

/-- The kernel takes all of the greeting. -/
def taken : Answer := ⟨.delivered [], .accepted 2, fun _ => 104⟩

/-- The io loop runs one functor. -/
def iteration : List ServerAct := [.poll 1 [], .dispatch 1 true, .runFunctor 1, .task 1 taken,
  .runFunctor 1]

/-- Thread 2 sends while the server is destroyed, and queues its functor last. -/
def destroyedFirst : List ServerAct :=
  ServerRun.closing.take 8 ++ [.send 2 0 greeting, .destroyServer 0 [0], .task 0 taken,
    .task 0 taken] ++ iteration ++ [.task 2 taken] ++ iteration

theorem quiet_destroyedFirst : machine.Always Quiet listening destroyedFirst :=
  (quiet_iff listening_start destroyedFirst).mpr (by decide +kernel)

/-- Thread 2 sends while the peer closes the connection. -/
def closedFirst : List ServerAct :=
  ServerRun.closing.take 8 ++ [.send 2 0 greeting, .poll 1 [(0, EPOLLIN)], .dispatch 1 true,
    .task 1 taken, .task 1 taken, .task 1 taken, .dispatch 1 true, .runFunctor 1,
    .dispatch 0 true, .runFunctor 0, .task 0 taken] ++ iteration ++
    [.task 2 taken] ++ iteration

/-- The functor writes to the destroyed connection's socket, buffers and puts
its channel back into the poller. -/
theorem not_quiet_closedFirst : listening.Start ∧
    ∃ p, machine.exec listening closedFirst = some p ∧ p.destroyed 0 = true ∧
      (p.run.conn 0).state = .kDisconnecting ∧ (p.run.conn 0).channel.index = kAdded ∧
      p.disturbed 0 = true ∧ ¬ p.Quiet := by
  have run : (machine.exec listening closedFirst).map (fun p =>
      (p.destroyed 0, (p.run.conn 0).state, (p.run.conn 0).channel.index, p.disturbed 0)) =
      some (true, .kDisconnecting, kAdded, true) := by decide +kernel
  obtain ⟨p, hp, found⟩ := Option.map_eq_some_iff.mp run
  simp only [Prod.mk.injEq] at found
  obtain ⟨gone, state, index, disturbed⟩ := found
  refine ⟨listening_start, p, hp, gone, state, index, disturbed, fun quiet => ?_⟩
  have buried := (quiet 0 gone).state
  rw [state] at buried
  cases buried

end PolledRun
end Kenmuduo
