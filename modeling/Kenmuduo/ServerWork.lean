import Kenmuduo.CallbackProtocol
import Kenmuduo.Token

/-!
# What is still to run

All tasks of a server by the place they wait at, and the invariant: the one
functor that runs `connectEstablished` of a connection goes from place to
place, and everything else that waits for a connection was queued after its
first callback.
-/

namespace Kenmuduo

/-- The places of tasks: a thread's stack, a loop's queue, a loop's batch or
active channels, and the task that is being run. -/
inductive Place
  | todo (thread : Nat)
  | pending (loop : Nat)
  | frame (loop : Nat)
  | hand
  deriving DecidableEq

def LoopFrame.tasks : LoopFrame → List Task
  | polling => []
  | dispatching activeChannels => activeChannels.map fun active => .handleError active.1
  | batch functors => functors.map .functor

/-- The task runs `connectEstablished` of the connection, or has it run. -/
def Task.establishes (conn : Nat) : Task → Bool
  | functor (.connectEstablished c) | runInLoop _ (.connectEstablished c) => c == conn
  | _ => false

/-- Active channels establish nothing. -/
theorem LoopFrame.dispatching_establishes (active : List (Nat × Mask)) (conn : Nat) :
    (dispatching active).tasks.countP (Task.establishes conn) = 0 := by
  rw [List.countP_eq_zero]
  intro task mem
  obtain ⟨_, _, rfl⟩ := List.mem_map.mp mem
  exact Bool.false_ne_true

namespace ServerRun

def work (s : ServerRun) (hand : List Task) : Place → List Task
  | .todo thread => s.todo thread
  | .pending loop => (s.pendingFunctors loop).map .functor
  | .frame loop => (s.frame loop).tasks
  | .hand => hand

@[simp] theorem work_hand (s : ServerRun) (hand : List Task) : s.work hand .hand = hand := rfl

@[simp] theorem work_todo (s : ServerRun) (hand : List Task) (thread : Nat) :
    s.work hand (.todo thread) = s.todo thread := rfl

@[simp] theorem work_pending (s : ServerRun) (hand : List Task) (loop : Nat) :
    s.work hand (.pending loop) = (s.pendingFunctors loop).map .functor := rfl

@[simp] theorem work_frame (s : ServerRun) (hand : List Task) (loop : Nat) :
    s.work hand (.frame loop) = (s.frame loop).tasks := rfl

/-- A thread's next task, a loop's next channel and its next functor. -/
theorem mem_todo {s : ServerRun} {thread : Nat} {task : Task} {rest : List Task}
    (next : s.todo thread = task :: rest) : task ∈ s.work [] (.todo thread) := by
  rw [work_todo, next]
  exact List.mem_cons_self

theorem mem_active {s : ServerRun} {loop conn : Nat} {revents : Mask} {rest : List (Nat × Mask)}
    (hf : s.frame loop = .dispatching ((conn, revents) :: rest)) :
    .handleError conn ∈ s.work [] (.frame loop) := by
  rw [work_frame, hf]
  exact List.mem_cons_self

theorem mem_batch {s : ServerRun} {loop : Nat} {cb : ServerFunctor} {rest : List ServerFunctor}
    (hf : s.frame loop = .batch (cb :: rest)) : .functor cb ∈ s.work [] (.frame loop) := by
  rw [work_frame, hf]
  exact List.mem_cons_self

theorem work_setTodo (s : ServerRun) (hand : List Task) (thread : Nat) (tasks : List Task)
    (p : Place) : (s.setTodo thread tasks).work hand p =
      if p = .todo thread then tasks else s.work hand p := by
  cases p with
  | todo t => simp [setTodo, assign]
  | pending | frame | hand => rfl

theorem work_setPending (s : ServerRun) (hand : List Task) (loop : Nat)
    (functors : List ServerFunctor) (p : Place) : (s.setPending loop functors).work hand p =
      if p = .pending loop then functors.map .functor else s.work hand p := by
  cases p with
  | pending l =>
    simp only [work_pending, setPending, assign, Place.pending.injEq]
    split <;> rfl
  | todo | frame | hand => rfl

theorem work_setFrame (s : ServerRun) (hand : List Task) (loop : Nat) (frame : LoopFrame)
    (p : Place) : (s.setFrame loop frame).work hand p =
      if p = .frame loop then frame.tasks else s.work hand p := by
  cases p with
  | frame l =>
    simp only [work_frame, setFrame, assign, Place.frame.injEq]
    split <;> rfl
  | todo | pending | hand => rfl

theorem work_call (s : ServerRun) (hand : List Task) (thread : Nat) (tasks : List Task)
    (p : Place) : (s.call thread tasks).work hand p =
      if p = .todo thread then tasks ++ s.todo thread else s.work hand p :=
  work_setTodo s hand thread _ p

/-- What a task needs: a connection that exists, or that the user knows. -/
def ValidFunctor (s : ServerRun) : ServerFunctor → Prop
  | .connectEstablished conn | .connectionDestroyed conn => conn < s.accepted
  | .removeConnectionInLoop conn | .sendInLoop conn _ | .shutdownInLoop conn => s.log conn ≠ []

def Valid (s : ServerRun) : Task → Prop
  | .functor cb | .runInLoop _ cb => s.ValidFunctor cb
  | .handleClose conn | .handleError conn | .handleRead conn | .handleWrite conn
  | .removeConnection conn | .setDisconnecting conn => s.log conn ≠ []
  | .destroyServer conns => ∀ conn ∈ conns, conn < s.accepted

/-- How often `connectEstablished` of the connection waits at a place. -/
def establishing (s : ServerRun) (hand : List Task) (p : Place) (conn : Nat) : Nat :=
  (s.work hand p).countP (Task.establishes conn)

/-- `connectEstablished` of a connection is one token, spent when it has run. -/
structure Placed (s : ServerRun) (hand : List Task) (place : Nat → Option Place) : Prop where
  held : Token.Held (s.establishing hand) place
  early : ∀ conn, place conn ≠ none → s.log conn = []

/-- The logs, and what they tell about the connections. -/
structure Logs (s : ServerRun) : Prop where
  protocol : ∀ conn, Protocol (s.log conn)
  fresh : ∀ conn, conn < s.accepted → s.log conn = [] →
    (s.conn conn).state = .kConnecting ∧ (s.conn conn).channel.index = kNew
  ended : ∀ conn, s.closed conn → (s.conn conn).state ≠ .kConnected
  finished : ∀ conn, s.destroyed conn = true → s.closed conn
  known : ∀ conn, s.log conn ≠ [] → conn < s.accepted
  registered : ∀ server : TcpServer, s.server = some server →
    ∀ item ∈ server.connections, item.2 < s.accepted

structure Inv (s : ServerRun) (hand : List Task) : Prop extends s.Logs where
  valid : ∀ p, ∀ task ∈ s.work hand p, s.Valid task
  placed : ∃ place, s.Placed hand place

/-- Nothing waits at the start. -/
theorem Start.work {s : ServerRun} (h : s.Start) (p : Place) : s.work [] p = [] := by
  cases p with
  | todo thread => exact h.todo thread
  | pending loop => simp [h.pendingFunctors]
  | frame loop => simp [h.frame, LoopFrame.tasks]
  | hand => rfl

theorem Start.inv {s : ServerRun} (h : s.Start) : s.Inv [] := by
  refine ⟨⟨?_, ?_, ?_, ?_, ?_, ?_⟩, ?_, fun _ => none, ?_⟩
  · intro conn
    rw [h.log]
    exact .none
  · intro conn early
    rw [h.accepted] at early
    cases early
  · intro conn shut
    rw [closed, h.log] at shut
    cases shut
  · intro conn gone
    rw [h.destroyed] at gone
    cases gone
  · intro conn known
    exact absurd (h.log conn) known
  · intro server hs item mem
    obtain ⟨first, hfirst, empty⟩ := h.server
    cases hfirst.symm.trans hs
    rw [empty] at mem
    cases mem
  · intro p task mem
    rw [h.work] at mem
    cases mem
  · constructor
    · intro conn p
      rw [establishing, h.work]
      rfl
    · exact fun conn some => absurd rfl some

/-- What a task needs, it keeps, as connections are accepted and logs grow. -/
theorem Valid.mono {s t : ServerRun} {task : Task} (h : s.Valid task)
    (accepted : s.accepted ≤ t.accepted) (log : ∀ conn, s.log conn ≠ [] → t.log conn ≠ []) :
    t.Valid task := by
  cases task with
  | functor cb | runInLoop loop cb =>
    cases cb with
    | connectEstablished conn | connectionDestroyed conn => exact Nat.lt_of_lt_of_le h accepted
    | removeConnectionInLoop conn | sendInLoop conn data | shutdownInLoop conn => exact log conn h
  | handleClose conn | handleError conn | handleRead conn | handleWrite conn
  | removeConnection conn | setDisconnecting conn => exact log conn h
  | destroyServer conns => exact fun conn mem => Nat.lt_of_lt_of_le (h conn mem) accepted

theorem Valid.establishes {s : ServerRun} {task : Task} {conn : Nat} (h : s.Valid task)
    (he : task.establishes conn = true) : conn < s.accepted := by
  cases task with
  | functor cb | runInLoop loop cb =>
    cases cb with
    | connectEstablished c =>
      have same : c = conn := by simpa [Task.establishes] using he
      exact same ▸ h
    | _ => cases he
  | _ => cases he

/-- Once the user knows the connection, it is established. -/
theorem Inv.no_establish {s : ServerRun} {hand : List Task} (inv : s.Inv hand) {conn : Nat}
    (up : s.log conn ≠ []) (p : Place) : s.establishing hand p conn = 0 := by
  obtain ⟨place, placed⟩ := inv.placed
  refine placed.held.spent ?_ p
  cases hp : place conn with
  | none => rfl
  | some q => exact absurd (placed.early conn (by simp [hp])) up

/-- A connection that is still to come is in no task. -/
theorem Inv.unborn {s : ServerRun} {hand : List Task} (inv : s.Inv hand) {conn : Nat}
    (h : s.accepted ≤ conn) (p : Place) : s.establishing hand p conn = 0 := by
  rw [establishing, List.countP_eq_zero]
  intro task mem he
  exact absurd ((inv.valid p task mem).establishes he) (Nat.not_lt.mpr h)

/-! ## Where tasks go -/

/-- One connection changes and its log grows, or both are new. -/
theorem Logs.replace {s t : ServerRun} {k : Nat} {c : TcpConnection} {log : List Callback}
    (logs : s.Logs) (conns : t.conn = assign s.conn k c) (logged : t.log = assign s.log k log)
    (destroyed : t.destroyed = s.destroyed) (grown : down ∈ s.log k → down ∈ log)
    (exists_ : k < t.accepted) (accepted : ∀ d, d ≠ k → (d < t.accepted ↔ d < s.accepted))
    (registered : ∀ server : TcpServer, t.server = some server →
      ∀ item ∈ server.connections, item.2 < t.accepted)
    (protocol : Protocol log)
    (fresh : log = [] → c.state = .kConnecting ∧ c.channel.index = kNew)
    (ended : down ∈ log → c.state ≠ .kConnected) : t.Logs := by
  constructor
  · intro d
    rw [logged, assign]
    split
    · exact protocol
    · exact logs.protocol d
  · intro d early none
    rw [logged, assign] at none
    rw [conns, assign]
    split at none
    · rename_i same
      rw [if_pos same]
      exact fresh none
    · rename_i other
      rw [if_neg other]
      exact logs.fresh d ((accepted d other).mp early) none
  · intro d shut
    rw [closed, logged, assign] at shut
    rw [conns, assign]
    split at shut
    · rename_i same
      rw [if_pos same]
      exact ended shut
    · rename_i other
      rw [if_neg other]
      exact logs.ended d shut
  · intro d gone
    rw [destroyed] at gone
    have shut := logs.finished d gone
    rw [closed, logged, assign]
    split
    · rename_i same
      exact grown (same ▸ shut)
    · exact shut
  · intro d up
    rw [logged, assign] at up
    split at up
    · rename_i same
      exact same ▸ exists_
    · rename_i other
      exact (accepted d other).mpr (logs.known d up)
  · exact registered

/-- The connections and their logs are left alone. -/
structure SameConns (s t : ServerRun) : Prop where
  log : t.log = s.log
  conn : t.conn = s.conn
  accepted : t.accepted = s.accepted
  destroyed : t.destroyed = s.destroyed

/-- What leaves the connections alone keeps the invariant, when no
`connectEstablished` appears or vanishes. -/
theorem Inv.quiet {s t : ServerRun} {hand hand' : List Task} (inv : s.Inv hand)
    (same : s.SameConns t)
    (registered : ∀ server : TcpServer, t.server = some server →
      ∀ item ∈ server.connections, item.2 < s.accepted)
    (valid : ∀ p, ∀ task ∈ t.work hand' p, s.Valid task)
    (placed : ∃ place, t.Placed hand' place) : t.Inv hand' := by
  refine ⟨⟨?_, ?_, ?_, ?_, ?_, ?_⟩, ?_, placed⟩
  · rw [same.log]
    exact inv.protocol
  · rw [same.log, same.conn, same.accepted]
    exact inv.fresh
  · intro conn shut
    rw [closed, same.log] at shut
    rw [same.conn]
    exact inv.ended conn shut
  · intro conn gone
    rw [same.destroyed] at gone
    rw [closed, same.log]
    exact inv.finished conn gone
  · rw [same.log, same.accepted]
    exact inv.known
  · rw [same.accepted]
    exact registered
  · intro p task mem
    refine (valid p task mem).mono (Nat.le_of_eq same.accepted.symm) ?_
    rw [same.log]
    exact fun _ up => up

/-- Tasks `moved` go from the front of a place to another one, as `arrived`. -/
theorem Inv.move {s t : ServerRun} {hand hand' : List Task} (inv : s.Inv hand) {p q : Place}
    (moved arrived : List Task) (same : s.SameConns t) (server : t.server = s.server)
    (apart : p ≠ q) (source : s.work hand p = moved ++ t.work hand' p)
    (target : (t.work hand' q).Perm (arrived ++ s.work hand q))
    (others : ∀ r, r ≠ p → r ≠ q → t.work hand' r = s.work hand r)
    (valid : ∀ task ∈ arrived, s.Valid task)
    (counts : ∀ conn, arrived.countP (Task.establishes conn) =
      moved.countP (Task.establishes conn)) : t.Inv hand' := by
  refine inv.quiet same (server ▸ inv.registered) ?_ ?_
  · intro r task mem
    by_cases hp : r = p
    · refine inv.valid p task ?_
      rw [source]
      exact List.mem_append_right _ (hp ▸ mem)
    by_cases hq : r = q
    · subst hq
      cases List.mem_append.mp (target.mem_iff.mp mem) with
      | inl new => exact valid task new
      | inr old => exact inv.valid r task old
    · rw [others r hp hq] at mem
      exact inv.valid r task mem
  · obtain ⟨place, placed⟩ := inv.placed
    have leaves (conn : Nat) : t.establishing hand' p conn + moved.countP (Task.establishes conn) =
        s.establishing hand p conn := by
      rw [establishing, establishing, source, List.countP_append, Nat.add_comm]
    refine ⟨_, placed.held.move apart (fun conn => moved.countP (Task.establishes conn)) leaves
      ?_ ?_, fun conn some => ?_⟩
    · intro conn
      rw [establishing, establishing, target.countP_eq, List.countP_append, counts, Nat.add_comm]
    · intro r hp hq conn
      rw [establishing, establishing, others r hp hq]
    · rw [same.log]
      have leaves := leaves conn
      refine placed.early conn ?_
      split at some
      · exact some
      · rw [placed.held.at_place (p := p) (by omega)]
        simp

/-- The task in hand is done. -/
theorem Inv.done {s : ServerRun} {hand : List Task} (inv : s.Inv hand)
    (consumed : ∀ conn, hand.countP (Task.establishes conn) = 0) : s.Inv [] := by
  refine inv.quiet ⟨rfl, rfl, rfl, rfl⟩ inv.registered ?_ ?_
  · intro p task mem
    cases p with
    | todo thread => exact inv.valid (.todo thread) task mem
    | pending loop => exact inv.valid (.pending loop) task mem
    | frame loop => exact inv.valid (.frame loop) task mem
    | hand => cases mem
  · obtain ⟨place, placed⟩ := inv.placed
    refine ⟨place, placed.held.same fun p conn => ?_, placed.early⟩
    cases p with
    | hand => exact (consumed conn).symm
    | todo | pending | frame => rfl

/-- A place gets more tasks, none of which establishes a connection. -/
theorem Inv.gain {s t : ServerRun} {hand : List Task} (inv : s.Inv hand) {q : Place}
    (tasks : List Task) (same : s.SameConns t) (server : t.server = s.server)
    (target : (t.work hand q).Perm (tasks ++ s.work hand q))
    (others : ∀ r, r ≠ q → t.work hand r = s.work hand r)
    (idle : ∀ conn, tasks.countP (Task.establishes conn) = 0)
    (valid : ∀ task ∈ tasks, s.Valid task) : t.Inv hand := by
  refine inv.quiet same (server ▸ inv.registered) ?_ ?_
  · intro r task mem
    by_cases hq : r = q
    · subst hq
      cases List.mem_append.mp (target.mem_iff.mp mem) with
      | inl new => exact valid task new
      | inr old => exact inv.valid r task old
    · rw [others r hq] at mem
      exact inv.valid r task mem
  · obtain ⟨place, placed⟩ := inv.placed
    refine ⟨place, placed.held.same fun r conn => ?_, same.log ▸ placed.early⟩
    rw [establishing, establishing]
    by_cases hq : r = q
    · rw [hq, target.countP_eq, List.countP_append, idle, Nat.zero_add]
    · rw [others r hq]

/-- Whatever becomes of the server, as long as it has no more connections. -/
theorem Inv.withServer {s : ServerRun} {hand : List Task} (inv : s.Inv hand)
    {server : Option TcpServer} (registered : ∀ server' : TcpServer, server = some server' →
      ∀ item ∈ server'.connections, item.2 < s.accepted) :
    ({ s with server := server } : ServerRun).Inv hand :=
  inv.quiet ⟨rfl, rfl, rfl, rfl⟩ registered inv.valid
    (inv.placed.imp fun _ placed => ⟨placed.held, placed.early⟩)

theorem Inv.setDestroyed {s : ServerRun} {hand : List Task} (inv : s.Inv hand) {conn : Nat}
    (shut : s.closed conn) : (s.setDestroyed conn).Inv hand := by
  refine ⟨⟨inv.protocol, inv.fresh, inv.ended, ?_, inv.known, inv.registered⟩, inv.valid,
    inv.placed.imp fun _ placed => ⟨placed.held, placed.early⟩⟩
  intro d gone
  by_cases same : d = conn
  · exact same ▸ shut
  · refine inv.finished d ?_
    exact (assign_other s.destroyed true same).symm.trans gone

end ServerRun
end Kenmuduo
