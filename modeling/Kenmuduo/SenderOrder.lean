import Kenmuduo.LoopQueue

/-!
# The order of one thread's calls

What one thread asks of a connection of another loop, by `send` and by `shutdown`, waits
in the thread's own code, in the loop's queue and in its batch. On its way nothing of it
is lost, doubled or overtaken by what the thread asks later, whatever other threads ask
in between.
-/

namespace Kenmuduo
open Transition

/-- The functors that a thread asked a connection for so far, and those of them that were
called. -/
structure Passed where
  posted : List ServerFunctor
  ran : List ServerFunctor

/-- A functor that `send` or `shutdown` of the connection binds. -/
def ServerFunctor.isOf (k : Nat) (cb : ServerFunctor) : Bool := cb.bindsThis == some k

theorem ServerFunctor.isOf_iff {k : Nat} {cb : ServerFunctor} :
    cb.isOf k = true ↔ cb.bindsThis = some k := beq_iff_eq

variable (k : Nat)

/-- The functor of the connection that a task is about. -/
def Task.pick : Task → Option ServerFunctor
  | functor cb | runInLoop _ cb => if cb.isOf k then some cb else none
  | handleClose _ | handleError _ | handleRead _ | handleWrite _ | removeConnection _
  | setDisconnecting _ | destroyServer _ => none

/-- The functor of the connection, if the entry is the thread's. -/
def Posted.pick (thread : Nat) (entry : Posted) : Option ServerFunctor :=
  if entry.thread = thread then entry.ofServer.filter (ServerFunctor.isOf k) else none

namespace QueueRun

/-- The functor that a call of the thread asks the connection's loop for. -/
def posts (q : QueueRun) (thread : Nat) : QueueAct → List ServerFunctor
  | .server (.send i conn data) =>
    if i = thread ∧ conn = k ∧ (q.run.conn conn).state = .kConnected then
      [.sendInLoop conn data]
    else []
  | .server (.shutdown i conn) =>
    if i = thread ∧ conn = k ∧ (q.run.conn conn).state = .kConnected then
      [.shutdownInLoop conn]
    else []
  | _ => []

/-- The functor that a step calls, if the loop took an entry of the thread's for it. -/
def calls (q : QueueRun) (thread : Nat) : QueueAct → List ServerFunctor
  | .server (.task i _) =>
    match q.run.todo i, q.taken i with
    | .functor cb :: _, some entry => if entry.thread = thread ∧ cb.isOf k then [cb] else []
    | _, _ => []
  | _ => []

/-- What waits with a loop, in the order in which it is to be called. -/
def inbox (q : QueueRun) (loop : Nat) : List Posted :=
  (q.taken loop).toList ++ q.functors loop ++ q.pendingFunctors loop

/-- What the thread asked the connection for and is still to be called. -/
def line (q : QueueRun) (thread loop : Nat) : List ServerFunctor :=
  (q.inbox loop).filterMap (Posted.pick k thread) ++
    (q.run.todo thread).filterMap (Task.pick k)

/-- With a record of what the thread asked for and what of it was called. -/
def passing (thread : Nat) : Machine (QueueRun × Passed) QueueAct :=
  machine.watched ⟨[], []⟩ fun q l _ r =>
    ⟨r.posted ++ q.posts k thread l, r.ran ++ q.calls k thread l⟩

end QueueRun

/-! ## What a thread is in the middle of -/

variable {k}

theorem Task.pick_none_iff {tasks : List Task} : tasks.filterMap (Task.pick k) = [] ↔
    ∀ task ∈ tasks, task.pick k = none := List.filterMap_eq_nil_iff

theorem runInLoop_pick (j : Nat) (cb : ServerFunctor) (rest : List Task) :
    (Task.runInLoop j cb :: rest).filterMap (Task.pick k) =
      [cb].filter (·.isOf k) ++ rest.filterMap (Task.pick k) := by
  cases picked : cb.isOf k <;> simp [Task.pick, picked]

/-- The connection's functor is in the next task at most, or in the one after the store
of `shutdown`. -/
inductive Shape (k : Nat) : List Task → Prop
  | quiet {tasks : List Task} : tasks.filterMap (Task.pick k) = [] → Shape k tasks
  | next {task : Task} {later : List Task} : later.filterMap (Task.pick k) = [] →
      Shape k (task :: later)
  | stored {conn : Nat} {task : Task} {later : List Task} : later.filterMap (Task.pick k) = [] →
      Shape k (.setDisconnecting conn :: task :: later)

theorem Shape.later {task : Task} {later : List Task} (h : Shape k (task :: later)) :
    Shape k later := by
  cases h with
  | quiet none =>
    apply Shape.quiet
    rw [Task.pick_none_iff] at none ⊢
    exact fun other mem => none other (List.mem_cons_of_mem task mem)
  | next none => exact .quiet none
  | stored none => exact .next none

/-- Below a task that stores nothing, nothing is picked. -/
theorem Shape.below {task : Task} {later : List Task} (h : Shape k (task :: later))
    (other : ∀ conn, task ≠ .setDisconnecting conn) : later.filterMap (Task.pick k) = [] := by
  cases h with
  | quiet none =>
    rw [Task.pick_none_iff] at none ⊢
    exact fun other mem => none other (List.mem_cons_of_mem task mem)
  | next none => exact none
  | @stored conn => exact absurd rfl (other conn)

namespace ServerRun

/-- While the user's code runs on a thread, nothing is picked of what it is in. -/
theorem user_picks {s : ServerRun} {thread : Nat} (h : Shape k (s.todo thread))
    (user : s.inUserCode thread = true) : (s.todo thread).filterMap (Task.pick k) = [] := by
  unfold inUserCode at user
  cases next : s.todo thread with
  | nil => rfl
  | cons task rest =>
    rw [next] at h user
    have after : task.afterCallback = true := user
    have none : task.pick k = none := by
      cases task with
      | functor _ | runInLoop _ _ => cases after
      | _ => rfl
    have stores (conn : Nat) : task ≠ .setDisconnecting conn := by
      rintro rfl
      cases after
    rw [List.filterMap_cons_none none]
    exact h.below stores

/-! ## One step of the server -/

variable {s t : ServerRun} {thread loop : Nat}

/-- A thread gets tasks of which nothing is picked. -/
theorem call_picks (s : ServerRun) (i : Nat) {tasks : List Task}
    (none : tasks.filterMap (Task.pick k) = []) (j : Nat) :
    ((s.call i tasks).todo j).filterMap (Task.pick k) =
      (s.todo j).filterMap (Task.pick k) := by
  by_cases here : j = i
  · have now : (s.call i tasks).todo j = tasks ++ s.todo i := by
      rw [here]
      exact assign_same _ _ _
    rw [now, List.filterMap_append, none, here]
    rfl
  · have same : (s.call i tasks).todo j = s.todo j := assign_other _ _ here
    rw [same]

theorem performs_picks {i conn : Nat} {c : TcpConnection} {effects : List Effect}
    (h : s.Performs t i conn c effects) (j : Nat) :
    (t.todo j).filterMap (Task.pick k) = (s.todo j).filterMap (Task.pick k) := by
  have same : t.todo = (s.call i
      (if effects.contains .closeCallback then [.removeConnection conn] else [])).todo := h.todo
  rw [same]
  apply call_picks
  split <;> rfl

/-- A task leaves nothing of the kind, unless the thread calls the functor itself. -/
theorem runTask_picks {answer : Answer} {task : Task} {i : Nat}
    (away : ∀ j cb, task = .runInLoop j cb → cb.isOf k = true → i ≠ j)
    (h : s.runTask i answer task = some t) (j : Nat) :
    (t.todo j).filterMap (Task.pick k) = (s.todo j).filterMap (Task.pick k) := by
  cases runTask_ran h with
  | performs _ performs => exact performs_picks performs j
  | @hands target cb =>
    unfold runInLoop
    split
    · rename_i own
      have free : cb.isOf k = false := by
        rw [← Bool.not_eq_true]
        exact fun picked => away target cb rfl picked own
      apply call_picks
      simp [Task.pick, free]
    · rfl
  | erases | destroyed => rfl
  | removes | destroys => exact call_picks _ _ rfl j

/-- What a task hands to a loop: the functor of a `runInLoop` for it, or nothing that
is picked. -/
theorem runTask_hands {answer : Answer} {task : Task} {i : Nat}
    (h : s.runTask i answer task = some t) (loop : Nat) :
    (∃ cb, task = .runInLoop loop cb ∧ i ≠ loop ∧
      t.pendingFunctors loop = s.pendingFunctors loop ++ [cb]) ∨
    ((∀ cb, task = .runInLoop loop cb → i = loop) ∧ ∃ new,
      t.pendingFunctors loop = s.pendingFunctors loop ++ new ∧ new.filter (·.isOf k) = []) := by
  cases runTask_ran h with
  | performs hr performs =>
    refine .inr ⟨?_, [], by rw [performs.pendingFunctors, List.append_nil], rfl⟩
    rintro cb rfl
    cases hr
  | @hands target cb =>
    unfold runInLoop
    by_cases here : loop = target
    · subst here
      by_cases own : i = loop
      · rw [if_pos own]
        exact .inr ⟨fun _ _ => own, [], (List.append_nil _).symm, rfl⟩
      · rw [if_neg own]
        exact .inl ⟨cb, rfl, own, assign_same _ _ _⟩
    · refine .inr ⟨fun _ same => absurd (Task.runInLoop.inj same).1.symm here, [], ?_, rfl⟩
      rw [List.append_nil]
      split
      · rfl
      · exact assign_other _ _ here
  | @erases _ conn _ =>
    refine .inr ⟨(fun _ no => nomatch no), ?_⟩
    by_cases here : loop = (s.conn conn).loop
    · subst here
      exact ⟨[.connectionDestroyed conn], assign_same _ _ _, rfl⟩
    · exact ⟨[], (assign_other _ _ here).trans (List.append_nil _).symm, rfl⟩
  | removes | destroyed | destroys =>
    exact .inr ⟨(fun _ no => nomatch no), [], (List.append_nil _).symm, rfl⟩

/-- A task is the business of the thread that runs it. -/
theorem runTask_todo {answer : Answer} {task : Task} {i j : Nat}
    (h : s.runTask i answer task = some t) (other : j ≠ i) : t.todo j = s.todo j := by
  cases runTask_ran h with
  | performs _ performs =>
    rw [performs.todo]
    exact assign_other _ _ other
  | hands =>
    unfold runInLoop
    split
    · exact assign_other _ _ other
    · rfl
  | erases | destroyed => rfl
  | removes | destroys => exact assign_other _ _ other

theorem step_todo {l : ServerAct} (h : s.step l = some t) {j : Nat} (other : j ≠ l.thread) :
    t.todo j = s.todo j := by
  cases stepped h with
  | poll | swap | batchEnd | sendNot | shutdownNot => rfl
  | accept | visit | next | send | shutdown | destroyServer => exact assign_other _ _ other
  | @task thread answer task rest _ _ _ ran =>
    exact (runTask_todo ran other).trans (assign_other _ _ other)

theorem shape_assign {i : Nat} {tasks : List Task} (h : ∀ j, Shape k (s.todo j))
    (new : Shape k tasks) (j : Nat) : Shape k (assign s.todo i tasks j) := by
  by_cases here : j = i
  · rw [here, assign_same]
    exact new
  · rw [assign_other _ _ here]
    exact h j

theorem shape_runTask {answer : Answer} {task : Task} {later : List Task} {i : Nat}
    (shape : ∀ j, Shape k (s.todo j)) (next : s.todo i = task :: later)
    (h : (s.setTodo i later).runTask i answer task = some t) (j : Nat) : Shape k (t.todo j) := by
  have first : Shape k (task :: later) := next ▸ shape i
  have taken (j : Nat) : Shape k ((s.setTodo i later).todo j) := shape_assign shape first.later j
  have now : (s.setTodo i later).todo i = later := assign_same _ _ _
  cases runTask_ran h with
  | @performs _ _ conn c effects hr performs =>
    rw [performs.todo]
    apply shape_assign taken
    rw [now]
    split
    · rename_i closes
      apply Shape.next
      apply first.below
      rintro conn rfl
      cases hr
      cases closes
    · exact first.later
  | hands =>
    have below := first.below fun conn => Task.noConfusion
    unfold runInLoop
    split
    · apply shape_assign taken
      rw [now]
      exact .next below
    · exact taken j
  | erases | destroyed => exact taken j
  | removes =>
    have below := first.below fun conn => Task.noConfusion
    apply shape_assign taken
    rw [now]
    exact .next below
  | destroys =>
    have below := first.below fun conn => Task.noConfusion
    apply shape_assign taken
    rw [now]
    apply Shape.quiet
    rw [List.filterMap_append, below]
    rfl

theorem shape_step {l : ServerAct} (shape : ∀ j, Shape k (s.todo j)) (h : s.step l = some t)
    (j : Nat) : Shape k (t.todo j) := by
  cases stepped h with
  | accept hs hf ht =>
    apply shape_assign shape
    have idle : s.todo 0 = [] := ht
    apply Shape.next
    simp [setConn, idle]
  | poll _ _ _ | swap _ _ | batchEnd _ _ | sendNot _ _ _ | shutdownNot _ _ _ => exact shape j
  | @visit i locked conn revents rest hf ht =>
    apply shape_assign shape
    apply Shape.quiet
    rw [Task.pick_none_iff]
    intro task mem
    split at mem
    · obtain rfl | rfl | rfl | rfl := mem_handleEvent mem <;> rfl
    · cases mem
  | next hf ht =>
    apply shape_assign shape
    exact .next rfl
  | task next possible ran => exact shape_runTask shape next ran j
  | send user told up =>
    apply shape_assign shape
    exact .next (user_picks (shape _) user)
  | shutdown user told up =>
    apply shape_assign shape
    exact .stored (user_picks (shape _) user)
  | destroyServer hs user permitted =>
    apply shape_assign shape
    exact .next (user_picks (shape _) user)

theorem picked_home {cb : ServerFunctor} (picked : cb.isOf k = true) :
    s.functorHome cb = (s.conn k).loop := by
  have binds := ServerFunctor.isOf_iff.mp picked
  cases cb with
  | sendInLoop conn data | shutdownInLoop conn =>
    cases binds
    rfl
  | _ => cases binds

/-- What waits is asked of a connection that is there. -/
theorem picked_known (inv : s.forgetting.Inv []) {cb : ServerFunctor} (picked : cb.isOf k = true)
    (valid : s.ValidFunctor cb) : k < s.accepted := by
  have binds := ServerFunctor.isOf_iff.mp picked
  cases cb with
  | sendInLoop conn data | shutdownInLoop conn =>
    cases binds
    exact told_known inv valid
  | _ => cases binds

/-- What a connection's user sets of it, nothing that waits depends on. -/
theorem setConn_inv {conn : Nat} {c : TcpConnection} (inv : s.forgetting.Inv [])
    (state : c.state = (s.conn conn).state) (channel : c.channel = (s.conn conn).channel) :
    (s.setConn conn c).forgetting.Inv [] := by
  have same (d : Nat) : (assign s.conn conn c d).state = (s.conn d).state ∧
      (assign s.conn conn c d).channel = (s.conn d).channel := by
    by_cases here : d = conn
    · rw [here, assign_same]
      exact ⟨state, channel⟩
    · rw [assign_other _ _ here]
      exact ⟨rfl, rfl⟩
  refine ⟨⟨inv.protocol, ?_, ?_, inv.finished, inv.known, inv.registered⟩, ?_, ?_⟩
  · intro d early none
    obtain ⟨state, index⟩ := inv.fresh d early none
    exact ⟨(same d).1.trans state, (congrArg _ (same d).2).trans index⟩
  · intro d shut up
    exact inv.ended d shut ((same d).1.symm.trans up)
  · intro p task mem
    have old : task ∈ s.forgetting.work [] p := by cases p <;> exact mem
    exact (inv.valid p task old).mono (Nat.le_refl _) fun _ told => told
  · obtain ⟨place, placed⟩ := inv.placed
    refine ⟨place, placed.held.same fun p conn => ?_, placed.early⟩
    cases p <;> rfl

theorem setConn_home {conn : Nat} {c : TcpConnection} (home : s.AtHome)
    (loop : c.loop = (s.conn conn).loop) : (s.setConn conn c).AtHome := by
  have same (d : Nat) : (assign s.conn conn c d).loop = (s.conn d).loop := by
    by_cases here : d = conn
    · rw [here, assign_same]
      exact loop
    · rw [assign_other _ _ here]
  have functors (cb : ServerFunctor) : (s.setConn conn c).functorHome cb = s.functorHome cb := by
    cases cb with
    | removeConnectionInLoop => rfl
    | _ => exact same _
  have tasks (task : Task) : (s.setConn conn c).home task = s.home task := by
    cases task with
    | functor cb => exact congrArg some (functors cb)
    | handleClose | handleError | handleRead | handleWrite | removeConnection =>
      exact congrArg some (same _)
    | _ => rfl
  intro p task mem
  have old : task ∈ s.work [] p := by cases p <;> exact mem
  have kept := home p task old
  refine ⟨fun thread runs => kept.waits thread (tasks task ▸ runs), fun loop cb posts => ?_⟩
  rw [functors]
  exact kept.posts loop cb posts

end ServerRun

namespace QueueRun
variable {q r : QueueRun} {thread loop : Nat}

/-! ## What holds in every run -/

/-- A loop that has taken a functor of the server is about to call it. -/
structure Lined (k : Nat) (q : QueueRun) : Prop where
  inv : q.run.forgetting.Inv []
  home : q.run.AtHome
  served : q.Served
  shape : ∀ i, Shape k (q.run.todo i)
  taken : ∀ i entry, q.taken i = some entry →
    ∃ cb, entry.ofServer = some cb ∧ q.run.todo i = [.functor cb]

theorem Lined.untaken (lined : q.Lined k) {i : Nat} (user : q.run.inUserCode i = true) :
    q.taken i = none := by
  cases has : q.taken i with
  | none => rfl
  | some entry =>
    obtain ⟨cb, _, next⟩ := lined.taken i entry has
    rw [ServerRun.inUserCode, next] at user
    cases user

theorem idle_user {s : ServerRun} {i : Nat} (idle : s.todo i = []) : s.inUserCode i = true := by
  rw [ServerRun.inUserCode, idle]

theorem follow_taken {l : ServerAct} {t : ServerRun} {i : Nat} (other : i ≠ l.thread) :
    (q.follow l t).taken i = q.taken i := by
  cases l with
  | dispatch =>
    simp only [follow]
    split <;> rfl
  | runFunctor | task => exact assign_other _ _ other
  | _ => rfl

theorem follow_next {l : ServerAct} {t : ServerRun} (lined : q.Lined k)
    (allowed : q.allows l = true) (h : q.run.step l = some t) {entry : Posted}
    (has : (q.follow l t).taken l.thread = some entry) :
    ∃ cb, entry.ofServer = some cb ∧ t.todo l.thread = [.functor cb] := by
  have never {i : Nat} (user : q.run.inUserCode i = true) (some : q.taken i = some entry) :
      ∃ cb, entry.ofServer = Option.some cb ∧ t.todo l.thread = [.functor cb] := by
    rw [lined.untaken user] at some
    cases some
  cases ServerRun.stepped h with
  | accept _ _ idle | poll _ idle _ => exact never (idle_user idle) has
  | send user _ _ | shutdown user _ _ | destroyServer _ user _ => exact never user has
  | visit hf idle | swap hf idle =>
    simp only [follow, hf] at has
    exact never (idle_user idle) has
  | sendNot user _ _ | shutdownNot user _ _ => exact never user has
  | @next i cb rest hf _ =>
    obtain ⟨first, later, batch, mine, _⟩ := lined.served.next hf allowed
    have head : (q.follow (.runFunctor i) ((q.run.setFrame i (.batch rest)).setTodo i
        [.functor cb])).taken i = some first := (assign_same _ _ _).trans (by rw [batch]; rfl)
    cases head.symm.trans has
    exact ⟨cb, mine, assign_same _ _ _⟩
  | @batchEnd i hf _ =>
    have done := lined.served.done hf allowed
    have none : (q.follow (.runFunctor i) (q.run.setFrame i .polling)).taken i = none :=
      (assign_same _ _ _).trans (by rw [done]; rfl)
    cases none.symm.trans has
  | task =>
    cases (assign_same q.taken _ none).symm.trans has

theorem Lined.step {l : QueueAct} (lined : q.Lined k) (h : q.step l = some r) : r.Lined k := by
  have served := lined.served.step (step_turn lined.served h)
  cases l with
  | server l =>
    simp only [QueueRun.step, Option.ite_none_right_eq_some, Bool.and_eq_true] at h
    obtain ⟨⟨_, allowed⟩, h⟩ := h
    obtain ⟨t, ran, rfl⟩ := Option.map_eq_some_iff.mp h
    obtain ⟨run, _⟩ := q.follow_run l t
    refine ⟨?_, ?_, served, ?_, ?_⟩
    · rw [run]
      exact ServerRun.step_forgetting_inv lined.inv ran
    · rw [run]
      exact ServerRun.step_atHome lined.inv lined.home ran
    · rw [run]
      exact ServerRun.shape_step lined.shape ran
    · intro i entry has
      rw [run]
      by_cases own : i = l.thread
      · subst own
        exact follow_next lined allowed ran has
      · rw [follow_taken own] at has
        rw [ServerRun.step_todo ran own]
        exact lined.taken i entry has
  | queueInLoop thread loop cb =>
    simp only [QueueRun.step, Option.ite_none_right_eq_some, Option.some.injEq] at h
    obtain ⟨_, rfl⟩ := h
    exact ⟨lined.inv, lined.home, served, lined.shape, lined.taken⟩
  | runFunctor loop =>
    simp only [QueueRun.step] at h
    split at h
    · simp only [Option.ite_none_right_eq_some, Option.some.injEq] at h
      obtain ⟨_, rfl⟩ := h
      exact ⟨lined.inv, lined.home, served, lined.shape, lined.taken⟩
    · cases h
  | setHighWaterMarkCallback thread conn mark =>
    simp only [QueueRun.step, Option.ite_none_right_eq_some, Option.some.injEq] at h
    obtain ⟨_, rfl⟩ := h
    exact ⟨ServerRun.setConn_inv lined.inv rfl rfl, ServerRun.setConn_home lined.home rfl, served,
      lined.shape, lined.taken⟩

theorem Start.lined (h : q.Start) : q.Lined k := by
  obtain ⟨inv, home⟩ := ServerRun.reachable_atHome (.start h.run)
  refine ⟨inv, home, start_served h, ?_, ?_⟩
  · intro i
    rw [h.run.todo]
    exact .quiet rfl
  · intro i entry has
    rw [h.taken] at has
    cases has

/-! ## The line -/

theorem line_same (inbox : r.inbox loop = q.inbox loop)
    (todo : (r.run.todo thread).filterMap (Task.pick k) =
      (q.run.todo thread).filterMap (Task.pick k)) :
    r.line k thread loop = q.line k thread loop := by
  unfold line
  rw [inbox, todo]

/-- An entry that is not the server's is not asked for by `send` or `shutdown`. -/
theorem free_pick {entry : Posted} (free : entry.ofServer = none) : entry.pick k thread = none := by
  unfold Posted.pick
  rw [free]
  split <;> rfl

theorem other_pick {entry : Posted} (other : entry.thread ≠ thread) :
    entry.pick k thread = none := if_neg other

/-- Of what a step queues, the thread's own functors are picked. -/
theorem queued_picks {t : ServerRun} {l : ServerAct} {new : List ServerFunctor}
    (grown : t.pendingFunctors loop = q.run.pendingFunctors loop ++ new) :
    ((q.run.queues l t loop).map fun cb => (⟨l.thread, cb⟩ : Posted)).filterMap
      (Posted.pick k thread) = if l.thread = thread then new.filter (·.isOf k) else [] := by
  split
  · rename_i own
    have callbacks : ((if (q.run.callbackFunctors l).1 = loop then (q.run.callbackFunctors l).2
        else []).map fun cb => (⟨l.thread, cb⟩ : Posted)).filterMap
          (Posted.pick k thread) = [] := by
      rw [List.filterMap_eq_nil_iff]
      intro entry mem
      obtain ⟨cb, among, rfl⟩ := List.mem_map.mp mem
      have free := List.filterMap_eq_nil_iff.mp (q.run.callbackFunctors_ofServer l)
      split at among
      · exact free_pick (free cb among)
      · cases among
    have server : ((new.map QueuedFunctor.server).map fun cb => (⟨l.thread, cb⟩ : Posted)).filterMap
        (Posted.pick k thread) = new.filter (·.isOf k) := by
      rw [List.filterMap_map, List.filterMap_map, ← List.filterMap_eq_filter]
      exact congrArg (List.filterMap · new) (funext fun cb => if_pos own)
    rw [ServerRun.queues, grown, List.drop_left, List.map_append, List.filterMap_append, server,
      callbacks, List.append_nil]
  · rename_i other
    rw [List.filterMap_eq_nil_iff]
    intro entry mem
    obtain ⟨cb, _, rfl⟩ := List.mem_map.mp mem
    exact other_pick other

theorem queue_inbox {t : ServerRun} {l : ServerAct}
    (same : t.pendingFunctors loop = q.run.pendingFunctors loop)
    (quiet : q.run.callbackFunctors l = (0, [])) : (q.queue l t).inbox loop = q.inbox loop := by
  unfold inbox
  rw [queue_nothing same quiet]
  rfl

/-- The connection's functors wait with its loop, or are on their way there. -/
theorem Lined.waits (lined : q.Lined k) (here : k < q.run.accepted → (q.run.conn k).loop = loop)
    {p : Place} {cb : ServerFunctor} (mem : .functor cb ∈ q.run.work [] p)
    (picked : cb.isOf k = true) : p.thread = some loop := by
  have known := ServerRun.picked_known lined.inv picked (ServerRun.waiting_valid lined.inv mem)
  rw [(lined.home p _ mem).waits _ rfl, ServerRun.picked_home picked, here known]

theorem Lined.posts (lined : q.Lined k) (here : k < q.run.accepted → (q.run.conn k).loop = loop)
    {p : Place} {cb : ServerFunctor} {j : Nat} (mem : .runInLoop j cb ∈ q.run.work [] p)
    (picked : cb.isOf k = true) : j = loop := by
  have known := ServerRun.picked_known lined.inv picked (ServerRun.waiting_valid lined.inv mem)
  rw [(lined.home p _ mem).posts j cb rfl, ServerRun.picked_home picked, here known]

/-- The loop takes its queue for its batch. -/
theorem swap_inbox {i : Nat} {t : ServerRun} (served : q.Served)
    (hf : q.run.frame i = .dispatching []) :
    ({ q.swap i with run := t } : QueueRun).inbox loop = q.inbox loop := by
  by_cases here : loop = i
  · subst here
    have empty := served.batch loop (by rw [hf]; rfl)
    simp only [inbox, swap, assign_same, empty, List.append_nil]
  · simp only [inbox, swap, assign_other _ _ here]

/-- The loop takes the next functor of its batch, or is through with it. -/
theorem Lined.take_inbox (lined : q.Lined k) {i : Nat} {t : ServerRun}
    (idle : q.run.todo i = []) (same : t.pendingFunctors loop = q.run.pendingFunctors loop) :
    (q.follow (.runFunctor i) t).inbox loop = q.inbox loop := by
  have pending := queue_nothing (l := .runFunctor i) same rfl
  by_cases here : loop = i
  · subst here
    have untaken := lined.untaken (idle_user idle)
    unfold inbox
    simp only [follow, pending, assign_same, untaken]
    cases q.functors loop <;> rfl
  · unfold inbox
    simp only [follow, pending, assign_other _ _ here]

/-- What a task calls is the functor that its loop has taken. -/
theorem Lined.task_calls (lined : q.Lined k) (thread : Nat)
    (here : k < q.run.accepted → (q.run.conn k).loop = loop) {i : Nat} (answer : Answer)
    {task : Task} {rest : List Task} (next : q.run.todo i = task :: rest) :
    (q.taken loop).toList.filterMap (Posted.pick k thread) =
      q.calls k thread (.server (.task i answer)) ++
        ((assign q.taken i none) loop).toList.filterMap (Posted.pick k thread) := by
  cases has : q.taken i with
  | none =>
    have quiet : q.calls k thread (.server (.task i answer)) = [] := by
      simp only [calls, has]
      split <;> first | rfl | contradiction
    rw [quiet, ← has, assign_self]
    rfl
  | some entry =>
    obtain ⟨cb, mine, first⟩ := lined.taken i entry has
    cases next.symm.trans first
    have call : q.calls k thread (.server (.task i answer)) =
        [entry].filterMap (Posted.pick k thread) := by
      simp only [calls, next, has, List.filterMap_cons, List.filterMap_nil, Posted.pick, mine]
      by_cases own : entry.thread = thread
      · simp only [own, true_and, if_true, Option.filter]
        split <;> rfl
      · simp only [own, false_and, if_false]
    rw [call]
    by_cases own : loop = i
    · subst own
      rw [has, assign_same]
      exact (List.append_nil _).symm
    · have none : [entry].filterMap (Posted.pick k thread) = [] := by
        rw [← call, calls, next, has]
        apply if_neg
        intro picked
        exact own (Option.some.inj (lined.waits here (ServerRun.mem_todo next) picked.2)).symm
      rw [none, assign_other _ _ own]
      rfl

/-- What a task hands to the loop goes to the end of its queue. -/
theorem Lined.task_hands (lined : q.Lined k) (foreign : thread ≠ loop)
    (here : k < q.run.accepted → (q.run.conn k).loop = loop) {i : Nat} {answer : Answer}
    {task : Task} {rest : List Task} {t : ServerRun} (next : q.run.todo i = task :: rest)
    (ran : (q.run.setTodo i rest).runTask i answer task = some t) :
    (q.run.todo thread).filterMap (Task.pick k) =
      ((q.run.queues (.task i answer) t loop).map fun cb =>
        (⟨(ServerAct.task i answer).thread, cb⟩ : Posted)).filterMap (Posted.pick k thread) ++
          (t.todo thread).filterMap (Task.pick k) := by
  by_cases own : i = thread
  · subst own
    have left : ((q.run.setTodo i rest).todo i).filterMap (Task.pick k) =
        rest.filterMap (Task.pick k) := by
      rw [show (q.run.setTodo i rest).todo i = rest from assign_same _ _ _]
    have mine : (ServerAct.task i answer).thread = i := rfl
    rcases ServerRun.runTask_hands (k := k) ran loop with
      ⟨cb, rfl, _, grown⟩ | ⟨away, new, grown, none⟩
    · have after := ServerRun.runTask_picks (k := k) (fun j other same _ => by
        rw [← (Task.runInLoop.inj same).1]
        exact foreign) ran i
      rw [queued_picks grown, if_pos mine, after, left, next, runInLoop_pick]
    · have after := ServerRun.runTask_picks (k := k) (fun j cb same picked => by
        subst same
        obtain rfl := lined.posts here (ServerRun.mem_todo next) picked
        exact absurd (away cb rfl) foreign) ran i
      have unpicked : task.pick k = Option.none := by
        cases task with
        | functor cb =>
          apply if_neg
          intro picked
          exact foreign (Option.some.inj (lined.waits here (ServerRun.mem_todo next) picked))
        | runInLoop j cb =>
          apply if_neg
          intro picked
          obtain rfl := lined.posts here (ServerRun.mem_todo next) picked
          exact foreign (away cb rfl)
        | _ => rfl
      rw [queued_picks grown, if_pos mine, none, after, left, next,
        List.filterMap_cons_none unpicked]
      rfl
  · have foreign : thread ≠ i := fun same => own same.symm
    have same : t.todo thread = q.run.todo thread :=
      (ServerRun.runTask_todo ran foreign).trans (assign_other _ _ foreign)
    obtain ⟨new, grown⟩ := ServerRun.runTask_grows (s := q.run.setTodo i rest) ran loop
    have apart : (ServerAct.task i answer).thread ≠ thread := own
    rw [same, queued_picks grown.symm, if_neg apart]
    rfl

theorem Lined.task (lined : q.Lined k) (foreign : thread ≠ loop)
    (here : k < q.run.accepted → (q.run.conn k).loop = loop) {i : Nat} {answer : Answer}
    {task : Task} {rest : List Task} {t : ServerRun} (next : q.run.todo i = task :: rest)
    (ran : (q.run.setTodo i rest).runTask i answer task = some t) :
    q.line k thread loop = q.calls k thread (.server (.task i answer)) ++
      (q.follow (.task i answer) t).line k thread loop := by
  have called := lined.task_calls thread here answer next
  have handed := lined.task_hands foreign here next ran
  simp only [line, inbox, follow, queue, List.filterMap_append, called, handed,
    List.append_assoc]

/-- The user's calls put their functors at the end of the thread's line. -/
theorem Lined.ask (lined : q.Lined k) {l : ServerAct} {i : Nat}
    (user : q.run.inUserCode i = true) (tasks : List Task)
    (quiet : q.run.callbackFunctors l = (0, [])) :
    (q.queue l (q.run.call i tasks)).line k thread loop = q.line k thread loop ++
      if i = thread then tasks.filterMap (Task.pick k) else [] := by
  have inbox : (q.queue l (q.run.call i tasks)).inbox loop = q.inbox loop :=
    queue_inbox rfl quiet
  unfold line
  rw [inbox, List.append_assoc]
  apply congrArg
  by_cases own : i = thread
  · subst own
    have now : (q.queue l (q.run.call i tasks)).run.todo i = tasks ++ q.run.todo i :=
      assign_same _ _ _
    rw [now, if_pos rfl, List.filterMap_append, ServerRun.user_picks (lined.shape i) user,
      List.append_nil]
    rfl
  · have same : (q.queue l (q.run.call i tasks)).run.todo thread = q.run.todo thread :=
      assign_other _ _ fun here => own here.symm
    rw [same, if_neg own, List.append_nil]

/-- Nothing is asked for or called, and the line stays as it is. -/
theorem line_rests {l : QueueAct} (none : q.posts k thread l = [])
    (idle : q.calls k thread l = []) (inbox : r.inbox loop = q.inbox loop)
    (todo : (r.run.todo thread).filterMap (Task.pick k) =
      (q.run.todo thread).filterMap (Task.pick k)) :
    q.line k thread loop ++ q.posts k thread l =
      q.calls k thread l ++ r.line k thread loop := by
  rw [none, idle, line_same inbox todo, List.append_nil]
  rfl

theorem Lined.line_server (lined : q.Lined k) {l : ServerAct} {t : ServerRun}
    (ran : q.run.step l = some t) (foreign : thread ≠ loop)
    (here : k < q.run.accepted → (q.run.conn k).loop = loop) :
    q.line k thread loop ++ q.posts k thread (.server l) =
      q.calls k thread (.server l) ++ (q.follow l t).line k thread loop := by
  cases ServerRun.stepped ran with
  | accept hs hf ht =>
    exact line_rests rfl rfl (queue_inbox rfl rfl) (ServerRun.call_picks (k := k) _ 0 rfl thread)
  | poll hf ht _ => exact line_rests rfl rfl (queue_inbox rfl rfl) rfl
  | @visit i locked conn revents rest hf ht =>
    have follow (t : ServerRun) :
        q.follow (.dispatch i locked) t = q.queue (.dispatch i locked) t := by
      simp only [QueueRun.follow, hf]
    rw [follow]
    refine line_rests rfl rfl (queue_inbox rfl rfl) ?_
    have idle : (q.run.setFrame i (.dispatching rest)).todo i = [] := ht
    rw [ServerRun.setTodo_call idle]
    refine ServerRun.call_picks (q.run.setFrame i (.dispatching rest)) i ?_ thread
    rw [Task.pick_none_iff]
    intro task mem
    split at mem
    · obtain rfl | rfl | rfl | rfl := ServerRun.mem_handleEvent mem <;> rfl
    · cases mem
  | @swap i locked hf _ =>
    have follow (t : ServerRun) :
        q.follow (.dispatch i locked) t = { q.swap i with run := t } := by
      simp only [QueueRun.follow, hf]
    rw [follow]
    exact line_rests rfl rfl (swap_inbox lined.served hf) rfl
  | @next i cb rest hf ht =>
    refine line_rests rfl rfl (lined.take_inbox ht rfl) ?_
    by_cases own : thread = i
    · subst own
      have unpicked : cb.isOf k = false := by
        rw [← Bool.not_eq_true]
        intro picked
        exact foreign (Option.some.inj (lined.waits here (ServerRun.mem_batch hf) picked))
      have idle : (q.run.setFrame thread (.batch rest)).todo thread = [] := ht
      have none : [Task.functor cb].filterMap (Task.pick k) = [] := by
        simp [Task.pick, unpicked]
      rw [ServerRun.setTodo_call idle]
      exact ServerRun.call_picks (q.run.setFrame thread (.batch rest)) thread none thread
    · exact congrArg _ (assign_other _ _ own)
  | batchEnd hf ht => exact line_rests rfl rfl (lined.take_inbox ht rfl) rfl
  | @task i answer task rest _ next possible ran =>
    rw [← lined.task foreign here next ran]
    exact List.append_nil _
  | @send i conn data user told up =>
    have posts : q.posts k thread (.server (.send i conn data)) = if i = thread then
        [Task.runInLoop (q.run.conn conn).loop (.sendInLoop conn data)].filterMap (Task.pick k)
        else [] := by
      by_cases same : conn = k
      · subst same
        simp [QueueRun.posts, Task.pick, ServerFunctor.isOf,
          ServerFunctor.bindsThis, up]
      · simp [QueueRun.posts, Task.pick, ServerFunctor.isOf,
          ServerFunctor.bindsThis, same]
    rw [posts]
    exact (lined.ask user _ rfl).symm
  | @shutdown i conn user told up =>
    have posts : q.posts k thread (.server (.shutdown i conn)) = if i = thread then
        [.setDisconnecting conn, Task.runInLoop (q.run.conn conn).loop
          (.shutdownInLoop conn)].filterMap (Task.pick k)
        else [] := by
      by_cases same : conn = k
      · subst same
        simp [QueueRun.posts, List.filterMap_cons, Task.pick, ServerFunctor.isOf,
          ServerFunctor.bindsThis, up]
      · simp [QueueRun.posts, List.filterMap_cons, Task.pick, ServerFunctor.isOf,
          ServerFunctor.bindsThis, same]
    rw [posts]
    exact (lined.ask user _ rfl).symm
  | sendNot _ _ gone | shutdownNot _ _ gone =>
    exact line_rests (if_neg fun up => gone up.2.2) rfl (queue_inbox rfl rfl) rfl
  | destroyServer hs user permitted =>
    exact line_rests rfl rfl (queue_inbox rfl rfl) (ServerRun.call_picks (k := k) _ _ rfl thread)

/-- What is asked for comes to the end of the line, and what is called was first. -/
theorem Lined.line_step (lined : q.Lined k) {l : QueueAct} (h : q.step l = some r)
    (foreign : thread ≠ loop) (here : k < q.run.accepted → (q.run.conn k).loop = loop) :
    q.line k thread loop ++ q.posts k thread l =
      q.calls k thread l ++ r.line k thread loop := by
  cases l with
  | server l =>
    simp only [QueueRun.step, Option.ite_none_right_eq_some] at h
    obtain ⟨t, ran, rfl⟩ := Option.map_eq_some_iff.mp h.2
    exact lined.line_server ran foreign here
  | queueInLoop i target cb =>
    simp only [QueueRun.step, Option.ite_none_right_eq_some, Bool.and_eq_true,
      Option.some.injEq] at h
    obtain ⟨⟨_, may⟩, rfl⟩ := h
    have free : (⟨i, cb⟩ : Posted).pick k thread = none := by
      apply free_pick
      cases cb with
      | server _ => cases may
      | _ => rfl
    have same : (assign q.pendingFunctors target (q.pendingFunctors target ++ [⟨i, cb⟩])
        loop).filterMap (Posted.pick k thread) =
          (q.pendingFunctors loop).filterMap (Posted.pick k thread) := by
      by_cases mine : loop = target
      · rw [mine, assign_same, List.filterMap_append, List.filterMap_cons_none free]
        exact List.append_nil _
      · rw [assign_other _ _ mine]
    simp only [line, inbox, List.filterMap_append, same]
    exact List.append_nil _
  | runFunctor i =>
    simp only [QueueRun.step] at h
    split at h
    · rename_i entry rest _ batch _
      simp only [Option.ite_none_right_eq_some, Bool.and_eq_true, Option.some.injEq] at h
      obtain ⟨⟨_, free⟩, rfl⟩ := h
      have same : (assign q.functors i rest loop).filterMap (Posted.pick k thread) =
          (q.functors loop).filterMap (Posted.pick k thread) := by
        by_cases mine : loop = i
        · rw [mine, assign_same, batch,
            List.filterMap_cons_none (free_pick (Option.isNone_iff_eq_none.mp free))]
        · rw [assign_other _ _ mine]
      simp only [line, inbox, List.filterMap_append, same]
      exact List.append_nil _
    · cases h
  | setHighWaterMarkCallback i conn mark =>
    simp only [QueueRun.step, Option.ite_none_right_eq_some, Option.some.injEq] at h
    obtain ⟨_, rfl⟩ := h
    exact line_rests rfl rfl rfl rfl

/-- A connection's loop never changes, once the connection is there. -/
theorem step_loop {l : QueueAct} (h : q.step l = some r) (conn : Nat)
    (known : conn < q.run.accepted) :
    conn < r.run.accepted ∧ (r.run.conn conn).loop = (q.run.conn conn).loop := by
  cases l with
  | server l =>
    simp only [QueueRun.step, Option.ite_none_right_eq_some] at h
    obtain ⟨t, ran, rfl⟩ := Option.map_eq_some_iff.mp h.2
    rw [(q.follow_run l t).1]
    refine ⟨?_, (ServerRun.step_loop ran conn).resolve_right (by omega)⟩
    rcases ServerRun.step_accepted ran with same | ⟨_, next⟩ <;> omega
  | queueInLoop thread loop cb =>
    simp only [QueueRun.step, Option.ite_none_right_eq_some, Option.some.injEq] at h
    obtain ⟨_, rfl⟩ := h
    exact ⟨known, rfl⟩
  | runFunctor loop =>
    simp only [QueueRun.step] at h
    split at h
    · simp only [Option.ite_none_right_eq_some, Option.some.injEq] at h
      obtain ⟨_, rfl⟩ := h
      exact ⟨known, rfl⟩
    · cases h
  | setHighWaterMarkCallback thread other mark =>
    simp only [QueueRun.step, Option.ite_none_right_eq_some, Option.some.injEq] at h
    obtain ⟨_, rfl⟩ := h
    refine ⟨known, ?_⟩
    simp only [ServerRun.setConn]
    by_cases here : conn = other
    · rw [here, assign_same]
    · rw [assign_other _ _ here]

def firstWord : Message := Message.ofList [111, 110, 101] (by decide)

def secondWord : Message := Message.ofList [116, 119, 111] (by decide)

/-- Thread 2 sends twice and shuts the connection down, the base loop's thread sends in
between, and the io loop has called the first functor. -/
def asking : List QueueAct :=
  (ServerRun.closing.take 8).map .server ++
    [.server (.send 2 0 firstWord), .server (.task 2 ServerRun.eof),
      .server (.send 0 0 firstWord), .server (.task 0 ServerRun.eof),
      .server (.send 2 0 secondWord), .server (.task 2 ServerRun.eof),
      .server (.shutdown 2 0), .server (.task 2 ServerRun.eof), .server (.poll 1 []),
      .server (.dispatch 1 true), .server (.runFunctor 1), .server (.task 1 ServerRun.eof)]

end QueueRun
end Kenmuduo
