import Kenmuduo.ServerWork

/-!
# The callbacks of tasks that come in time

Every task that comes in time keeps the invariant of `ServerWork`, and so does
every step of a server.
-/

namespace Kenmuduo
namespace ServerRun

theorem call_inv {s : ServerRun} {thread : Nat} {tasks : List Task} (inv : s.Inv [])
    (idle : ∀ conn, tasks.countP (Task.establishes conn) = 0)
    (valid : ∀ task ∈ tasks, s.Valid task) : (s.call thread tasks).Inv [] := by
  refine inv.gain (q := .todo thread) tasks ⟨rfl, rfl, rfl, rfl⟩ rfl ?_ ?_ idle valid
  · rw [work_call, if_pos rfl]
    exact .refl _
  · intro r hr
    rw [work_call, if_neg hr]

theorem queueInLoop_inv {s : ServerRun} {loop : Nat} {cb : ServerFunctor} (inv : s.Inv [])
    (idle : ∀ conn, Task.establishes conn (.functor cb) = false) (valid : s.ValidFunctor cb) :
    (s.queueInLoop loop cb).Inv [] := by
  refine inv.gain (q := .pending loop) [.functor cb] ⟨rfl, rfl, rfl, rfl⟩ rfl ?_ ?_ ?_ ?_
  · rw [queueInLoop, work_setPending, if_pos rfl, List.map_append]
    exact List.perm_append_comm
  · intro r hr
    rw [queueInLoop, work_setPending, if_neg hr]
  · intro conn
    rw [List.countP_singleton, idle]
    rfl
  · intro task mem
    rw [List.mem_singleton.mp mem]
    exact valid

/-- The functor runs at once, or is queued with its loop. -/
theorem runInLoop_inv {s : ServerRun} {thread loop : Nat} {cb : ServerFunctor}
    (inv : s.Inv [.runInLoop loop cb]) : (s.runInLoop thread loop cb).Inv [] := by
  have valid : ∀ task ∈ [Task.functor cb], s.Valid task := by
    intro task mem
    rw [List.mem_singleton.mp mem]
    exact inv.valid .hand (.runInLoop loop cb) List.mem_cons_self
  have counts : ∀ conn, [Task.functor cb].countP (Task.establishes conn) =
      [Task.runInLoop loop cb].countP (Task.establishes conn) := fun conn => by cases cb <;> rfl
  unfold runInLoop
  split
  · refine inv.move (p := .hand) (q := .todo thread) [.runInLoop loop cb] [.functor cb]
      ⟨rfl, rfl, rfl, rfl⟩ rfl (by simp) rfl ?_ ?_ valid counts
    · rw [work_call, if_pos rfl]
      exact .refl _
    · intro r hp hq
      rw [work_call, if_neg hq]
      cases r <;> first | rfl | exact absurd rfl hp
  · refine inv.move (p := .hand) (q := .pending loop) [.runInLoop loop cb] [.functor cb]
      ⟨rfl, rfl, rfl, rfl⟩ rfl (by simp) rfl ?_ ?_ valid counts
    · rw [queueInLoop, work_setPending, if_pos rfl, List.map_append]
      exact List.perm_append_comm
    · intro r hp hq
      rw [queueInLoop, work_setPending, if_neg hq]
      cases r <;> first | rfl | exact absurd rfl hp

/-! ## What a task leaves -/

/-- The task of a close callback, if there is one. -/
theorem mem_closing {effects : List Effect} {conn : Nat} {task : Task}
    (h : task ∈ if effects.contains .closeCallback then [Task.removeConnection conn] else []) :
    task = .removeConnection conn := by
  split at h
  · exact List.mem_singleton.mp h
  · cases h

theorem closing_establishes (effects : List Effect) (conn c : Nat) :
    (if effects.contains .closeCallback then [Task.removeConnection conn] else []).countP
      (Task.establishes c) = 0 := by
  split <;> rfl

/-- A connection changes and makes callbacks; if its `connectEstablished` was in
hand, it has run. -/
theorem addCallbacks_inv {s : ServerRun} {hand : List Task} {conn : Nat} {c : TcpConnection}
    {callbacks : List Callback} (inv : s.Inv hand) (known : conn < s.accepted)
    (only : ∀ p, p ≠ .hand → s.establishing hand p conn = 0)
    (others : ∀ d, d ≠ conn → hand.countP (Task.establishes d) = 0)
    (logged : s.log conn ++ callbacks ≠ []) (protocol : Protocol (s.log conn ++ callbacks))
    (ended : down ∈ s.log conn ++ callbacks → c.state ≠ .kConnected) :
    ((s.setConn conn c).addCallbacks conn callbacks).Inv [] := by
  generalize ht : (s.setConn conn c).addCallbacks conn callbacks = t
  have log : t.log = assign s.log conn (s.log conn ++ callbacks) := by rw [← ht]; rfl
  have work (p : Place) (ne : p ≠ .hand) : t.work [] p = s.work hand p := by
    rw [← ht]
    cases p with
    | hand => exact absurd rfl ne
    | todo | pending | frame => rfl
  refine ⟨inv.replace (by rw [← ht]; rfl) log (by rw [← ht]; rfl) (List.mem_append_left _) ?_ ?_ ?_
    protocol (fun none => absurd none logged) ended, ?_, ?_⟩
  · rw [← ht]
    exact known
  · intro d _
    rw [← ht]
    exact Iff.rfl
  · rw [← ht]
    exact inv.registered
  · have grown : ∀ d, s.log d ≠ [] → t.log d ≠ [] := by
      intro d hd
      rw [log, assign]
      split
      · exact logged
      · exact hd
    intro p task mem
    by_cases ne : p = .hand
    · rw [ne] at mem
      cases mem
    · rw [work p ne] at mem
      refine (inv.valid p task mem).mono ?_ grown
      rw [← ht]
      exact Nat.le_refl _
  · obtain ⟨place, placed⟩ := inv.placed
    refine ⟨_, placed.held.set conn none (fun p => ?_) fun d other p => ?_, fun d waits => ?_⟩
    · by_cases ne : p = .hand
      · rw [ne]
        rfl
      · rw [establishing, work p ne]
        exact only p ne
    · by_cases ne : p = .hand
      · rw [ne]
        exact (others d other).symm
      · rw [establishing, establishing, work p ne]
    · split at waits
      · exact absurd rfl waits
      · rename_i other
        rw [log, assign_other _ _ other]
        exact placed.early d waits

/-- A function of a connection keeps the invariant when its callbacks keep to
the protocol. -/
theorem perform_inv {s t : ServerRun} {hand : List Task} {thread conn : Nat}
    {result : Except Fault (TcpConnection × List Effect)} (inv : s.Inv hand)
    (known : conn < s.accepted)
    (only : ∀ p, p ≠ .hand → s.establishing hand p conn = 0)
    (others : ∀ d, d ≠ conn → hand.countP (Task.establishes d) = 0)
    (called : ∀ c effects, result = .ok (c, effects) →
      s.log conn ++ effects.filterMap Effect.callback ≠ [] ∧
      Protocol (s.log conn ++ effects.filterMap Effect.callback) ∧
      (down ∈ s.log conn ++ effects.filterMap Effect.callback → c.state ≠ .kConnected))
    (h : s.perform thread conn result = some t) : t.Inv [] := by
  unfold perform at h
  split at h
  case h_2 => cases h
  rename_i c effects
  cases h
  obtain ⟨logged, protocol, ended⟩ := called c effects rfl
  have calls := addCallbacks_inv inv known only others logged protocol ended
  refine call_inv calls (closing_establishes effects conn) fun task mem => ?_
  rw [mem_closing mem]
  show assign s.log conn _ conn ≠ []
  rw [assign_same]
  exact logged

theorem perform_log {s t : ServerRun} {thread conn : Nat}
    {result : Except Fault (TcpConnection × List Effect)}
    (h : s.perform thread conn result = some t) :
    ∃ c effects, result = .ok (c, effects) ∧
      t.log = assign s.log conn (s.log conn ++ effects.filterMap Effect.callback) := by
  unfold perform at h
  split at h
  · cases h
    exact ⟨_, _, rfl, rfl⟩
  · cases h

/-- A function that makes no callback, on a connection the user knows. -/
theorem perform_internal {s t : ServerRun} {hand : List Task} {thread conn : Nat}
    {result : Except Fault (TcpConnection × List Effect)} (inv : s.Inv hand)
    (up : s.log conn ≠ []) (others : ∀ c, c ≠ conn → hand.countP (Task.establishes c) = 0)
    (internal : ∀ c effects, result = .ok (c, effects) →
      c.state = (s.conn conn).state ∧ effects.all Effect.internal = true)
    (h : s.perform thread conn result = some t) : t.Inv [] := by
  refine perform_inv inv (inv.known conn up) (fun p _ => inv.no_establish up p) others ?_ h
  intro c effects hr
  obtain ⟨state, quiet⟩ := internal c effects hr
  rw [TcpConnection.callbacks_of_internal quiet, List.append_nil, state]
  exact ⟨up, inv.protocol conn, inv.ended conn⟩

/-- A function that tells the user that a connection is down. -/
theorem perform_down {s t : ServerRun} {hand : List Task} {thread conn : Nat}
    {result : Except Fault (TcpConnection × List Effect)} (inv : s.Inv hand)
    (up : s.log conn ≠ []) (others : ∀ c, c ≠ conn → hand.countP (Task.establishes c) = 0)
    (opened : ¬ s.closed conn)
    (tells : ∀ c effects, result = .ok (c, effects) →
      c.state ≠ .kConnected ∧ effects.filterMap Effect.callback = [down])
    (h : s.perform thread conn result = some t) : t.Inv [] := by
  refine perform_inv inv (inv.known conn up) (fun p _ => inv.no_establish up p) others ?_ h
  intro c effects hr
  obtain ⟨state, told⟩ := tells c effects hr
  rw [told]
  exact ⟨by simp, (inv.protocol conn).close up opened, fun _ => state⟩

/-- The one functor that runs `connectEstablished` is in hand. -/
theorem establish_inv {s t : ServerRun} {thread conn : Nat}
    (inv : s.Inv [.functor (.connectEstablished conn)])
    (h : s.perform thread conn (s.conn conn).connectEstablished = some t) : t.Inv [] := by
  obtain ⟨place, placed⟩ := inv.placed
  have here : place conn = some .hand :=
    placed.held.at_place (by simp [establishing, Task.establishes])
  have none : s.log conn = [] := placed.early conn (by simp [here])
  refine perform_inv inv (inv.valid .hand _ List.mem_cons_self) ?_ ?_ ?_ h
  · intro p ne
    rw [placed.held, here, if_neg (by simpa using ne.symm)]
  · intro c ne
    simp [Task.establishes, ne.symm]
  · intro c effects hr
    obtain ⟨_, rfl⟩ := TcpConnection.connectEstablished_ok hr
    rw [none]
    exact ⟨by simp [Effect.callback], Protocol.first, fun shut => by simp [Effect.callback] at shut⟩

/-- `connectionDestroyed` comes in time. -/
theorem destroyed_inv {s t : ServerRun} {thread conn : Nat}
    (inv : s.Inv [.functor (.connectionDestroyed conn)])
    (intime : s.closed conn ∨ (s.conn conn).state = .kConnected)
    (h : (s.perform thread conn (s.conn conn).connectionDestroyed).map
      (fun t => t.setDestroyed conn) = some t) : t.Inv [] := by
  have exists_ : conn < s.accepted := inv.valid .hand _ List.mem_cons_self
  have up : s.log conn ≠ [] := by
    intro none
    cases intime with
    | inl shut =>
      rw [closed, none] at shut
      cases shut
    | inr connected =>
      rw [(inv.fresh conn exists_ none).1] at connected
      cases connected
  have others : ∀ c, c ≠ conn →
      [Task.functor (.connectionDestroyed conn)].countP (Task.establishes c) = 0 := fun _ _ => rfl
  obtain ⟨u, hu, rfl⟩ := Option.map_eq_some_iff.mp h
  obtain ⟨c, effects, hr, log⟩ := perform_log hu
  obtain ⟨connected, rfl, rfl⟩ | ⟨gone, rfl, rfl⟩ := TcpConnection.connectionDestroyed_ok hr
  · have opened : ¬ s.closed conn := fun shut => inv.ended conn shut connected
    have kept : u.Inv [] := by
      refine perform_down inv up others opened ?_ hu
      intro c effects same
      cases hr.symm.trans same
      exact ⟨by simp, rfl⟩
    refine kept.setDestroyed ?_
    rw [closed, log, assign_same]
    exact List.mem_append_right _ (List.mem_singleton_self _)
  · have kept : u.Inv [] := by
      refine perform_internal inv up others ?_ hu
      intro c effects same
      cases hr.symm.trans same
      exact ⟨rfl, rfl⟩
    refine kept.setDestroyed ?_
    rw [closed, log, assign_same]
    exact List.mem_append_left _ (intime.resolve_right gone)

/-- `handleRead` comes in time. -/
theorem handleRead_inv {s t : ServerRun} {thread conn : Nat} {answer : Answer}
    (inv : s.Inv [.handleRead conn]) (possible : answer.possible = true)
    (intime : ∀ bytes, answer.read = .delivered bytes → ¬ s.closed conn)
    (h : s.perform thread conn ((s.conn conn).handleRead answer.read) = some t) : t.Inv [] := by
  have up : s.log conn ≠ [] := inv.valid .hand _ List.mem_cons_self
  have others : ∀ c, c ≠ conn → [Task.handleRead conn].countP (Task.establishes c) = 0 :=
    fun _ _ => rfl
  cases hread : answer.read with
  | failed errno =>
    rw [hread] at h
    refine perform_internal inv up others ?_ h
    intro c effects hr
    obtain rfl := TcpConnection.handleRead_failed hr
    obtain ⟨input, ⟨rfl, _⟩ | ⟨_, heff⟩⟩ := TcpConnection.handleRead_ok hr
    · exact ⟨rfl, rfl⟩
    · cases heff
  | delivered bytes =>
    have opened := intime bytes hread
    have fits : bytes.length ≤ vectorMax := by simpa [Answer.possible, hread] using possible
    rw [hread] at h
    by_cases eof : bytes = []
    · refine perform_down inv up others opened ?_ h
      intro c effects hr
      have heff := TcpConnection.handleRead_delivered fits hr
      rw [if_pos eof] at heff
      obtain ⟨input, ⟨_, other | other⟩ | ⟨rfl, _⟩⟩ := TcpConnection.handleRead_ok hr
      · simp [heff] at other
      · simp [heff] at other
      · exact ⟨by simp, by rw [heff]; rfl⟩
    · refine perform_inv inv (inv.known conn up) (fun p _ => inv.no_establish up p) others ?_ h
      intro c effects hr
      have heff := TcpConnection.handleRead_delivered fits hr
      rw [if_neg eof] at heff
      subst heff
      refine ⟨by simp [Effect.callback], (inv.protocol conn).message up opened, fun shut => ?_⟩
      exact absurd (by simpa [Effect.callback, closed] using shut) opened

theorem perform_setConn (s : ServerRun) (thread conn : Nat) (c : TcpConnection) :
    s.perform thread conn (.ok (c, [])) = some (s.setConn conn c) := by
  simp [perform, setConn, addCallbacks, call, setTodo, assign_self]

/-- A functor that comes in time keeps the invariant. -/
theorem runFunctor_inv {s t : ServerRun} {thread : Nat} {answer : Answer} {cb : ServerFunctor}
    (inv : s.Inv [.functor cb]) (intime : s.InTime answer (.functor cb))
    (h : s.runFunctor thread answer cb = some t) : t.Inv [] := by
  cases cb with
  | connectEstablished conn => exact establish_inv inv h
  | connectionDestroyed conn =>
    rw [runFunctor] at h
    exact destroyed_inv inv intime h
  | removeConnectionInLoop conn =>
    have up : s.log conn ≠ [] := inv.valid .hand _ List.mem_cons_self
    simp only [runFunctor] at h
    cases hs : s.server with
    | none => simp [hs] at h
    | some server =>
      simp only [hs, Option.some.injEq] at h
      subst h
      refine queueInLoop_inv ((inv.withServer ?_).done fun _ => rfl) (fun _ => rfl)
        (inv.known conn up)
      intro server' same item mem
      cases same
      exact inv.registered server hs item (List.mem_filter.mp mem).1
  | sendInLoop conn data =>
    have up : s.log conn ≠ [] := inv.valid .hand _ List.mem_cons_self
    refine perform_internal inv up (fun _ _ => rfl) ?_ h
    intro c effects hr
    obtain ⟨state, _, quiet⟩ := TcpConnection.sendInLoop_internal hr
    exact ⟨state, quiet⟩
  | shutdownInLoop conn =>
    have up : s.log conn ≠ [] := inv.valid .hand _ List.mem_cons_self
    rw [runFunctor] at h
    refine perform_internal inv up (fun _ _ => rfl) ?_ h
    intro c effects hr
    cases hr
    exact ⟨rfl, TcpConnection.shutdownInLoop_internal _⟩

/-- A task that comes in time keeps the invariant. -/
theorem runTask_inv {s t : ServerRun} {thread : Nat} {answer : Answer} {task : Task}
    (inv : s.Inv [task]) (possible : answer.possible = true) (intime : s.InTime answer task)
    (h : s.runTask thread answer task = some t) : t.Inv [] := by
  have valid : s.Valid task := inv.valid .hand _ List.mem_cons_self
  cases task with
  | functor cb => exact runFunctor_inv inv intime h
  | runInLoop loop cb =>
    cases h
    exact runInLoop_inv inv
  | handleClose conn =>
    refine perform_down inv valid (fun _ _ => rfl) intime ?_ h
    intro c effects hr
    obtain ⟨rfl, rfl⟩ := TcpConnection.handleClose_ok hr
    exact ⟨by simp, rfl⟩
  | handleError conn =>
    rw [runTask] at h
    refine perform_internal inv valid (fun _ _ => rfl) ?_ h
    intro c effects hr
    cases hr
    exact ⟨rfl, rfl⟩
  | handleRead conn => exact handleRead_inv inv possible intime h
  | handleWrite conn =>
    refine perform_internal inv valid (fun _ _ => rfl) ?_ h
    intro c effects hr
    obtain ⟨state, _, quiet⟩ := TcpConnection.handleWrite_internal hr
    exact ⟨state, quiet⟩
  | removeConnection conn =>
    simp only [runTask] at h
    cases hs : s.server with
    | none => simp [hs] at h
    | some server =>
      simp only [hs, Option.some.injEq] at h
      subst h
      refine call_inv (inv.done fun _ => rfl) (fun _ => rfl) ?_
      intro task mem
      rw [List.mem_singleton.mp mem]
      exact valid
  | setDisconnecting conn =>
    rw [runTask, ← perform_setConn s thread] at h
    refine perform_inv inv (inv.known conn valid) (fun p _ => inv.no_establish valid p)
      (fun _ _ => rfl) ?_ h
    intro c effects hr
    cases hr
    rw [List.filterMap_nil, List.append_nil]
    exact ⟨valid, inv.protocol conn, fun _ => by simp [TcpConnection.setState]⟩
  | destroyServer conns =>
    cases conns with
    | nil =>
      cases h
      exact (inv.done fun _ => rfl).withServer (fun _ none => by cases none)
    | cons conn conns =>
      cases h
      refine call_inv (inv.done fun _ => rfl) (fun _ => rfl) ?_
      intro task mem
      cases mem with
      | head => exact valid conn List.mem_cons_self
      | tail _ mem =>
        rw [List.mem_singleton.mp mem]
        exact fun c hc => valid c (List.mem_cons_of_mem conn hc)

/-! ## What a step leaves -/

/-- The thread takes its next task in hand. -/
theorem take_inv {s : ServerRun} {thread : Nat} {task : Task} {rest : List Task} (inv : s.Inv [])
    (next : s.todo thread = task :: rest) : (s.setTodo thread rest).Inv [task] := by
  refine inv.move (p := .todo thread) (q := .hand) [task] [task]
    ⟨rfl, rfl, rfl, rfl⟩ rfl (by simp) ?_ (.refl _) ?_ ?_ fun _ => rfl
  · rw [work_setTodo, if_pos rfl]
    exact next
  · intro r hp hq
    rw [work_setTodo, if_neg hp]
    cases r <;> first | rfl | exact absurd rfl hq
  · intro t mem
    refine inv.valid (.todo thread) t ?_
    rw [List.mem_singleton.mp mem, work_todo, next]
    exact List.mem_cons_self

theorem newConnection_inv {s : ServerRun} {server : TcpServer} {c : TcpConnection} (inv : s.Inv [])
    (new : c.state = .kConnecting ∧ c.channel.index = kNew)
    (registered : ∀ item ∈ server.connections, item.2 ≤ s.accepted) :
    ({ s.setConn s.accepted c with server := some server, accepted := s.accepted + 1 }.call 0
      [.runInLoop c.loop (.connectEstablished s.accepted)] : ServerRun).Inv [] := by
  generalize ht : ServerRun.call _ _ _ = t
  have log : t.log = s.log := by rw [← ht]; rfl
  have accepted : t.accepted = s.accepted + 1 := by rw [← ht]; rfl
  have work (p : Place) : t.work [] p = if p = .todo 0 then
      .runInLoop c.loop (.connectEstablished s.accepted) :: s.todo 0 else s.work [] p := by
    rw [← ht, work_call]
    rfl
  have unknown : s.log s.accepted = [] :=
    Decidable.byContradiction fun up => absurd (inv.known _ up) (Nat.lt_irrefl _)
  refine ⟨inv.replace (by rw [← ht]; rfl) ?_ (by rw [← ht]; rfl) (by rw [unknown]; exact id)
    ?_ ?_ ?_ .none (fun _ => new) (by simp), ?_, ?_⟩
  · rw [log, ← unknown, assign_self]
  · omega
  · omega
  · intro server' same item mem
    rw [← ht] at same
    cases same
    rw [accepted]
    exact Nat.lt_succ_of_le (registered item mem)
  · have kept : ∀ p, ∀ task ∈ s.work [] p, t.Valid task := by
      intro p task mem
      refine (inv.valid p task mem).mono (by omega) ?_
      rw [log]
      exact fun _ up => up
    intro p task mem
    rw [work] at mem
    split at mem
    · cases mem with
      | head =>
        show s.accepted < t.accepted
        omega
      | tail _ old => exact kept (.todo 0) task old
    · exact kept p task mem
  · obtain ⟨place, placed⟩ := inv.placed
    refine ⟨_, placed.held.set s.accepted (some (.todo 0)) (fun p => ?_) fun conn old p => ?_,
      fun conn waits => ?_⟩
    · have none := inv.unborn (Nat.le_refl s.accepted)
      rw [establishing, work]
      split
      · rename_i at_
        have none := none (.todo 0)
        rw [establishing, work_todo] at none
        rw [at_, if_pos rfl, List.countP_cons_of_pos (by simp [Task.establishes]), none]
      · rename_i elsewhere
        rw [if_neg (by simpa using Ne.symm elsewhere)]
        exact none p
    · rw [establishing, establishing, work]
      split
      · rename_i at_
        rw [at_, List.countP_cons_of_neg (by simpa [Task.establishes] using Ne.symm old)]
        rfl
      · rfl
    · rw [log]
      split at waits
      · rename_i new
        rw [new]
        exact unknown
      · exact placed.early conn waits

/-- What `poll` reports, the user has been told of: before that, the channel is
not with the poller. -/
theorem poll_inv {s : ServerRun} {loop : Nat} {activeChannels : List (Nat × Mask)} (inv : s.Inv [])
    (hf : s.frame loop = .polling) (can : s.canReport loop activeChannels = true) :
    (s.setFrame loop (.dispatching activeChannels)).Inv [] := by
  refine inv.gain (q := .frame loop) (activeChannels.map fun active => .handleError active.1)
    ⟨rfl, rfl, rfl, rfl⟩ rfl ?_ ?_ ?_ ?_
  · rw [work_setFrame, if_pos rfl, work_frame, hf]
    simp [LoopFrame.tasks]
  · intro r hr
    rw [work_setFrame, if_neg hr]
  · exact LoopFrame.dispatching_establishes activeChannels
  · intro task mem
    obtain ⟨active, reported, rfl⟩ := List.mem_map.mp mem
    simp only [canReport, Bool.and_eq_true, List.all_eq_true, decide_eq_true_eq, beq_iff_eq] at can
    obtain ⟨⟨⟨exists_, _⟩, added⟩, _⟩ := can.2 active reported
    intro none
    have new := (inv.fresh active.1 exists_ none).2
    rw [added] at new
    cases new

theorem mem_handleEvent {conn : Nat} {revents : Mask} {task : Task}
    (h : task ∈ handleEvent conn revents) :
    task = .handleClose conn ∨ task = .handleError conn ∨ task = .handleRead conn ∨
      task = .handleWrite conn := by
  have one : ∀ (b : Bool) (t : Task), task ∈ (if b then [t] else []) → task = t := by
    intro b t mem
    cases b with
    | false => cases mem
    | true => exact List.mem_singleton.mp mem
  simp only [handleEvent, List.mem_append] at h
  obtain ((h | h) | h) | h := h
  · exact .inl (one _ _ h)
  · exact .inr (.inl (one _ _ h))
  · exact .inr (.inr (.inl (one _ _ h)))
  · exact .inr (.inr (.inr (one _ _ h)))

/-- The loop goes on to the rest of its active channels. -/
theorem nextChannel_inv {s : ServerRun} {loop : Nat} {active : Nat × Mask}
    {rest : List (Nat × Mask)} (inv : s.Inv [])
    (hf : s.frame loop = .dispatching (active :: rest)) :
    (s.setFrame loop (.dispatching rest)).Inv [] := by
  refine inv.quiet ⟨rfl, rfl, rfl, rfl⟩ inv.registered ?_ ?_
  · intro p task mem
    rw [work_setFrame] at mem
    split at mem
    · refine inv.valid (.frame loop) task ?_
      rw [work_frame, hf]
      exact List.mem_cons_of_mem _ mem
    · exact inv.valid p task mem
  · obtain ⟨place, placed⟩ := inv.placed
    refine ⟨place, placed.held.same fun p conn => ?_, placed.early⟩
    rw [establishing, establishing, work_setFrame]
    split
    · rename_i at_
      rw [at_, work_frame, hf, LoopFrame.dispatching_establishes,
        LoopFrame.dispatching_establishes]
    · rfl

theorem dispatch_inv {s : ServerRun} {loop conn : Nat} {revents : Mask} {locked : Bool}
    {rest : List (Nat × Mask)} (inv : s.Inv [])
    (hf : s.frame loop = .dispatching ((conn, revents) :: rest)) (ht : s.todo loop = []) :
    ((s.setFrame loop (.dispatching rest)).setTodo loop
      (if locked then handleEvent conn revents else [])).Inv [] := by
  have up : s.log conn ≠ [] := inv.valid (.frame loop) (.handleError conn) (mem_active hf)
  have handled : ∀ task ∈ (if locked then handleEvent conn revents else []),
      s.Valid task ∧ ∀ c, task.establishes c = false := by
    intro task mem
    split at mem
    · obtain rfl | rfl | rfl | rfl := mem_handleEvent mem <;> exact ⟨up, fun _ => rfl⟩
    · cases mem
  have idle : ∀ c, (if locked then handleEvent conn revents else []).countP
      (Task.establishes c) = 0 := by
    intro c
    rw [List.countP_eq_zero]
    intro task mem
    rw [(handled task mem).2 c]
    exact Bool.false_ne_true
  have called : ((s.setFrame loop (.dispatching rest)).call loop
      (if locked then handleEvent conn revents else [])).Inv [] :=
    call_inv (nextChannel_inv inv hf) idle fun task mem => (handled task mem).1
  have none : (s.setFrame loop (.dispatching rest)).todo loop = [] := ht
  rwa [call, none, List.append_nil] at called

/-- The swap of `doPendingFunctor`. -/
theorem swap_inv {s : ServerRun} {loop : Nat} (inv : s.Inv [])
    (hf : s.frame loop = .dispatching []) :
    ((s.setFrame loop (.batch (s.pendingFunctors loop))).setPending loop []).Inv [] := by
  refine inv.move (p := .pending loop) (q := .frame loop)
    ((s.pendingFunctors loop).map .functor) ((s.pendingFunctors loop).map .functor)
    ⟨rfl, rfl, rfl, rfl⟩ rfl (by simp) ?_ ?_ ?_ ?_ fun _ => rfl
  · rw [work_setPending, if_pos rfl]
    simp
  · rw [work_setPending, if_neg (by simp), work_setFrame, if_pos rfl, work_frame, hf]
    simp [LoopFrame.tasks]
  · intro r hp hq
    rw [work_setPending, if_neg hp, work_setFrame, if_neg hq]
  · exact inv.valid (.pending loop)

theorem runFunctor_step_inv {s : ServerRun} {loop : Nat} {cb : ServerFunctor}
    {rest : List ServerFunctor} (inv : s.Inv []) (hf : s.frame loop = .batch (cb :: rest))
    (ht : s.todo loop = []) :
    ((s.setFrame loop (.batch rest)).setTodo loop [.functor cb]).Inv [] := by
  refine inv.move (p := .frame loop) (q := .todo loop) [.functor cb] [.functor cb]
    ⟨rfl, rfl, rfl, rfl⟩ rfl (by simp) ?_ ?_ ?_ ?_ fun _ => rfl
  · rw [work_setTodo, if_neg (by simp), work_setFrame, if_pos rfl, work_frame, hf]
    rfl
  · rw [work_setTodo, if_pos rfl, work_todo, ht]
    exact .refl _
  · intro r hp hq
    rw [work_setTodo, if_neg hq, work_setFrame, if_neg hp]
  · intro task mem
    refine inv.valid (.frame loop) task ?_
    rw [List.mem_singleton.mp mem, work_frame, hf]
    exact List.mem_cons_self

/-- The end of a batch. -/
theorem batchEnd_inv {s : ServerRun} {loop : Nat} (inv : s.Inv []) (hf : s.frame loop = .batch []) :
    (s.setFrame loop .polling).Inv [] := by
  refine inv.gain (q := .frame loop) [] ⟨rfl, rfl, rfl, rfl⟩ rfl ?_ ?_ (fun _ => rfl)
    fun _ mem => by cases mem
  · rw [work_setFrame, if_pos rfl, work_frame, hf]
    exact .refl _
  · intro r hr
    rw [work_setFrame, if_neg hr]

/-- Every step that runs no late task keeps the invariant. -/
theorem step_inv {s t : ServerRun} {l : ServerAct} (inv : s.Inv []) (orderly : s.Orderly l)
    (h : s.step l = some t) : t.Inv [] := by
  cases stepped h with
  | @accept server _ _ hs _ _ =>
    refine newConnection_inv inv ⟨rfl, rfl⟩ fun item mem => ?_
    obtain old | new := TcpServer.newConnection_connections mem
    · exact Nat.le_of_lt (inv.registered server hs item old)
    · exact Nat.le_of_eq new
  | poll hf _ can => exact poll_inv inv hf can
  | visit hf ht => exact dispatch_inv inv hf ht
  | swap hf _ => exact swap_inv inv hf
  | next hf ht => exact runFunctor_step_inv inv hf ht
  | batchEnd hf _ => exact batchEnd_inv inv hf
  | @task _ _ task _ _ next possible ran =>
    exact runTask_inv (take_inv inv next) possible (orderly task (by rw [next]; rfl)) ran
  | send _ told _ =>
    refine call_inv inv (fun _ => rfl) fun task mem => ?_
    rw [List.mem_singleton.mp mem]
    exact told
  | shutdown _ told _ =>
    refine call_inv inv (fun _ => rfl) fun task mem => ?_
    cases mem with
    | head => exact told
    | tail _ mem =>
      rw [List.mem_singleton.mp mem]
      exact told
  | sendNot | shutdownNot => exact inv
  | @destroyServer _ _ server hs _ permitted =>
    refine call_inv inv (fun _ => rfl) fun task mem => ?_
    rw [List.mem_singleton.mp mem]
    intro conn hc
    obtain ⟨item, there, rfl⟩ := List.mem_map.mp (permitted.mem_iff.mp hc)
    exact inv.registered server hs item there

end ServerRun
end Kenmuduo
