import Kenmuduo.Ownership

/-!
# All that is queued with a loop

Beside the functors of the server a loop's queue has those that bind a user's callback
and its connection, `Acceptor::listen` when another thread starts the server, and the
functors of the user's own. A batch is the whole queue, and is called in its order.
-/

namespace Kenmuduo
open Transition

inductive QueuedFunctor
  | server (cb : ServerFunctor)
  | writeCompleteCallback (conn : Nat)
  | highWaterMarkCallback (conn size : Nat)
  | listen
  | user (id : Nat)

def QueuedFunctor.ofServer : QueuedFunctor → Option ServerFunctor
  | server cb => some cb
  | writeCompleteCallback _ | highWaterMarkCallback _ _ | listen | user _ => none

/-- An entry of a queue, with the thread that queued it. -/
structure Posted where
  thread : Nat
  functor : QueuedFunctor

def Posted.ofServer (entry : Posted) : Option ServerFunctor := entry.functor.ofServer

/-- What `queueInLoop` of a user's callback binds. -/
def Effect.functor (conn : Nat) : Effect → Option QueuedFunctor
  | writeComplete => some (.writeCompleteCallback conn)
  | highWater size => some (.highWaterMarkCallback conn size)
  | _ => none

def LoopFrame.collects : LoopFrame → Bool
  | polling | dispatching _ => true
  | batch _ => false

namespace ServerRun

/-- The functors with a user's callback that a task queues, and their loop. -/
def taskFunctors (s : ServerRun) (answer : Answer) (task : Task) : Nat × List QueuedFunctor :=
  match s.result answer task with
  | some (conn, .ok (c, effects)) => (c.loop, effects.filterMap (Effect.functor conn))
  | _ => (0, [])

def callbackFunctors (s : ServerRun) : ServerAct → Nat × List QueuedFunctor
  | .task thread answer =>
    match s.todo thread with
    | task :: _ => s.taskFunctors answer task
    | [] => (0, [])
  | _ => (0, [])

/-- What a step to `t` queues with the loop. -/
def queues (s : ServerRun) (l : ServerAct) (t : ServerRun) (loop : Nat) : List QueuedFunctor :=
  ((t.pendingFunctors loop).drop (s.pendingFunctors loop).length).map .server ++
    if (s.callbackFunctors l).1 = loop then (s.callbackFunctors l).2 else []

end ServerRun

/-- The server with the whole queues of its loops. -/
structure QueueRun where
  run : ServerRun
  threads : Nat
  pendingFunctors : Nat → List Posted
  functors : Nat → List Posted
  /-- The functor of the server that a loop has taken and calls next. -/
  taken : Nat → Option Posted

inductive QueueAct
  | server (l : ServerAct)
  /-- The user queues a functor, or has `TcpServer::start` queue `Acceptor::listen`. -/
  | queueInLoop (thread loop : Nat) (cb : QueuedFunctor)
  /-- The loop calls a functor that is not the server's; the user's code may follow. -/
  | runFunctor (loop : Nat)
  | setHighWaterMarkCallback (thread conn mark : Nat)

namespace QueueRun

/-- The next functor of the batch is the server's, or the batch is done. -/
def allows (q : QueueRun) : ServerAct → Bool
  | .runFunctor loop => (q.functors loop).head?.all fun entry => entry.ofServer.isSome
  | _ => true

/-- The user's functors, and `listen` from a thread that does not run the base loop. -/
def mayQueue (q : QueueRun) (thread loop : Nat) : QueuedFunctor → Bool
  | .user _ => true
  | .listen => thread != 0 && loop == 0 && q.run.server.isSome
  | .server _ | .writeCompleteCallback _ | .highWaterMarkCallback _ _ => false

/-- A step of the server to `t` queues what it does. -/
def queue (q : QueueRun) (l : ServerAct) (t : ServerRun) : QueueRun :=
  { q with
    run := t
    pendingFunctors := fun loop => q.pendingFunctors loop ++
      (q.run.queues l t loop).map fun cb => ⟨l.thread, cb⟩ }

def swap (q : QueueRun) (loop : Nat) : QueueRun :=
  { q with
    pendingFunctors := assign q.pendingFunctors loop []
    functors := assign q.functors loop (q.pendingFunctors loop) }

/-- The queues and batches after a step of the server to `t`. -/
def follow (q : QueueRun) (l : ServerAct) (t : ServerRun) : QueueRun :=
  match l with
  | .dispatch loop _ =>
    match q.run.frame loop with
    | .dispatching [] => { q.swap loop with run := t }
    | _ => q.queue l t
  | .runFunctor loop =>
    { q.queue l t with
      functors := assign q.functors loop (q.functors loop).tail
      taken := assign q.taken loop (q.functors loop).head? }
  | .task thread _ => { q.queue l t with taken := assign q.taken thread none }
  | .newConnection _ | .poll _ _ | .send _ _ _ | .shutdown _ _ | .destroyServer _ _ => q.queue l t

def step (q : QueueRun) : QueueAct → Option QueueRun
  | .server l =>
    if l.thread < q.threads && q.allows l then (q.run.step l).map (q.follow l) else none
  | .queueInLoop thread loop cb =>
    if thread < q.threads && q.run.inUserCode thread && q.mayQueue thread loop cb then
      some { q with
        pendingFunctors := assign q.pendingFunctors loop
          (q.pendingFunctors loop ++ [⟨thread, cb⟩]) }
    else none
  | .runFunctor loop =>
    match q.run.frame loop, q.functors loop, q.run.todo loop with
    | .batch _, entry :: rest, [] =>
      if loop < q.threads && entry.ofServer.isNone then
        some { q with functors := assign q.functors loop rest }
      else none
    | _, _, _ => none
  | .setHighWaterMarkCallback thread conn mark =>
    if thread < q.threads && q.run.inUserCode thread && !(q.run.log conn).isEmpty then
      some { q with
        run := q.run.setConn conn { q.run.conn conn with
          highWaterMarkCallback := true, highWaterMark := mark % sizeMod } }
    else none

structure Start (q : QueueRun) : Prop where
  run : q.run.Start
  pendingFunctors : ∀ loop, q.pendingFunctors loop = []
  functors : ∀ loop, q.functors loop = []
  taken : ∀ loop, q.taken loop = none

def machine : Machine QueueRun QueueAct := ⟨Start, step⟩

theorem follow_run (q : QueueRun) (l : ServerAct) (t : ServerRun) :
    (q.follow l t).run = t ∧ (q.follow l t).threads = q.threads := by
  cases l with
  | dispatch =>
    simp only [follow]
    split <;> exact ⟨rfl, rfl⟩
  | _ => exact ⟨rfl, rfl⟩

/-! ## What a step does to one loop -/

/-- The entry that a step takes out of the loop's batch. -/
def takes (q : QueueRun) (loop : Nat) : QueueAct → List Posted
  | .server (.runFunctor i) | .runFunctor i => if i = loop then (q.functors loop).take 1 else []
  | _ => []

/-- The server's own functors are queued and batched in their order with the others. -/
structure Served (q : QueueRun) : Prop where
  pending : ∀ loop, (q.pendingFunctors loop).filterMap Posted.ofServer =
    q.run.pendingFunctors loop
  functors : ∀ loop, (q.functors loop).filterMap Posted.ofServer = (q.run.frame loop).functors
  batch : ∀ loop, (q.run.frame loop).collects = true → q.functors loop = []

/-- The round a loop is in stays as it is. -/
structure SameTurn (q r : QueueRun) (loop : Nat) (l : QueueAct) : Prop where
  functors : r.functors loop = q.functors loop
  frame : (r.run.frame loop).functors = (q.run.frame loop).functors
  collects : (r.run.frame loop).collects = (q.run.frame loop).collects
  takes : q.takes loop l = []

structure SameQueue (q r : QueueRun) (loop : Nat) : Prop where
  pending : r.pendingFunctors loop = q.pendingFunctors loop
  server : r.run.pendingFunctors loop = q.run.pendingFunctors loop

inductive LoopTurn (q r : QueueRun) (loop : Nat) (l : QueueAct) : Prop
  | queues {more} : q.SameTurn r loop l →
      r.pendingFunctors loop = q.pendingFunctors loop ++ more →
      r.run.pendingFunctors loop = q.run.pendingFunctors loop ++ more.filterMap Posted.ofServer →
      LoopTurn q r loop l
  | swaps : (q.run.frame loop).collects = true →
      r.run.frame loop = .batch (q.run.pendingFunctors loop) →
      r.functors loop = q.pendingFunctors loop → r.pendingFunctors loop = [] →
      r.run.pendingFunctors loop = [] → q.takes loop l = [] → LoopTurn q r loop l
  | takes {entry rest} : q.functors loop = entry :: rest → r.functors loop = rest →
      (r.run.frame loop).functors = rest.filterMap Posted.ofServer →
      (q.run.frame loop).collects = false → (r.run.frame loop).collects = false →
      q.SameQueue r loop → q.takes loop l = [entry] → LoopTurn q r loop l
  | polls : q.functors loop = [] → r.functors loop = [] → q.run.frame loop = .batch [] →
      r.run.frame loop = .polling → q.SameQueue r loop → q.takes loop l = [] →
      LoopTurn q r loop l

theorem LoopTurn.idle {q r : QueueRun} {loop : Nat} {l : QueueAct} (same : q.SameTurn r loop l)
    (queue : q.SameQueue r loop) : q.LoopTurn r loop l :=
  .queues same (queue.pending.trans (List.append_nil _).symm)
    (queue.server.trans (List.append_nil _).symm)

theorem start_served {q : QueueRun} (h : q.Start) : q.Served := by
  refine ⟨fun loop => ?_, fun loop => ?_, fun loop _ => h.functors loop⟩
  · rw [h.pendingFunctors, h.run.pendingFunctors]
    rfl
  · rw [h.functors, h.run.frame]
    rfl

theorem Served.step {q r : QueueRun} {l : QueueAct} (served : q.Served)
    (turn : ∀ loop, q.LoopTurn r loop l) : r.Served := by
  constructor
  · intro loop
    cases turn loop with
    | queues _ more server => rw [more, server, List.filterMap_append, served.pending]
    | swaps _ _ _ pending server _ =>
      rw [pending, server]
      rfl
    | takes _ _ _ _ _ same _ | polls _ _ _ _ same _ =>
      rw [same.pending, same.server, served.pending]
  · intro loop
    cases turn loop with
    | queues same _ _ => rw [same.functors, same.frame, served.functors]
    | swaps _ batched functors _ _ _ =>
      rw [batched, functors, served.pending]
      rfl
    | takes _ rest frame _ _ _ _ => rw [rest, frame]
    | polls _ empty _ frame _ _ =>
      rw [empty, frame]
      rfl
  · intro loop collects
    cases turn loop with
    | queues same _ _ =>
      rw [same.functors]
      exact served.batch loop (same.collects.symm.trans collects)
    | swaps _ batched _ _ _ _ =>
      rw [batched] at collects
      cases collects
    | takes _ _ _ _ off _ _ => exact Bool.noConfusion (off.symm.trans collects)
    | polls _ empty _ _ _ _ => exact empty

end QueueRun

/-! ## Steps -/

namespace ServerRun

theorem queueInLoop_grows (s : ServerRun) (i : Nat) (cb : ServerFunctor) (loop : Nat) :
    s.pendingFunctors loop <+: (s.queueInLoop i cb).pendingFunctors loop := by
  by_cases here : loop = i
  · subst here
    exact ⟨[cb], (assign_same _ _ _).symm⟩
  · exact ⟨[], (List.append_nil _).trans (assign_other _ _ here).symm⟩

theorem runTask_grows {s t : ServerRun} {thread : Nat} {answer : Answer} {task : Task}
    (h : s.runTask thread answer task = some t) (loop : Nat) :
    s.pendingFunctors loop <+: t.pendingFunctors loop := by
  cases runTask_ran h with
  | performs _ performs =>
    exact ⟨[], (List.append_nil _).trans (congrFun performs.pendingFunctors loop).symm⟩
  | hands =>
    unfold runInLoop
    split
    · exact List.prefix_refl _
    · exact queueInLoop_grows _ _ _ loop
  | erases => exact queueInLoop_grows _ _ _ loop
  | removes | destroyed | destroys => exact List.prefix_refl _

theorem queues_nothing {s t : ServerRun} {l : ServerAct} {loop : Nat}
    (same : t.pendingFunctors loop = s.pendingFunctors loop)
    (quiet : s.callbackFunctors l = (0, [])) : s.queues l t loop = [] := by
  unfold queues
  rw [same, quiet, List.drop_length]
  split <;> rfl

theorem callbackFunctors_ofServer (s : ServerRun) (l : ServerAct) :
    (s.callbackFunctors l).2.filterMap QueuedFunctor.ofServer = [] := by
  have bound (answer : Answer) (task : Task) :
      (s.taskFunctors answer task).2.filterMap QueuedFunctor.ofServer = [] := by
    unfold taskFunctors
    split
    · rw [List.filterMap_eq_nil_iff]
      intro cb mem
      obtain ⟨effect, _, bound⟩ := List.mem_filterMap.mp mem
      cases effect <;> cases bound <;> rfl
    · rfl
  unfold callbackFunctors
  split
  · split
    · exact bound _ _
    · rfl
  · rfl

/-- The server's functors of what a step queues are those that its queue gets. -/
theorem queues_ofServer {s t : ServerRun} {l : ServerAct} {loop : Nat}
    (grows : s.pendingFunctors loop <+: t.pendingFunctors loop) :
    t.pendingFunctors loop =
      s.pendingFunctors loop ++ (s.queues l t loop).filterMap QueuedFunctor.ofServer := by
  obtain ⟨more, grown⟩ := grows
  have server : (more.map QueuedFunctor.server).filterMap QueuedFunctor.ofServer = more := by
    rw [List.filterMap_map]
    exact List.filterMap_some
  have callbacks : (if (s.callbackFunctors l).1 = loop then (s.callbackFunctors l).2
      else []).filterMap QueuedFunctor.ofServer = [] := by
    split
    · exact s.callbackFunctors_ofServer l
    · rfl
  unfold queues
  rw [← grown, List.drop_left, List.filterMap_append, server, callbacks, List.append_nil]

end ServerRun

namespace QueueRun

/-- A step of the server leaves the loop's round alone and queues with it. -/
theorem queues_turn {q r : QueueRun} {l : ServerAct} {loop : Nat}
    (same : q.SameTurn r loop (.server l))
    (pending : r.pendingFunctors loop =
      q.pendingFunctors loop ++ (q.run.queues l r.run loop).map fun cb => ⟨l.thread, cb⟩)
    (grows : q.run.pendingFunctors loop <+: r.run.pendingFunctors loop) :
    q.LoopTurn r loop (.server l) := by
  apply LoopTurn.queues same pending
  rw [List.filterMap_map]
  exact ServerRun.queues_ofServer grows

/-- The batch's next functor is the server's: it is the one that the server takes. -/
theorem Served.next {q : QueueRun} {loop : Nat} {cb : ServerFunctor} {rest : List ServerFunctor}
    (served : q.Served) (hf : q.run.frame loop = .batch (cb :: rest))
    (allowed : q.allows (.runFunctor loop) = true) :
    ∃ entry later, q.functors loop = entry :: later ∧ entry.ofServer = some cb ∧
      later.filterMap Posted.ofServer = rest := by
  have all := served.functors loop
  rw [hf] at all
  simp only [allows] at allowed
  cases batch : q.functors loop with
  | nil =>
    rw [batch] at all
    cases all
  | cons entry later =>
    rw [batch] at all allowed
    obtain ⟨own, mine⟩ := Option.isSome_iff_exists.mp allowed
    rw [List.filterMap_cons_some mine] at all
    obtain ⟨rfl, others⟩ := List.cons.inj all
    exact ⟨entry, later, rfl, mine, others⟩

theorem Served.done {q : QueueRun} {loop : Nat} (served : q.Served)
    (hf : q.run.frame loop = .batch []) (allowed : q.allows (.runFunctor loop) = true) :
    q.functors loop = [] := by
  have all := served.functors loop
  rw [hf] at all
  simp only [allows] at allowed
  cases batch : q.functors loop with
  | nil => rfl
  | cons entry later =>
    rw [batch] at all allowed
    obtain ⟨own, mine⟩ := Option.isSome_iff_exists.mp allowed
    rw [List.filterMap_cons_some mine] at all
    cases all

theorem queue_nothing {q : QueueRun} {t : ServerRun} {l : ServerAct} {loop : Nat}
    (same : t.pendingFunctors loop = q.run.pendingFunctors loop)
    (quiet : q.run.callbackFunctors l = (0, [])) :
    (q.queue l t).pendingFunctors loop = q.pendingFunctors loop := by
  simp only [queue, ServerRun.queues_nothing same quiet, List.map_nil, List.append_nil]

/-- The loop's frame is left alone, or replaced by one of the same round. -/
theorem SameTurn.of_frame {q r : QueueRun} {k loop : Nat} {l : QueueAct} (frame : LoopFrame)
    (functors : r.functors loop = q.functors loop) (now : r.run.frame = assign q.run.frame k frame)
    (same : loop = k → frame.functors = (q.run.frame k).functors ∧
      frame.collects = (q.run.frame k).collects)
    (takes : q.takes loop l = []) : q.SameTurn r loop l := by
  by_cases here : loop = k
  · obtain ⟨batch, collects⟩ := same here
    subst here
    exact ⟨functors, by rw [now, assign_same, batch], by rw [now, assign_same, collects], takes⟩
  · exact ⟨functors, by rw [now, assign_other _ _ here], by rw [now, assign_other _ _ here], takes⟩

theorem follow_turn {q : QueueRun} {t : ServerRun} {l : ServerAct} (served : q.Served)
    (allowed : q.allows l = true) (h : q.run.step l = some t) (loop : Nat) :
    q.LoopTurn (q.follow l t) loop (.server l) := by
  cases ServerRun.stepped h with
  | accept | send | sendNot | shutdown | shutdownNot | destroyServer =>
    exact queues_turn ⟨rfl, rfl, rfl, rfl⟩ rfl (List.prefix_refl _)
  | @poll k activeChannels hf _ _ =>
    refine queues_turn (.of_frame (k := k) (.dispatching activeChannels) rfl rfl (fun _ => ?_) rfl)
      rfl (List.prefix_refl _)
    rw [hf]
    exact ⟨rfl, rfl⟩
  | @visit k locked conn revents rest hf _ =>
    have next (t : ServerRun) :
        q.follow (.dispatch k locked) t = q.queue (.dispatch k locked) t := by
      simp only [follow, hf]
    rw [next]
    refine queues_turn (.of_frame (k := k) (.dispatching rest) rfl rfl (fun _ => ?_) rfl)
      rfl (List.prefix_refl _)
    rw [hf]
    exact ⟨rfl, rfl⟩
  | @swap k locked hf _ =>
    have next (t : ServerRun) : q.follow (.dispatch k locked) t = { q.swap k with run := t } := by
      simp only [follow, hf]
    rw [next]
    by_cases here : loop = k
    · subst here
      refine .swaps ?_ (assign_same _ _ _) (assign_same _ _ _) (assign_same _ _ _)
        (assign_same _ _ _) rfl
      rw [hf]
      rfl
    · have other {α : Type} (f : Nat → α) (a : α) : assign f k a loop = f loop :=
        assign_other _ _ here
      apply LoopTurn.idle
      · exact ⟨other _ _, congrArg _ (other _ _), congrArg _ (other _ _), rfl⟩
      · exact ⟨other _ _, other _ _⟩
  | @next k cb rest hf _ =>
    by_cases here : loop = k
    · subst here
      obtain ⟨entry, later, batch, mine, others⟩ := served.next hf allowed
      apply LoopTurn.takes batch
      · exact (assign_same _ _ _).trans (by rw [batch]; rfl)
      · exact (congrArg _ (assign_same _ _ _)).trans others.symm
      · rw [hf]
        rfl
      · exact congrArg LoopFrame.collects (assign_same _ _ _)
      · exact ⟨queue_nothing rfl rfl, rfl⟩
      · rw [QueueRun.takes, if_pos rfl, batch]
        rfl
    · have other {α : Type} (f : Nat → α) (a : α) : assign f k a loop = f loop :=
        assign_other _ _ here
      exact queues_turn ⟨other _ _, congrArg _ (other _ _), congrArg _ (other _ _),
        if_neg (Ne.symm here)⟩ rfl (List.prefix_refl _)
  | @batchEnd k hf _ =>
    by_cases here : loop = k
    · subst here
      have done := served.done hf allowed
      refine .polls done ?_ hf (assign_same _ _ _) ?_ ?_
      · exact (assign_same _ _ _).trans (by rw [done]; rfl)
      · exact ⟨queue_nothing rfl rfl, rfl⟩
      · rw [QueueRun.takes, if_pos rfl, done]
        rfl
    · have other {α : Type} (f : Nat → α) (a : α) : assign f k a loop = f loop :=
        assign_other _ _ here
      exact queues_turn ⟨other _ _, congrArg _ (other _ _), congrArg _ (other _ _),
        if_neg (Ne.symm here)⟩ rfl (List.prefix_refl _)
  | @task thread answer first rest _ _ _ ran =>
    have frame : t.frame = q.run.frame :=
      ServerRun.runTask_frame (s := q.run.setTodo thread rest) ran
    refine queues_turn ⟨rfl, ?_, ?_, rfl⟩ rfl
      (ServerRun.runTask_grows (s := q.run.setTodo thread rest) ran loop)
    · exact congrArg LoopFrame.functors (congrFun frame loop)
    · exact congrArg LoopFrame.collects (congrFun frame loop)

theorem step_turn {q r : QueueRun} {l : QueueAct} (served : q.Served) (h : q.step l = some r)
    (loop : Nat) : q.LoopTurn r loop l := by
  cases l with
  | server l =>
    simp only [step, Option.ite_none_right_eq_some, Bool.and_eq_true] at h
    obtain ⟨⟨_, allowed⟩, h⟩ := h
    obtain ⟨t, ran, rfl⟩ := Option.map_eq_some_iff.mp h
    exact follow_turn served allowed ran loop
  | queueInLoop thread i cb =>
    simp only [step, Option.ite_none_right_eq_some, Bool.and_eq_true, Option.some.injEq] at h
    obtain ⟨⟨_, may⟩, rfl⟩ := h
    by_cases here : loop = i
    · subst here
      refine .queues ⟨rfl, rfl, rfl, rfl⟩ (assign_same _ _ _) ?_
      cases cb with
      | server _ | writeCompleteCallback _ | highWaterMarkCallback _ _ => cases may
      | listen | user _ => exact (List.append_nil _).symm
    · exact .idle ⟨rfl, rfl, rfl, rfl⟩ ⟨assign_other _ _ here, rfl⟩
  | runFunctor i =>
    simp only [step] at h
    split at h
    · rename_i entry rest hf batch _
      simp only [Option.ite_none_right_eq_some, Bool.and_eq_true, Option.some.injEq] at h
      obtain ⟨⟨_, free⟩, rfl⟩ := h
      by_cases here : loop = i
      · subst here
        have all := served.functors loop
        rw [batch, List.filterMap_cons_none (Option.isNone_iff_eq_none.mp free)] at all
        refine .takes batch (assign_same _ _ _) all.symm ?_ ?_ ⟨rfl, rfl⟩ ?_
        · rw [hf]
          rfl
        · exact congrArg LoopFrame.collects hf
        · rw [QueueRun.takes, if_pos rfl, batch]
          rfl
      · exact .idle ⟨assign_other _ _ here, rfl, rfl, if_neg (Ne.symm here)⟩ ⟨rfl, rfl⟩
    · cases h
  | setHighWaterMarkCallback thread conn mark =>
    simp only [step, Option.ite_none_right_eq_some, Option.some.injEq] at h
    obtain ⟨_, rfl⟩ := h
    exact .idle ⟨rfl, rfl, rfl, rfl⟩ ⟨rfl, rfl⟩

/-- What the server queues of its own is in the loops' queues and batches, in its order. -/
theorem reachable_served {q : QueueRun} (h : machine.Reachable q) : q.Served :=
  h.invariant (fun _ => start_served) fun _ _ _ served hs => served.step (step_turn served hs)

/-- A server that tells the user when everything is written. -/
def newborn : QueueRun where
  run := { ServerRun.newborn with
    server := ServerRun.newborn.server.map ({ · with writeCompleteCallback := true }) }
  threads := 3
  pendingFunctors := fun _ => []
  functors := fun _ => []
  taken := fun _ => none

theorem newborn_start : newborn.Start :=
  ⟨⟨⟨_, rfl, rfl⟩, rfl, fun _ => rfl, fun _ => rfl, fun _ => rfl, fun _ => rfl, fun _ => rfl⟩,
    fun _ => rfl, fun _ => rfl, fun _ => rfl⟩

def emptyMessage : Message := Message.ofList [] (by decide)

end QueueRun
end Kenmuduo
