import Kenmuduo.LoopQueue
import Kenmuduo.Potential

/-!
# How much work an event leads to

Tasks make tasks: a close asks the server to remove the connection, the server
has the loop destroy it, a write has the loop call the user back. What waits in a
server, its loops' whole queues included, is weighed by all that it can still lead
to, so that a step does no more than it takes away.
-/

namespace Kenmuduo
open Transition

/-- A functor's call and all that it can lead to. -/
def ServerFunctor.weight : ServerFunctor → Nat
  | removeConnectionInLoop _ => 3
  | sendInLoop _ _ => 2
  | connectEstablished _ | connectionDestroyed _ | shutdownInLoop _ => 1

/-- In a queue or a batch, a functor is still to be taken from there. -/
def ServerFunctor.queuedWeight (cb : ServerFunctor) : Nat := cb.weight + 1

def Task.weight : Task → Nat
  | functor cb => cb.weight
  | runInLoop _ cb => cb.weight + 2
  | handleClose _ | handleRead _ => 7
  | handleWrite _ => 2
  | handleError _ | setDisconnecting _ => 1
  | removeConnection _ => 6
  | destroyServer conns => 4 * conns.length + 1

/-- An active channel: its visit and what `handleEventWithGuard` can call. -/
def activeWeight : Nat := 18

def LoopFrame.weight : LoopFrame → Nat
  | polling => 0
  | dispatching activeChannels => activeWeight * activeChannels.length
  | batch functors => (functors.map ServerFunctor.queuedWeight).sum

/-- What a step brings in from outside. -/
def ServerAct.pays : ServerAct → Nat
  | newConnection _ => 3
  | poll _ activeChannels => activeWeight * activeChannels.length
  | send _ _ _ | shutdown _ _ => 4
  | destroyServer _ conns => 4 * conns.length + 1
  | dispatch _ _ | runFunctor _ | task _ _ => 0

namespace ServerRun

/-- A channel is visited, a functor is taken from the batch, or a task is run. -/
def works (s : ServerRun) : ServerAct → Nat
  | .dispatch loop _ => min 1 (s.frame loop).activeChannels.length
  | .runFunctor loop => min 1 (s.frame loop).functors.length
  | .task _ _ => 1
  | .newConnection _ | .poll _ _ | .send _ _ _ | .shutdown _ _ | .destroyServer _ _ => 0

/-- What waits for the first `n` threads and can still wait because of it. -/
def workload (s : ServerRun) (n : Nat) : Nat :=
  weighs Task.weight s.todo n + weighs ServerFunctor.queuedWeight s.pendingFunctors n +
    total (fun loop => (s.frame loop).weight) n

theorem handleEvent_weight (conn : Nat) (revents : Mask) :
    ((handleEvent conn revents).map Task.weight).sum < activeWeight := by
  unfold handleEvent
  simp only [List.map_append, List.sum_append]
  split <;> split <;> split <;> split <;> simp [Task.weight, activeWeight]

end ServerRun

namespace TcpConnection

/-- A `sendInLoop` queues one functor at most: what it leaves over was not written whole. -/
theorem sendInLoop_functors {c c' : TcpConnection} {conn : Nat} {data : Message} {w : WriteResult}
    {effects : List Effect} (h : c.sendInLoop data w = .ok (c', effects)) :
    (effects.filterMap (Effect.functor conn)).length ≤ 1 := by
  have first : ((c.directWrite data w).effects.filterMap (Effect.functor conn)).length ≤ 1 ∧
      (0 < (c.directWrite data w).remaining →
        (c.directWrite data w).effects.filterMap (Effect.functor conn) = []) := by
    unfold directWrite
    split
    · cases w with
      | accepted k =>
        dsimp only
        split
        · rename_i complete
          simp only [Bool.and_eq_true, beq_iff_eq] at complete
          exact ⟨Nat.le_refl 1, fun more => absurd complete.1 (Nat.ne_of_gt more)⟩
        · exact ⟨Nat.zero_le 1, fun _ => rfl⟩
      | failed errno => exact ⟨Nat.zero_le 1, fun _ => rfl⟩
    · exact ⟨Nat.zero_le 1, fun _ => rfl⟩
  have water : ((c.highWaterEffects (c.directWrite data w).remaining).filterMap
      (Effect.functor conn)).length ≤ 1 := by
    simp only [highWaterEffects]
    split
    · exact Nat.le_refl 1
    · exact Nat.zero_le 1
  rcases sendInLoop_cases h with ⟨_, _, rfl⟩ | ⟨_, _, _, rfl⟩ | ⟨_, _, more, _, _, _, _, _, rfl⟩
  · exact Nat.zero_le 1
  · exact first.1
  · rw [List.filterMap_append, List.filterMap_append, first.2 more]
    rw [List.nil_append, List.length_append]
    exact water

theorem handleWrite_functors {c c' : TcpConnection} {conn : Nat} {w : WriteResult}
    {effects : List Effect} (h : c.handleWrite w = .ok (c', effects)) :
    (effects.filterMap (Effect.functor conn)).length ≤ 1 := by
  unfold handleWrite at h
  split at h
  · obtain ⟨write, _, h⟩ := bind_ok_iff.mp h
    split at h
    · dsimp only at h
      split at h
      · cases h
        have half (c : TcpConnection) :
            c.shutdownInLoop.filterMap (Effect.functor conn) = [] := by
          unfold shutdownInLoop
          split <;> rfl
        rw [List.filterMap_cons_none rfl, List.filterMap_append, List.length_append]
        split
        · split
          · rw [half]
            exact Nat.le_refl 1
          · exact Nat.le_refl 1
        · split
          · rw [half]
            exact Nat.zero_le 1
          · exact Nat.zero_le 1
      · cases h
        exact Nat.zero_le 1
    · cases h
      exact Nat.zero_le 1
  · cases h
    exact Nat.zero_le 1

end TcpConnection

namespace ServerRun

/-! ## Steps -/

theorem setTodo_workload (s : ServerRun) {thread n : Nat} (tasks : List Task)
    (bound : thread < n) :
    (s.setTodo thread tasks).workload n + ((s.todo thread).map Task.weight).sum =
      s.workload n + (tasks.map Task.weight).sum := by
  have change : weighs Task.weight (s.setTodo thread tasks).todo n +
      ((s.todo thread).map Task.weight).sum = weighs Task.weight s.todo n +
        (((s.setTodo thread tasks).todo thread).map Task.weight).sum := by
    apply weighs_change bound
    intro j other
    exact assign_other _ _ other
  have now : (s.setTodo thread tasks).todo thread = tasks := assign_same _ _ _
  rw [now] at change
  have parts : (s.setTodo thread tasks).workload n =
      weighs Task.weight (s.setTodo thread tasks).todo n +
        weighs ServerFunctor.queuedWeight s.pendingFunctors n +
          total (fun loop => (s.frame loop).weight) n := rfl
  rw [parts, workload]
  omega

/-- The thread gets tasks on top of its own. -/
theorem call_workload (s : ServerRun) {thread n : Nat} (tasks : List Task) (bound : thread < n) :
    (s.call thread tasks).workload n = s.workload n + (tasks.map Task.weight).sum := by
  have change := s.setTodo_workload (tasks ++ s.todo thread) bound
  rw [List.map_append, List.sum_append] at change
  unfold call
  omega

/-- The thread takes up its next task. -/
theorem takes_workload {s : ServerRun} {thread n : Nat} {task : Task} {rest : List Task}
    (bound : thread < n) (next : s.todo thread = task :: rest) :
    (s.setTodo thread rest).workload n + task.weight = s.workload n := by
  have change := s.setTodo_workload rest bound
  rw [next, List.map_cons, List.sum_cons] at change
  omega

theorem setPending_workload (s : ServerRun) {loop n : Nat} (functors : List ServerFunctor)
    (bound : loop < n) :
    (s.setPending loop functors).workload n +
        ((s.pendingFunctors loop).map ServerFunctor.queuedWeight).sum =
      s.workload n + (functors.map ServerFunctor.queuedWeight).sum := by
  have change : weighs ServerFunctor.queuedWeight (s.setPending loop functors).pendingFunctors n +
      ((s.pendingFunctors loop).map ServerFunctor.queuedWeight).sum =
        weighs ServerFunctor.queuedWeight s.pendingFunctors n +
          (((s.setPending loop functors).pendingFunctors loop).map
            ServerFunctor.queuedWeight).sum := by
    apply weighs_change bound
    intro j other
    exact assign_other _ _ other
  have now : (s.setPending loop functors).pendingFunctors loop = functors := assign_same _ _ _
  rw [now] at change
  have parts : (s.setPending loop functors).workload n = weighs Task.weight s.todo n +
      weighs ServerFunctor.queuedWeight (s.setPending loop functors).pendingFunctors n +
        total (fun loop => (s.frame loop).weight) n := rfl
  rw [parts, workload]
  omega

theorem queueInLoop_workload (s : ServerRun) (loop n : Nat) (cb : ServerFunctor) :
    (s.queueInLoop loop cb).workload n ≤ s.workload n + cb.queuedWeight := by
  have push : weighs ServerFunctor.queuedWeight (s.queueInLoop loop cb).pendingFunctors n ≤
      weighs ServerFunctor.queuedWeight s.pendingFunctors n + cb.queuedWeight := by
    apply weighs_push n (i := loop)
    · intro j other
      exact assign_other _ _ other
    · exact assign_same _ _ _
  unfold workload
  change weighs Task.weight s.todo n + _ + total (fun loop => (s.frame loop).weight) n ≤ _
  omega

theorem runInLoop_workload (s : ServerRun) {thread n : Nat} (loop : Nat) (cb : ServerFunctor)
    (bound : thread < n) :
    (s.runInLoop thread loop cb).workload n < s.workload n + cb.weight + 2 := by
  unfold runInLoop
  split
  · rw [s.call_workload _ bound]
    simp only [List.map_cons, List.map_nil, List.sum_cons, List.sum_nil, Task.weight]
    omega
  · have queued := s.queueInLoop_workload loop n cb
    rw [ServerFunctor.queuedWeight] at queued
    omega

/-- A function of a connection leaves the close callback to be called, or nothing. -/
theorem Performs.workload {s t : ServerRun} {thread conn n : Nat} {c : TcpConnection}
    {effects : List Effect} (h : s.Performs t thread conn c effects) (bound : thread < n) :
    t.workload n = s.workload n + if effects.contains .closeCallback then 6 else 0 := by
  have same : t.workload n = (s.call thread
      (if effects.contains .closeCallback then [.removeConnection conn] else [])).workload n := by
    unfold ServerRun.workload
    rw [h.todo, h.pendingFunctors, h.frame]
    rfl
  rw [same, s.call_workload _ bound]
  split <;> rfl

/-- A function queues functors with user's callbacks, or leaves the close callback, for
less than its task weighs. -/
theorem result_weight {s : ServerRun} {answer : Answer} {task : Task} {conn : Nat}
    {c : TcpConnection} {effects : List Effect}
    (hr : s.result answer task = some (conn, .ok (c, effects))) :
    (effects.filterMap (Effect.functor conn)).length +
      (if effects.contains .closeCallback then 6 else 0) < task.weight := by
  have internal (quiet : effects.all Effect.internal = true) :
      effects.contains .closeCallback = false := by
    rw [← Bool.not_eq_true]
    intro closes
    exact TcpConnection.not_mem_of_internal quiet rfl (List.contains_iff_mem.mp closes)
  cases task with
  | functor cb =>
    cases cb with
    | connectEstablished k =>
      obtain ⟨rfl, ran⟩ := Prod.mk.inj (Option.some.inj hr)
      obtain ⟨_, rfl⟩ := TcpConnection.connectEstablished_ok ran
      exact Nat.zero_lt_one
    | connectionDestroyed k =>
      obtain ⟨rfl, ran⟩ := Prod.mk.inj (Option.some.inj hr)
      obtain ⟨_, _, rfl⟩ | ⟨_, _, rfl⟩ := TcpConnection.connectionDestroyed_ok ran
      · exact Nat.zero_lt_one
      · exact Nat.zero_lt_one
    | removeConnectionInLoop k => cases hr
    | sendInLoop k data =>
      obtain ⟨rfl, ran⟩ := Prod.mk.inj (Option.some.inj hr)
      rw [internal (TcpConnection.sendInLoop_internal ran).2.2]
      exact Nat.lt_succ_of_le (TcpConnection.sendInLoop_functors ran)
    | shutdownInLoop k =>
      cases hr
      rw [internal (TcpConnection.shutdownInLoop_internal _)]
      unfold TcpConnection.shutdownInLoop
      split <;> exact Nat.zero_lt_one
  | handleClose k =>
    obtain ⟨rfl, ran⟩ := Prod.mk.inj (Option.some.inj hr)
    rw [(TcpConnection.handleClose_ok ran).2]
    exact Nat.lt_succ_self 6
  | handleError k =>
    cases hr
    exact Nat.zero_lt_one
  | handleRead k =>
    obtain ⟨rfl, ran⟩ := Prod.mk.inj (Option.some.inj hr)
    obtain ⟨_, ⟨_, rfl | rfl⟩ | ⟨_, rfl⟩⟩ := TcpConnection.handleRead_ok ran
    · exact Nat.zero_lt_succ 6
    · exact Nat.zero_lt_succ 6
    · exact Nat.lt_succ_self 6
  | handleWrite k =>
    obtain ⟨rfl, ran⟩ := Prod.mk.inj (Option.some.inj hr)
    rw [internal (TcpConnection.handleWrite_internal ran).2.2]
    exact Nat.lt_succ_of_le (TcpConnection.handleWrite_functors ran)
  | setDisconnecting k =>
    cases hr
    exact Nat.zero_lt_one
  | runInLoop _ _ | removeConnection _ | destroyServer _ => cases hr

/-- A task leads to less than its weight. -/
theorem runTask_workload {s t : ServerRun} {thread n : Nat} {answer : Answer} {task : Task}
    (bound : thread < n) (h : s.runTask thread answer task = some t) :
    t.workload n + (s.taskFunctors answer task).2.length < s.workload n + task.weight := by
  cases runTask_ran h with
  | performs hr performs =>
    have less := result_weight hr
    simp only [taskFunctors, hr, performs.workload bound]
    omega
  | @hands loop cb =>
    have ran := s.runInLoop_workload loop cb bound
    simp only [taskFunctors, result, List.length_nil, Task.weight]
    omega
  | @erases server conn =>
    exact Nat.lt_succ_of_le (queueInLoop_workload
      { s with server := some (server.erase (s.conn conn).name) } (s.conn conn).loop n
      (.connectionDestroyed conn))
  | removes =>
    rw [s.call_workload _ bound]
    exact Nat.lt_succ_self _
  | destroyed => exact Nat.lt_succ_self _
  | destroys =>
    rw [s.call_workload _ bound]
    simp [taskFunctors, result, Task.weight, ServerFunctor.weight]
    omega

/-- A loop's frame changes. -/
theorem setFrame_workload (s : ServerRun) {loop n : Nat} (frame : LoopFrame) (bound : loop < n) :
    (s.setFrame loop frame).workload n + (s.frame loop).weight = s.workload n + frame.weight := by
  have change := total_change (f := fun i => (s.frame i).weight)
    (g := fun i => ((s.setFrame loop frame).frame i).weight) bound fun j other =>
      congrArg LoopFrame.weight (assign_other _ _ other)
  have now : (s.setFrame loop frame).frame loop = frame := assign_same _ _ _
  simp only [now] at change
  unfold workload
  change weighs Task.weight s.todo n + weighs ServerFunctor.queuedWeight s.pendingFunctors n + _ +
    _ = _
  omega

/-- A step does no more than it takes away from what waits, or brings in, the functors
with a user's callback that it queues included. -/
theorem step_workload {s t : ServerRun} {l : ServerAct} {n : Nat} (h : s.step l = some t)
    (bound : l.thread < n) :
    s.works l + t.workload n + (s.callbackFunctors l).2.length ≤ s.workload n + l.pays := by
  cases stepped h with
  | @accept server _ sockfd _ _ _ =>
    have same := call_workload
      { s.setConn s.accepted (server.newConnection s.accepted sockfd).1 with
        server := some (server.newConnection s.accepted sockfd).2
        accepted := s.accepted + 1 } [.runInLoop (server.newConnection s.accepted sockfd).1.loop
          (.connectEstablished s.accepted)] bound
    exact Nat.le_of_eq ((Nat.zero_add _).trans same)
  | @poll loop activeChannels hf _ _ =>
    have bound : loop < n := bound
    have change := s.setFrame_workload (.dispatching activeChannels) bound
    rw [hf] at change
    simp only [works, ServerAct.pays, LoopFrame.weight, callbackFunctors,
      List.length_nil] at change ⊢
    omega
  | @visit loop locked conn revents rest hf ht =>
    have bound : loop < n := bound
    have change := s.setFrame_workload (.dispatching rest) bound
    have idle : (s.setFrame loop (.dispatching rest)).todo loop = [] := ht
    have events : ((if locked then handleEvent conn revents else []).map Task.weight).sum <
        activeWeight := by
      split
      · exact handleEvent_weight conn revents
      · decide
    rw [setTodo_call idle, call_workload _ _ bound]
    rw [hf] at change
    simp only [works, hf, LoopFrame.activeChannels, LoopFrame.weight, List.length_cons,
      ServerAct.pays, Nat.mul_succ, callbackFunctors, List.length_nil] at change ⊢
    omega
  | @swap loop locked hf ht =>
    have bound : loop < n := bound
    have change := s.setFrame_workload (.batch (s.pendingFunctors loop)) bound
    have emptied := (s.setFrame loop (.batch (s.pendingFunctors loop))).setPending_workload [] bound
    have same : (s.setFrame loop (.batch (s.pendingFunctors loop))).pendingFunctors =
      s.pendingFunctors := rfl
    rw [hf] at change
    simp only [works, hf, LoopFrame.activeChannels, LoopFrame.weight, List.length_nil, same,
      List.map_nil, List.sum_nil, ServerAct.pays, callbackFunctors] at change emptied ⊢
    omega
  | @next loop cb rest hf ht =>
    have bound : loop < n := bound
    have change := s.setFrame_workload (.batch rest) bound
    have idle : (s.setFrame loop (.batch rest)).todo loop = [] := ht
    rw [setTodo_call idle, call_workload _ _ bound]
    rw [hf] at change
    simp only [works, hf, LoopFrame.functors, LoopFrame.weight, List.length_cons, List.map_cons,
      List.sum_cons, List.map_nil, List.sum_nil, Task.weight, ServerFunctor.queuedWeight,
      ServerAct.pays, callbackFunctors, List.length_nil] at change ⊢
    omega
  | @batchEnd loop hf ht =>
    have bound : loop < n := bound
    have change := s.setFrame_workload .polling bound
    rw [hf] at change
    simp only [works, hf, LoopFrame.functors, List.length_nil, Nat.min_zero]
    exact Nat.le_of_eq ((Nat.zero_add _).trans change)
  | @task thread answer task rest _ next possible ran =>
    have bound : thread < n := bound
    have taken := takes_workload (n := n) bound next
    have left := runTask_workload bound ran
    have same : (s.setTodo thread rest).taskFunctors answer task = s.taskFunctors answer task := rfl
    rw [same] at left
    simp only [works, ServerAct.pays, callbackFunctors, next]
    omega
  | send _ _ _ | shutdown _ _ _ | destroyServer _ _ _ =>
    exact Nat.le_of_eq ((Nat.zero_add _).trans (s.call_workload _ bound))
  | sendNot _ _ _ | shutdownNot _ _ _ =>
    simp only [works, callbackFunctors, List.length_nil]
    omega

end ServerRun

/-! ## Runs -/

/-- How many of the entries are not the server's functors. -/
def others (entries : List Posted) : Nat := entries.countP fun entry => entry.ofServer.isNone

/-- What a step of the server or the user brings in. -/
def QueueAct.pays : QueueAct → Nat
  | server l => l.pays
  | queueInLoop _ _ _ => 1
  | runFunctor _ | setHighWaterMarkCallback _ _ _ => 0

namespace QueueRun

def works (q : QueueRun) : QueueAct → Nat
  | .server l => q.run.works l
  | .runFunctor _ => 1
  | .queueInLoop _ _ _ | .setHighWaterMarkCallback _ _ _ => 0

/-- What waits for the server's threads: its own work, and the other functors in the
queues and batches of their loops. -/
def workload (q : QueueRun) : Nat :=
  q.run.workload q.threads +
    total (fun loop => others (q.pendingFunctors loop) + others (q.functors loop)) q.threads

theorem others_append (entries more : List Posted) :
    others (entries ++ more) = others entries + others more := List.countP_append

theorem others_cons (entry : Posted) (rest : List Posted) :
    others rest ≤ others (entry :: rest) ∧
      (entry.ofServer.isNone = true → others (entry :: rest) = others rest + 1) := by
  unfold others
  constructor
  · rw [List.countP_cons]
    exact Nat.le_add_right _ _
  · exact fun free => List.countP_cons_of_pos free

/-- Of what a step queues, only the functors with a user's callback are not the server's. -/
theorem others_queue (q : QueueRun) (l : ServerAct) (t : ServerRun) (loop : Nat) :
    others ((q.queue l t).pendingFunctors loop) = others (q.pendingFunctors loop) +
      if (q.run.callbackFunctors l).1 = loop then (q.run.callbackFunctors l).2.length else 0 := by
  have mine (functors : List ServerFunctor) :
      others ((functors.map QueuedFunctor.server).map fun cb => ⟨l.thread, cb⟩) = 0 := by
    rw [others, List.countP_map, List.countP_map]
    exact List.countP_eq_zero.mpr fun _ _ => Bool.noConfusion
  have theirs : others ((q.run.callbackFunctors l).2.map fun cb => ⟨l.thread, cb⟩) =
      (q.run.callbackFunctors l).2.length := by
    have free := List.filterMap_eq_nil_iff.mp (q.run.callbackFunctors_ofServer l)
    rw [others, List.countP_map]
    exact List.countP_eq_length.mpr fun cb mem => Option.isNone_iff_eq_none.mpr (free cb mem)
  simp only [queue, ServerRun.queues, others_append, List.map_append, mine, Nat.zero_add]
  split
  · rw [theirs]
  · rfl

/-- A step of the server queues no more others than functors with a user's callback. -/
theorem follow_others {q : QueueRun} {l : ServerAct} {t : ServerRun} (n : Nat) :
    total (fun i => others ((q.follow l t).pendingFunctors i) + others ((q.follow l t).functors i))
        n ≤
      total (fun i => others (q.pendingFunctors i) + others (q.functors i)) n +
        (q.run.callbackFunctors l).2.length := by
  have queued (i : Nat) (other : i ≠ (q.run.callbackFunctors l).1) :
      others ((q.queue l t).pendingFunctors i) = others (q.pendingFunctors i) := by
    rw [others_queue, if_neg (Ne.symm other), Nat.add_zero]
  have grows : others ((q.queue l t).pendingFunctors (q.run.callbackFunctors l).1) =
      others (q.pendingFunctors (q.run.callbackFunctors l).1) +
        (q.run.callbackFunctors l).2.length := by
    rw [others_queue, if_pos rfl]
  have queue : total (fun i => others ((q.queue l t).pendingFunctors i) + others (q.functors i)) n ≤
      total (fun i => others (q.pendingFunctors i) + others (q.functors i)) n +
        (q.run.callbackFunctors l).2.length := by
    apply total_grows n (i := (q.run.callbackFunctors l).1)
    · intro i other
      rw [queued i other]
    · rw [grows]
      omega
  cases l with
  | newConnection | poll | send | shutdown | destroyServer | task => exact queue
  | dispatch loop locked =>
    have quiet : (q.run.callbackFunctors (.dispatch loop locked)).2.length = 0 := rfl
    simp only [follow]
    split
    · apply total_grows n (i := loop)
      · intro i other
        simp only [swap, assign_other _ _ other]
      · simp only [swap, assign_same]
        have none : others [] = 0 := rfl
        omega
    · exact queue
  | runFunctor loop =>
    apply Nat.le_trans ?_ queue
    apply total_grows n (i := loop) (k := 0)
    · intro i other
      simp only [follow, assign_other _ _ other]
    · simp only [follow, assign_same]
      cases q.functors loop with
      | nil => exact Nat.le_refl _
      | cons entry rest => exact Nat.add_le_add_left (others_cons entry rest).1 _

theorem step_workload {q r : QueueRun} {l : QueueAct} (h : q.step l = some r) :
    q.works l + r.workload ≤ q.workload + l.pays := by
  cases l with
  | server l =>
    simp only [step, Option.ite_none_right_eq_some, Bool.and_eq_true, decide_eq_true_eq] at h
    obtain ⟨⟨bound, _⟩, h⟩ := h
    obtain ⟨t, ran, rfl⟩ := Option.map_eq_some_iff.mp h
    obtain ⟨run, threads⟩ := q.follow_run l t
    have own := ServerRun.step_workload ran bound
    have rest := q.follow_others (l := l) (t := t) q.threads
    simp only [workload, works, QueueAct.pays, run, threads]
    omega
  | queueInLoop thread loop cb =>
    simp only [step, Option.ite_none_right_eq_some, Option.some.injEq] at h
    obtain ⟨_, rfl⟩ := h
    have one : others [⟨thread, cb⟩] ≤ 1 := List.countP_le_length
    have grows : total (fun i => others (assign q.pendingFunctors loop
          (q.pendingFunctors loop ++ [⟨thread, cb⟩]) i) + others (q.functors i)) q.threads ≤
        total (fun i => others (q.pendingFunctors i) + others (q.functors i)) q.threads + 1 := by
      apply total_grows _ (i := loop)
      · intro i other
        simp only [assign_other _ _ other]
      · simp only [assign_same, others_append]
        omega
    simp only [workload, works, QueueAct.pays]
    omega
  | runFunctor loop =>
    simp only [step] at h
    split at h
    · rename_i entry rest _ batch _
      simp only [Option.ite_none_right_eq_some, Bool.and_eq_true, decide_eq_true_eq,
        Option.some.injEq] at h
      obtain ⟨⟨bound, free⟩, rfl⟩ := h
      have less := (others_cons entry rest).2 free
      have change := total_change
        (f := fun i => others (q.pendingFunctors i) + others (q.functors i))
        (g := fun i => others (q.pendingFunctors i) + others (assign q.functors loop rest i)) bound
        fun i other => by simp only [assign_other _ _ other]
      simp only [assign_same, batch, less] at change
      simp only [workload, works, QueueAct.pays]
      omega
    · cases h
  | setHighWaterMarkCallback thread conn mark =>
    simp only [step, Option.ite_none_right_eq_some, Option.some.injEq] at h
    obtain ⟨_, rfl⟩ := h
    exact Nat.le_of_eq (Nat.zero_add _)

/-- In every run the channels visited, functors taken and tasks run, with all that
still waits, are paid for by what waited at first and by the accepts, the events
reported and the user's calls; without those a run comes to an end of its work. -/
theorem work_bounded {q r : QueueRun} {ls : List QueueAct} (h : machine.exec q ls = some r) :
    machine.spent works q ls + r.workload ≤
      q.workload + machine.spent (fun _ l => l.pays) q ls := by
  have steps : machine.Steps (fun _ _ => True) q ls := .of_forall (fun _ _ _ => trivial) q
  apply steps.spent_le (I := fun _ => True) ?_ ?_ trivial h
  · intro _ _ _ _ _ _
    trivial
  · intro q l r _ hs _
    exact step_workload hs

/-- A connection is accepted and established, and thread 2 sends nothing, so that the io
loop queues a write-complete functor and calls it in its next round. -/
def completed : List QueueAct :=
  (ServerRun.closing.take 8).map .server ++
    [.server (.send 2 0 emptyMessage), .server (.task 2 ServerRun.eof),
      .server (.poll 1 []), .server (.dispatch 1 true), .server (.runFunctor 1),
      .server (.task 1 ServerRun.eof), .server (.runFunctor 1),
      .server (.poll 1 []), .server (.dispatch 1 true), .runFunctor 1]

/-- All that the accept and the send pay for is done. -/
theorem work_bounded_completed : ∃ r, machine.exec newborn completed = some r ∧
    machine.spent works newborn completed = 7 ∧
    machine.spent works newborn completed + r.workload ≤
      newborn.workload + machine.spent (fun _ l => l.pays) newborn completed := by
  have run : (machine.exec newborn completed).isSome = true := by decide +kernel
  obtain ⟨r, hr⟩ := Option.isSome_iff_exists.mp run
  exact ⟨r, hr, by decide +kernel, work_bounded hr⟩

end QueueRun

end Kenmuduo
