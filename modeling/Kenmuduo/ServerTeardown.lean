import Kenmuduo.Confinement

/-!
# After ~TcpServer

A server that is destroyed on the thread of its base loop, which runs on. The
destructors of its members end the io loops and join their threads. What may
still call the server then is with the base loop: what its thread is in the
middle of, the functors queued with it, and the connections it closes later.
-/

namespace Kenmuduo
open Transition

/-- A server whose io loops end with it. -/
structure TeardownRun where
  run : ServerRun
  /-- The io loop has returned and its thread is joined. -/
  exited : Nat → Bool

inductive TeardownAct
  | server (l : ServerAct)
  /-- `~EventLoopThread` of the io loop. -/
  | exit (loop : Nat)

/-- A function of the server that removes a connection, or a task that leads to
one. -/
def Task.removes : Task → Bool
  | removeConnection _ | functor (.removeConnectionInLoop _)
  | runInLoop _ (.removeConnectionInLoop _) => true
  | _ => false

/-- `removeConnection` or `removeConnectionInLoop` is about to start. -/
def Task.startsRemoval : Task → Bool
  | removeConnection _ | functor (.removeConnectionInLoop _) => true
  | _ => false

/-- The task calls `closeCallback_`. -/
def Task.callsClose (answer : Answer) : Task → Bool
  | handleClose _ => true
  | handleRead _ => answer.ends
  | _ => false

namespace TeardownRun

/-- All threads of the pool are joined. -/
def joined (p : TeardownRun) : Bool :=
  match p.run.server with
  | some server => (List.range server.numLoops).all fun i => p.exited (i + 1)
  | none => true

/-- The server is destroyed on the base loop's thread, which waits for the others. -/
def mayStep (p : TeardownRun) : ServerAct → Bool
  | .destroyServer thread _ => thread == 0
  | .task thread _ => (p.run.todo thread).head?.all fun task => !task.ending || p.joined
  | _ => true

def mayExit (p : TeardownRun) (loop : Nat) : Bool :=
  match p.run.server, p.run.frame loop, p.run.todo loop with
  | some server, .polling, [] =>
    0 < loop && loop ≤ server.numLoops && (p.run.todo 0).head?.any Task.ending
  | _, _, _ => false

def step (p : TeardownRun) : TeardownAct → Option TeardownRun
  | .server l =>
    if !p.exited l.thread && p.mayStep l then
      (p.run.step l).map fun run => { p with run := run }
    else none
  | .exit loop =>
    if p.mayExit loop then some { p with exited := assign p.exited loop true } else none

/-- A server before its first connection, with the thread pool as constructed. -/
structure Start (p : TeardownRun) : Prop where
  run : p.run.Start
  next : ∀ server, p.run.server = some server → server.next = 0
  exited : ∀ loop, p.exited loop = false

def machine : Machine TeardownRun TeardownAct := ⟨Start, step⟩

/-- Once the server is destroyed, no thread starts a removal. -/
def NoneStarts (p : TeardownRun) : Prop :=
  p.run.server = none → ∀ thread, ∀ task ∈ (p.run.todo thread).head?, task.startsRemoval = false

/-- No removal waits on the base loop's thread, in its queue or in its batch. -/
def baseClear (s : ServerRun) : Bool :=
  (s.todo 0 ++ s.work [] (.pending 0) ++ s.work [] (.frame 0)).all fun task => !task.removes

/-- When the destructor completes, the base loop has no removal waiting; later
no connection is closed. -/
def Cleared (p : TeardownRun) : TeardownAct → Prop
  | .server (.task thread answer) => ∀ task ∈ (p.run.todo thread).head?,
      (task.ending = true → baseClear (p.run.setTodo thread (p.run.todo thread).tail) = true) ∧
      (p.run.server = none → task.callsClose answer = false)
  | _ => True

instance (p : TeardownRun) : ∀ l, Decidable (p.Cleared l)
  | .server (.task thread answer) => inferInstanceAs (Decidable (∀ task ∈ (p.run.todo thread).head?,
      (task.ending = true → baseClear (p.run.setTodo thread (p.run.todo thread).tail) = true) ∧
      (p.run.server = none → task.callsClose answer = false)))
  | .server (.newConnection _) | .server (.poll _ _) | .server (.dispatch _ _)
  | .server (.runFunctor _) | .server (.send _ _ _) | .server (.shutdown _ _)
  | .server (.destroyServer _ _) | .exit _ => isTrue trivial

/-- What holds in every run. -/
structure Kept (p : TeardownRun) : Prop where
  inv : p.run.forgetting.Inv []
  home : p.run.AtHome
  posted : ∀ place loop conn, .runInLoop loop (.removeConnectionInLoop conn) ∈ p.run.work [] place →
    place = .todo (p.run.conn conn).loop
  gone : ∀ loop, p.exited loop = true →
    loop ≠ 0 ∧ p.run.todo loop = [] ∧ p.run.frame loop = .polling
  loops : ∃ n, p.run.OnLoops n
  ended : p.run.server = none → ∀ conn, conn < p.run.accepted →
    (p.run.conn conn).loop = 0 ∨ p.exited (p.run.conn conn).loop = true

theorem Start.kept {p : TeardownRun} (h : p.Start) : p.Kept := by
  have atHome := (ServerRun.reachable_atHome (.start h.run))
  obtain ⟨server, hs, _⟩ := h.run.server
  refine ⟨atHome.1, atHome.2, fun place loop conn mem => ?_, fun loop out => ?_,
    ⟨_, h.run.onLoops hs (h.next server hs)⟩, fun none => ?_⟩
  · rw [h.run.work] at mem
    cases mem
  · rw [h.exited] at out
    cases out
  · rw [hs] at none
    cases none

/-- A step of the server is one of a thread that has not ended. -/
theorem server_step {p q : TeardownRun} {l : ServerAct} (h : p.step (.server l) = some q) :
    p.exited l.thread = false ∧ p.mayStep l = true ∧ p.run.step l = some q.run ∧
      q.exited = p.exited := by
  simp only [step, Option.ite_none_right_eq_some, Bool.and_eq_true, Bool.not_eq_true'] at h
  obtain ⟨⟨alive, may⟩, h⟩ := h
  obtain ⟨run, hr, rfl⟩ := Option.map_eq_some_iff.mp h
  exact ⟨alive, may, hr, rfl⟩

/-- Where the removals of a loop are posted from. -/
theorem posted_step {s t : ServerRun} {l : ServerAct} (inv : s.forgetting.Inv []) (home : s.AtHome)
    (posted : ∀ place loop conn,
      .runInLoop loop (.removeConnectionInLoop conn) ∈ s.work [] place →
        place = .todo (s.conn conn).loop)
    (h : s.step l = some t) {place : Place} {loop conn : Nat}
    (mem : Task.runInLoop loop (.removeConnectionInLoop conn) ∈ t.work [] place) :
    place = .todo (t.conn conn).loop := by
  have loops : conn < s.accepted → (t.conn conn).loop = (s.conn conn).loop := by
    intro early
    rcases ServerRun.step_loop h conn with same | ⟨_, new⟩
    · exact same
    · exact absurd early (by omega)
  rcases ServerRun.step_arrives h mem with was | arrives
  · have known := ServerRun.told_known inv (ServerRun.waiting_valid inv was)
    rw [loops known]
    exact posted place loop conn was
  · cases arrives with
    | @task thread answer first rest _ _ next _ follows =>
      cases follows with
      | remove hs =>
        have first : Task.removeConnection conn ∈ s.work [] (.todo thread) :=
          ServerRun.mem_todo next
        have known := ServerRun.told_known inv (ServerRun.waiting_valid inv first)
        have here := (home _ _ first).waits _ rfl
        rw [loops known]
        exact congrArg Place.todo (Option.some.inj here)
    | event _ event =>
      obtain h | h | h | h := ServerRun.mem_handleEvent event <;> cases h

theorem joined_exited {p : TeardownRun} {server : TcpServer} (hs : p.run.server = some server)
    (joined : p.joined = true) {loop : Nat} (io : loop ≠ 0) (within : loop ≤ server.numLoops) :
    p.exited loop = true := by
  simp only [TeardownRun.joined, hs, List.all_eq_true, List.mem_range] at joined
  have here := joined (loop - 1) (by omega)
  rwa [Nat.sub_add_cancel (Nat.pos_of_ne_zero io)] at here

/-- Once the server is destroyed, only the base loop and loops that have ended
have connections. -/
theorem Kept.ended_step {p q : TeardownRun} {l : ServerAct} (kept : p.Kept)
    (may : p.mayStep l = true) (hs : p.run.step l = some q.run) (exited : q.exited = p.exited)
    (none : q.run.server = none) {conn : Nat} (early : conn < q.run.accepted) :
    (q.run.conn conn).loop = 0 ∨ q.exited (q.run.conn conn).loop = true := by
  by_cases accepts : ∃ sockfd, l = .newConnection sockfd
  · obtain ⟨sockfd, rfl⟩ := accepts
    obtain ⟨server, _, _, now, _⟩ := ServerRun.step_accepts hs
    rw [now] at none
    cases none
  have accepted : q.run.accepted = p.run.accepted :=
    (ServerRun.step_accepted hs).resolve_right fun grows => accepts grows.1
  have loop : (q.run.conn conn).loop = (p.run.conn conn).loop :=
    (ServerRun.step_loop hs conn).resolve_right fun new => accepts new.1
  rw [accepted] at early
  rw [loop, exited]
  cases ServerRun.step_serves hs with
  | same same => exact kept.ended (same ▸ none) conn early
  | accept hl _ _ => exact absurd ⟨_, hl⟩ accepts
  | erase _ _ _ now =>
    rw [now] at none
    cases none
  | destroyed hl next _ =>
    subst hl
    have joined : p.joined = true := by
      simpa [mayStep, next, Task.ending] using may
    cases hserver : p.run.server with
    | none => exact kept.ended hserver conn early
    | some server =>
      by_cases io : (p.run.conn conn).loop = 0
      · exact .inl io
      · obtain ⟨n, onLoops⟩ := kept.loops
        obtain ⟨rfl, _⟩ := onLoops.pool server hserver
        exact .inr (joined_exited hserver joined io (onLoops.loops conn early))

theorem Kept.server {p q : TeardownRun} {l : ServerAct} (kept : p.Kept)
    (h : p.step (.server l) = some q) : q.Kept := by
  obtain ⟨alive, may, hs, exited⟩ := server_step h
  have inv := ServerRun.step_forgetting_inv kept.inv hs
  have home := ServerRun.step_atHome kept.inv kept.home hs
  refine ⟨inv, home, fun place loop conn mem => posted_step kept.inv kept.home kept.posted hs mem,
    fun loop out => ?_, kept.loops.imp fun _ onLoops => onLoops.step hs,
    fun none _ early => kept.ended_step may hs exited none early⟩
  rw [exited] at out
  obtain ⟨io, idle, polling⟩ := kept.gone loop out
  have other : loop ≠ l.thread := by
    intro same
    rw [same, alive] at out
    cases out
  refine ⟨io, List.eq_nil_iff_forall_not_mem.mpr fun task mem => ?_,
    (ServerRun.step_frame hs other).trans polling⟩
  rcases ServerRun.step_arrives hs (p := .todo loop) mem with was | arrives
  · rw [ServerRun.work_todo, idle] at was
    cases was
  · exact other (ServerRun.arrives_todo arrives)

theorem exit_step {p q : TeardownRun} {loop : Nat} (h : p.step (.exit loop) = some q) :
    q = { p with exited := assign p.exited loop true } ∧
      loop ≠ 0 ∧ p.run.todo loop = [] ∧ p.run.frame loop = .polling := by
  simp only [step, Option.ite_none_right_eq_some, Option.some.injEq] at h
  obtain ⟨may, rfl⟩ := h
  refine ⟨rfl, ?_⟩
  unfold mayExit at may
  split at may
  · rename_i polling idle
    simp only [Bool.and_eq_true, decide_eq_true_eq] at may
    exact ⟨Nat.ne_of_gt may.1.1, idle, polling⟩
  · cases may

theorem Kept.exit {p q : TeardownRun} {loop : Nat} (kept : p.Kept)
    (h : p.step (.exit loop) = some q) : q.Kept := by
  obtain ⟨rfl, io, idle, polling⟩ := exit_step h
  refine ⟨kept.inv, kept.home, kept.posted, fun k out => ?_, kept.loops,
    fun none conn early => ?_⟩
  · have out : assign p.exited loop true k = true := out
    by_cases here : k = loop
    · rw [here]
      exact ⟨io, idle, polling⟩
    · rw [assign_other _ _ here] at out
      exact kept.gone k out
  · refine (kept.ended none conn early).imp id fun out => ?_
    show assign p.exited loop true _ = true
    unfold assign
    split
    · rfl
    · exact out

/-! ## No removal is left -/

/-- Nothing that waits leads to a removal. -/
def NoRemoval (s : ServerRun) : Prop := ∀ place, ∀ task ∈ s.work [] place, task.removes = false

/-- When all io loops have ended, removals can only wait with the base loop. -/
theorem noRemoval_of_base {p : TeardownRun} (kept : p.Kept) (none : p.run.server = none)
    (clear : baseClear p.run = true) : NoRemoval p.run := by
  simp only [baseClear, List.all_append, Bool.and_eq_true, List.all_eq_true,
    Bool.not_eq_true'] at clear
  obtain ⟨⟨todo, pending⟩, frame⟩ := clear
  have base : ∀ place, place.thread = some 0 → ∀ task ∈ p.run.work [] place,
      task.removes = false := by
    intro place here task mem
    cases place with
    | todo thread =>
      cases here
      exact todo task mem
    | pending loop =>
      cases here
      exact pending task mem
    | frame loop =>
      cases here
      exact frame task mem
    | hand => cases mem
  intro place task mem
  have valid := ServerRun.waiting_valid kept.inv mem
  cases task with
  | removeConnection conn =>
    have here := (kept.home place _ mem).waits _ rfl
    rcases kept.ended none conn (ServerRun.told_known kept.inv valid) with zero | out
    · exact base place (here.trans (congrArg some zero)) _ mem
    · obtain ⟨_, idle, polling⟩ := kept.gone _ out
      cases place with
      | todo thread =>
        cases here
        rw [ServerRun.work_todo, idle] at mem
        cases mem
      | frame loop =>
        cases here
        rw [ServerRun.work_frame, polling] at mem
        cases mem
      | pending loop =>
        obtain ⟨_, _, same⟩ := List.mem_map.mp mem
        cases same
      | hand => cases mem
  | functor cb =>
    cases cb with
    | removeConnectionInLoop conn => exact base place ((kept.home place _ mem).waits _ rfl) _ mem
    | _ => rfl
  | runInLoop loop cb =>
    cases cb with
    | removeConnectionInLoop conn =>
      have here := kept.posted place loop conn mem
      rcases kept.ended none conn (ServerRun.told_known kept.inv valid) with zero | out
      · refine base place ?_ _ mem
        rw [here, zero]
        rfl
      · obtain ⟨_, idle, _⟩ := kept.gone _ out
        rw [here, ServerRun.work_todo, idle] at mem
        cases mem
    | _ => rfl
  | _ => rfl

/-- Once no removal waits, only a close brings one about. -/
theorem noRemoval_step {s t : ServerRun} {l : ServerAct} (none : s.server = none)
    (clear : NoRemoval s) (h : s.step l = some t)
    (open_ : ∀ thread answer, l = .task thread answer → ∀ task ∈ (s.todo thread).head?,
      task.callsClose answer = false) : NoRemoval t := by
  intro place task mem
  rcases ServerRun.step_arrives h mem with was | arrives
  · exact clear place task was
  · cases arrives with
    | accept | report | send | store | shutdown | destroyServer => rfl
    | event hf event =>
      obtain rfl | rfl | rfl | rfl := ServerRun.mem_handleEvent event <;> rfl
    | @swap loop _ cb hf waits =>
      exact clear (.pending loop) (.functor cb) (List.mem_map_of_mem waits)
    | @next loop cb rest hf =>
      exact clear (.frame loop) (.functor cb) (ServerRun.mem_batch hf)
    | @task thread answer first rest _ _ next _ follows =>
      have head : first ∈ s.work [] (.todo thread) := ServerRun.mem_todo next
      have was := clear _ _ head
      have calm := open_ thread answer rfl first (by rw [next]; rfl)
      cases follows with
      | @inline cb | @queue _ cb _ =>
        cases cb with
        | removeConnectionInLoop conn => cases was
        | _ => rfl
      | close => cases calm
      | eof read =>
        rw [Task.callsClose, Answer.ends_iff.mpr read] at calm
        cases calm
      | remove hs | erase hs =>
        rw [none] at hs
        cases hs
      | destroy | rest => rfl

theorem startsRemoval_removes {task : Task} (h : task.removes = false) :
    task.startsRemoval = false := by
  cases task with
  | functor cb =>
    cases cb with
    | removeConnectionInLoop conn => cases h
    | _ => rfl
  | removeConnection conn => cases h
  | _ => rfl

/-- What holds in the runs that clear. -/
structure Safe (p : TeardownRun) : Prop where
  kept : p.Kept
  clear : p.run.server = none → NoRemoval p.run

theorem Safe.noneStarts {p : TeardownRun} (safe : p.Safe) : p.NoneStarts := by
  intro none thread task first
  obtain ⟨rest, next⟩ := List.head?_eq_some_iff.mp first
  exact startsRemoval_removes (safe.clear none (.todo thread) task (ServerRun.mem_todo next))

theorem Safe.server {p q : TeardownRun} {l : ServerAct} (safe : p.Safe)
    (h : p.step (.server l) = some q) (ok : p.Cleared (.server l)) : q.Safe := by
  have kept := safe.kept.server h
  obtain ⟨_, _, hs, _⟩ := server_step h
  refine ⟨kept, fun gone => ?_⟩
  cases was : p.run.server with
  | none =>
    refine noRemoval_step was (safe.clear was) hs ?_
    rintro thread answer rfl task first
    exact (ok task first).2 was
  | some server =>
    cases ServerRun.step_serves hs with
    | same same =>
      rw [same, was] at gone
      cases gone
    | accept _ _ now | erase _ _ _ now =>
      rw [now] at gone
      cases gone
    | @destroyed thread answer rest hl next _ =>
      subst hl
      have clear := (ok (.destroyServer []) (by rw [next]; rfl)).1 rfl
      rw [next, List.tail_cons] at clear
      obtain ⟨task, rest', next', _, ran⟩ := ServerRun.step_task hs
      cases next.symm.trans next'
      refine noRemoval_of_base kept gone ?_
      have done : { p.run.setTodo thread rest with server := none } = q.run := Option.some.inj ran
      rw [← done]
      exact clear

/-- When the base loop has no removal waiting as the destructor completes, and
no connection is closed later, no removal starts after it. -/
theorem torn_down {p : TeardownRun} (hp : p.Start) {ls : List TeardownAct}
    (ok : machine.Steps Cleared p ls) : machine.Always NoneStarts p ls := by
  have safe : p.Safe := by
    refine ⟨hp.kept, fun none => ?_⟩
    obtain ⟨server, hs, _⟩ := hp.run.server
    rw [hs] at none
    cases none
  refine Machine.Steps.always (I := Safe) (fun _ safe => safe.noneStarts) ?_ safe ok
  intro p l q safe h ok
  cases l with
  | server l => exact safe.server h ok
  | exit loop =>
    refine ⟨safe.kept.exit h, ?_⟩
    obtain ⟨rfl, _⟩ := exit_step h
    exact safe.clear

/-- A server with one io loop. -/
def serving : TeardownRun := ⟨ServerRun.newborn, fun _ => false⟩

theorem serving_start : serving.Start := by
  refine ⟨ServerRun.newborn_start, fun server hs => ?_, fun _ => rfl⟩
  cases hs
  rfl

/-- The server is destroyed, and the io loop runs what it posts and ends. -/
def destroys : List TeardownAct :=
  [.server (.destroyServer 0 [0]), .server (.task 0 ServerRun.eof), .server (.task 0 ServerRun.eof),
    .server (.dispatch 1 true), .server (.runFunctor 1), .server (.task 1 ServerRun.eof),
    .server (.runFunctor 1), .exit 1, .server (.task 0 ServerRun.eof),
    .server (.dispatch 0 true), .server (.runFunctor 0)]

/-- The connection is idle when its server is destroyed. -/
theorem torn_down_idle : machine.Always NoneStarts serving
    ((ServerRun.closing.take 8 ++ [ServerAct.poll 1 []]).map .server ++ destroys) :=
  torn_down serving_start (by decide +kernel)

/-- The io loop has posted the removal of a connection to the base loop. -/
def posting : List TeardownAct :=
  (ServerRun.closing ++ List.replicate 2 (ServerAct.task 1 ServerRun.eof)).map .server

/-- The base loop comes to the removal when the server is no more. -/
theorem not_torn_down_posting : serving.Start ∧
    ∃ p, machine.exec serving (posting ++ destroys) = some p ∧ p.run.server.isNone = true ∧
      ¬ p.NoneStarts := by
  have run : (machine.exec serving (posting ++ destroys)).map (fun p =>
      (p.run.server.isNone, (p.run.todo 0).head?.map Task.startsRemoval)) =
      some (true, some true) := by decide +kernel
  obtain ⟨p, hp, found⟩ := Option.map_eq_some_iff.mp run
  simp only [Prod.mk.injEq] at found
  obtain ⟨gone, next⟩ := found
  obtain ⟨task, first, starts⟩ := Option.map_eq_some_iff.mp next
  refine ⟨serving_start, p, hp, gone, fun none => ?_⟩
  have calm := none (Option.isNone_iff_eq_none.mp gone) 0 task first
  rw [starts] at calm
  cases calm

end TeardownRun
end Kenmuduo
