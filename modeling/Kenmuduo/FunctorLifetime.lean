import Kenmuduo.UseCount

/-!
# Functors that bind this

`send` and `shutdown` bind `this` into their functors, where all others bind a
shared_ptr. Such a functor is safe as long as its connection is not destroyed;
after that, it depends on what the other holders do.
-/

namespace Kenmuduo
open Transition

/-- The connection whose `sendInLoop` or `shutdownInLoop` the task is. -/
def Task.starts : Task → Option Nat
  | functor cb => cb.bindsThis
  | _ => none

theorem Task.starts_bindsThis {task : Task} {conn : Nat} (h : conn ∈ task.starts) :
    task.bindsThis = some conn := by
  cases task with
  | functor cb => exact h
  | _ => cases h

namespace OwnedRun

/-- A functor that binds `this` of the connection is still to start. -/
def outstanding (s : OwnedRun) (conn : Nat) : Bool :=
  (List.range s.threads).any fun thread =>
    ((s.run.tasks thread).filterMap Task.bindsThis).contains conn

/-- When a functor starts that binds `this`, the connection is owned. -/
def FunctorsOwned (s : OwnedRun) : Prop :=
  ∀ thread, thread < s.threads → s.ready thread = true →
    ∀ task ∈ (s.run.todo thread).head?, ∀ conn ∈ task.starts, s.owned conn = true

instance (s : OwnedRun) : Decidable s.FunctorsOwned :=
  inferInstanceAs (Decidable (∀ thread, thread < s.threads → s.ready thread = true →
    ∀ task ∈ (s.run.todo thread).head?, ∀ conn ∈ task.starts, s.owned conn = true))

theorem outstanding_iff {s : OwnedRun} {conn : Nat} : s.outstanding conn = true ↔
    ∃ thread, thread < s.threads ∧ ∃ task ∈ s.run.tasks thread, task.bindsThis = some conn := by
  simp only [outstanding, List.any_eq_true, List.mem_range, List.contains_iff_mem,
    List.mem_filterMap]

/-- Whoever has a pointer owns the connection. -/
theorem has_owned {s : OwnedRun} {thread conn : Nat} (bound : thread < s.threads)
    (has : s.has thread conn = true) : s.owned conn = true := by
  simp only [OwnedRun.has, Bool.or_eq_true, List.contains_iff_mem] at has
  rcases has with (stores | calls) | runs
  · exact kept_owned bound stores
  · exact pointer_owned bound (mem_pointers.mpr (.inr (.inr (.inr (.inr calls)))))
  · exact pointer_owned bound (mem_pointers.mpr (.inr (.inr (.inr (.inl runs)))))

theorem bindsThis_told {s : ServerRun} {task : Task} {conn : Nat} (valid : s.Valid task)
    (binds : task.bindsThis = some conn) : s.log conn ≠ [] := by
  cases task with
  | functor cb | runInLoop loop cb =>
    cases cb with
    | sendInLoop k data | shutdownInLoop k =>
      cases binds
      exact valid
    | _ => cases binds
  | _ => cases binds

theorem outstanding_known {s : OwnedRun} (kept : s.Kept) {conn : Nat}
    (waits : s.outstanding conn = true) : conn < s.run.accepted := by
  obtain ⟨thread, _, task, mem, binds⟩ := outstanding_iff.mp waits
  obtain ⟨p, _, mem⟩ := ServerRun.work_of_mem_tasks mem
  exact ServerRun.told_known kept.inv (bindsThis_told (ServerRun.waiting_valid kept.inv mem) binds)

/-- A thread that calls `send` or `shutdown` has a pointer, and goes on to have it. -/
theorem call_owned {s t : OwnedRun} {l : OwnerAct} {thread conn : Nat} {act : ServerAct}
    (h : s.step l = some t) (hact : l.act = some act)
    (calls : (∃ data, act = .send thread conn data) ∨ act = .shutdown thread conn) :
    t.owned conn = true := by
  have server : l = .server act := by
    cases l with
    | server l =>
      cases hact
      rfl
    | poll loop activeChannels acceptor =>
      cases hact
      rcases calls with ⟨_, same⟩ | same <;> cases same
    | _ => cases hact
  subst server
  simp only [step] at h
  split at h
  · rename_i may
    rw [Bool.and_eq_true, decide_eq_true_eq] at may
    obtain ⟨run, _, rfl⟩ := Option.map_eq_some_iff.mp h
    rcases calls with ⟨data, rfl⟩ | rfl
    · have bound : thread < s.threads := may.1
      exact has_owned bound may.2
    · have bound : thread < s.threads := may.1
      exact has_owned bound may.2
  · cases h

/-- A functor that binds `this` was there before, or is called by a thread that
has a pointer. -/
theorem outstanding_step {s t : OwnedRun} {l : OwnerAct} {conn : Nat} (h : s.step l = some t)
    (waits : t.outstanding conn = true) : s.outstanding conn = true ∨ t.owned conn = true := by
  obtain ⟨thread, bound, task, mem, binds⟩ := outstanding_iff.mp waits
  obtain ⟨threads, ⟨_, same⟩ | ⟨act, hact, actor, ran⟩⟩ := step_run h
  · rw [same] at mem
    exact .inl (outstanding_iff.mpr ⟨thread, threads ▸ bound, task, mem, binds⟩)
  have waited {p : Place} {old : Task} {other : Nat} (mem : old ∈ s.run.work [] p)
      (here : p.thread = some other) (bound : other < s.threads)
      (binds : old.bindsThis = some conn) : s.outstanding conn = true := by
    refine outstanding_iff.mpr ⟨other, bound, old, ServerRun.mem_tasks_of_work mem here ?_, binds⟩
    rintro k rfl
    cases binds
  obtain ⟨p, here, mem⟩ := ServerRun.work_of_mem_tasks mem
  rcases ServerRun.step_arrives ran mem with old | arrives
  · exact .inl (waited old here (threads ▸ bound) binds)
  cases arrives with
  | accept _ | report _ _ | store _ _ | destroyServer => cases binds
  | @event loop k revents rest _ _ events =>
    obtain rfl | rfl | rfl | rfl := ServerRun.mem_handleEvent events <;> cases binds
  | @swap loop locked cb hf queued =>
    exact .inl (waited (p := .pending loop) (List.mem_map_of_mem queued) rfl actor binds)
  | @next loop cb rest hf =>
    have batched : Task.functor cb ∈ s.run.work [] (.frame loop) := ServerRun.mem_batch hf
    exact .inl (waited batched rfl actor binds)
  | @task k answer first rest _ _ next _ follows =>
    have first_waits : first ∈ s.run.work [] (.todo k) := ServerRun.mem_todo next
    cases follows with
    | inline | queue _ => exact .inl (waited first_waits rfl actor binds)
    | close | eof _ | remove _ | erase _ | destroy | rest => cases binds
  | @send k c data _ _ =>
    cases binds
    exact .inr (call_owned h hact (.inl ⟨data, rfl⟩))
  | @shutdown k c _ _ =>
    cases binds
    exact .inr (call_owned h hact (.inr rfl))

/-- In every run whose steps do not let go of all pointers to a connection that
is gone and outstanding, a functor that binds `this` starts while its connection
is owned. -/
theorem functors_owned {s : OwnedRun} (hs : s.Start) {ls : List OwnerAct}
    (keeps : machine.Steps (Keeps outstanding) s ls) :
    machine.Always FunctorsOwned s ls := by
  refine keeps.always (I := fun s => s.Kept ∧ s.Swept ∧ ∀ conn, s.outstanding conn = true →
    s.owned conn = true) ?_ ?_ ⟨start_kept hs, hs.swept, ?_⟩
  · rintro s ⟨_, _, owned⟩ thread bound _ task next conn starts
    obtain ⟨rest, next⟩ := List.head?_eq_some_iff.mp next
    refine owned conn (outstanding_iff.mpr ⟨thread, bound, task, ?_, task.starts_bindsThis starts⟩)
    refine List.mem_append_left _ ?_
    rw [next]
    exact List.mem_cons_self
  · rintro s l t ⟨kept, swept, owned⟩ h ok
    have kept' := kept.step h ok.1
    refine ⟨kept', swept.step h, fun conn waits => ?_⟩
    rcases outstanding_step h waits with before | now
    · exact ok.owned kept swept h (outstanding_known kept' waits) before (owned conn before)
    · exact now
  · intro conn waits
    have known := outstanding_known (start_kept hs) waits
    rw [hs.run.accepted] at known
    cases known

def parting : Message := Message.ofList [98, 121, 101] (by decide)

/-- A connection is established; its first callback hands it to thread 2. -/
def handedOut : List OwnerAct :=
  [.poll 0 [] true, .server (.newConnection 7), .server (.task 0 ServerRun.eof),
    .poll 1 [] false, .server (.dispatch 1 true), .server (.runFunctor 1),
    .server (.task 1 ServerRun.eof), .copy 1 0, .copy 2 0, .drop 1 0, .returns 1,
    .server (.runFunctor 1)]

/-- Thread 2 sends while the peer closes the connection, which is removed. -/
def closedMeanwhile : List OwnerAct :=
  [.server (.send 2 0 parting), .poll 1 [(0, EPOLLIN)] false, .server (.dispatch 1 true),
    .server (.task 1 ServerRun.eof), .returns 1, .server (.task 1 ServerRun.eof),
    .server (.task 1 ServerRun.eof), .server (.dispatch 0 true), .server (.runFunctor 0),
    .server (.task 0 ServerRun.eof), .server (.runFunctor 0), .server (.dispatch 1 true),
    .server (.runFunctor 1), .server (.task 1 ServerRun.eof), .server (.task 2 ServerRun.eof),
    .server (.runFunctor 1)]

/-- The io loop takes up the functor of thread 2. -/
def takenUp : List OwnerAct :=
  [.poll 1 [] false, .server (.dispatch 1 true), .server (.runFunctor 1)]

/-- Thread 2 keeps its pointer until the functor has run. -/
theorem functors_owned_kept : machine.Always FunctorsOwned newborn
    (handedOut ++ closedMeanwhile ++ takenUp ++ [.server (.task 1 ServerRun.eof), .drop 2 0]) :=
  functors_owned newborn_start (by decide +kernel)

/-- Thread 2 drops its pointer after `send`: the functor starts when nobody owns
its connection. -/
theorem not_functors_owned_dropped : newborn.Start ∧
    ∃ s, machine.exec newborn (handedOut ++ closedMeanwhile ++ [.drop 2 0] ++ takenUp) = some s ∧
      s.owned 0 = false ∧ ¬ s.FunctorsOwned := by
  have run : (machine.exec newborn (handedOut ++ closedMeanwhile ++ [.drop 2 0] ++ takenUp)).map
      (fun s => (s.owned 0, decide s.FunctorsOwned)) = some (false, false) := by decide +kernel
  obtain ⟨s, hs, found⟩ := Option.map_eq_some_iff.mp run
  simp only [Prod.mk.injEq, decide_eq_false_iff_not] at found
  exact ⟨newborn_start, s, hs, found⟩

end OwnedRun
end Kenmuduo
