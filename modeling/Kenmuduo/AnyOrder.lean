import Kenmuduo.ServerSteps

/-!
# What waits, whatever comes too late

Tasks that come too late spoil the logs, not what waits: the steps of a server
ask of a log only whether it is empty. So a run goes the same way when the
user forgets what it was told of a connection, and the invariant of
`ServerWork` holds in every run of a server whose user forgets.
-/

namespace Kenmuduo
open Transition
namespace ServerRun

/-- All the user remembers of a connection is that it once was up. -/
def forgetting (s : ServerRun) : ServerRun :=
  { s with
    log := fun conn => if s.log conn = [] then [] else [up]
    destroyed := fun _ => false }

/-- The two states differ in what the user was told of the connections it
knows. -/
structure Alike (s u : ServerRun) : Prop where
  server : u.server = s.server
  accepted : u.accepted = s.accepted
  conn : u.conn = s.conn
  pendingFunctors : u.pendingFunctors = s.pendingFunctors
  frame : u.frame = s.frame
  todo : u.todo = s.todo
  known : ∀ conn, u.log conn = [] ↔ s.log conn = []

theorem forgetting_log (s : ServerRun) (conn : Nat) :
    s.forgetting.log conn = [] ↔ s.log conn = [] := by
  simp [forgetting]

theorem forgetting_opened (s : ServerRun) (conn : Nat) : ¬ s.forgetting.closed conn := by
  unfold closed forgetting
  by_cases none : s.log conn = []
  · simp [none]
  · simp [none]

theorem Alike.work {s u : ServerRun} (h : s.Alike u) (hand : List Task) (p : Place) :
    u.work hand p = s.work hand p := by
  cases p with
  | todo thread => rw [work_todo, work_todo, h.todo]
  | pending loop => rw [work_pending, work_pending, h.pendingFunctors]
  | frame loop => rw [work_frame, work_frame, h.frame]
  | hand => rfl

theorem forgetting_work (s : ServerRun) (hand : List Task) (p : Place) :
    s.forgetting.work hand p = s.work hand p := by
  cases p <;> rfl

theorem forgetting_valid {s : ServerRun} {task : Task} :
    s.forgetting.Valid task ↔ s.Valid task := by
  constructor
  · exact fun h => h.mono (Nat.le_refl _) fun conn told none =>
      told ((forgetting_log s conn).mpr none)
  · exact fun h => h.mono (Nat.le_refl _) fun conn told none =>
      told ((forgetting_log s conn).mp none)

/-- The invariant does not depend on what the user remembers. -/
theorem Inv.alike {s u : ServerRun} {hand : List Task} (inv : u.Inv hand) (h : s.Alike u) :
    s.forgetting.Inv hand := by
  have told (conn : Nat) : s.forgetting.log conn = [] ↔ u.log conn = [] :=
    (forgetting_log s conn).trans (h.known conn).symm
  have accepted : s.forgetting.accepted = u.accepted := h.accepted.symm
  have conns : s.forgetting.conn = u.conn := h.conn.symm
  refine ⟨⟨?_, ?_, ?_, ?_, ?_, ?_⟩, ?_, ?_⟩
  · intro conn
    simp only [forgetting]
    split
    · exact .none
    · exact Protocol.first
  · intro conn early none
    rw [accepted] at early
    rw [conns]
    exact inv.fresh conn early ((told conn).mp none)
  · exact fun conn shut => absurd shut (forgetting_opened s conn)
  · intro conn gone
    cases gone
  · intro conn known
    rw [accepted]
    exact inv.known conn fun none => known ((told conn).mpr none)
  · rw [accepted]
    exact h.server ▸ inv.registered
  · intro p task mem
    rw [forgetting_work, ← h.work] at mem
    refine (inv.valid p task mem).mono (Nat.le_of_eq accepted.symm) fun conn known none => ?_
    exact known ((told conn).mp none)
  · obtain ⟨place, placed⟩ := inv.placed
    refine ⟨place, placed.held.same fun p conn => ?_, fun conn waits => ?_⟩
    · rw [establishing, establishing, forgetting_work, h.work]
    · exact (told conn).mpr (placed.early conn waits)

/-- The connection's channel is taken from the poller. -/
theorem Inv.remove {s : ServerRun} {hand : List Task} (inv : s.Inv hand) {conn : Nat}
    (exists_ : conn < s.accepted) :
    (s.setConn conn { s.conn conn with channel := (s.conn conn).channel.remove }).Inv hand := by
  have same : s.log = assign s.log conn (s.log conn) := (assign_self _ _).symm
  refine ⟨inv.replace rfl same rfl id exists_ (fun _ _ => Iff.rfl) inv.registered
    (inv.protocol conn) (fun none => ?_) (inv.ended conn), ?_, ?_⟩
  · exact ⟨(inv.fresh conn exists_ none).1, rfl⟩
  · intro p task mem
    refine (inv.valid p task ?_).mono (Nat.le_refl _) fun _ told => told
    cases p <;> exact mem
  · obtain ⟨place, placed⟩ := inv.placed
    refine ⟨place, placed.held.same fun p conn => ?_, placed.early⟩
    cases p <;> rfl

/-! ## A run of a forgetting user -/

theorem perform_forgetting {s t : ServerRun} {thread conn : Nat}
    {result : Except Fault (TcpConnection × List Effect)}
    (h : s.perform thread conn result = some t) :
    ∃ u, s.forgetting.perform thread conn result = some u ∧ t.Alike u := by
  unfold perform at h ⊢
  split at h
  · rename_i c effects
    cases h
    refine ⟨_, rfl, rfl, rfl, rfl, rfl, rfl, rfl, fun k => ?_⟩
    simp only [call, setTodo, addCallbacks, setConn, assign]
    split
    · simp only [List.append_eq_nil_iff, forgetting_log]
    · exact forgetting_log s k
  · cases h

theorem runTask_forgetting {s t : ServerRun} {thread : Nat} {answer : Answer} {task : Task}
    (h : s.runTask thread answer task = some t) :
    ∃ u, s.forgetting.runTask thread answer task = some u ∧ t.Alike u := by
  cases task with
  | functor cb =>
    cases cb with
    | connectionDestroyed conn =>
      simp only [runTask, runFunctor] at h
      obtain ⟨v, hv, rfl⟩ := Option.map_eq_some_iff.mp h
      obtain ⟨u, hu, alike⟩ := perform_forgetting hv
      refine ⟨u.setDestroyed conn, ?_, alike.1, alike.2, alike.3, alike.4, alike.5, alike.6,
        alike.7⟩
      exact congrArg (Option.map fun t => t.setDestroyed conn) hu
    | removeConnectionInLoop conn =>
      simp only [runTask, runFunctor] at h ⊢
      split at h
      · rename_i server hs
        cases h
        have same : s.forgetting.server = some server := hs
        rw [same]
        exact ⟨_, rfl, rfl, rfl, rfl, rfl, rfl, rfl, forgetting_log s⟩
      · cases h
    | connectEstablished conn => exact perform_forgetting h
    | sendInLoop conn data =>
      rw [runTask, runFunctor] at h
      exact perform_forgetting h
    | shutdownInLoop conn =>
      rw [runTask, runFunctor] at h
      exact perform_forgetting h
  | runInLoop loop cb =>
    cases h
    refine ⟨_, rfl, ?_⟩
    unfold runInLoop
    split
    · exact ⟨rfl, rfl, rfl, rfl, rfl, rfl, forgetting_log s⟩
    · exact ⟨rfl, rfl, rfl, rfl, rfl, rfl, forgetting_log s⟩
  | removeConnection conn =>
    simp only [runTask] at h ⊢
    split at h
    · rename_i server hs
      cases h
      have same : s.forgetting.server = some server := hs
      rw [same]
      exact ⟨_, rfl, rfl, rfl, rfl, rfl, rfl, rfl, forgetting_log s⟩
    · cases h
  | setDisconnecting conn =>
    cases h
    exact ⟨_, rfl, rfl, rfl, rfl, rfl, rfl, rfl, forgetting_log s⟩
  | destroyServer conns =>
    cases conns with
    | nil | cons =>
      cases h
      exact ⟨_, rfl, rfl, rfl, rfl, rfl, rfl, rfl, forgetting_log s⟩
  | handleClose conn => exact perform_forgetting h
  | handleError conn =>
    rw [runTask] at h
    exact perform_forgetting h
  | handleRead conn => exact perform_forgetting h
  | handleWrite conn => exact perform_forgetting h

/-- A user that forgets takes the same step. -/
theorem step_forgetting {s t : ServerRun} {l : ServerAct} (h : s.step l = some t) :
    ∃ u, s.forgetting.step l = some u ∧ t.Alike u := by
  have alike : t.Alike t.forgetting := ⟨rfl, rfl, rfl, rfl, rfl, rfl, forgetting_log t⟩
  have told {conn : Nat} (told : s.log conn ≠ []) : s.forgetting.log conn ≠ [] :=
    fun none => told ((forgetting_log s conn).mp none)
  have same : ∃ u, s.forgetting.Stepped l u ∧ t.Alike u := by
    cases stepped h with
    | accept hs hf ht => exact ⟨_, .accept hs hf ht, alike⟩
    | poll hf ht can => exact ⟨_, .poll hf ht can, alike⟩
    | visit hf ht => exact ⟨_, .visit hf ht, alike⟩
    | swap hf ht => exact ⟨_, .swap hf ht, alike⟩
    | next hf ht => exact ⟨_, .next hf ht, alike⟩
    | batchEnd hf ht => exact ⟨_, .batchEnd hf ht, alike⟩
    | task next possible ran =>
      obtain ⟨u, hu, same⟩ := runTask_forgetting ran
      exact ⟨u, .task next possible hu, same⟩
    | send user known up => exact ⟨_, .send user (told known) up, alike⟩
    | sendNot user known gone => exact ⟨_, .sendNot user (told known) gone, alike⟩
    | shutdown user known up => exact ⟨_, .shutdown user (told known) up, alike⟩
    | shutdownNot user known gone => exact ⟨_, .shutdownNot user (told known) gone, alike⟩
    | destroyServer hs user permitted => exact ⟨_, .destroyServer hs user permitted, alike⟩
  obtain ⟨u, stepped, alike⟩ := same
  exact ⟨u, stepped.step, alike⟩

/-! ## The invariant of every run -/

/-- A `connectionDestroyed` that finds the connection closing. -/
theorem destroyed_late {s t : ServerRun} {thread conn : Nat} {hand : List Task}
    (inv : s.Inv hand) (consumed : ∀ k, hand.countP (Task.establishes k) = 0)
    (known : conn < s.accepted) (closing : (s.conn conn).state ≠ .kConnected)
    (h : s.perform thread conn (s.conn conn).connectionDestroyed = some t) : t.Inv [] := by
  obtain ⟨c, effects, hr, _, _⟩ := perform_performs h
  obtain ⟨up, _⟩ | ⟨_, rfl, rfl⟩ := TcpConnection.connectionDestroyed_ok hr
  · exact absurd up closing
  · rw [hr, perform_setConn] at h
    cases h
    exact (inv.remove known).done consumed

/-- A step that would be too late is not, once the user forgets; only a
`connectionDestroyed` may still find the connection closing. -/
theorem step_forgetting_inv {s t : ServerRun} {l : ServerAct} (inv : s.forgetting.Inv [])
    (h : s.step l = some t) : t.forgetting.Inv [] := by
  obtain ⟨u, hu, alike⟩ := step_forgetting h
  by_cases orderly : s.forgetting.Orderly l
  · exact (step_inv inv orderly hu).alike alike
  cases stepped hu with
  | @task thread answer task rest _ next possible ran =>
    have late : ¬ s.forgetting.InTime answer task := by
      intro intime
      refine orderly fun first here => ?_
      rw [next] at here
      cases here
      exact intime
    cases task with
    | functor cb =>
      cases cb with
      | connectionDestroyed conn =>
        have closing : (s.forgetting.conn conn).state ≠ .kConnected := fun up => late (.inr up)
        have taken := take_inv inv next
        have known : conn < s.forgetting.accepted := taken.valid .hand _ List.mem_cons_self
        simp only [runTask, runFunctor] at ran
        obtain ⟨v, hv, rfl⟩ := Option.map_eq_some_iff.mp ran
        have kept := destroyed_late taken (fun _ => rfl) known closing hv
        exact kept.alike ⟨alike.1, alike.2, alike.3, alike.4, alike.5, alike.6, alike.7⟩
      | _ => exact absurd trivial late
    | handleClose conn => exact absurd (forgetting_opened s conn) late
    | handleRead conn => exact absurd (fun _ _ => forgetting_opened s conn) late
    | _ => exact absurd trivial late
  | _ => exact absurd trivial orderly

theorem Start.forgetting_inv {s : ServerRun} (h : s.Start) : s.forgetting.Inv [] :=
  h.inv.alike ⟨rfl, rfl, rfl, rfl, rfl, rfl, fun _ => Iff.rfl⟩

/-! ## What it says -/

/-- As long as its `connectEstablished` waits, a connection is new. -/
theorem waiting_fresh {s : ServerRun} (inv : s.forgetting.Inv []) {p : Place} {task : Task}
    {conn : Nat} (mem : task ∈ s.work [] p) (he : task.establishes conn = true) :
    conn < s.accepted ∧ s.log conn = [] ∧ (s.conn conn).state = .kConnecting ∧
      (s.conn conn).channel.index = kNew := by
  rw [← forgetting_work] at mem
  have known : conn < s.accepted := (inv.valid p task mem).establishes he
  obtain ⟨place, placed⟩ := inv.placed
  have waits : 0 < s.forgetting.establishing [] p conn := List.countP_pos_iff.mpr ⟨task, mem, he⟩
  have none : s.forgetting.log conn = [] :=
    placed.early conn (by rw [placed.held.at_place waits]; simp)
  exact ⟨known, (forgetting_log s conn).mp none, inv.fresh conn known none⟩

/-- What a task that waits needs. -/
theorem waiting_valid {s : ServerRun} (inv : s.forgetting.Inv []) {p : Place} {task : Task}
    (mem : task ∈ s.work [] p) : s.Valid task := by
  rw [← forgetting_work] at mem
  exact forgetting_valid.mp (inv.valid p task mem)

theorem told_known {s : ServerRun} (inv : s.forgetting.Inv []) {conn : Nat}
    (told : s.log conn ≠ []) : conn < s.accepted :=
  inv.known conn fun none => told ((forgetting_log s conn).mp none)

/-- A connection that is being closed is one the user knows. -/
theorem closing_told {s : ServerRun} {answer : Answer} {task : Task} {conn : Nat}
    (valid : s.Valid task) (closing : task.closing answer = some conn) : s.log conn ≠ [] := by
  cases task with
  | setDisconnecting k | handleClose k =>
    cases closing
    exact valid
  | handleRead k =>
    simp only [Task.closing, Option.ite_none_right_eq_some, Option.some.injEq] at closing
    exact closing.2 ▸ valid
  | _ => cases closing

/-- A task is a function of a connection that exists. -/
theorem result_known {s : ServerRun} (inv : s.forgetting.Inv []) {answer : Answer} {task : Task}
    {conn : Nat} {result : Except Fault (TcpConnection × List Effect)} (valid : s.Valid task)
    (hr : s.result answer task = some (conn, result)) : conn < s.accepted := by
  cases task with
  | functor cb =>
    cases cb with
    | connectEstablished k | connectionDestroyed k =>
      cases hr
      exact valid
    | shutdownInLoop k =>
      cases hr
      exact told_known inv valid
    | sendInLoop k data =>
      cases hr
      exact told_known inv valid
    | removeConnectionInLoop k => cases hr
  | handleClose k | handleError k | handleRead k | handleWrite k | setDisconnecting k =>
    cases hr
    exact told_known inv valid
  | runInLoop _ _ | removeConnection _ | destroyServer _ => cases hr

end ServerRun
end Kenmuduo
