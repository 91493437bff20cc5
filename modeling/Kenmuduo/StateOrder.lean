import Kenmuduo.AnyOrder
import Kenmuduo.CallbackOrder

/-!
# The order of the states of a connection

`state_` is to go from kConnecting to kConnected, kDisconnecting and
kDisconnected. `shutdown` stores kDisconnecting some time after its test, and
`handleClose` stores it without a test, so either can come after the
`connectionDestroyed` that stores kDisconnected.
-/

namespace Kenmuduo
open Transition

def StateE.rank : StateE → Nat
  | kConnecting => 0
  | kConnected => 1
  | kDisconnecting => 2
  | kDisconnected => 3

/-- The values that each connection's `state_` has had since it was made. -/
abbrev StateHistory := Nat → List StateE

namespace ServerRun

def watchStates (_ : ServerRun) (_ : ServerAct) (t : ServerRun) (history : StateHistory) :
    StateHistory :=
  fun conn => if conn < t.accepted then history conn ++ [(t.conn conn).state] else history conn

def recording : Machine (ServerRun × StateHistory) ServerAct :=
  machine.watched (fun _ => []) watchStates

/-- No state came after a later one. -/
def Forward (p : ServerRun × StateHistory) : Prop :=
  ∀ conn, (p.2 conn).Pairwise fun a b => a.rank ≤ b.rank

/-- Neither `shutdown` nor `handleClose` stores kDisconnecting over
kDisconnected. -/
def StoresInTime (p : ServerRun × StateHistory) : ServerAct → Prop
  | .task thread answer => ∀ task ∈ (p.1.todo thread).head?, ∀ conn ∈ task.closing answer,
      (p.1.conn conn).state ≠ .kDisconnected
  | _ => True

instance (p : ServerRun × StateHistory) : ∀ l, Decidable (StoresInTime p l)
  | .task thread answer => inferInstanceAs (Decidable (∀ task ∈ (p.1.todo thread).head?,
      ∀ conn ∈ task.closing answer, (p.1.conn conn).state ≠ .kDisconnected))
  | .newConnection _ | .poll _ _ | .dispatch _ _ | .runFunctor _ | .send _ _ _ | .shutdown _ _
  | .destroyServer _ _ => isTrue trivial

theorem StateE.rank_lt {a : StateE} (h : a ≠ .kDisconnected) :
    a.rank ≤ StateE.rank .kDisconnecting := by
  cases a with
  | kDisconnected => exact absurd rfl h
  | kConnecting | kConnected | kDisconnecting => decide

theorem StateE.rank_le (a : StateE) : a.rank ≤ StateE.rank .kDisconnected := by
  cases a <;> decide

theorem rank_le_last {history : List StateE} {last a : StateE}
    (forward : history.Pairwise fun a b => a.rank ≤ b.rank) (hl : history.getLast? = some last)
    (ha : a ∈ history) : a.rank ≤ last.rank := by
  obtain ⟨before, rfl⟩ := List.getLast?_eq_some_iff.mp hl
  rcases List.mem_append.mp ha with old | now
  · exact (List.pairwise_append.mp forward).2.2 a old last List.mem_cons_self
  · exact Nat.le_of_eq (congrArg StateE.rank (List.mem_singleton.mp now))

/-- A step that stores in time takes no state back. -/
theorem state_forward {s t : ServerRun} {history : StateHistory} {l : ServerAct}
    (inv : s.forgetting.Inv []) (ok : StoresInTime (s, history) l) (h : s.step l = some t)
    {conn : Nat} (early : conn < s.accepted) :
    (s.conn conn).state.rank ≤ (t.conn conn).state.rank := by
  rcases step_becomes h conn with same | ⟨_, _, new, _⟩ | ⟨hl, next, possible, hr⟩
  · exact Nat.le_of_eq (congrArg (fun c => c.state.rank) same.symm)
  · exact absurd early (by omega)
  · rename_i thread answer task rest effects
    subst hl
    obtain ⟨same, _⟩ | ⟨rfl, _⟩ | ⟨_, _, gone⟩ | ⟨closing, closed⟩ := result_state possible hr
    · exact Nat.le_of_eq (congrArg StateE.rank same.symm)
    · have mem : Task.functor (.connectEstablished conn) ∈ s.work [] (.todo thread) := mem_todo next
      have establishes : Task.establishes conn (.functor (.connectEstablished conn)) = true :=
        beq_self_eq_true conn
      have new := (waiting_fresh inv mem establishes).2.2.1
      rw [new]
      exact Nat.zero_le _
    · rw [gone]
      exact StateE.rank_le _
    · have open_ : (s.conn conn).state ≠ .kDisconnected := ok task (by rw [next]; rfl) conn closing
      rw [closed]
      exact StateE.rank_lt open_

/-- The history is in order and ends with the present states. -/
structure Recorded (p : ServerRun × StateHistory) : Prop where
  inv : p.1.forgetting.Inv []
  forward : Forward p
  last : ∀ conn, conn < p.1.accepted → (p.2 conn).getLast? = some (p.1.conn conn).state
  unborn : ∀ conn, p.1.accepted ≤ conn → p.2 conn = []

theorem Start.recorded {s : ServerRun} (h : s.Start) : Recorded (s, fun _ => []) := by
  refine ⟨h.forgetting_inv, fun conn => .nil, fun conn early => ?_, fun conn _ => rfl⟩
  rw [h.accepted] at early
  cases early

theorem Recorded.step {p q : ServerRun × StateHistory} {l : ServerAct} (rec : Recorded p)
    (h : recording.step p l = some q) (ok : StoresInTime p l) : Recorded q := by
  obtain ⟨hs, hq⟩ := Machine.watched_step h
  have grows := step_accepted hs
  refine ⟨step_forgetting_inv rec.inv hs, fun conn => ?_, fun conn early => ?_, fun conn late => ?_⟩
  · rw [hq, watchStates]
    split
    · by_cases early : conn < p.1.accepted
      · refine List.pairwise_append.mpr ⟨rec.forward conn, List.pairwise_singleton _ _, ?_⟩
        intro a ha b hb
        rw [List.mem_singleton.mp hb]
        exact Nat.le_trans (rank_le_last (rec.forward conn) (rec.last conn early) ha)
          (state_forward rec.inv ok hs early)
      · rw [rec.unborn conn (Nat.not_lt.mp early)]
        exact List.pairwise_singleton _ _
    · exact rec.forward conn
  · rw [hq, watchStates, if_pos early]
    exact List.getLast?_concat
  · rw [hq, watchStates, if_neg (Nat.not_lt.mpr late)]
    exact rec.unborn conn (by omega)

/-- A state after kDisconnected is a step back. -/
theorem forward_stores {p q : ServerRun × StateHistory} {l : ServerAct} (rec : Recorded p)
    (h : recording.step p l = some q) (forward : Forward q) : StoresInTime p l := by
  obtain ⟨hs, hq⟩ := Machine.watched_step h
  have hs : p.1.step l = some q.1 := hs
  cases l with
  | task thread answer =>
    intro task first conn closing gone
    obtain ⟨rest, next⟩ := List.head?_eq_some_iff.mp first
    have mem : task ∈ p.1.work [] (.todo thread) := mem_todo next
    have early := told_known rec.inv (closing_told (waiting_valid rec.inv mem) closing)
    have later : conn < q.1.accepted := by
      have grows := step_accepted hs
      omega
    have order := forward conn
    rw [hq, watchStates, if_pos later, step_closing hs next closing] at order
    have last : StateE.kDisconnected ∈ p.2 conn :=
      List.mem_of_getLast? (gone ▸ rec.last conn early)
    have back := (List.pairwise_append.mp order).2.2 _ last _ List.mem_cons_self
    exact absurd back (by decide)
  | _ => trivial

/-- The states of all connections move forward exactly when no shutdown and no
close is stored over kDisconnected. -/
theorem forward_iff {s : ServerRun} (hs : s.Start) (ls : List ServerAct) :
    recording.Always Forward (s, fun _ => []) ls ↔
      recording.Steps StoresInTime (s, fun _ => []) ls := by
  refine Transition.always_iff_steps (I := Recorded) ?_ ?_ ?_ hs.recorded ls
  · intro p rec
    exact rec.forward
  · intro p l q rec h ok
    exact rec.step h ok
  · intro p l q rec h forward
    exact forward_stores rec h forward

/-- The states up to the close of the connection by its peer. -/
theorem forward_closing : recording.Always Forward (newborn, fun _ => []) closing :=
  (forward_iff newborn_start closing).mpr (by decide +kernel)

/-- Thread 2 finds the connection connected and is about to store; the server is
destroyed, and the connection with it, before it does. -/
def overtaken : List ServerAct :=
  closing.take 8 ++ [.shutdown 2 0, .destroyServer 0 [0], .task 0 eof, .task 0 eof,
    .poll 1 [], .dispatch 1 true, .runFunctor 1, .task 1 eof, .task 2 eof]

theorem not_forward_overtaken : newborn.Start ∧
    ¬ recording.Always Forward (newborn, fun _ => []) overtaken := by
  have run : (recording.exec (newborn, fun _ => []) overtaken).map (fun p => (p.2 0).drop 13) =
      some [.kConnected, .kDisconnected, .kDisconnecting] := by decide +kernel
  obtain ⟨p, hp, history⟩ := Option.map_eq_some_iff.mp run
  refine ⟨newborn_start, fun always => ?_⟩
  have order := (always.final hp 0).sublist (List.drop_sublist 13 (p.2 0))
  rw [history] at order
  exact absurd order (by decide)

end ServerRun
end Kenmuduo
