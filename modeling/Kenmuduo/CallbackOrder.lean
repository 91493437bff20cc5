import Kenmuduo.ServerInvariant

/-!
# When the callbacks keep to their protocol

A run keeps to the protocol exactly when all its tasks come in time.
-/

namespace Kenmuduo
open Transition
namespace ServerRun

theorem Inv.wellCalled {s : ServerRun} (inv : s.Inv []) : s.WellCalled :=
  fun conn => ⟨inv.protocol conn,
    fun gone => (inv.protocol conn).count_down (inv.finished conn gone)⟩

/-- A function whose only callback is `x` cannot be called after the down. -/
theorem perform_late {s t : ServerRun} {thread conn : Nat} {x : Callback}
    {result : Except Fault (TcpConnection × List Effect)} (shut : s.closed conn)
    (tells : ∀ c effects, result = .ok (c, effects) → effects.filterMap Effect.callback = [x])
    (h : s.perform thread conn result = some t) : ¬ t.WellCalled := by
  intro well
  obtain ⟨c, effects, hr, log⟩ := perform_log h
  have after := (well conn).1
  rw [log, assign, if_pos rfl, tells c effects hr] at after
  exact Protocol.not_after shut x after

theorem runTask_intime {s t : ServerRun} {thread : Nat} {answer : Answer} {task : Task}
    (possible : answer.possible = true) (h : s.runTask thread answer task = some t)
    (well : t.WellCalled) : s.InTime answer task := by
  cases task with
  | functor cb =>
    cases cb with
    | connectionDestroyed conn =>
      simp only [runTask, runFunctor] at h
      obtain ⟨u, hu, rfl⟩ := Option.map_eq_some_iff.mp h
      obtain ⟨c, effects, hr, log⟩ := perform_log hu
      have once := (well conn).2 (by simp [setDestroyed])
      obtain ⟨connected, _⟩ | ⟨_, _, quiet⟩ := TcpConnection.connectionDestroyed_ok hr
      · exact .inr connected
      · left
        rw [setDestroyed, log, quiet, assign, if_pos rfl, List.filterMap_nil,
          List.append_nil] at once
        refine List.count_pos_iff.mp ?_
        rw [once]
        exact Nat.one_pos
    | _ => trivial
  | handleClose conn =>
    intro shut
    refine perform_late (x := down) shut ?_ h well
    intro c effects hr
    rw [(TcpConnection.handleClose_ok hr).2]
    rfl
  | handleRead conn =>
    intro bytes hread shut
    have fits : bytes.length ≤ vectorMax := by simpa [Answer.possible, hread] using possible
    rw [runTask, hread] at h
    refine perform_late (x := if bytes = [] then down else .message) shut ?_ h well
    intro c effects hr
    rw [TcpConnection.handleRead_delivered fits hr]
    split <;> rfl
  | _ => trivial

theorem step_orderly {s t : ServerRun} {l : ServerAct} (h : s.step l = some t)
    (well : t.WellCalled) : s.Orderly l := by
  cases stepped h with
  | @task thread _ _ rest _ next possible ran =>
    intro task first
    rw [next] at first
    cases first
    exact runTask_intime (s := s.setTodo thread rest) possible ran well
  | _ => trivial

/-- A run keeps to the callback protocol exactly when all its tasks come in
time. -/
theorem well_called_iff {s : ServerRun} (hs : s.Start) (ls : List ServerAct) :
    machine.Always WellCalled s ls ↔ machine.Steps Orderly s ls := by
  refine Transition.always_iff_steps (I := fun s => s.Inv []) ?_ ?_ ?_ hs.inv ls
  · intro s inv
    exact inv.wellCalled
  · intro s l t inv h orderly
    exact step_inv inv orderly h
  · intro s l t _ h well
    exact step_orderly h well

/-- A server with one io loop. -/
def newborn : ServerRun where
  server := some
    { name := "EchoServer", ipPort := "127.0.0.1:8080", connectionCallback := true,
      messageCallback := true, writeCompleteCallback := false, numLoops := 1, next := 0,
      nextConnId := 1, connections := [] }
  accepted := 0
  conn := fun _ => TcpConnection.new 0 "" 0
  pendingFunctors := fun _ => []
  frame := fun _ => .polling
  todo := fun _ => []
  log := fun _ => []
  destroyed := fun _ => false

theorem newborn_start : newborn.Start :=
  ⟨⟨_, rfl, rfl⟩, rfl, fun _ => rfl, fun _ => rfl, fun _ => rfl, fun _ => rfl, fun _ => rfl⟩

/-- `read` delivers the end of the stream. -/
def eof : Answer := ⟨.delivered [], .accepted 0, fun _ => 0⟩

/-- A connection is accepted and established, and its peer closes it. -/
def closing : List ServerAct :=
  [.poll 0 [], .newConnection 7, .task 0 eof,
    .poll 1 [], .dispatch 1 true, .runFunctor 1, .task 1 eof, .runFunctor 1,
    .poll 1 [(0, EPOLLIN)], .dispatch 1 true, .task 1 eof]

/-- The base loop has not removed the connection yet when the io loop polls
again. -/
def reported : List ServerAct :=
  [.task 1 eof, .task 1 eof, .dispatch 1 true, .runFunctor 1,
    .poll 1 [(0, EPOLLIN)], .dispatch 1 true, .task 1 eof]

/-- Nothing comes too late until then. -/
theorem well_called_closing : machine.Always WellCalled newborn closing :=
  (well_called_iff newborn_start closing).mpr (by decide +kernel)

/-- The unread end of the stream makes a second down. -/
theorem not_well_called_reported : newborn.Start ∧
    ∃ t, machine.exec newborn (closing ++ reported) = some t ∧
      t.log 0 = [up, down, down] ∧ ¬ t.WellCalled := by
  have run : (machine.exec newborn (closing ++ reported)).map (fun s => s.log 0) =
      some [up, down, down] := by decide +kernel
  obtain ⟨t, ht, log⟩ := Option.map_eq_some_iff.mp run
  refine ⟨newborn_start, t, ht, log, fun well => ?_⟩
  have after := (well 0).1
  rw [log] at after
  have shut : down ∈ [up, down] := by decide
  exact Protocol.not_after shut down after

/-- The user shuts the connection down, and the server is destroyed. -/
def tornDown : List ServerAct :=
  closing.take 8 ++ [.shutdown 1 0, .task 1 eof, .task 1 eof, .task 1 eof,
    .destroyServer 0 [0], .task 0 eof, .task 0 eof, .poll 1 [], .dispatch 1 true, .runFunctor 1,
    .task 1 eof]

example : (machine.exec newborn tornDown).map (fun s => (s.log 0, s.destroyed 0)) =
    some ([up], true) := by
  decide +kernel

end ServerRun
end Kenmuduo
