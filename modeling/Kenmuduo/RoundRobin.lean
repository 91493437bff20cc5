import Mathlib.Data.Int.CardIntervalMod
import Kenmuduo.Ownership

/-!
# Whose turn it is

`getNextLoop` gives the io loops in turn. Connections come and go on any thread and
in any order, but they are accepted on the base loop and keep their loops, so at
every moment the loops have been given equally many, give or take one.
-/

namespace Kenmuduo
open Transition

/-- The next turn of `n`. -/
theorem succ_mod_turn {m n : Nat} (some : 0 < n) :
    (m + 1) % n = if n ≤ m % n + 1 then 0 else m % n + 1 := by
  have small := Nat.mod_lt m some
  have split := Nat.div_add_mod m n
  by_cases last : n ≤ m % n + 1
  · have whole : m + 1 = n * (m / n + 1) := by
      rw [Nat.mul_succ]
      omega
    rw [if_pos last, whole, Nat.mul_mod_right]
  · have part : m + 1 = n * (m / n) + (m % n + 1) := by omega
    rw [if_neg last, part, Nat.mul_add_mod, Nat.mod_eq_of_lt (Nat.lt_of_not_le last)]

/-- Of the first `m` turns, every one of `n` has as many as any other, or one less or
more. -/
theorem turns_even {m n i j : Nat} (hi : i < n) (hj : j < n) :
    Nat.count (fun k => k % n = i) m ≤ Nat.count (fun k => k % n = j) m + 1 := by
  have turns {i : Nat} (hi : i < n) :
      Nat.count (fun k => k % n = i) m = m / n + if i < m % n then 1 else 0 := by
    have whose : (fun k => k % n = i) = fun k => k ≡ i [MOD n] := by
      funext k
      rw [Nat.ModEq, Nat.mod_eq_of_lt hi]
    have counted := Nat.count_modEq_card m (Nat.zero_lt_of_lt hi) i
    rw [Nat.mod_eq_of_lt hi] at counted
    rw [← counted]
    simp only [whose]
  rw [turns hi, turns hj]
  split <;> split <;> omega

namespace ServerRun

/-- The pool has `n` io loops, and connection `k` is on the one whose turn it was. -/
structure InTurn (s : ServerRun) (n : Nat) : Prop where
  pool : ∀ server, s.server = some server →
    server.numLoops = n ∧ (0 < n → server.next = s.accepted % n)
  loops : ∀ k, k < s.accepted → (s.conn k).loop = if n = 0 then 0 else k % n + 1

/-- The loop a new connection is on, and whose turn is next. -/
theorem newConnection_turn {server : TcpServer} {accepted : Nat} (sockfd : Nat)
    (next : 0 < server.numLoops → server.next = accepted % server.numLoops) :
    (server.newConnection accepted sockfd).2.numLoops = server.numLoops ∧
      (0 < server.numLoops →
        (server.newConnection accepted sockfd).2.next = (accepted + 1) % server.numLoops) ∧
      (server.newConnection accepted sockfd).1.loop =
        if server.numLoops = 0 then 0 else accepted % server.numLoops + 1 := by
  by_cases base : server.numLoops = 0
  · simp only [TcpServer.newConnection, TcpServer.getNextLoop, base, if_true, TcpConnection.new]
    exact ⟨trivial, fun some => absurd some (Nat.lt_irrefl 0), trivial⟩
  · have some : 0 < server.numLoops := Nat.pos_of_ne_zero base
    simp only [TcpServer.newConnection, TcpServer.getNextLoop, base, if_false, TcpConnection.new,
      next some, succ_mod_turn some]
    exact ⟨trivial, fun _ => trivial, trivial⟩

/-- Nothing but an accept takes a turn. -/
theorem InTurn.rest {s t : ServerRun} {l : ServerAct} {n : Nat} (h : s.InTurn n)
    (hs : s.step l = some t) (other : ∀ sockfd, l ≠ .newConnection sockfd) : t.InTurn n := by
  have accepted : t.accepted = s.accepted := by
    obtain same | ⟨⟨sockfd, new⟩, _⟩ := step_accepted hs
    · exact same
    · exact absurd new (other sockfd)
  constructor
  · intro server now
    rw [accepted]
    cases step_serves hs with
    | same same => exact h.pool server (same ▸ now)
    | @accept _ sockfd new => exact absurd new (other sockfd)
    | erase _ _ was erased =>
      cases erased.symm.trans now
      have pool := h.pool _ was
      exact pool
    | destroyed _ _ none =>
      rw [none] at now
      cases now
  · intro k early
    rw [accepted] at early
    obtain same | ⟨⟨sockfd, new⟩, _⟩ := step_loop hs k
    · rw [same]
      exact h.loops k early
    · exact absurd new (other sockfd)

theorem InTurn.step {s t : ServerRun} {l : ServerAct} {n : Nat} (h : s.InTurn n)
    (hs : s.step l = some t) : t.InTurn n := by
  by_cases accepts : ∃ sockfd, l = .newConnection sockfd
  · obtain ⟨sockfd, rfl⟩ := accepts
    obtain ⟨server, was, conn, becomes, accepted, _⟩ := step_accepts hs
    obtain ⟨rfl, next⟩ := h.pool server was
    obtain ⟨pool, turn, loop⟩ := newConnection_turn sockfd next
    constructor
    · intro after now
      cases becomes.symm.trans now
      rw [accepted]
      exact ⟨pool, turn⟩
    · intro k early
      rw [conn]
      by_cases newest : k = s.accepted
      · rw [newest, assign_same]
        exact loop
      · rw [assign_other _ _ newest]
        exact h.loops k (by omega)
  · exact h.rest hs fun sockfd new => accepts ⟨sockfd, new⟩

end ServerRun

namespace OwnedRun

/-- How many connections the loop was given. -/
def given (s : OwnedRun) (loop : Nat) : Nat :=
  Nat.count (fun k => (s.run.conn k).loop = loop) s.run.accepted

/-- As long as the server is there its pool has `n` io loops; connection `k` is on the
base loop if there are none and on the io loop number `k mod n` otherwise, and no io loop
was given two connections more than another. -/
structure SpreadOver (n : Nat) (s : OwnedRun) : Prop where
  pool : ∀ server, s.run.server = some server → server.numLoops = n
  loops : ∀ k, k < s.run.accepted → (s.run.conn k).loop = if n = 0 then 0 else k % n + 1
  even : ∀ i j, i < n → j < n → s.given (i + 1) ≤ s.given (j + 1) + 1

theorem spread_of_turn {s : OwnedRun} {n : Nat} (turn : s.run.InTurn n) : s.SpreadOver n := by
  refine ⟨fun server there => (turn.pool server there).1, turn.loops, fun i j hi hj => ?_⟩
  have counts {i : Nat} (hi : i < n) :
      s.given (i + 1) = Nat.count (fun k => k % n = i) s.run.accepted := by
    unfold given Nat.count
    apply List.countP_congr
    intro k early
    simp only [decide_eq_true_eq, turn.loops k (List.mem_range.mp early)]
    rw [if_neg (by omega)]
    omega
  rw [counts hi, counts hj]
  exact turns_even hi hj

theorem Start.inTurn {s : OwnedRun} (h : s.Start) {server : TcpServer}
    (there : s.run.server = some server) : s.run.InTurn server.numLoops := by
  refine ⟨fun server' same => ?_, fun k early => ?_⟩
  · cases there.symm.trans same
    refine ⟨rfl, fun _ => ?_⟩
    rw [(h.threads server there).1, h.run.accepted, Nat.zero_mod]
  · rw [h.run.accepted] at early
    cases early

/-- Every run of a server keeps to the io loops it began with, in turn. -/
theorem round_robin {s : OwnedRun} (hs : s.Start) {server : TcpServer}
    (there : s.run.server = some server) (ls : List OwnerAct) :
    machine.Always (SpreadOver server.numLoops) s ls := by
  have free : machine.Steps (fun _ _ => True) s ls := .of_forall (fun _ _ _ => trivial) s
  refine free.always (I := fun s => s.run.InTurn server.numLoops) ?_ ?_ (hs.inTurn there)
  · exact fun _ turn => spread_of_turn turn
  · intro s l t turn step _
    obtain ⟨_, ⟨_, same⟩ | ⟨act, _, _, ran⟩⟩ := step_run step
    · rw [same]
      exact turn
    · exact turn.step ran

/-- A server with two io loops. -/
def paired : OwnedRun :=
  { newborn with
    run := { ServerRun.newborn with
      server := ServerRun.newborn.server.map fun server => { server with numLoops := 2 } } }

theorem paired_start : paired.Start := by
  have run : paired.run.Start :=
    ⟨⟨_, rfl, rfl⟩, rfl, fun _ => rfl, fun _ => rfl, fun _ => rfl, fun _ => rfl, fun _ => rfl⟩
  refine ⟨run, fun server hs => ?_, fun _ _ => rfl, fun _ => rfl, fun _ => rfl,
    fun _ => rfl, fun _ => rfl, rfl⟩
  cases hs
  exact ⟨rfl, by decide⟩

/-- The base loop polls and accepts a connection. -/
def oneMore : List OwnerAct :=
  [.poll 0 [] true, .server (.newConnection 7), .server (.task 0 ServerRun.eof),
    .server (.dispatch 0 true), .server (.runFunctor 0)]

theorem round_robin_three :
    machine.Always (SpreadOver 2) paired (oneMore ++ oneMore ++ oneMore) ∧
      (machine.exec paired (oneMore ++ oneMore ++ oneMore)).map
        (fun s => (s.given 1, s.given 2)) = some (2, 1) :=
  ⟨round_robin paired_start rfl _, by decide +kernel⟩

end OwnedRun
end Kenmuduo
