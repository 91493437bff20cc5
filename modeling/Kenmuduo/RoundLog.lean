import Kenmuduo.BatchLog

/-!
# A log consumed in rounds

A consumer that cuts off one batch of the log in every round: it enters a round when
the last batch is done, and cuts once before it enters the next one. Each push and
each run of an entry is stamped with the number of rounds entered by then.

* `timely`: no entry sees more than one round entered before it runs.
-/

namespace Kenmuduo
open Transition

structure RoundLog (α : Type) where
  log : BatchLog α
  rounds : Nat
  /-- The cut of the round is still to come. -/
  collects : Bool
  born : List Nat
  began : List Nat

namespace RoundLog
variable {α : Type}

def push (r : RoundLog α) (x : α) : RoundLog α :=
  { r with log := r.log.push x, born := r.born ++ [r.rounds] }

def enter (r : RoundLog α) : RoundLog α := { r with rounds := r.rounds + 1, collects := true }

def cut (r : RoundLog α) : RoundLog α := { r with log := r.log.cut, collects := false }

def run (r : RoundLog α) : Option (RoundLog α) :=
  r.log.run.map fun log => { r with log := log, began := r.began ++ [r.rounds] }

inductive Act (α : Type)
  | push (x : α)
  | enter
  | cut
  | run

/-- The log is empty, in any round. -/
structure Start (r : RoundLog α) : Prop where
  log : r.log = .empty
  born : r.born = []
  began : r.began = []

def machine : Machine (RoundLog α) (Act α) where
  start := Start
  step r
    | .push x => some (r.push x)
    | .enter => if r.log.done = r.log.mark ∧ r.collects = false then some r.enter else none
    | .cut => if r.log.done = r.log.mark then some r.cut else none
    | .run => r.run

/-- What the stamps show. An entry that has not run has seen one round at most, and
none if it came after the cut of the last round. -/
structure Timely (r : RoundLog α) : Prop where
  born : r.born.length = r.log.log.length
  began : r.began.length = r.log.done
  past : ∀ k b : Nat, r.born[k]? = some b → b ≤ r.rounds
  run : ∀ k b e : Nat, r.born[k]? = some b → r.began[k]? = some e → b ≤ e ∧ e ≤ b + 1
  waiting : ∀ k b : Nat, r.log.done ≤ k → r.born[k]? = some b → r.rounds ≤ b + 1
  later : r.collects = false → ∀ k b : Nat, r.log.mark ≤ k → r.born[k]? = some b → r.rounds ≤ b

/-- An entry of a list that grew by one. -/
theorem getElem_concat {xs : List Nat} {x b k : Nat} (h : (xs ++ [x])[k]? = some b) :
    xs[k]? = some b ∨ k = xs.length ∧ b = x := by
  rw [List.getElem?_append] at h
  split at h
  · exact .inl h
  · rename_i last
    rw [List.getElem?_singleton] at h
    split at h
    · cases h
      exact .inr ⟨by omega, rfl⟩
    · cases h

theorem Start.timely {r : RoundLog α} (h : r.Start) : r.Timely := by
  have none_ (k b : Nat) (found : r.born[k]? = some b) : False := by
    rw [h.born, List.getElem?_nil] at found
    cases found
  constructor
  · rw [h.born, h.log]
    rfl
  · rw [h.began, h.log]
    rfl
  · exact fun k b found => (none_ k b found).elim
  · exact fun k b e found => (none_ k b found).elim
  · exact fun k b late found => (none_ k b found).elim
  · exact fun _ k b late found => (none_ k b found).elim

theorem Timely.push {r : RoundLog α} (h : r.Timely) (x : α) : (r.push x).Timely := by
  constructor
  · simp only [RoundLog.push, BatchLog.push_log, List.length_append, h.born, List.length_singleton]
  · exact h.began
  · intro k b found
    obtain old | ⟨_, rfl⟩ := getElem_concat found
    · exact h.past k b old
    · exact Nat.le_refl _
  · intro k b e found begun
    obtain old | ⟨last, _⟩ := getElem_concat found
    · exact h.run k b e old begun
    · have short : k < r.began.length := (List.getElem?_eq_some_iff.mp begun).1
      have inside := Nat.le_trans r.log.done_le r.log.mark_le
      rw [← h.born, ← h.began] at inside
      omega
  · intro k b late found
    obtain old | ⟨_, rfl⟩ := getElem_concat found
    · exact h.waiting k b late old
    · exact Nat.le_succ _
  · intro after k b late found
    obtain old | ⟨_, rfl⟩ := getElem_concat found
    · exact h.later after k b late old
    · exact Nat.le_refl _

/-- What is not cut off yet came after the last cut. -/
theorem Timely.enter {r : RoundLog α} (h : r.Timely) (finished : r.log.done = r.log.mark)
    (after : r.collects = false) : r.enter.Timely := by
  refine ⟨h.born, h.began, ?_, h.run, ?_, fun no => nomatch no⟩
  · exact fun k b found => Nat.le_succ_of_le (h.past k b found)
  · intro k b late found
    apply Nat.succ_le_succ
    apply h.later after k b ?_ found
    rw [← finished]
    exact late

theorem Timely.cut {r : RoundLog α} (h : r.Timely) : r.cut.Timely := by
  refine ⟨h.born, h.began, h.past, h.run, h.waiting, ?_⟩
  intro _ k b late found
  have short : k < r.born.length := (List.getElem?_eq_some_iff.mp found).1
  have late : r.log.log.length ≤ k := late
  rw [h.born] at short
  omega

theorem Timely.next {r t : RoundLog α} (h : r.Timely) (hr : r.run = some t) : t.Timely := by
  obtain ⟨log, ran, rfl⟩ := Option.map_eq_some_iff.mp hr
  unfold BatchLog.run at ran
  split at ran
  · cases ran
    refine ⟨h.born, ?_, h.past, ?_, ?_, h.later⟩
    · simp only [List.length_append, h.began, List.length_singleton]
    · intro k b e found begun
      obtain old | ⟨last, rfl⟩ := getElem_concat begun
      · exact h.run k b e found old
      · exact ⟨h.past k b found, h.waiting k b (Nat.le_of_eq (last.trans h.began).symm) found⟩
    · intro k b late found
      exact h.waiting k b (Nat.le_of_succ_le late) found
  · cases ran

/-- Of the rounds at most one is entered between the push of an entry and its run. -/
theorem timely {r : RoundLog α} (h : machine.Reachable r) : r.Timely := by
  apply h.invariant
  · exact fun _ start => Start.timely start
  · intro r l t timely hs
    cases l with
    | push x =>
      cases hs
      exact timely.push x
    | enter =>
      simp only [machine, Option.ite_none_right_eq_some, Option.some.injEq] at hs
      obtain ⟨⟨finished, after⟩, rfl⟩ := hs
      exact timely.enter finished after
    | cut =>
      simp only [machine, Option.ite_none_right_eq_some, Option.some.injEq] at hs
      obtain ⟨_, rfl⟩ := hs
      exact timely.cut
    | run => exact timely.next hs

/-- Entries are pushed one after the other in one round. -/
theorem pushes (r : RoundLog α) (more : List α) :
    ∃ u, machine.exec r (more.map .push) = some u ∧ u.log.log = r.log.log ++ more ∧
      u.log.executed = r.log.executed ∧ u.log.batch = r.log.batch ∧
      u.log.pending = r.log.pending ++ more ∧ u.rounds = r.rounds ∧ u.collects = r.collects ∧
      u.born = r.born ++ more.map (fun _ => r.rounds) ∧ u.began = r.began := by
  induction more generalizing r with
  | nil => exact ⟨r, by simp [Machine.exec]⟩
  | cons x more ih =>
    obtain ⟨u, pushed, log, executed, batch, pending, rounds, collects, born, began⟩ :=
      ih (r.push x)
    refine ⟨u, pushed, ?_, executed.trans (r.log.push_executed x), batch.trans (r.log.push_batch x),
      ?_, rounds, collects, ?_, began⟩
    · rw [log]
      simp [push]
    · rw [pending]
      simp [push]
    · rw [born]
      simp [push]

end RoundLog
end Kenmuduo
