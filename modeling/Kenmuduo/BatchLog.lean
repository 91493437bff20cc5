import Kenmuduo.Transition

/-!
# A log consumed in batches

Entries are appended at the end of a log. A consumer cuts off everything that
is there, once what it cut off before is done, and then works through it from
the front. The order of the two positions is part of the value.

* `parts`: what is done, the rest of the batch and what is pending are the log;
* `executed_in_order`, `pending_not_executed`: the consumer sees the log in its
  order, and nothing that came after the last cut.
-/

namespace Kenmuduo
open Transition

structure BatchLog (α : Type) where
  log : List α
  done : Nat
  mark : Nat
  done_le : done ≤ mark
  mark_le : mark ≤ log.length

namespace BatchLog
variable {α : Type}

def empty : BatchLog α := ⟨[], 0, 0, Nat.le_refl _, Nat.le_refl _⟩

def push (b : BatchLog α) (x : α) : BatchLog α :=
  { b with
    log := b.log ++ [x]
    mark_le := by
      have := b.mark_le
      simp only [List.length_append, List.length_cons, List.length_nil]
      omega }

/-- Take all there is as the next batch. -/
def cut (b : BatchLog α) : BatchLog α :=
  { b with
    mark := b.log.length
    done_le := Nat.le_trans b.done_le b.mark_le
    mark_le := Nat.le_refl _ }

/-- The next entry of the batch is done, when there is one. -/
def run (b : BatchLog α) : Option (BatchLog α) :=
  if h : b.done < b.mark then some { b with done := b.done + 1, done_le := h } else none

def executed (b : BatchLog α) : List α := b.log.take b.done

def batch (b : BatchLog α) : List α := (b.log.take b.mark).drop b.done

def pending (b : BatchLog α) : List α := b.log.drop b.mark

theorem parts (b : BatchLog α) : b.executed ++ b.batch ++ b.pending = b.log := by
  have split := List.take_append_drop b.done (b.log.take b.mark)
  rw [List.take_take, Nat.min_eq_left b.done_le] at split
  rw [executed, batch, split, pending, List.take_append_drop]

theorem executed_in_order (b : BatchLog α) : b.executed <+: b.log := List.take_prefix _ _

theorem batch_length (b : BatchLog α) : b.batch.length = b.mark - b.done := by
  have := b.mark_le
  simp only [batch, List.length_drop, List.length_take]
  omega

theorem batch_nil_iff (b : BatchLog α) : b.batch = [] ↔ b.done = b.mark := by
  have := b.done_le
  rw [← List.length_eq_zero_iff, b.batch_length]
  omega

/-- A finished batch ends where it was cut off. -/
theorem executed_of_batch_nil (b : BatchLog α) (h : b.batch = []) :
    b.executed = b.log.take b.mark := by
  rw [executed, b.batch_nil_iff.mp h]

/-- In a log without repetitions nothing pending is done. -/
theorem pending_not_executed (b : BatchLog α) (nodup : b.log.Nodup) :
    ∀ x ∈ b.pending, x ∉ b.executed := by
  intro x later before
  rw [← b.parts] at nodup
  have apart := (List.nodup_append.mp nodup).2.2
  exact apart x (List.mem_append_left _ before) x later rfl

@[simp] theorem push_log (b : BatchLog α) (x : α) : (b.push x).log = b.log ++ [x] := rfl
@[simp] theorem push_mark (b : BatchLog α) (x : α) : (b.push x).mark = b.mark := rfl
@[simp] theorem cut_log (b : BatchLog α) : b.cut.log = b.log := rfl
@[simp] theorem cut_mark (b : BatchLog α) : b.cut.mark = b.log.length := rfl

@[simp] theorem push_executed (b : BatchLog α) (x : α) : (b.push x).executed = b.executed := by
  simp only [executed, push]
  rw [List.take_append_of_le_length (Nat.le_trans b.done_le b.mark_le)]

@[simp] theorem push_batch (b : BatchLog α) (x : α) : (b.push x).batch = b.batch := by
  simp only [batch, push]
  rw [List.take_append_of_le_length b.mark_le]

@[simp] theorem push_pending (b : BatchLog α) (x : α) : (b.push x).pending = b.pending ++ [x] := by
  simp only [pending, push]
  rw [List.drop_append_of_le_length b.mark_le]

@[simp] theorem cut_executed (b : BatchLog α) : b.cut.executed = b.executed := rfl

@[simp] theorem cut_pending (b : BatchLog α) : b.cut.pending = [] := List.drop_length

theorem cut_batch (b : BatchLog α) (h : b.batch = []) : b.cut.batch = b.pending := by
  simp only [batch, cut, pending, List.take_length]
  rw [b.batch_nil_iff.mp h]

theorem run_cons (b : BatchLog α) {x : α} {rest : List α} (h : b.batch = x :: rest) :
    ∃ c, b.run = some c ∧ c.log = b.log ∧ c.mark = b.mark ∧ c.pending = b.pending ∧
      c.batch = rest ∧ c.executed = b.executed ++ [x] := by
  have inside : b.done < b.mark := by
    have := b.batch_length
    rw [h, List.length_cons] at this
    omega
  refine ⟨{ b with done := b.done + 1, done_le := inside }, by simp [run, inside], rfl, rfl, rfl,
    ?_, ?_⟩
  · have tail := congrArg List.tail h
    simpa only [batch, List.tail_drop, List.tail_cons] using tail
  · have at_done : b.log[b.done]? = some x := by
      have head := congrArg List.head? h
      simpa [batch, List.head?_drop, List.getElem?_take, inside] using head
    simp only [executed, List.take_add_one, at_done, Option.toList_some]

inductive Act (α : Type)
  | push (x : α)
  | cut
  | run

/-- Any pushes, with the consumer's steps in their order. -/
def machine : Machine (BatchLog α) (Act α) where
  start b := b = empty
  step b
    | .push x => some (b.push x)
    | .cut => if b.done = b.mark then some b.cut else none
    | .run => b.run

end BatchLog
end Kenmuduo
