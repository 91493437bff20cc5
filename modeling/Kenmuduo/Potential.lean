import Mathlib.Algebra.GroupWithZero.Nat
import Kenmuduo.Transition

/-!
# Costs along a run

What the steps of a run cost in all, and sums over the threads of a system.
When no step costs more than it pays for and takes from a potential, no run does.
-/

namespace Kenmuduo.Transition

variable {σ ι : Type} {M : Machine σ ι}

/-- What the steps that the run takes cost together. -/
def Machine.spent (M : Machine σ ι) (cost : σ → ι → Nat) : σ → List ι → Nat
  | _, [] => 0
  | s, l :: ls =>
    match M.step s l with
    | some t => cost s l + M.spent cost t ls
    | none => 0

theorem Machine.spent_zero (s : σ) (ls : List ι) : M.spent (fun _ _ => 0) s ls = 0 := by
  induction ls generalizing s with
  | nil => rfl
  | cons l ls ih =>
    rw [Machine.spent]
    split
    · rw [ih]
    · rfl

/-- `Φ` pays for what the steps that meet `ok` cost beyond what they bring in. -/
theorem Machine.Steps.spent_le {ok : σ → ι → Prop} {Φ : σ → Nat} {cost pay : σ → ι → Nat}
    {I : σ → Prop} (keeps : ∀ s l t, I s → M.step s l = some t → ok s l → I t)
    (covers : ∀ s l t, I s → M.step s l = some t → ok s l → cost s l + Φ t ≤ Φ s + pay s l)
    {s t : σ} (hs : I s) {ls : List ι} (steps : M.Steps ok s ls) (h : M.exec s ls = some t) :
    M.spent cost s ls + Φ t ≤ Φ s + M.spent pay s ls := by
  induction ls generalizing s with
  | nil =>
    simp only [Machine.exec, Option.some.injEq] at h
    simp [Machine.spent, h]
  | cons l ls ih =>
    obtain ⟨u, hl, rest⟩ := Option.bind_eq_some_iff.mp h
    obtain ⟨hok, later⟩ := steps u hl
    have first := covers s l u hs hl hok
    have all := ih (keeps s l u hs hl hok) later rest
    simp only [Machine.spent, hl]
    omega

/-! ## Sums over the first `n` numbers -/

/-- The sum of `f` over the numbers below `n`. -/
def total (f : Nat → Nat) : Nat → Nat
  | 0 => 0
  | n + 1 => total f n + f n

theorem total_same {f g : Nat → Nat} {n : Nat} (same : ∀ i, i < n → g i = f i) :
    total g n = total f n := by
  induction n with
  | zero => rfl
  | succ n ih =>
    rw [total, total, same n (Nat.lt_succ_self n)]
    rw [ih fun i early => same i (Nat.lt_succ_of_lt early)]

/-- All summands but one are zero. -/
theorem total_others {f : Nat → Nat} {n k : Nat} (none : ∀ i, i < n → i ≠ k → f i = 0) :
    total f n ≤ if k < n then f k else 0 := by
  induction n with
  | zero => exact Nat.zero_le _
  | succ n ih =>
    have before := ih fun i early => none i (Nat.lt_succ_of_lt early)
    rw [total]
    by_cases last : n = k
    · subst last
      simp only [Nat.lt_irrefl, if_false] at before
      rw [if_pos (Nat.lt_succ_self n)]
      omega
    · rw [none n (Nat.lt_succ_self n) last]
      split at before
      · rw [if_pos (by omega)]
        omega
      · omega

theorem le_total {f : Nat → Nat} {n i : Nat} (bound : i < n) : f i ≤ total f n := by
  induction n with
  | zero => cases bound
  | succ n ih =>
    rw [total]
    by_cases last : i = n
    · subst last
      omega
    · have before := ih (by omega)
      omega

/-- One summand changes. -/
theorem total_change {f g : Nat → Nat} {n i : Nat} (bound : i < n)
    (same : ∀ j, j ≠ i → g j = f j) : total g n + f i = total f n + g i := by
  induction n with
  | zero => cases bound
  | succ n ih =>
    by_cases last : i = n
    · have before : total g n = total f n := by
        apply total_same
        intro j early
        exact same j (by omega)
      rw [total, total, before, last]
      omega
    · have here := ih (by omega)
      rw [total, total, same n (Ne.symm last)]
      omega

/-- One summand, in range or not, grows by at most `k`. -/
theorem total_grows {f g : Nat → Nat} {i k : Nat} (n : Nat) (same : ∀ j, j ≠ i → g j = f j)
    (grows : g i ≤ f i + k) : total g n ≤ total f n + k := by
  by_cases bound : i < n
  · have change := total_change bound same
    omega
  · have all : total g n = total f n := by
      apply total_same
      intro j early
      exact same j (by omega)
    omega

/-- The weights of lists that belong to the first `n` numbers. -/
def weighs {α : Type} (weight : α → Nat) (f : Nat → List α) (n : Nat) : Nat :=
  total (fun i => ((f i).map weight).sum) n

variable {α : Type} {weight : α → Nat} {f g : Nat → List α} {n i : Nat}

/-- One list changes. -/
theorem weighs_change (bound : i < n) (same : ∀ j, j ≠ i → g j = f j) :
    weighs weight g n + ((f i).map weight).sum = weighs weight f n + ((g i).map weight).sum := by
  apply total_change bound
  intro j other
  rw [same j other]

/-- One list, in range or not, gets another entry. -/
theorem weighs_push (n : Nat) (same : ∀ j, j ≠ i → g j = f j) {a : α} (push : g i = f i ++ [a]) :
    weighs weight g n ≤ weighs weight f n + weight a := by
  apply total_grows (i := i)
  · intro j other
    rw [same j other]
  · rw [push, List.map_append, List.sum_append]
    simp

end Kenmuduo.Transition
