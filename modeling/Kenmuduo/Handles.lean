/-!
# Handles that are taken, freed and taken again

A history of handles whose numbers are used again once they are free, and the
account of each taking: its handle is with one owner, or was freed once.
-/

namespace Kenmuduo.Handles

inductive Event (κ : Type)
  | taken (k : κ)
  | freed (k : κ)
  deriving DecidableEq, Repr

variable {κ : Type} [DecidableEq κ]

/-- How often the handle is freed before it is taken again. -/
def frees (k : κ) : List (Event κ) → Nat
  | [] => 0
  | .taken j :: rest => if j = k then 0 else frees k rest
  | .freed j :: rest => (if j = k then 1 else 0) + frees k rest

/-- Every handle that was taken has one owner or was freed once before it was
taken again; `owners` counts the owners at the end of the history. -/
def Accounted (owners : κ → Nat) : List (Event κ) → Prop
  | [] => True
  | .taken k :: rest =>
    frees k rest + (if .taken k ∈ rest then 0 else owners k) = 1 ∧ Accounted owners rest
  | .freed _ :: rest => Accounted owners rest

instance Accounted.decidable (owners : κ → Nat) : ∀ l, Decidable (Accounted owners l)
  | [] => isTrue trivial
  | .taken k :: rest =>
    have : Decidable (Accounted owners rest) := Accounted.decidable owners rest
    inferInstanceAs (Decidable
      (frees k rest + (if .taken k ∈ rest then 0 else owners k) = 1 ∧ Accounted owners rest))
  | .freed _ :: rest => Accounted.decidable owners rest

theorem accounted_iff {owners : κ → Nat} {l : List (Event κ)} : Accounted owners l ↔
    ∀ before k after, l = before ++ .taken k :: after →
      frees k after + (if .taken k ∈ after then 0 else owners k) = 1 := by
  induction l with
  | nil =>
    constructor
    · intro _ before k after split
      cases before <;> cases split
    · intro _
      trivial
  | cons e rest ih =>
    constructor
    · intro accounted before k after split
      cases before with
      | nil =>
        obtain ⟨rfl, rfl⟩ := List.cons.inj split
        exact accounted.1
      | cons first before =>
        obtain ⟨rfl, rest_split⟩ := List.cons.inj split
        cases e with
        | taken j => exact ih.mp accounted.2 before k after rest_split
        | freed j => exact ih.mp accounted before k after rest_split
    · intro all
      have later : Accounted owners rest := by
        apply ih.mpr
        intro before k after split
        exact all (e :: before) k after (by rw [split, List.cons_append])
      cases e with
      | taken k => exact ⟨all [] k rest rfl, later⟩
      | freed k => exact later

/-! ## One more event -/

theorem frees_eq_zero {k : κ} {l : List (Event κ)} (never : .freed k ∉ l) : frees k l = 0 := by
  induction l with
  | nil => rfl
  | cons e rest ih =>
    rw [List.mem_cons, not_or] at never
    obtain ⟨other, later⟩ := never
    cases e with
    | taken j => simp [frees, ih later]
    | freed j =>
      have apart : j ≠ k := by
        rintro rfl
        exact other rfl
      simp [frees, apart, ih later]

theorem frees_append_taken (k j : κ) (l : List (Event κ)) :
    frees k (l ++ [.taken j]) = frees k l := by
  induction l with
  | nil => simp [frees]
  | cons e rest ih => cases e <;> simp [frees, ih]

theorem frees_append_freed (k j : κ) (l : List (Event κ)) :
    frees k (l ++ [.freed j]) = frees k l + if j = k ∧ .taken k ∉ l then 1 else 0 := by
  induction l with
  | nil => simp [frees]
  | cons e rest ih =>
    cases e with
    | taken i =>
      by_cases same : i = k
      · simp [frees, same]
      · have other : k ≠ i := fun h => same h.symm
        simp [frees, ih, same, other]
    | freed i =>
      simp [frees, ih]
      omega

/-- A handle that nobody owns is taken, and gets its owner. -/
theorem Accounted.taken {owners owners' : κ → Nat} {l : List (Event κ)} {j : κ}
    (h : Accounted owners l) (unowned : owners j = 0) (own : owners' j = 1)
    (same : ∀ k, k ≠ j → owners' k = owners k) : Accounted owners' (l ++ [.taken j]) := by
  induction l with
  | nil => simp [Accounted, frees, own]
  | cons e rest ih =>
    cases e with
    | freed k => exact ih h
    | taken k =>
      obtain ⟨balance, later⟩ := h
      rw [List.cons_append]
      refine ⟨?_, ih later⟩
      rw [frees_append_taken]
      by_cases again : k = j
      · subst again
        simp only [unowned, ite_self, Nat.add_zero] at balance
        simp [balance]
      · rw [same k again]
        simpa [again] using balance

/-- One owner of a handle frees it and gives it up. -/
theorem Accounted.freed {owners owners' : κ → Nat} {l : List (Event κ)} {j : κ}
    (h : Accounted owners l) (given : ∀ k, owners k = owners' k + if j = k then 1 else 0) :
    Accounted owners' (l ++ [.freed j]) := by
  induction l with
  | nil => trivial
  | cons e rest ih =>
    cases e with
    | freed k => exact ih h
    | taken k =>
      obtain ⟨balance, later⟩ := h
      rw [List.cons_append]
      refine ⟨?_, ih later⟩
      rw [frees_append_freed]
      by_cases again : .taken k ∈ rest
      · simpa [again] using balance
      · have rule := given k
        simp only [again, if_false] at balance
        simp only [List.mem_append, again, List.mem_singleton, reduceCtorEq, or_self, if_false,
          not_false_eq_true, and_true]
        omega

/-- Owners free their handles one after the other. -/
theorem Accounted.freedAll {owners owners' : κ → Nat} {l : List (Event κ)} {ks : List κ}
    (h : Accounted owners l) (given : ∀ k, owners k = owners' k + ks.count k) :
    Accounted owners' (l ++ ks.map .freed) := by
  induction ks generalizing owners l with
  | nil =>
    have same : owners = owners' := funext given
    rw [List.map_nil, List.append_nil, ← same]
    exact h
  | cons j ks ih =>
    have first : Accounted (fun k => owners' k + ks.count k) (l ++ [.freed j]) := by
      apply h.freed
      intro k
      rw [given k, List.count_cons, Nat.add_assoc]
      simp only [beq_iff_eq]
    have all := ih first fun k => rfl
    rwa [List.append_assoc, List.singleton_append] at all

end Kenmuduo.Handles
