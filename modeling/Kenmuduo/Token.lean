/-!
# One token for each key

Every key has at most one token, which is at one of many places or spent. A
state shows its tokens by how many of each key's are at each place.
-/

namespace Kenmuduo.Token

variable {π κ : Type} [DecidableEq π] {count count' : π → κ → Nat} {place : κ → Option π}

/-- The tokens a state shows are those of `place`. -/
def Held (count : π → κ → Nat) (place : κ → Option π) : Prop :=
  ∀ k p, count p k = if place k = some p then 1 else 0

theorem Held.spent (h : Held count place) {k : κ} (gone : place k = none) (p : π) :
    count p k = 0 := by
  rw [h, gone, if_neg (by simp)]

theorem Held.at_place (h : Held count place) {k : κ} {p : π} (here : 0 < count p k) :
    place k = some p := by
  by_cases hp : place k = some p
  · exact hp
  · rw [h, if_neg hp] at here
    cases here

theorem Held.same (h : Held count place) (counts : ∀ p k, count' p k = count p k) :
    Held count' place := fun k p => (counts p k).trans (h k p)

/-- One key's token is issued or spent. -/
theorem Held.set [DecidableEq κ] (h : Held count place) (k : κ) (target : Option π)
    (now : ∀ p, count' p k = if target = some p then 1 else 0)
    (others : ∀ j, j ≠ k → ∀ p, count' p j = count p j) :
    Held count' fun j => if j = k then target else place j := by
  intro j p
  by_cases hj : j = k
  · subst hj
    rw [now]
    simp
  · rw [others j hj, h]
    simp [hj]

/-- A place hands some of its tokens to another one. -/
theorem Held.move (h : Held count place) {p q : π} (apart : p ≠ q) (moved : κ → Nat)
    (source : ∀ k, count' p k + moved k = count p k)
    (target : ∀ k, count' q k = count q k + moved k)
    (others : ∀ r, r ≠ p → r ≠ q → ∀ k, count' r k = count r k) :
    Held count' fun k => if moved k = 0 then place k else some q := by
  intro k r
  have source := source k
  have target := target k
  by_cases none : moved k = 0
  · rw [none, Nat.add_zero] at source target
    simp only [none, if_true]
    by_cases hp : r = p
    · rw [hp, source, h]
    by_cases hq : r = q
    · rw [hq, target, h]
    · rw [others r hp hq k, h]
  · have here : place k = some p := h.at_place (by omega)
    rw [h, if_pos here] at source
    rw [h, here, if_neg (by simpa using apart)] at target
    simp only [none, if_false]
    by_cases hp : r = p
    · rw [hp, if_neg (by simpa using apart.symm)]
      omega
    by_cases hq : r = q
    · rw [hq, if_pos rfl]
      omega
    · rw [others r hp hq k, h, here, if_neg (by simpa using Ne.symm hp),
        if_neg (by simpa using Ne.symm hq)]

end Kenmuduo.Token
