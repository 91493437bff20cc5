/-!
# Bounded storage with checked access

A vector of at most `cap` cells. Every load and store is checked against the
current size, so a computation that touches a cell outside the storage has no
result.

* `copyFrom` copies in from memory outside the storage, `copyWithin` moves
  cells of the storage forward through it, one cell at a time from the front;
* `copyFrom_cells`, `copyWithin_cells`: inside the bounds both have the result
  of a simultaneous copy, the second one also when the ranges overlap, as long
  as the destination does not start after the source.
-/

namespace Kenmuduo

/-! ## Computations that can fail -/

section
variable {ε α β : Type}

/-- The result of an operation that has none when it fails with `e`. -/
def orFault (e : ε) : Option α → Except ε α
  | some a => .ok a
  | none => .error e

@[simp] theorem orFault_some (e : ε) (a : α) : orFault e (some a) = .ok a := rfl

@[simp] theorem orFault_none (e : ε) : orFault e (none : Option α) = .error e := rfl

@[simp] theorem ok_bind (a : α) (f : α → Except ε β) : (Except.ok a >>= f) = f a := rfl

@[simp] theorem error_bind (e : ε) (f : α → Except ε β) :
    (Except.error e >>= f) = .error e := rfl

@[simp] theorem pure_ok (a : α) : (pure a : Except ε α) = .ok a := rfl

@[simp] theorem ok_map (a : α) (f : α → β) : (Except.ok a : Except ε α).map f = .ok (f a) := rfl

@[simp] theorem error_map (e : ε) (f : α → β) :
    (Except.error e : Except ε α).map f = .error e := rfl

theorem bind_ok_iff {x : Except ε α} {f : α → Except ε β} {b : β} :
    (x >>= f) = .ok b ↔ ∃ a, x = .ok a ∧ f a = .ok b := by
  cases x with
  | error e => simp
  | ok a => simp

/-- What neither part of a computation fails with, it does not fail with. -/
theorem bind_ne_error {x : Except ε α} {f : α → Except ε β} {e : ε} (hx : x ≠ .error e)
    (hf : ∀ a, x = .ok a → f a ≠ .error e) : (x >>= f) ≠ .error e := by
  cases x with
  | error other => exact fun fails => hx (by simpa using fails)
  | ok a => exact hf a rfl

theorem orFault_ne_error {e other : ε} (o : Option α) (ne : e ≠ other) :
    orFault e o ≠ .error other := by
  cases o with
  | none => simpa using ne
  | some a => simp

theorem map_ok_iff {x : Except ε α} {f : α → β} {b : β} :
    x.map f = .ok b ↔ ∃ a, x = .ok a ∧ f a = b := by
  cases x with
  | error e => simp
  | ok a => simp

end

/-! ## Memory outside the storage -/

/-- Memory read through a pointer: the cell at each offset from it. -/
abbrev Pointer (α : Type) := Nat → α

/-- The pointer `k` cells further on. -/
def Pointer.shift {α : Type} (p : Pointer α) (k : Nat) : Pointer α := fun i => p (k + i)

/-- The first `n` cells at a pointer. -/
def Pointer.cells {α : Type} (p : Pointer α) (n : Nat) : List α := (List.range n).map p

@[simp] theorem Pointer.cells_length {α : Type} (p : Pointer α) (n : Nat) :
    (p.cells n).length = n := by simp [Pointer.cells]

@[simp] theorem Pointer.shift_zero {α : Type} (p : Pointer α) : p.shift 0 = p := by
  funext i
  simp [Pointer.shift]

theorem Pointer.cells_succ {α : Type} (p : Pointer α) (n : Nat) :
    p.cells (n + 1) = p 0 :: (p.shift 1).cells n := by
  simp only [Pointer.cells, List.range_succ_eq_map, List.map_cons, List.map_map]
  congr 1
  apply List.map_congr_left
  intro i _
  simp only [Function.comp_apply, Pointer.shift, Nat.succ_eq_add_one, Nat.add_comm]

theorem Pointer.cells_add {α : Type} (p : Pointer α) (k n : Nat) :
    p.cells (k + n) = p.cells k ++ (p.shift k).cells n := by
  simp only [Pointer.cells, List.range_add, List.map_append, List.map_map]
  rfl

/-- The pointer to the first cell of a list, with `fill` behind it. -/
def Pointer.ofList {α : Type} (xs : List α) (fill : α) : Pointer α := fun i => xs.getD i fill

theorem Pointer.ofList_cells {α : Type} {xs : List α} {fill : α} {n : Nat} (h : n ≤ xs.length) :
    (Pointer.ofList xs fill).cells n = xs.take n := by
  apply List.ext_getElem
  · rw [Pointer.cells_length, List.length_take, Nat.min_eq_left h]
  · intro i inside _
    rw [Pointer.cells_length] at inside
    have hi : i < xs.length := Nat.lt_of_lt_of_le inside h
    simp only [Pointer.cells, Pointer.ofList, List.getElem_map, List.getElem_range,
      List.getElem_take, List.getD_eq_getElem?_getD, List.getElem?_eq_getElem hi,
      Option.getD_some]

/-! ## The storage -/

/-- At most `cap` cells; the bound is part of the value. -/
structure Storage (α : Type) (cap : Nat) where
  cells : List α
  fits : cells.length ≤ cap
  deriving DecidableEq, Repr

namespace Storage
variable {α : Type} {cap : Nat}

@[ext] theorem ext {u v : Storage α cap} (h : u.cells = v.cells) : u = v := by
  cases u; cases v; cases h; rfl

def size (v : Storage α cap) : Nat := v.cells.length

theorem size_le (v : Storage α cap) : v.size ≤ cap := v.fits

/-- The cell at `i`, when there is one. -/
def load (v : Storage α cap) (i : Nat) : Option α := v.cells[i]?

/-- Overwrite the cell at `i`, when there is one. -/
def store (v : Storage α cap) (i : Nat) (x : α) : Option (Storage α cap) :=
  if i < v.size then some ⟨v.cells.set i x, by simpa using v.fits⟩ else none

/-- The `n` cells from `i` on, when all of them exist. -/
def slice (v : Storage α cap) (i n : Nat) : Option (List α) :=
  if i + n ≤ v.size then some ((v.cells.drop i).take n) else none

/-- Cut to `n` cells, or extend to `n` with `fill`; fails beyond `cap`. -/
def resize (v : Storage α cap) (n : Nat) (fill : α) : Option (Storage α cap) :=
  if h : n ≤ cap then
    some ⟨v.cells.take n ++ List.replicate (n - v.size) fill, by
      simp only [List.length_append, List.length_take, List.length_replicate, size]
      omega⟩
  else none

/-- Copy `n` cells from memory to the cells from `d` on, front to back. -/
def copyFrom (v : Storage α cap) (d : Nat) (src : Pointer α) : Nat → Option (Storage α cap)
  | 0 => some v
  | n + 1 => (v.store d (src 0)).bind fun v => v.copyFrom (d + 1) (src.shift 1) n

/-- Copy `n` cells from `s` on to the cells from `d` on, front to back. -/
def copyWithin (v : Storage α cap) (d s : Nat) : Nat → Option (Storage α cap)
  | 0 => some v
  | n + 1 => (v.load s).bind fun x => (v.store d x).bind fun v => v.copyWithin (d + 1) (s + 1) n

theorem store_inside (v : Storage α cap) {i : Nat} (x : α) (h : i < v.size) :
    ∃ w, v.store i x = some w ∧ w.cells = v.cells.set i x := by
  simp [store, h]

theorem slice_inside (v : Storage α cap) {i n : Nat} (h : i + n ≤ v.size) :
    v.slice i n = some ((v.cells.drop i).take n) := by
  simp [slice, h]

theorem resize_inside (v : Storage α cap) {n : Nat} (fill : α) (h : n ≤ cap) :
    ∃ w, v.resize n fill = some w ∧
      w.cells = v.cells.take n ++ List.replicate (n - v.size) fill := by
  simp [resize, h]

theorem resize_beyond (v : Storage α cap) {n : Nat} (fill : α) (h : cap < n) :
    v.resize n fill = none := by
  simp [resize, show ¬ n ≤ cap by omega]

theorem copyFrom_cells (v : Storage α cap) (d : Nat) (src : Pointer α) (n : Nat)
    (h : d + n ≤ v.size) :
    ∃ w, v.copyFrom d src n = some w ∧
      w.cells = v.cells.take d ++ src.cells n ++ v.cells.drop (d + n) := by
  induction n generalizing v d src with
  | zero => exact ⟨v, rfl, by simp [Pointer.cells]⟩
  | succ n ih =>
    obtain ⟨u, hu, cells⟩ := v.store_inside (src 0) (show d < v.size by omega)
    have hsize : u.size = v.size := by simp [size, cells]
    obtain ⟨w, hw, result⟩ := ih u (d + 1) (src.shift 1) (by omega)
    refine ⟨w, by simp [copyFrom, hu, hw], ?_⟩
    have hd : d < v.cells.length := by simp only [size] at h; omega
    rw [result, cells, Pointer.cells_succ, List.take_set, List.drop_set]
    rw [List.take_add_one, List.getElem?_eq_getElem hd]
    simp only [Option.toList_some, List.set_append, List.length_take,
      Nat.min_eq_left (Nat.le_of_lt hd), Nat.lt_irrefl, ↓reduceIte, Nat.sub_self,
      List.set_cons_zero, show d < d + 1 + n by omega]
    simp [Nat.add_comm, Nat.add_left_comm]

theorem copyFrom_outside (v : Storage α cap) (d : Nat) (src : Pointer α) (n : Nat)
    (h : v.size < d + n) (hn : 0 < n) : v.copyFrom d src n = none := by
  induction n generalizing v d src with
  | zero => omega
  | succ n ih =>
    by_cases hd : d < v.size
    · obtain ⟨u, hu, cells⟩ := v.store_inside (src 0) hd
      have hsize : u.size = v.size := by simp [size, cells]
      simp only [copyFrom, hu, Option.bind_some]
      exact ih u (d + 1) (src.shift 1) (by omega) (by omega)
    · simp [copyFrom, store, hd]

/-- A forward copy to an earlier place reads every cell before it is
overwritten, so overlapping ranges do not matter. -/
theorem copyWithin_cells (v : Storage α cap) (d s n : Nat) (hds : d ≤ s) (h : s + n ≤ v.size) :
    ∃ w, v.copyWithin d s n = some w ∧
      w.cells = v.cells.take d ++ (v.cells.drop s).take n ++ v.cells.drop (d + n) := by
  induction n generalizing v d s with
  | zero => exact ⟨v, rfl, by simp⟩
  | succ n ih =>
    have hs : s < v.cells.length := by simp only [size] at h; omega
    have hload : v.load s = some v.cells[s] := by simp [load, hs]
    obtain ⟨u, hu, cells⟩ := v.store_inside v.cells[s] (show d < v.size by omega)
    have hsize : u.size = v.size := by simp [size, cells]
    obtain ⟨w, hw, result⟩ := ih u (d + 1) (s + 1) (by omega) (by omega)
    refine ⟨w, by simp [copyWithin, hload, hu, hw], ?_⟩
    have hd : d < v.cells.length := by omega
    have moved : u.cells.drop (s + 1) = v.cells.drop (s + 1) := by
      rw [cells, List.drop_set, if_pos (by omega)]
    rw [result, moved, cells, List.take_set, List.drop_set,
      List.take_add_one, List.getElem?_eq_getElem hd, List.drop_eq_getElem_cons hs]
    simp only [Option.toList_some, List.set_append, List.length_take,
      Nat.min_eq_left (Nat.le_of_lt hd), Nat.lt_irrefl, ↓reduceIte, Nat.sub_self,
      List.set_cons_zero, show d < d + 1 + n by omega, List.take_succ_cons]
    simp [Nat.add_comm, Nat.add_left_comm]

end Storage
end Kenmuduo
