/-!
# Machines, runs and what holds along them

A machine is a guarded, executable step: `step s l = none` when the label `l`
is not enabled in `s`. All nondeterminism sits in the labels.

* `Reachable.invariant`: what holds at the start and survives a step holds in
  every reachable state;
* `ReachableBy.invariant`: the same for the runs whose steps all meet a
  condition;
* `tries_iff_tries`, `steps_iff_steps`: when two conditions on a step agree, a
  run tries, or takes, only steps that meet the one iff it does so for the other;
* `always_iff_steps`: when a condition is exactly what one step needs, a run
  keeps a property throughout iff all its steps meet the condition;
* `Machine.steps_or_lost`: when a step that does not meet a condition leads
  where no step leads out of, a run either meets the condition or ends there;
* `Simulation.reachable`: a simulation carries runs of one machine to runs of
  another;
* `Machine.watched`: a machine with a record of its steps.
-/

namespace Kenmuduo.Transition

structure Machine (σ ι : Type) where
  start : σ → Prop
  step : σ → ι → Option σ

variable {σ ι τ κ : Type} {M : Machine σ ι} {N : Machine τ κ}

/-- The state after the labels, `none` if one of them is not enabled. -/
def Machine.exec (M : Machine σ ι) : σ → List ι → Option σ
  | s, [] => some s
  | s, l :: ls => (M.step s l).bind fun t => M.exec t ls

inductive Machine.Reachable (M : Machine σ ι) : σ → Prop
  | start {s} : M.start s → M.Reachable s
  | next {s t} (l : ι) : M.Reachable s → M.step s l = some t → M.Reachable t

/-- Reachable by steps that all meet `ok`. -/
inductive Machine.ReachableBy (M : Machine σ ι) (ok : σ → ι → Prop) : σ → Prop
  | start {s} : M.start s → M.ReachableBy ok s
  | next {s t} (l : ι) : M.ReachableBy ok s → ok s l → M.step s l = some t →
      M.ReachableBy ok t

theorem Machine.Reachable.invariant {I : σ → Prop} (init : ∀ s, M.start s → I s)
    (step : ∀ s l t, I s → M.step s l = some t → I t) {s : σ} (h : M.Reachable s) : I s := by
  induction h with
  | start hs => exact init _ hs
  | next l _ hl ih => exact step _ l _ ih hl

theorem Machine.ReachableBy.invariant {ok : σ → ι → Prop} {I : σ → Prop}
    (init : ∀ s, M.start s → I s)
    (step : ∀ s l t, I s → ok s l → M.step s l = some t → I t) {s : σ}
    (h : M.ReachableBy ok s) : I s := by
  induction h with
  | start hs => exact init _ hs
  | next l _ hok hl ih => exact step _ l _ ih hok hl

theorem Machine.exec_keeps {P : σ → Prop} (stays : ∀ s l t, P s → M.step s l = some t → P t)
    {s t : σ} (hs : P s) (ls : List ι) (h : M.exec s ls = some t) : P t := by
  induction ls generalizing s with
  | nil =>
    simp only [Machine.exec, Option.some.injEq] at h
    exact h ▸ hs
  | cons l ls ih =>
    obtain ⟨u, hl, rest⟩ := Option.bind_eq_some_iff.mp h
    exact ih (stays s l u hs hl) rest

theorem Machine.exec_reachable {s t : σ} (hs : M.Reachable s) (ls : List ι)
    (h : M.exec s ls = some t) : M.Reachable t :=
  Machine.exec_keeps (fun _ l _ reached hl => .next l reached hl) hs ls h

theorem Machine.exec_append (M : Machine σ ι) (s : σ) (ls ms : List ι) :
    M.exec s (ls ++ ms) = (M.exec s ls).bind fun t => M.exec t ms := by
  induction ls generalizing s with
  | nil => rfl
  | cons l ls ih =>
    simp only [List.cons_append, Machine.exec]
    cases M.step s l with
    | none => rfl
    | some t => exact ih t

/-! ## Along one run -/

/-- `P` holds in `s` and after every step of the run. -/
def Machine.Always (M : Machine σ ι) (P : σ → Prop) : σ → List ι → Prop
  | s, [] => P s
  | s, l :: ls => P s ∧ ∀ t, M.step s l = some t → M.Always P t ls

/-- Every step the run takes meets `ok`. -/
def Machine.Steps (M : Machine σ ι) (ok : σ → ι → Prop) : σ → List ι → Prop
  | _, [] => True
  | s, l :: ls => ∀ t, M.step s l = some t → ok s l ∧ M.Steps ok t ls

instance Machine.decidableSteps (M : Machine σ ι) {ok : σ → ι → Prop}
    [∀ s l, Decidable (ok s l)] : ∀ s ls, Decidable (M.Steps ok s ls)
  | _, [] => isTrue trivial
  | s, l :: ls =>
    match hl : M.step s l with
    | none => isTrue fun _ ht => nomatch hl.symm.trans ht
    | some t =>
      have : Decidable (M.Steps ok t ls) := Machine.decidableSteps M t ls
      decidable_of_iff (ok s l ∧ M.Steps ok t ls)
        ⟨fun h _ ht => Option.some.inj (hl.symm.trans ht) ▸ h, fun h => h t hl⟩

/-- Every label the run comes to meets `ok`, enabled or not. -/
def Machine.Tries (M : Machine σ ι) (ok : σ → ι → Prop) : σ → List ι → Prop
  | _, [] => True
  | s, l :: ls => ok s l ∧ ∀ t, M.step s l = some t → M.Tries ok t ls

instance Machine.decidableTries (M : Machine σ ι) {ok : σ → ι → Prop}
    [∀ s l, Decidable (ok s l)] : ∀ s ls, Decidable (M.Tries ok s ls)
  | _, [] => isTrue trivial
  | s, l :: ls =>
    match hl : M.step s l with
    | none =>
      decidable_of_iff (ok s l) ⟨fun h => ⟨h, fun _ ht => nomatch hl.symm.trans ht⟩, fun h => h.1⟩
    | some t =>
      have : Decidable (M.Tries ok t ls) := Machine.decidableTries M t ls
      decidable_of_iff (ok s l ∧ M.Tries ok t ls)
        ⟨fun h => ⟨h.1, fun _ ht => Option.some.inj (hl.symm.trans ht) ▸ h.2⟩,
          fun h => ⟨h.1, h.2 t hl⟩⟩

/-- If `ok` and `need` agree where `I` holds, and what meets them keeps `I`, a
run tries only what meets `ok` exactly when it tries only what meets `need`. -/
theorem tries_iff_tries {ok need : σ → ι → Prop} {I : σ → Prop}
    (agree : ∀ s l, I s → (ok s l ↔ need s l))
    (keeps : ∀ s l t, I s → M.step s l = some t → need s l → I t)
    {s : σ} (hs : I s) (ls : List ι) : M.Tries ok s ls ↔ M.Tries need s ls := by
  induction ls generalizing s with
  | nil => exact Iff.rfl
  | cons l ls ih =>
    have first := agree s l hs
    constructor
    · rintro ⟨hok, rest⟩
      have needed := first.mp hok
      exact ⟨needed, fun t hl => (ih (keeps s l t hs hl needed)).mp (rest t hl)⟩
    · rintro ⟨needed, rest⟩
      exact ⟨first.mpr needed, fun t hl => (ih (keeps s l t hs hl needed)).mpr (rest t hl)⟩

/-- The same for the steps that a run takes. -/
theorem steps_iff_steps {ok need : σ → ι → Prop} {I : σ → Prop}
    (agree : ∀ s l t, I s → M.step s l = some t → (ok s l ↔ need s l))
    (keeps : ∀ s l t, I s → M.step s l = some t → need s l → I t)
    {s : σ} (hs : I s) (ls : List ι) : M.Steps ok s ls ↔ M.Steps need s ls := by
  induction ls generalizing s with
  | nil => exact Iff.rfl
  | cons l ls ih =>
    constructor
    · intro steps t hl
      have needed := (agree s l t hs hl).mp (steps t hl).1
      exact ⟨needed, (ih (keeps s l t hs hl needed)).mp (steps t hl).2⟩
    · intro steps t hl
      have needed := (steps t hl).1
      exact ⟨(agree s l t hs hl).mpr needed,
        (ih (keeps s l t hs hl needed)).mpr (steps t hl).2⟩

theorem Machine.Always.now {P : σ → Prop} {s : σ} {ls : List ι} (h : M.Always P s ls) : P s := by
  cases ls with
  | nil => exact h
  | cons l ls => exact h.1

/-- When the steps that meet `ok` keep `I`, and `I` gives `P`, a run of such
steps has `P` throughout. -/
theorem Machine.Steps.always {ok : σ → ι → Prop} {I P : σ → Prop} (hP : ∀ s, I s → P s)
    (keeps : ∀ s l t, I s → M.step s l = some t → ok s l → I t)
    {s : σ} (hs : I s) {ls : List ι} (h : M.Steps ok s ls) : M.Always P s ls := by
  induction ls generalizing s with
  | nil => exact hP s hs
  | cons l ls ih =>
    refine ⟨hP s hs, fun t hl => ?_⟩
    obtain ⟨hok, rest⟩ := h t hl
    exact ih (keeps s l t hs hl hok) rest

/-- If `I` gives `P`, a step that meets `ok` keeps `I`, and a step that does
not breaks `P`, then a run keeps `P` exactly when all its steps meet `ok`. -/
theorem always_iff_steps {ok : σ → ι → Prop} {I P : σ → Prop} (hP : ∀ s, I s → P s)
    (keeps : ∀ s l t, I s → M.step s l = some t → ok s l → I t)
    (needs : ∀ s l t, I s → M.step s l = some t → P t → ok s l)
    {s : σ} (hs : I s) (ls : List ι) : M.Always P s ls ↔ M.Steps ok s ls := by
  constructor
  · intro always
    induction ls generalizing s with
    | nil => trivial
    | cons l ls ih =>
      intro t hl
      have hok := needs s l t hs hl (always.2 t hl).now
      exact ⟨hok, ih (keeps s l t hs hl hok) (always.2 t hl)⟩
  · exact fun steps => steps.always hP keeps hs

theorem Machine.Steps.of_forall {ok : σ → ι → Prop} {ls : List ι} (h : ∀ s, ∀ l ∈ ls, ok s l)
    (s : σ) : M.Steps ok s ls := by
  induction ls generalizing s with
  | nil => trivial
  | cons l ls ih =>
    exact fun t _ => ⟨h s l List.mem_cons_self,
      ih (fun s m hm => h s m (List.mem_cons_of_mem l hm)) t⟩

theorem Machine.ReachableBy.of_steps {ok : σ → ι → Prop} {s t : σ} (hs : M.ReachableBy ok s)
    (ls : List ι) (steps : M.Steps ok s ls) (h : M.exec s ls = some t) :
    M.ReachableBy ok t := by
  induction ls generalizing s with
  | nil =>
    simp only [Machine.exec, Option.some.injEq] at h
    exact h ▸ hs
  | cons l ls ih =>
    simp only [Machine.exec] at h
    cases hl : M.step s l with
    | none => simp [hl] at h
    | some u =>
      simp only [hl, Option.bind_some] at h
      obtain ⟨hok, rest⟩ := steps u hl
      exact ih (.next l hs hok hl) rest h

/-- If a step that does not meet `ok` leads from `I` to `bad`, and no step
leads out of `bad`, then a run meets `ok` or ends in `bad`. -/
theorem Machine.steps_or_lost {ok : σ → ι → Prop} {I bad : σ → Prop}
    (keeps : ∀ s l t, I s → M.step s l = some t → ok s l → I t)
    (breaks : ∀ s l t, I s → M.step s l = some t → ¬ ok s l → bad t)
    (stays : ∀ s l t, bad s → M.step s l = some t → bad t)
    {s t : σ} (hs : I s) (ls : List ι) (h : M.exec s ls = some t) :
    M.Steps ok s ls ∨ bad t := by
  induction ls generalizing s with
  | nil => exact .inl trivial
  | cons l ls ih =>
    obtain ⟨u, hl, rest⟩ := Option.bind_eq_some_iff.mp h
    by_cases hok : ok s l
    · rcases ih (keeps s l u hs hl hok) rest with steps | lost
      · refine .inl fun t ht => ?_
        cases hl.symm.trans ht
        exact ⟨hok, steps⟩
      · exact .inr lost
    · exact .inr (Machine.exec_keeps stays (breaks s l u hs hl hok) ls rest)

theorem Machine.Always.final {P : σ → Prop} {s t : σ} {ls : List ι} (h : M.Always P s ls)
    (run : M.exec s ls = some t) : P t := by
  induction ls generalizing s with
  | nil =>
    simp only [Machine.exec, Option.some.injEq] at run
    exact run ▸ h
  | cons l ls ih =>
    obtain ⟨u, hl, rest⟩ := Option.bind_eq_some_iff.mp run
    exact ih (h.2 u hl) rest

/-! ## Simulation -/

/-- `R` relates the states of `M` to states of `N`, which answers each step
of `M` by a finite run. -/
structure Simulation (M : Machine σ ι) (N : Machine τ κ) (R : σ → τ → Prop) : Prop where
  start : ∀ s, M.start s → ∃ t, N.start t ∧ R s t
  step : ∀ s l s' t, M.step s l = some s' → R s t → ∃ ks t', N.exec t ks = some t' ∧ R s' t'

theorem Simulation.reachable {R : σ → τ → Prop} (sim : Simulation M N R) {s : σ}
    (h : M.Reachable s) : ∃ t, N.Reachable t ∧ R s t := by
  induction h with
  | start hs =>
    obtain ⟨t, ht, hr⟩ := sim.start _ hs
    exact ⟨t, .start ht, hr⟩
  | next l _ hl ih =>
    obtain ⟨t, ht, hr⟩ := ih
    obtain ⟨ks, t', hk, hr'⟩ := sim.step _ l _ t hl hr
    exact ⟨t', N.exec_reachable ht ks hk, hr'⟩

/-! ## Watching a machine -/

/-- `M` with something that watches its steps and keeps a record of them. -/
def Machine.watched (M : Machine σ ι) (fresh : τ) (watch : σ → ι → σ → τ → τ) :
    Machine (σ × τ) ι where
  start p := M.start p.1 ∧ p.2 = fresh
  step p l := (M.step p.1 l).map fun t => (t, watch p.1 l t p.2)

theorem Machine.watched_step {fresh : τ} {watch : σ → ι → σ → τ → τ} {p q : σ × τ} {l : ι}
    (h : (M.watched fresh watch).step p l = some q) :
    M.step p.1 l = some q.1 ∧ q.2 = watch p.1 l q.1 p.2 := by
  obtain ⟨t, ht, rfl⟩ := Option.map_eq_some_iff.mp h
  exact ⟨ht, rfl⟩

end Kenmuduo.Transition
