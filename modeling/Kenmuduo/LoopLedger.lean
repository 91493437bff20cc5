import Kenmuduo.EPollPoller
import Kenmuduo.Transition

/-!
# The loops of the threads

`t_loopInThisThread` of each thread, against the loops that exist. The constructor
of EventLoop looks at the pointer of its thread and ends the process when it is
set. The destructor clears the pointer of the thread it runs on, which need not be
the thread of the loop.
-/

namespace Kenmuduo
open Transition

/-- A loop that exists, with the two descriptors it has opened. -/
structure LoopObject where
  threadId : Nat
  epollfd : Nat
  wakeupFd : Nat
  deriving DecidableEq, Repr

def LoopObject.holds (l : LoopObject) (fd : Nat) : Prop := fd = l.epollfd ∨ fd = l.wakeupFd

/-- The loops are numbered as they are constructed. Of the descriptors only those that
loops have opened are seen. -/
structure LoopsRun where
  loopInThread : Nat → Option Nat
  loops : Nat → Option LoopObject
  constructed : Nat
  isOpen : Nat → Bool
  exited : Bool

inductive LoopsAct
  /-- The constructor on a thread, with the results of `epoll_create` and `eventfd`. -/
  | construct (thread : Nat) (epollfd wakeupFd : Int)
  | destroy (thread loop : Nat)
  deriving DecidableEq, Repr

namespace LoopsRun

/-- The kernel hands out no descriptor that is open. -/
def gives (s : LoopsRun) (fd : Int) : Bool := decide (fd < 0) || !s.isOpen fd.toNat

def construct (s : LoopsRun) (thread : Nat) (epollfd wakeupFd : Int) : LoopsRun :=
  -- the poller is constructed first
  if epollfd < 0 then { s with exited := true }
  else if wakeupFd < 0 then { s with exited := true }
  else if (s.loopInThread thread).isSome then { s with exited := true }
  else
    { s with
      loopInThread := assign s.loopInThread thread (some s.constructed)
      loops := assign s.loops s.constructed (some ⟨thread, epollfd.toNat, wakeupFd.toNat⟩)
      constructed := s.constructed + 1
      isOpen := assign (assign s.isOpen epollfd.toNat true) wakeupFd.toNat true }

def destroy (s : LoopsRun) (thread loop : Nat) (l : LoopObject) : LoopsRun :=
  { s with
    loopInThread := assign s.loopInThread thread none
    loops := assign s.loops loop none
    isOpen := assign (assign s.isOpen l.wakeupFd false) l.epollfd false }

def step (s : LoopsRun) : LoopsAct → Option LoopsRun
  | .construct thread epollfd wakeupFd =>
    if !s.exited && s.gives epollfd && s.gives wakeupFd && (epollfd < 0 || epollfd != wakeupFd) then
      some (s.construct thread epollfd wakeupFd)
    else none
  | .destroy thread loop =>
    match s.loops loop with
    | some l => if !s.exited then some (s.destroy thread loop l) else none
    | none => none

structure Start (s : LoopsRun) : Prop where
  loopInThread : ∀ thread, s.loopInThread thread = none
  loops : ∀ n, s.loops n = none
  isOpen : ∀ fd, s.isOpen fd = false

def machine : Machine LoopsRun LoopsAct := ⟨Start, step⟩

/-- Every thread has one loop at most, and its pointer is that loop. -/
def OneEach (s : LoopsRun) : Prop :=
  ∀ thread n, s.loopInThread thread = some n ↔ ∃ l, s.loops n = some l ∧ l.threadId = thread

/-- A loop is destroyed by its own thread. -/
def DestroysOwn (s : LoopsRun) : LoopsAct → Prop
  | .destroy thread loop => ∀ l ∈ s.loops loop, l.threadId = thread
  | _ => True

instance (s : LoopsRun) : ∀ l, Decidable (s.DestroysOwn l)
  | .destroy thread loop => inferInstanceAs (Decidable (∀ l ∈ s.loops loop, l.threadId = thread))
  | .construct _ _ _ => isTrue trivial

/-- What is open is held by one loop that exists. -/
structure Ledger (s : LoopsRun) : Prop where
  numbered : ∀ n, s.loops n ≠ none → n < s.constructed
  held : ∀ fd, s.isOpen fd = true ↔ ∃ n l, s.loops n = some l ∧ l.holds fd
  apart : ∀ n l, s.loops n = some l → l.epollfd ≠ l.wakeupFd
  once : ∀ fd n m l k, s.loops n = some l → s.loops m = some k → l.holds fd → k.holds fd → n = m

/-- What the constructor does, the process going on or not. -/
theorem step_construct {s t : LoopsRun} {thread : Nat} {epollfd wakeupFd : Int}
    (h : s.step (.construct thread epollfd wakeupFd) = some t) :
    t = { s with exited := true } ∧ (0 ≤ epollfd → 0 ≤ wakeupFd → s.loopInThread thread ≠ none) ∨
    ∃ l : LoopObject, l.threadId = thread ∧ s.loopInThread thread = none ∧ t.exited = false ∧
      l.epollfd ≠ l.wakeupFd ∧ s.isOpen l.epollfd = false ∧ s.isOpen l.wakeupFd = false ∧
      t.loopInThread = assign s.loopInThread thread (some s.constructed) ∧
      t.loops = assign s.loops s.constructed (some l) ∧ t.constructed = s.constructed + 1 ∧
      t.isOpen = assign (assign s.isOpen l.epollfd true) l.wakeupFd true := by
  simp only [step, Option.ite_none_right_eq_some, Option.some.injEq, Bool.and_eq_true,
    Bool.not_eq_true', Bool.or_eq_true, decide_eq_true_eq, bne_iff_ne, gives] at h
  obtain ⟨⟨⟨⟨running, epoll⟩, eventfd⟩, differ⟩, rfl⟩ := h
  unfold construct
  by_cases noEpoll : epollfd < 0
  · rw [if_pos noEpoll]
    exact .inl ⟨rfl, fun some_ => absurd noEpoll (by omega)⟩
  rw [if_neg noEpoll]
  by_cases noEventfd : wakeupFd < 0
  · rw [if_pos noEventfd]
    exact .inl ⟨rfl, fun _ some_ => absurd noEventfd (by omega)⟩
  rw [if_neg noEventfd]
  cases mine : s.loopInThread thread with
  | some n => exact .inl ⟨rfl, fun _ _ none => nomatch none⟩
  | none =>
    refine .inr ⟨⟨thread, epollfd.toNat, wakeupFd.toNat⟩, rfl, rfl, running, ?_,
      epoll.resolve_left noEpoll, eventfd.resolve_left noEventfd, rfl, rfl, rfl, rfl⟩
    have apart := differ.resolve_left noEpoll
    intro same
    have same : epollfd.toNat = wakeupFd.toNat := same
    omega

theorem step_destroy {s t : LoopsRun} {thread loop : Nat}
    (h : s.step (.destroy thread loop) = some t) :
    ∃ l, s.loops loop = some l ∧ t = s.destroy thread loop l := by
  simp only [step] at h
  split at h
  · rename_i l here
    simp only [Option.ite_none_right_eq_some, Option.some.injEq] at h
    exact ⟨l, here, h.2.symm⟩
  · cases h

theorem Start.ledger {s : LoopsRun} (h : s.Start) : s.Ledger := by
  have empty (n : Nat) (l : LoopObject) (here : s.loops n = some l) : False := by
    rw [h.loops] at here
    cases here
  constructor
  · exact fun n some_ => absurd (h.loops n) some_
  · intro fd
    rw [h.isOpen]
    constructor
    · exact Bool.noConfusion
    · exact fun ⟨n, l, here, _⟩ => (empty n l here).elim
  · exact fun n l here => (empty n l here).elim
  · exact fun fd n m l k here => (empty n l here).elim

theorem Start.oneEach {s : LoopsRun} (h : s.Start) : s.OneEach := by
  intro thread n
  rw [h.loopInThread, h.loops]
  constructor
  · intro none
    cases none
  · rintro ⟨l, none, _⟩
    cases none

/-! ## The descriptors -/

theorem Ledger.construct {s t : LoopsRun} {l : LoopObject} (h : s.Ledger)
    (apart : l.epollfd ≠ l.wakeupFd) (epoll : s.isOpen l.epollfd = false)
    (eventfd : s.isOpen l.wakeupFd = false)
    (loops : t.loops = assign s.loops s.constructed (some l))
    (constructed : t.constructed = s.constructed + 1)
    (isOpen : t.isOpen = assign (assign s.isOpen l.epollfd true) l.wakeupFd true) : t.Ledger := by
  have old {n : Nat} (known : n ≠ s.constructed) : t.loops n = s.loops n := by
    rw [loops, assign_other _ _ known]
  have new : t.loops s.constructed = some l := by
    rw [loops, assign_same]
  have before {n : Nat} {k : LoopObject} (here : s.loops n = some k) : n ≠ s.constructed := by
    have less := h.numbered n (by rw [here]; exact Option.some_ne_none k)
    omega
  have unheld {n : Nat} {k : LoopObject} {fd : Nat} (here : s.loops n = some k)
      (holds : k.holds fd) : ¬ l.holds fd := by
    have open_ := (h.held fd).mpr ⟨n, k, here, holds⟩
    rintro (rfl | rfl)
    · rw [epoll] at open_
      cases open_
    · rw [eventfd] at open_
      cases open_
  constructor
  · intro n some_
    by_cases newest : n = s.constructed
    · omega
    · rw [old newest] at some_
      have less := h.numbered n some_
      omega
  · intro fd
    rw [isOpen]
    by_cases wakeup : fd = l.wakeupFd
    · subst wakeup
      rw [assign_same]
      exact ⟨fun _ => ⟨s.constructed, l, new, .inr rfl⟩, fun _ => rfl⟩
    rw [assign_other _ _ wakeup]
    by_cases poller : fd = l.epollfd
    · subst poller
      rw [assign_same]
      exact ⟨fun _ => ⟨s.constructed, l, new, .inl rfl⟩, fun _ => rfl⟩
    rw [assign_other _ _ poller, h.held]
    constructor
    · rintro ⟨n, k, here, holds⟩
      exact ⟨n, k, (old (before here)).trans here, holds⟩
    · rintro ⟨n, k, here, holds⟩
      by_cases newest : n = s.constructed
      · rw [newest, new] at here
        cases here
        exact absurd holds (not_or.mpr ⟨poller, wakeup⟩)
      · exact ⟨n, k, (old newest).symm.trans here, holds⟩
  · intro n k here
    by_cases newest : n = s.constructed
    · rw [newest, new] at here
      cases here
      exact apart
    · exact h.apart n k ((old newest).symm.trans here)
  · intro fd n m k j here there holds holds'
    by_cases newest : n = s.constructed
    · by_cases newest' : m = s.constructed
      · rw [newest, newest']
      · rw [newest, new] at here
        cases here
        exact absurd holds (unheld ((old newest').symm.trans there) holds')
    · by_cases newest' : m = s.constructed
      · rw [newest', new] at there
        cases there
        exact absurd holds' (unheld ((old newest).symm.trans here) holds)
      · exact h.once fd n m k j ((old newest).symm.trans here) ((old newest').symm.trans there)
          holds holds'

theorem Ledger.destroy {s : LoopsRun} {thread loop : Nat} {l : LoopObject} (h : s.Ledger)
    (here : s.loops loop = some l) : (s.destroy thread loop l).Ledger := by
  have gone : (s.destroy thread loop l).loops loop = none := assign_same _ _ _
  have others {n : Nat} (other : n ≠ loop) : (s.destroy thread loop l).loops n = s.loops n :=
    assign_other _ _ other
  have still {n : Nat} {k : LoopObject} (left : (s.destroy thread loop l).loops n = some k) :
      n ≠ loop ∧ s.loops n = some k := by
    by_cases same : n = loop
    · rw [same, gone] at left
      cases left
    · exact ⟨same, (others same).symm.trans left⟩
  constructor
  · intro n some_
    by_cases same : n = loop
    · rw [same, gone] at some_
      exact absurd rfl some_
    · rw [others same] at some_
      exact h.numbered n some_
  · intro fd
    have isOpen : (s.destroy thread loop l).isOpen =
      assign (assign s.isOpen l.wakeupFd false) l.epollfd false := rfl
    rw [isOpen]
    by_cases held : l.holds fd
    · have closed : assign (assign s.isOpen l.wakeupFd false) l.epollfd false fd = false := by
        obtain rfl | rfl := held
        · exact assign_same _ _ _
        · rw [assign_other _ _ (Ne.symm (h.apart loop l here)), assign_same]
      rw [closed]
      refine ⟨Bool.noConfusion, fun ⟨n, k, left, holds⟩ => ?_⟩
      obtain ⟨other, there⟩ := still left
      exact absurd (h.once fd n loop k l there here holds held) other
    · rw [assign_other _ _ fun same => held (.inl same),
        assign_other _ _ fun same => held (.inr same), h.held]
      constructor
      · rintro ⟨n, k, there, holds⟩
        refine ⟨n, k, (others ?_).trans there, holds⟩
        rintro rfl
        rw [here] at there
        cases there
        exact held holds
      · rintro ⟨n, k, left, holds⟩
        exact ⟨n, k, (still left).2, holds⟩
  · exact fun n k left => h.apart n k (still left).2
  · exact fun fd n m k j left left' => h.once fd n m k j (still left).2 (still left').2

theorem Ledger.step {s t : LoopsRun} {l : LoopsAct} (h : s.Ledger) (hs : s.step l = some t) :
    t.Ledger := by
  cases l with
  | construct thread epollfd wakeupFd =>
    obtain ⟨rfl, _⟩ | ⟨l, _, _, _, apart, epoll, eventfd, _, loops, constructed, isOpen⟩ :=
      step_construct hs
    · exact ⟨h.numbered, h.held, h.apart, h.once⟩
    · exact h.construct apart epoll eventfd loops constructed isOpen
  | destroy thread loop =>
    obtain ⟨l, here, rfl⟩ := step_destroy hs
    exact h.destroy here

/-! ## The pointers -/

theorem OneEach.construct {s t : LoopsRun} {thread : Nat} {l : LoopObject} (h : s.OneEach)
    (ledger : s.Ledger) (own : l.threadId = thread) (none_ : s.loopInThread thread = none)
    (pointer : t.loopInThread = assign s.loopInThread thread (some s.constructed))
    (loops : t.loops = assign s.loops s.constructed (some l)) : t.OneEach := by
  intro other n
  rw [pointer, loops]
  by_cases mine : other = thread
  · subst mine
    rw [assign_same]
    constructor
    · intro same
      cases same
      exact ⟨l, assign_same _ _ _, own⟩
    · rintro ⟨k, here, threadId⟩
      by_cases newest : n = s.constructed
      · rw [newest]
      · rw [assign_other _ _ newest] at here
        have known := (h other n).mpr ⟨k, here, threadId⟩
        rw [none_] at known
        cases known
  · rw [assign_other _ _ mine, h other n]
    by_cases newest : n = s.constructed
    · subst newest
      rw [assign_same]
      constructor
      · rintro ⟨k, here, _⟩
        exact absurd (ledger.numbered _ (by rw [here]; exact Option.some_ne_none k))
          (Nat.lt_irrefl _)
      · rintro ⟨k, here, threadId⟩
        cases here
        exact absurd (threadId.symm.trans own) mine
    · rw [assign_other _ _ newest]

theorem OneEach.destroy {s : LoopsRun} {thread loop : Nat} {l : LoopObject} (h : s.OneEach)
    (here : s.loops loop = some l) (own : l.threadId = thread) :
    (s.destroy thread loop l).OneEach := by
  have pointer : s.loopInThread thread = some loop := (h thread loop).mpr ⟨l, here, own⟩
  intro other n
  have after : (s.destroy thread loop l).loopInThread = assign s.loopInThread thread none := rfl
  have left : (s.destroy thread loop l).loops = assign s.loops loop none := rfl
  rw [after, left]
  by_cases mine : other = thread
  · subst mine
    rw [assign_same]
    constructor
    · intro none
      cases none
    · rintro ⟨k, there, threadId⟩
      by_cases same : n = loop
      · rw [same, assign_same] at there
        cases there
      · rw [assign_other _ _ same] at there
        have also_ := (h other n).mpr ⟨k, there, threadId⟩
        rw [pointer] at also_
        cases also_
        exact absurd rfl same
  · rw [assign_other _ _ mine, h other n]
    by_cases same : n = loop
    · subst same
      rw [assign_same, here]
      constructor
      · rintro ⟨k, there, threadId⟩
        cases there
        exact absurd (threadId.symm.trans own) mine
      · rintro ⟨k, there, _⟩
        cases there
    · rw [assign_other _ _ same]

/-- The thread whose loop another thread has destroyed is left with a pointer to it. -/
theorem OneEach.destroyed {s : LoopsRun} {thread loop : Nat} {l : LoopObject} (h : s.OneEach)
    (here : s.loops loop = some l) (after : (s.destroy thread loop l).OneEach) :
    l.threadId = thread := by
  have pointer : s.loopInThread l.threadId = some loop :=
    (h l.threadId loop).mpr ⟨l, here, rfl⟩
  apply Decidable.byContradiction
  intro other
  have still : (s.destroy thread loop l).loopInThread l.threadId = some loop :=
    (assign_other _ _ other).trans pointer
  obtain ⟨k, left, _⟩ := (after l.threadId loop).mp still
  have gone : (s.destroy thread loop l).loops loop = none := assign_same _ _ _
  rw [gone] at left
  cases left

/-- The invariant of the runs in which every loop is destroyed by its own thread. -/
structure Kept (s : LoopsRun) : Prop where
  ledger : s.Ledger
  oneEach : s.OneEach

theorem Kept.step {s t : LoopsRun} {l : LoopsAct} (h : s.Kept) (hs : s.step l = some t)
    (own : s.DestroysOwn l) : t.Kept := by
  refine ⟨h.ledger.step hs, ?_⟩
  cases l with
  | construct thread epollfd wakeupFd =>
    obtain ⟨rfl, _⟩ | ⟨l, own, none, _, _, _, _, pointer, loops, _⟩ := step_construct hs
    · exact h.oneEach
    · exact h.oneEach.construct h.ledger own none pointer loops
  | destroy thread loop =>
    obtain ⟨l, here, rfl⟩ := step_destroy hs
    exact h.oneEach.destroy here (own l here)

/-- Whatever threads construct and destroy loops, each thread has one at most and its
pointer is that loop, throughout the run, exactly when every loop is destroyed by its
own thread. In any run the descriptors that loops have opened and not closed are those
of the loops that exist, each of one loop. And where the pointers are right, the
constructor ends the process for a second loop and for no other, unless the kernel
gives it no descriptor. -/
theorem one_each_iff {s : LoopsRun} (hs : s.Start) (ls : List LoopsAct) :
    (machine.Always OneEach s ls ↔ machine.Steps DestroysOwn s ls) ∧
    ∀ t, machine.exec s ls = some t → t.Ledger ∧ (t.OneEach → ∀ thread epollfd wakeupFd u,
      t.step (.construct thread epollfd wakeupFd) = some u → 0 ≤ epollfd → 0 ≤ wakeupFd →
        (u.exited = true ↔ ∃ n l, t.loops n = some l ∧ l.threadId = thread)) := by
  constructor
  · refine always_iff_steps (I := Kept) ?_ ?_ ?_ ⟨hs.ledger, hs.oneEach⟩ ls
    · exact fun _ kept => kept.oneEach
    · exact fun _ _ _ kept hs own => kept.step hs own
    · intro s l t kept hs after
      cases l with
      | construct => trivial
      | destroy thread loop =>
        intro l here
        obtain ⟨k, there, rfl⟩ := step_destroy hs
        cases here.symm.trans there
        exact kept.oneEach.destroyed here after
  · intro t run
    have ledger : t.Ledger :=
      Machine.exec_keeps (fun _ _ _ kept hs => kept.step hs) hs.ledger ls run
    refine ⟨ledger, fun right thread epollfd wakeupFd u hs epoll eventfd => ?_⟩
    obtain ⟨rfl, refused⟩ | ⟨l, _, none, going, _⟩ := step_construct hs
    · refine ⟨fun _ => ?_, fun _ => rfl⟩
      obtain ⟨n, pointer⟩ := Option.ne_none_iff_exists'.mp (refused epoll eventfd)
      obtain ⟨l, here, own⟩ := (right thread n).mp pointer
      exact ⟨n, l, here, own⟩
    · rw [going]
      refine ⟨Bool.noConfusion, fun ⟨n, l, here, own⟩ => ?_⟩
      rw [(right thread n).mpr ⟨l, here, own⟩] at none
      cases none

def noLoops : LoopsRun := ⟨fun _ => none, fun _ => none, 0, fun _ => false, false⟩

/-- Two threads make a loop each, and the second destroys both. -/
theorem one_each_iff_foreign :
    noLoops.Start ∧ ¬ machine.Always OneEach noLoops
      [.construct 1 3 4, .construct 2 5 6, .destroy 2 0, .destroy 2 1] ∧
    machine.Always OneEach noLoops
      [.construct 1 3 4, .construct 2 5 6, .destroy 2 1, .construct 2 6 5, .destroy 1 0] := by
  have start : noLoops.Start := ⟨fun _ => rfl, fun _ => rfl, fun _ => rfl⟩
  refine ⟨start, fun always => ?_, ?_⟩
  · have own := (one_each_iff start _).1.mp always
    exact absurd own (by decide +kernel)
  · exact (one_each_iff start _).1.mpr (by decide +kernel)

end LoopsRun
end Kenmuduo
