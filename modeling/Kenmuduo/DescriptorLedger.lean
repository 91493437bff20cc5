import Kenmuduo.Handles
import Kenmuduo.Ownership

/-!
# The descriptors that accept4 returns

Acceptor.cc and Socket.cc beside the server. A new descriptor goes to the Socket
of a new TcpConnection, whose destructor closes it; the kernel then gives its
number out again.
-/

namespace Kenmuduo
open Transition

/-! ## The acceptor -/

/-- What `Acceptor::handleRead` does with the result of `accept4`. -/
inductive Accepting
  | newConnection (sockfd : Nat)
  | close (fd : Nat)
  | error

def Acceptor.handleRead (newConnectionCallback : Bool) (connfd : Int) : Accepting :=
  if 0 < connfd then
    if newConnectionCallback then .newConnection connfd.toNat else .close connfd.toNat
  else .error

def Socket.accepts (connfd : Int) : Bool := 0 ≤ connfd

/-- Who opened a descriptor of the process. -/
inductive Descriptor
  | closed
  | accepted
  | other
  deriving DecidableEq, Repr

structure LedgerRun where
  owned : OwnedRun
  newConnectionCallback : Bool
  descriptors : Nat → Descriptor
  /-- The connections that exist, each with the `sockfd_` of its Socket. -/
  sockets : List (Nat × Nat)
  /-- What `accept4` returned, and what was closed. -/
  ledger : List (Handles.Event Nat)

inductive LedgerAct
  | handleRead (connfd : Int)
  | owner (l : OwnerAct)
  | endLoop (loop : Nat)
  /-- Another part of the program opens a descriptor, or closes one of its own. -/
  | elsewhere (fd : Nat)

def OwnerAct.accepts : OwnerAct → Bool
  | server (.newConnection _) | acceptFails => true
  | _ => false

/-- `~EventLoop`, once the server is gone: what waits in the loop's queue is destroyed
with it. -/
def OwnedRun.endLoop (s : OwnedRun) (loop : Nat) : Option OwnedRun :=
  match s.run.server, s.run.frame loop, s.run.todo loop with
  | none, .polling, [] =>
    if s.ready loop then
      some { s with
        run := s.run.setPending loop []
        queued := assign s.queued loop [] }
    else none
  | _, _, _ => none

namespace LedgerRun

def take (s : LedgerRun) (fd : Nat) : LedgerRun :=
  { s with
    descriptors := assign s.descriptors fd .accepted
    ledger := s.ledger ++ [.taken fd] }

def accept (s : LedgerRun) (connfd : Int) : LedgerRun :=
  if Socket.accepts connfd then s.take connfd.toNat else s

def close (s : LedgerRun) (fd : Nat) : LedgerRun :=
  { s with
    descriptors := assign s.descriptors fd .closed
    ledger := s.ledger ++ [.freed fd] }

/-- `TcpConnection::TcpConnection` makes the Socket of the next connection. -/
def construct (s : LedgerRun) (sockfd : Nat) : LedgerRun :=
  { s with sockets := s.sockets ++ [(s.owned.run.accepted, sockfd)] }

/-- The connections that nobody owns any more. -/
def gone (s : LedgerRun) : List (Nat × Nat) :=
  s.sockets.filter fun item => !s.owned.owned item.1

/-- They are destroyed, and `Socket::~Socket` closes their descriptors. -/
def sweep (s : LedgerRun) : LedgerRun :=
  (s.gone.map Prod.snd).foldl close
    { s with sockets := s.sockets.filter fun item => s.owned.owned item.1 }

def follow (s : LedgerRun) (owned : OwnedRun) : LedgerRun := { s with owned := owned }.sweep

def turn (s : LedgerRun) (l : OwnerAct) : Option LedgerRun := (s.owned.step l).map s.follow

/-- `accept4` fails, or returns a descriptor that is not open. -/
def mayReturn (s : LedgerRun) (connfd : Int) : Bool :=
  connfd < 0 || s.descriptors connfd.toNat == .closed

/-- A functor that binds `this` can come to a destroyed connection, where the code's
behaviour is undefined; here the connection's Socket does not come back. -/
def step (s : LedgerRun) : LedgerAct → Option LedgerRun
  | .handleRead connfd =>
    if s.mayReturn connfd then
      match Acceptor.handleRead s.newConnectionCallback connfd with
      | .newConnection sockfd =>
        ((s.accept connfd).construct sockfd).turn (.server (.newConnection sockfd))
      | .close fd => ((s.accept connfd).close fd).turn .acceptFails
      | .error => (s.accept connfd).turn .acceptFails
    else none
  | .owner l => if l.accepts then none else s.turn l
  | .endLoop loop => (s.owned.endLoop loop).map s.follow
  | .elsewhere fd =>
    match s.descriptors fd with
    | .closed => some { s with descriptors := assign s.descriptors fd .other }
    | .other => some { s with descriptors := assign s.descriptors fd .closed }
    | .accepted => none

structure Start (s : LedgerRun) : Prop where
  owned : s.owned.Start
  descriptors : ∀ fd, s.descriptors fd ≠ .accepted
  sockets : s.sockets = []
  ledger : s.ledger = []

def machine : Machine LedgerRun LedgerAct := ⟨Start, step⟩

def owners (s : LedgerRun) (fd : Nat) : Nat := (s.sockets.map Prod.snd).count fd

/-- Each descriptor that `accept4` returned is with the Socket of one connection,
or was closed once since. -/
def Balanced (s : LedgerRun) : Prop := Handles.Accounted s.owners s.ledger

instance (s : LedgerRun) : Decidable s.Balanced := Handles.Accounted.decidable s.owners s.ledger

def NonZero (_ : LedgerRun) : LedgerAct → Prop
  | .handleRead connfd => connfd ≠ 0
  | .owner _ | .endLoop _ | .elsewhere _ => True

instance (s : LedgerRun) : ∀ l, Decidable (s.NonZero l)
  | .handleRead connfd => inferInstanceAs (Decidable (connfd ≠ 0))
  | .owner _ | .endLoop _ | .elsewhere _ => isTrue trivial

/-! ## Steps -/

/-- What each step leads to, and when it can be taken. -/
inductive Stepped (s : LedgerRun) : LedgerAct → LedgerRun → Prop
  | connect {connfd t} : 0 < connfd → s.descriptors connfd.toNat = .closed →
      s.newConnectionCallback = true →
      ((s.take connfd.toNat).construct connfd.toNat).turn
        (.server (.newConnection connfd.toNat)) = some t →
      Stepped s (.handleRead connfd) t
  | refuse {connfd t} : 0 < connfd → s.descriptors connfd.toNat = .closed →
      s.newConnectionCallback = false →
      ((s.take connfd.toNat).close connfd.toNat).turn .acceptFails = some t →
      Stepped s (.handleRead connfd) t
  | lose {t} : s.descriptors 0 = .closed → (s.take 0).turn .acceptFails = some t →
      Stepped s (.handleRead 0) t
  | fail {connfd t} : connfd < 0 → s.turn .acceptFails = some t →
      Stepped s (.handleRead connfd) t
  | owner {l t} : l.accepts = false → s.turn l = some t → Stepped s (.owner l) t
  | endLoop {loop owned} : s.owned.endLoop loop = some owned →
      Stepped s (.endLoop loop) (s.follow owned)
  | opens {fd} : s.descriptors fd = .closed →
      Stepped s (.elsewhere fd) { s with descriptors := assign s.descriptors fd .other }
  | closes {fd} : s.descriptors fd = .other →
      Stepped s (.elsewhere fd) { s with descriptors := assign s.descriptors fd .closed }

theorem accept_success (s : LedgerRun) {connfd : Int} (h : 0 ≤ connfd) :
    s.accept connfd = s.take connfd.toNat := by
  simp [accept, Socket.accepts, h]

theorem accept_failure (s : LedgerRun) {connfd : Int} (h : connfd < 0) : s.accept connfd = s := by
  have failed : ¬ 0 ≤ connfd := by omega
  simp [accept, Socket.accepts, failed]

theorem mayReturn_free {s : LedgerRun} {connfd : Int} (may : s.mayReturn connfd = true)
    (h : 0 ≤ connfd) : s.descriptors connfd.toNat = .closed := by
  rw [mayReturn, Bool.or_eq_true, decide_eq_true_eq, beq_iff_eq] at may
  apply may.resolve_left
  omega

theorem stepped {s t : LedgerRun} {l : LedgerAct} (h : s.step l = some t) : s.Stepped l t := by
  cases l with
  | handleRead connfd =>
    simp only [step] at h
    split at h
    · rename_i may
      by_cases positive : 0 < connfd
      · have success : 0 ≤ connfd := by omega
        rw [s.accept_success success] at h
        simp only [Acceptor.handleRead, positive, if_true] at h
        cases callback : s.newConnectionCallback with
        | true =>
          simp only [callback, if_true] at h
          exact .connect positive (mayReturn_free may success) callback h
        | false =>
          simp only [callback, Bool.false_eq_true, if_false] at h
          exact .refuse positive (mayReturn_free may success) callback h
      · simp only [Acceptor.handleRead, positive, if_false] at h
        by_cases negative : connfd < 0
        · rw [s.accept_failure negative] at h
          exact .fail negative h
        · obtain rfl : connfd = 0 := by omega
          rw [s.accept_success (Int.le_refl 0)] at h
          exact .lose (mayReturn_free may (Int.le_refl 0)) h
    · cases h
  | owner l =>
    simp only [step] at h
    split at h
    · cases h
    · rename_i other
      exact .owner (Bool.eq_false_iff.mpr other) h
  | endLoop loop =>
    obtain ⟨owned, ends, rfl⟩ := Option.map_eq_some_iff.mp h
    exact .endLoop ends
  | elsewhere fd =>
    simp only [step] at h
    split at h
    · rename_i closed
      cases h
      exact .opens closed
    · rename_i other
      cases h
      exact .closes other
    · cases h

/-! ## Closing -/

theorem closeAll_keeps (s : LedgerRun) (fds : List Nat) :
    (fds.foldl close s).sockets = s.sockets ∧
    (fds.foldl close s).ledger = s.ledger ++ fds.map .freed ∧
    ∀ fd, fd ∉ fds → (fds.foldl close s).descriptors fd = s.descriptors fd := by
  induction fds generalizing s with
  | nil => exact ⟨rfl, (List.append_nil _).symm, fun _ _ => rfl⟩
  | cons first fds ih =>
    obtain ⟨sockets, ledger, descriptors⟩ := ih (s.close first)
    refine ⟨sockets, ?_, ?_⟩
    · rw [List.foldl_cons, ledger]
      exact List.append_assoc _ _ _
    · intro fd other
      rw [List.mem_cons, not_or] at other
      rw [List.foldl_cons, descriptors fd other.2]
      exact assign_other _ _ other.1

theorem sweep_keeps (s : LedgerRun) :
    s.sweep.sockets = s.sockets.filter (fun item => s.owned.owned item.1) ∧
    s.sweep.ledger = s.ledger ++ (s.gone.map Prod.snd).map .freed ∧
    ∀ fd, fd ∉ s.gone.map Prod.snd → s.sweep.descriptors fd = s.descriptors fd :=
  closeAll_keeps _ _

theorem sweep_owners (s : LedgerRun) (fd : Nat) :
    s.owners fd = s.sweep.owners fd + (s.gone.map Prod.snd).count fd := by
  have parted : (s.sweep.sockets ++ s.gone).Perm s.sockets := by
    rw [s.sweep_keeps.1]
    exact List.filter_append_perm _ _
  unfold owners
  rw [← (parted.map Prod.snd).count_eq fd, List.map_append, List.count_append]

/-! ## The ledger is kept -/

/-- What holds in every run that does not lose descriptor 0. -/
structure Kept (s : LedgerRun) : Prop where
  balanced : s.Balanced
  /-- The Sockets that exist have their descriptors open. -/
  held : ∀ item ∈ s.sockets, s.descriptors item.2 = .accepted
  apart : ∀ item ∈ s.sockets, ∀ other ∈ s.sockets, item.2 = other.2 → item = other

theorem start_kept {s : LedgerRun} (h : s.Start) : s.Kept := by
  have none (item : Nat × Nat) : item ∉ s.sockets := by
    rw [h.sockets]
    exact List.not_mem_nil
  constructor
  · rw [Balanced, h.ledger]
    trivial
  · intro item mem
    exact absurd mem (none item)
  · intro item mem
    exact absurd mem (none item)

theorem Kept.fresh {s : LedgerRun} (kept : s.Kept) {fd : Nat} (free : s.descriptors fd = .closed) :
    ∀ item ∈ s.sockets, item.2 ≠ fd := by
  rintro item mem rfl
  have open_ := kept.held item mem
  rw [free] at open_
  cases open_

theorem Kept.unowned {s : LedgerRun} (kept : s.Kept) {fd : Nat}
    (free : s.descriptors fd = .closed) : s.owners fd = 0 := by
  apply List.count_eq_zero.mpr
  intro mem
  obtain ⟨item, here, same⟩ := List.mem_map.mp mem
  exact kept.fresh free item here same

theorem mem_construct {s : LedgerRun} {sockfd : Nat} {item : Nat × Nat}
    (h : item ∈ (s.construct sockfd).sockets) :
    item ∈ s.sockets ∨ item = (s.owned.run.accepted, sockfd) := by
  cases List.mem_append.mp h with
  | inl old => exact .inl old
  | inr new => exact .inr (List.mem_singleton.mp new)

theorem construct_owners (s : LedgerRun) (sockfd fd : Nat) :
    (s.construct sockfd).owners fd = s.owners fd + if sockfd = fd then 1 else 0 := by
  simp [owners, construct, List.count_append, List.count_singleton]

/-- The callback makes a connection of the new descriptor. -/
theorem Kept.connect {s : LedgerRun} (kept : s.Kept) {fd : Nat}
    (free : s.descriptors fd = .closed) : ((s.take fd).construct fd).Kept := by
  have owners (k : Nat) : ((s.take fd).construct fd).owners k =
      s.owners k + if fd = k then 1 else 0 := construct_owners _ fd k
  have fresh := kept.fresh free
  constructor
  · apply kept.balanced.taken (kept.unowned free)
    · rw [owners, kept.unowned free, if_pos rfl]
    · intro k other
      rw [owners, if_neg fun same => other same.symm]
      rfl
  · intro item mem
    rcases mem_construct mem with old | rfl
    · exact (assign_other _ _ (fresh item old)).trans (kept.held item old)
    · exact assign_same _ _ _
  · intro item mem other mem' same
    rcases mem_construct mem with old | rfl
    · rcases mem_construct mem' with old' | rfl
      · exact kept.apart item old other old' same
      · exact absurd same (fresh item old)
    · rcases mem_construct mem' with old' | rfl
      · exact absurd same.symm (fresh other old')
      · rfl

/-- Without a callback the new descriptor is closed at once. -/
theorem Kept.refuse {s : LedgerRun} (kept : s.Kept) {fd : Nat}
    (free : s.descriptors fd = .closed) : ((s.take fd).close fd).Kept := by
  have held (item : Nat × Nat) (mem : item ∈ s.sockets) :
      ((s.take fd).close fd).descriptors item.2 = .accepted := by
    have other := kept.fresh free item mem
    simp [close, take, other, kept.held item mem]
  refine ⟨?_, held, kept.apart⟩
  have taken : Handles.Accounted (assign s.owners fd 1) (s.ledger ++ [.taken fd]) := by
    apply kept.balanced.taken (kept.unowned free) (assign_same _ _ _)
    intro k other
    exact assign_other _ _ other
  apply taken.freed
  intro k
  by_cases same : fd = k
  · subst same
    have none : ((s.take fd).close fd).owners fd = 0 := kept.unowned free
    rw [assign_same, if_pos rfl, none]
  · rw [assign_other _ _ fun h => same h.symm, if_neg same]
    rfl

/-- Each Socket of a connection that goes closes its own descriptor. -/
theorem Kept.sweep {s : LedgerRun} (kept : s.Kept) : s.sweep.Kept := by
  obtain ⟨sockets, ledger, descriptors⟩ := s.sweep_keeps
  have stays {item : Nat × Nat} (mem : item ∈ s.sweep.sockets) :
      item ∈ s.sockets ∧ s.owned.owned item.1 = true := by
    rw [sockets] at mem
    exact List.mem_filter.mp mem
  constructor
  · rw [Balanced, ledger]
    exact kept.balanced.freedAll s.sweep_owners
  · intro item mem
    obtain ⟨here, owned⟩ := stays mem
    rw [descriptors]
    · exact kept.held item here
    · intro closes
      obtain ⟨other, leaves, same⟩ := List.mem_map.mp closes
      obtain ⟨there, unowned⟩ := List.mem_filter.mp leaves
      obtain rfl := kept.apart other there item here same
      rw [owned] at unowned
      cases unowned
  · intro item mem other mem' same
    exact kept.apart item (stays mem).1 other (stays mem').1 same

theorem Kept.follow {s : LedgerRun} (kept : s.Kept) (owned : OwnedRun) : (s.follow owned).Kept := by
  have same : ({ s with owned := owned } : LedgerRun).Kept :=
    ⟨kept.balanced, kept.held, kept.apart⟩
  exact same.sweep

theorem Kept.turn {s t : LedgerRun} {l : OwnerAct} (kept : s.Kept) (h : s.turn l = some t) :
    t.Kept := by
  obtain ⟨owned, _, rfl⟩ := Option.map_eq_some_iff.mp h
  exact kept.follow owned

theorem Kept.elsewhere {s : LedgerRun} (kept : s.Kept) {fd : Nat} {descriptor : Descriptor}
    (foreign : s.descriptors fd ≠ .accepted) :
    ({ s with descriptors := assign s.descriptors fd descriptor } : LedgerRun).Kept := by
  refine ⟨kept.balanced, ?_, kept.apart⟩
  intro item mem
  have other : item.2 ≠ fd := by
    rintro rfl
    exact foreign (kept.held item mem)
  exact (assign_other _ _ other).trans (kept.held item mem)

theorem Kept.step {s t : LedgerRun} {l : LedgerAct} (kept : s.Kept) (h : s.step l = some t)
    (nonZero : s.NonZero l) : t.Kept := by
  cases stepped h with
  | connect _ free _ turns => exact (kept.connect free).turn turns
  | refuse _ free _ turns => exact (kept.refuse free).turn turns
  | lose _ _ => exact absurd rfl nonZero
  | fail _ turns | owner _ turns => exact kept.turn turns
  | endLoop _ => exact kept.follow _
  | opens closed =>
    apply kept.elsewhere
    rw [closed]
    exact Descriptor.noConfusion
  | closes other =>
    apply kept.elsewhere
    rw [other]
    exact Descriptor.noConfusion

/-- Descriptor 0 is neither with a Socket nor closed. -/
theorem Kept.lost {s t : LedgerRun} {l : OwnerAct} (kept : s.Kept)
    (free : s.descriptors 0 = .closed) (h : (s.take 0).turn l = some t) : ¬ t.Balanced := by
  intro balanced
  obtain ⟨owned, _, rfl⟩ := Option.map_eq_some_iff.mp h
  let lost : LedgerRun := { s.take 0 with owned := owned }
  have none : lost.owners 0 = 0 := kept.unowned free
  have conserved := lost.sweep_owners 0
  have unclosed : 0 ∉ lost.gone.map Prod.snd := by
    apply List.count_eq_zero.mp
    omega
  have unfreed : .freed 0 ∉ (lost.gone.map Prod.snd).map Handles.Event.freed := by
    intro mem
    obtain ⟨fd, here, same⟩ := List.mem_map.mp mem
    cases same
    exact unclosed here
  have ledger : lost.sweep.ledger =
      s.ledger ++ .taken 0 :: (lost.gone.map Prod.snd).map .freed := by
    rw [lost.sweep_keeps.2.1]
    exact List.append_assoc _ _ _
  have account := Handles.accounted_iff.mp balanced s.ledger 0 _ ledger
  rw [Handles.frees_eq_zero unfreed] at account
  have unowned : ((s.take 0).follow owned).owners 0 = 0 := by
    change lost.sweep.owners 0 = 0
    omega
  rw [unowned, ite_self] at account
  cases account

/-- In every run, the ledger is balanced throughout exactly when `accept4` never
returns descriptor 0. -/
theorem balanced_iff {s : LedgerRun} (hs : s.Start) (ls : List LedgerAct) :
    machine.Always Balanced s ls ↔ machine.Steps NonZero s ls := by
  apply always_iff_steps (fun s kept => kept.balanced) (fun s l t kept => kept.step) ?_
    (start_kept hs)
  intro s l t kept h balanced
  cases stepped h with
  | connect positive _ _ _ | refuse positive _ _ _ => exact Int.ne_of_gt positive
  | lose free turns => exact absurd balanced (kept.lost free turns)
  | fail negative _ => exact Int.ne_of_lt negative
  | owner _ _ | endLoop _ | opens _ | closes _ => trivial

/-- A process with one io loop that was started without standard input. -/
def newborn : LedgerRun where
  owned := OwnedRun.newborn
  newConnectionCallback := true
  descriptors := fun fd => if fd = 1 ∨ fd = 2 then .other else .closed
  sockets := []
  ledger := []

theorem newborn_start : newborn.Start := by
  refine ⟨OwnedRun.newborn_start, fun fd => ?_, rfl, rfl⟩
  show (if fd = 1 ∨ fd = 2 then Descriptor.other else .closed) ≠ .accepted
  split <;> exact Descriptor.noConfusion

def accepting (connfd : Int) : List LedgerAct := [.owner (.poll 0 [] true), .handleRead connfd]

/-- The first connection is established, closed by its peer and destroyed. -/
def closing : List OwnerAct :=
  [.server (.task 0 ServerRun.eof), .poll 1 [] false, .server (.dispatch 1 true),
    .server (.runFunctor 1), .server (.task 1 ServerRun.eof), .returns 1, .server (.runFunctor 1),
    .poll 1 [(0, EPOLLIN)] false, .server (.dispatch 1 true), .server (.task 1 ServerRun.eof),
    .returns 1, .server (.task 1 ServerRun.eof), .server (.task 1 ServerRun.eof),
    .server (.dispatch 0 true), .server (.runFunctor 0), .server (.task 0 ServerRun.eof),
    .server (.runFunctor 0), .server (.dispatch 1 true), .server (.runFunctor 1),
    .server (.task 1 ServerRun.eof), .returns 1, .server (.runFunctor 1)]

/-- Descriptor 7 is given out a second time. -/
theorem balanced_reused :
    (machine.exec newborn (accepting 7 ++ closing.map .owner ++ accepting 7)).map
      (fun s => (s.ledger, s.sockets)) = some ([.taken 7, .freed 7, .taken 7], [(1, 7)]) ∧
    machine.Always Balanced newborn (accepting 7 ++ closing.map .owner ++ accepting 7) :=
  ⟨by decide +kernel, (balanced_iff newborn_start _).mpr (by decide +kernel)⟩

/-- `accept4` returns descriptor 0, which `handleRead` takes for an error. -/
theorem not_balanced_zero : newborn.Start ∧ ∃ s, machine.exec newborn (accepting 0) = some s ∧
    s.ledger = [.taken 0] ∧ s.sockets = [] ∧ ¬ s.Balanced := by
  have run : (machine.exec newborn (accepting 0)).map
      (fun s => (s.ledger, s.sockets, decide s.Balanced)) = some ([.taken 0], [], false) := by
    decide +kernel
  obtain ⟨s, hs, found⟩ := Option.map_eq_some_iff.mp run
  simp only [Prod.mk.injEq, decide_eq_false_iff_not] at found
  exact ⟨newborn_start, s, hs, found⟩

end LedgerRun
end Kenmuduo
