import Kenmuduo.DescriptorReuse

/-!
# What stays open

A connection that has left `connections_` does not come back, so when nobody else
holds a pointer, the open descriptors that `accept4` returned are those of the
server's connections.
-/

namespace Kenmuduo
open Transition

namespace OwnedRun

/-- `~TcpServer` goes on with the connections it was begun with. -/
theorem destroyServer_waits {s t : ServerRun} {act : ServerAct} (ran : s.step act = some t)
    {thread : Nat} {conns : List Nat} (mem : .destroyServer conns ∈ s.todo thread) :
    t.server = none ∨ ∃ rest, (∀ conn ∈ rest, conn ∈ conns) ∧
      .destroyServer rest ∈ t.todo thread := by
  rcases ServerRun.step_waits (p := .todo thread) ran mem with
    ⟨q, _, waits, rfl | ⟨cb, functor⟩⟩ | ⟨other, answer, rest, rfl, here, next⟩ |
    ⟨loop, conn, none, _⟩
  · exact .inr ⟨conns, fun _ here => here, waits⟩
  · cases functor
  · cases here
    obtain ⟨_, run⟩ := ServerRun.step_runs ran next
    cases conns with
    | nil =>
      cases run
      exact .inl rfl
    | cons conn conns =>
      cases run
      refine .inr ⟨conns, fun k here => List.mem_cons_of_mem conn here, ?_⟩
      simp [ServerRun.call, ServerRun.setTodo]
  · cases none

/-- Only a new connection comes to `connections_`. -/
theorem entered_before {s t : OwnedRun} {l : OwnerAct} (h : s.step l = some t) {conn : Nat}
    (entered : t.entered conn = true) : s.entered conn = true ∨
      ((∃ sockfd, l = .server (.newConnection sockfd)) ∧ conn = s.run.accepted) := by
  obtain ⟨server, hs, ⟨item, mem, rfl⟩, ahead⟩ := entered_iff.mp entered
  obtain ⟨threads, ⟨_, same⟩ | ⟨act, hact, _, ran⟩⟩ := step_run h
  · rw [same] at hs ahead
    rw [threads] at ahead
    exact .inl (entered_iff.mpr ⟨server, hs, ⟨item, mem, rfl⟩, ahead⟩)
  have ahead' : ∀ thread, thread < s.threads → ∀ conns,
      .destroyServer conns ∈ s.run.todo thread → item.2 ∈ conns := by
    intro thread below conns due
    rcases destroyServer_waits ran due with gone | ⟨rest, within, due'⟩
    · rw [hs] at gone
      cases gone
    · exact within _ (ahead thread (threads ▸ below) rest due')
  have before {server' : TcpServer} (hs' : s.run.server = some server')
      (mem' : item ∈ server'.connections) : s.entered item.2 = true :=
    entered_iff.mpr ⟨server', hs', ⟨item, mem', rfl⟩, ahead'⟩
  cases ServerRun.step_serves ran with
  | same same =>
    rw [hs] at same
    exact .inl (before same.symm mem)
  | @accept server' sockfd accepts hs' now =>
    subst accepts
    cases hs.symm.trans now
    rcases TcpServer.newConnection_connections mem with old | new
    · exact .inl (before hs' old)
    · refine .inr ⟨⟨sockfd, ?_⟩, new⟩
      cases l with
      | server l =>
        cases hact
        rfl
      | _ => cases hact
  | @erase server' _ _ k _ _ _ hs' erased =>
    cases hs.symm.trans erased
    exact .inl (before hs' (List.mem_filter.mp mem).1)
  | destroyed _ _ gone =>
    rw [hs] at gone
    cases gone

end OwnedRun

namespace LedgerRun

/-- No functor, function, callback or thread of the user holds a connection that
exists. -/
def Unheld (s : LedgerRun) : Prop := ∀ item ∈ s.sockets, ∀ thread, thread < s.owned.threads →
  item.1 ∉ s.owned.pointers thread ∧ s.owned.kept thread item.1 = false

instance (s : LedgerRun) : Decidable s.Unheld :=
  inferInstanceAs (Decidable (∀ item ∈ s.sockets, ∀ thread, thread < s.owned.threads → _))

theorem Unheld.entered {s : LedgerRun} (h : s.Unheld) {item : Nat × Nat} (mem : item ∈ s.sockets)
    (owned : s.owned.owned item.1 = true) : s.owned.entered item.1 = true := by
  rw [OwnedRun.owned, Bool.or_eq_true] at owned
  apply owned.resolve_right
  intro held
  obtain ⟨thread, below, holds⟩ := List.any_eq_true.mp held
  obtain ⟨none, kept⟩ := h item mem thread (List.mem_range.mp below)
  rw [kept, Bool.or_false, List.contains_iff_mem] at holds
  exact none holds

/-- Every open descriptor is with a Socket, every Socket's connection is owned, and
the connections of `connections_` exist. -/
structure Tidy (s : LedgerRun) : Prop where
  kept : s.Kept
  covered : ∀ fd, s.descriptors fd = .accepted → ∃ conn, (conn, fd) ∈ s.sockets
  owned : ∀ item ∈ s.sockets, s.owned.owned item.1 = true
  entered : ∀ conn, s.owned.entered conn = true → ∃ fd, (conn, fd) ∈ s.sockets

/-- Pointers come and go, and what nobody owns is destroyed. -/
theorem Tidy.follow {s : LedgerRun} {owned : OwnedRun} (kept : s.Kept)
    (covered : ∀ fd, s.descriptors fd = .accepted → ∃ conn, (conn, fd) ∈ s.sockets)
    (entered : ∀ conn, owned.entered conn = true → ∃ fd, (conn, fd) ∈ s.sockets) :
    (s.follow owned).Tidy := by
  have stays {conn fd : Nat} (mem : (conn, fd) ∈ s.sockets) (held : owned.owned conn = true) :
      (conn, fd) ∈ (s.follow owned).sockets := by
    rw [LedgerRun.follow, (sweep_keeps _).1]
    exact List.mem_filter.mpr ⟨mem, held⟩
  constructor
  · exact kept.follow owned
  · intro fd open_
    have was : s.descriptors fd = .accepted := by
      rw [LedgerRun.follow, sweep_descriptors] at open_
      split at open_
      · cases open_
      · exact open_
    obtain ⟨conn, mem⟩ := covered fd was
    rcases s.follow_parts owned mem with here | closed
    · exact ⟨conn, here⟩
    · rw [open_] at closed
      cases closed
  · intro item mem
    rw [follow_owned]
    rw [LedgerRun.follow, (sweep_keeps _).1] at mem
    exact (List.mem_filter.mp mem).2
  · intro conn here
    rw [follow_owned] at here
    obtain ⟨fd, mem⟩ := entered conn here
    exact ⟨fd, stays mem (OwnedRun.entered_owned here)⟩

/-- A step that accepts no connection. -/
theorem Tidy.turn {s t u : LedgerRun} {l : OwnerAct} (tidy : s.Tidy) (kept : u.Kept)
    (covered : ∀ fd, u.descriptors fd = .accepted → s.descriptors fd = .accepted)
    (sockets : u.sockets = s.sockets) (owned : u.owned = s.owned)
    (other : ∀ sockfd, l ≠ .server (.newConnection sockfd)) (h : u.turn l = some t) :
    t.Tidy := by
  obtain ⟨next, ran, rfl⟩ := Option.map_eq_some_iff.mp h
  rw [owned] at ran
  apply Tidy.follow kept
  · intro fd open_
    rw [sockets]
    exact tidy.covered fd (covered fd open_)
  · intro conn here
    rw [sockets]
    rcases OwnedRun.entered_before ran here with old | ⟨⟨sockfd, accepts⟩, _⟩
    · exact tidy.entered conn old
    · exact absurd accepts (other sockfd)

/-- The connection of a new descriptor is entered, and its Socket is there. -/
theorem Tidy.connect {s t : LedgerRun} {fd : Nat} {l : OwnerAct} (tidy : s.Tidy)
    (free : s.descriptors fd = .closed) (h : ((s.take fd).construct fd).turn l = some t) :
    t.Tidy := by
  obtain ⟨next, ran, rfl⟩ := Option.map_eq_some_iff.mp h
  have old {item : Nat × Nat} (mem : item ∈ s.sockets) :
      item ∈ ((s.take fd).construct fd).sockets := List.mem_append_left _ mem
  have new : (s.owned.run.accepted, fd) ∈ ((s.take fd).construct fd).sockets :=
    List.mem_append_right _ (List.mem_singleton_self _)
  apply Tidy.follow (tidy.kept.connect free)
  · intro k open_
    by_cases here : k = fd
    · rw [here]
      exact ⟨_, new⟩
    · have was : s.descriptors k = .accepted := (assign_other _ _ here).symm.trans open_
      obtain ⟨conn, mem⟩ := tidy.covered k was
      exact ⟨conn, old mem⟩
  · intro conn here
    rcases OwnedRun.entered_before ran here with was | ⟨_, rfl⟩
    · obtain ⟨k, mem⟩ := tidy.entered conn was
      exact ⟨k, old mem⟩
    · exact ⟨fd, new⟩

theorem Tidy.elsewhere {s : LedgerRun} (tidy : s.Tidy) {fd : Nat} {descriptor : Descriptor}
    (foreign : s.descriptors fd ≠ .accepted) (other : descriptor ≠ .accepted) :
    ({ s with descriptors := assign s.descriptors fd descriptor } : LedgerRun).Tidy := by
  refine ⟨tidy.kept.elsewhere foreign, ?_, tidy.owned, tidy.entered⟩
  intro k open_
  by_cases here : k = fd
  · rw [here] at open_
    exact absurd ((assign_same _ _ _).symm.trans open_) other
  · exact tidy.covered k ((assign_other _ _ here).symm.trans open_)

theorem Tidy.step {s t : LedgerRun} {l : LedgerAct} (tidy : s.Tidy) (h : s.step l = some t)
    (nonZero : s.NonZero l) : t.Tidy := by
  cases stepped h with
  | connect _ free _ turns => exact tidy.connect free turns
  | @refuse connfd _ _ free _ turns =>
    apply tidy.turn (tidy.kept.refuse free) ?_ rfl rfl (fun _ => OwnerAct.noConfusion) turns
    intro fd open_
    by_cases here : fd = connfd.toNat
    · rw [here] at open_
      cases (assign_same _ _ _).symm.trans open_
    · have same : ((s.take connfd.toNat).close connfd.toNat).descriptors fd = s.descriptors fd :=
        (assign_other _ _ here).trans (assign_other _ _ here)
      exact same.symm.trans open_
  | lose _ _ => exact absurd rfl nonZero
  | fail _ turns =>
    exact tidy.turn tidy.kept (fun _ open_ => open_) rfl rfl (fun _ => OwnerAct.noConfusion) turns
  | owner other turns =>
    apply tidy.turn tidy.kept (fun _ open_ => open_) rfl rfl ?_ turns
    rintro sockfd rfl
    cases other
  | @endLoop loop owned ends =>
    apply Tidy.follow tidy.kept tidy.covered
    intro conn here
    obtain ⟨server, hs, _⟩ := OwnedRun.entered_iff.mp here
    unfold OwnedRun.endLoop at ends
    split at ends
    · rename_i gone _ _
      split at ends
      · cases ends
        rw [show s.owned.run.server = some server from hs] at gone
        cases gone
      · cases ends
    · cases ends
  | opens closed =>
    apply tidy.elsewhere
    · rw [closed]
      exact Descriptor.noConfusion
    · exact Descriptor.noConfusion
  | closes other =>
    apply tidy.elsewhere
    · rw [other]
      exact Descriptor.noConfusion
    · exact Descriptor.noConfusion

theorem start_tidy {s : LedgerRun} (h : s.Start) : s.Tidy := by
  refine ⟨start_kept h, ?_, ?_, ?_⟩
  · intro fd open_
    exact absurd open_ (h.descriptors fd)
  · intro item mem
    rw [h.sockets] at mem
    cases mem
  · intro conn here
    obtain ⟨server, hs, ⟨item, mem, _⟩, _⟩ := OwnedRun.entered_iff.mp here
    obtain ⟨server', hs', empty⟩ := h.owned.run.server
    cases hs.symm.trans hs'
    rw [empty] at mem
    cases mem

/-- When nobody holds a connection, the open descriptors that `accept4` returned are
those of the connections of `connections_`, each of which has one. -/
theorem open_iff_entered {s : LedgerRun} (h : machine.ReachableBy NonZero s)
    (unheld : s.Unheld) :
    (∀ fd, s.descriptors fd = .accepted ↔
      ∃ conn, (conn, fd) ∈ s.sockets ∧ s.owned.entered conn = true) ∧
    (∀ conn, s.owned.entered conn = true → ∃ fd, (conn, fd) ∈ s.sockets) ∧
    ∀ conn other fd, (conn, fd) ∈ s.sockets → (other, fd) ∈ s.sockets → conn = other := by
  have tidy : s.Tidy := h.invariant (fun _ => start_tidy) fun _ _ _ tidy ok hs => tidy.step hs ok
  refine ⟨fun fd => ⟨fun open_ => ?_, ?_⟩, tidy.entered, fun conn other fd mine its => ?_⟩
  · obtain ⟨conn, mem⟩ := tidy.covered fd open_
    exact ⟨conn, mem, unheld.entered mem (tidy.owned _ mem)⟩
  · rintro ⟨conn, mem, _⟩
    exact tidy.kept.held _ mem
  · exact congrArg Prod.fst (tidy.kept.apart _ mine _ its rfl)

/-- The first connection is destroyed, the second one established. -/
def replacing : List LedgerAct :=
  accepting 7 ++ closing.map .owner ++ accepting 8 ++
    [.owner (.server (.task 0 ServerRun.eof)), .owner (.poll 1 [] false),
      .owner (.server (.dispatch 1 true)), .owner (.server (.runFunctor 1)),
      .owner (.server (.task 1 ServerRun.eof)), .owner (.returns 1),
      .owner (.server (.runFunctor 1))]

theorem open_iff_entered_replaced : ∃ s, machine.exec newborn replacing = some s ∧
    s.sockets = [(1, 8)] ∧ s.Unheld ∧ (∀ fd, s.descriptors fd = .accepted ↔
      ∃ conn, (conn, fd) ∈ s.sockets ∧ s.owned.entered conn = true) ∧
    (∀ conn, s.owned.entered conn = true → ∃ fd, (conn, fd) ∈ s.sockets) ∧
    ∀ conn other fd, (conn, fd) ∈ s.sockets → (other, fd) ∈ s.sockets → conn = other := by
  have run : (machine.exec newborn replacing).map (fun s => (s.sockets, decide s.Unheld)) =
      some ([(1, 8)], true) := by decide +kernel
  obtain ⟨s, hs, found⟩ := Option.map_eq_some_iff.mp run
  simp only [Prod.mk.injEq, decide_eq_true_eq] at found
  have reachable : machine.ReachableBy NonZero s := by
    apply Machine.ReachableBy.of_steps (.start newborn_start) replacing ?_ hs
    decide +kernel
  exact ⟨s, hs, found.1, found.2, open_iff_entered reachable found.2⟩

end LedgerRun
end Kenmuduo
