import Kenmuduo.TcpServer

/-!
# The callbacks of a connection

What the user should see of a connection: up, messages, down. A connection
that is closing keeps its read interest until `connectionDestroyed` has run on
its loop, so it can be reported again; and `connectionDestroyed` calls down
only for a connection that nobody has shut down.
-/

namespace Kenmuduo

/-! ## The protocol -/

abbrev up : Callback := .connection true
abbrev down : Callback := .connection false

/-- Up, any number of messages, and at most one down at the end. -/
inductive Protocol : List Callback → Prop
  | none : Protocol []
  | established (n : Nat) : Protocol (up :: List.replicate n .message)
  | closed (n : Nat) : Protocol (up :: List.replicate n .message ++ [down])

namespace Protocol

theorem first : Protocol [up] := established 0

theorem open_cases {log : List Callback} (h : Protocol log) (hup : log ≠ []) (hdown : down ∉ log) :
    ∃ n, log = up :: List.replicate n .message := by
  cases h with
  | none => exact absurd rfl hup
  | established n => exact ⟨n, rfl⟩
  | closed n => simp at hdown

theorem message {log : List Callback} (h : Protocol log) (hup : log ≠ []) (hdown : down ∉ log) :
    Protocol (log ++ [.message]) := by
  obtain ⟨n, rfl⟩ := h.open_cases hup hdown
  have one_more : up :: List.replicate n .message ++ [.message] =
      up :: List.replicate (n + 1) Callback.message := by
    rw [List.cons_append, ← List.replicate_succ']
  rw [one_more]
  exact established (n + 1)

theorem close {log : List Callback} (h : Protocol log) (hup : log ≠ []) (hdown : down ∉ log) :
    Protocol (log ++ [down]) := by
  obtain ⟨n, rfl⟩ := h.open_cases hup hdown
  exact closed n

/-- Nothing comes after a down. -/
theorem not_after {log : List Callback} (h : down ∈ log) (x : Callback) :
    ¬ Protocol (log ++ [x]) := by
  intro after
  generalize hl : log ++ [x] = whole at after
  have last : ∀ init y, log ++ [x] = init ++ [y] → down ∈ init := by
    intro init y same
    obtain ⟨rfl, _⟩ := List.append_inj' same rfl
    exact h
  cases after with
  | none => simp at hl
  | established n =>
    have mem : down ∈ up :: List.replicate n .message := hl ▸ List.mem_append_left _ h
    simp at mem
  | closed n =>
    have mem := last _ _ hl
    simp at mem

theorem count_down {log : List Callback} (h : Protocol log) (hdown : down ∈ log) :
    log.count down = 1 := by
  cases h with
  | none => cases hdown
  | established n => simp at hdown
  | closed n =>
    rw [List.count_append, List.count_cons_of_ne (by simp), List.count_replicate]
    rfl

end Protocol

namespace ServerRun

/-- The user has been told that the connection is down. -/
def closed (s : ServerRun) (conn : Nat) : Prop := down ∈ s.log conn

/-- Each connection's callbacks keep to the protocol, and a destroyed one has
had its down. -/
def WellCalled (s : ServerRun) : Prop :=
  ∀ conn, Protocol (s.log conn) ∧ (s.destroyed conn = true → (s.log conn).count down = 1)

/-- A task comes in time: no message and no close once the connection is down,
and `connectionDestroyed` only finds it connected or down. -/
def InTime (s : ServerRun) (answer : Answer) : Task → Prop
  | .handleClose conn => ¬ s.closed conn
  | .handleRead conn => ∀ bytes, answer.read = .delivered bytes → ¬ s.closed conn
  | .functor (.connectionDestroyed conn) => s.closed conn ∨ (s.conn conn).state = .kConnected
  | _ => True

instance (s : ServerRun) (conn : Nat) : Decidable (s.closed conn) :=
  inferInstanceAs (Decidable (down ∈ s.log conn))

instance (s : ServerRun) (answer : Answer) : ∀ task, Decidable (s.InTime answer task)
  | .handleClose conn => inferInstanceAs (Decidable (¬ s.closed conn))
  | .handleRead conn =>
    match h : answer.read with
    | .delivered bytes =>
      decidable_of_iff (¬ s.closed conn) ⟨fun opened _ _ => opened, fun intime => intime bytes h⟩
    | .failed _ => isTrue fun _ read => nomatch h.symm.trans read
  | .functor (.connectionDestroyed conn) =>
    inferInstanceAs (Decidable (s.closed conn ∨ (s.conn conn).state = .kConnected))
  | .functor (.connectEstablished _) | .functor (.removeConnectionInLoop _)
  | .functor (.sendInLoop _ _) | .functor (.shutdownInLoop _) | .runInLoop _ _ | .handleError _
  | .handleWrite _ | .removeConnection _ | .setDisconnecting _ | .destroyServer _ => isTrue trivial

/-- The step runs no task that comes too late. -/
def Orderly (s : ServerRun) : ServerAct → Prop
  | .task thread answer => ∀ task ∈ (s.todo thread).head?, s.InTime answer task
  | _ => True

instance (s : ServerRun) : ∀ l, Decidable (s.Orderly l)
  | .task thread answer =>
    inferInstanceAs (Decidable (∀ task ∈ (s.todo thread).head?, s.InTime answer task))
  | .newConnection _ | .poll _ _ | .dispatch _ _ | .runFunctor _ | .send _ _ _ | .shutdown _ _
  | .destroyServer _ _ => isTrue trivial

end ServerRun
end Kenmuduo
