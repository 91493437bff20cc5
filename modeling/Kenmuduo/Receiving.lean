import Kenmuduo.Confinement
import Kenmuduo.BufferGrowth
import Kenmuduo.FailedRead

/-!
# What a connection receives

A server with the bytes that `readv` has delivered to one connection and those that
the user has taken out of its input buffer, in whatever portions the kernel delivers
and the user takes them. What goes outside the buffer's storage ends the run: a string
that reaches beyond it, and a read that fails.
-/

namespace Kenmuduo
open Transition

/-- The user's calls that take bytes out of a buffer. -/
def BufferCall.takes : BufferCall → Bool
  | retrieve _ | retrieveAll | retrieveAsString _ | retrieveAllAsString => true
  | append _ _ | readFd _ => false

/-- What the user has of a call: the string it returns, or the bytes that were there
to be looked at and are passed over. -/
def BufferCall.hands (b : Buffer) (out : Option (List UInt8)) : BufferCall → List UInt8
  | retrieve len => b.readable.take len
  | retrieveAll => b.readable
  | retrieveAsString _ | retrieveAllAsString | append _ _ | readFd _ => out.getD []

theorem BufferCall.takes_possible {op : BufferCall} (takes : op.takes = true) (b : Buffer) :
    op.possible b = true := by
  cases op with
  | append | readFd => cases takes
  | _ => rfl

/-- What a call that takes bytes is to hand out is what the contents lose. -/
theorem BufferCall.hands_effect {op : BufferCall} (takes : op.takes = true) (b : Buffer) :
    b.readable = op.hands b (op.effect b.readable).2 ++ (op.effect b.readable).1 := by
  cases op with
  | append | readFd => cases takes
  | retrieve len | retrieveAsString len => exact (List.take_append_drop len b.readable).symm
  | retrieveAll | retrieveAllAsString => exact (List.append_nil b.readable).symm

theorem TcpConnection.handleRead_input {c c' : TcpConnection} {r : ReadResult}
    {effects : List Effect} (h : c.handleRead r = .ok (c', effects)) :
    ∃ read, c.inputBuffer.readFd r 0 = .ok read ∧ c'.inputBuffer = read.buf := by
  simp only [handleRead, bind_ok_iff] at h
  obtain ⟨read, hread, h⟩ := h
  refine ⟨read, hread, ?_⟩
  split at h
  · obtain ⟨_, _, result⟩ := bind_ok_iff.mp h
    cases result
    rfl
  · split at h
    · rw [(handleClose_ok h).1]
    · cases h
      rfl

theorem TcpConnection.handleRead_receives {c c' : TcpConnection} {bytes : List UInt8}
    {effects : List Effect} (input : c.inputBuffer.Inv)
    (fits : bytes.length ≤ c.inputBuffer.offered)
    (h : c.handleRead (.delivered bytes) = .ok (c', effects)) :
    c'.inputBuffer.Inv ∧ c'.inputBuffer.readable = c.inputBuffer.readable ++ bytes := by
  obtain ⟨read, hread, same⟩ := handleRead_input h
  rw [same]
  obtain ⟨r, hr, received⟩ | ⟨throws, _⟩ := input.readFd fits 0
  · cases hr.symm.trans hread
    exact ⟨received.inv, received.readable⟩
  · cases throws.symm.trans hread

/-- The function goes outside a buffer. -/
def Except.overruns {α : Type} : Except Fault α → Bool
  | .error .outOfBounds => true
  | _ => false

/-- A read that does not fail stays inside the buffer. -/
theorem TcpConnection.handleRead_inside {c : TcpConnection} {bytes : List UInt8}
    (input : c.inputBuffer.Inv) (fits : bytes.length ≤ c.inputBuffer.offered) :
    Except.overruns (c.handleRead (.delivered bytes)) = false := by
  obtain ⟨read, hread, _⟩ | ⟨throws, _⟩ := input.readFd fits 0
  · simp only [handleRead, hread, ok_bind]
    split
    · cases c.messageCallback <;> simp [call, Except.overruns]
    · split
      · cases c.connectionCallback <;> cases c.closeCallback <;>
          simp [handleClose, call, Except.overruns]
      · rfl
  · simp only [handleRead, throws, error_bind, Except.overruns]

structure InputRun where
  run : ServerRun
  delivered : List UInt8
  taken : List UInt8
  /-- Something went outside the connection's input buffer. -/
  overrun : Bool

inductive InputAct
  | server (l : ServerAct)
  /-- The user's code takes bytes out of the connection's input buffer, which it has
  from a message callback. -/
  | take (op : BufferCall)

namespace ServerRun

def arrived (s : ServerRun) (k : Nat) : ServerAct → List UInt8
  | .task thread answer =>
    match (s.todo thread).head?, answer.read with
    | some (.handleRead conn), .delivered bytes => if conn = k then bytes else []
    | _, _ => []
  | _ => []

/-- The step is a `handleRead` of the connection that goes outside its buffer. -/
def overruns (s : ServerRun) (k : Nat) : ServerAct → Bool
  | .task thread answer =>
    match (s.todo thread).head? with
    | some (.handleRead conn) =>
      conn == k && Except.overruns ((s.conn conn).handleRead answer.read)
    | _ => false
  | _ => false

def readFails (s : ServerRun) (k : Nat) : ServerAct → Bool
  | .task thread answer =>
    match (s.todo thread).head?, answer.read with
    | some (.handleRead conn), .failed _ => conn == k
    | _, _ => false
  | _ => false

/-- Just the reads that fail go outside the buffer. -/
theorem overruns_eq {s : ServerRun} {k : Nat} {l : ServerAct} (inv : s.forgetting.Inv [])
    (input : k < s.accepted → (s.conn k).inputBuffer.Inv)
    (fits : (s.arrived k l).length ≤ (s.conn k).inputBuffer.offered) :
    s.overruns k l = s.readFails k l := by
  cases l with
  | task thread answer =>
    simp only [overruns, readFails]
    cases next : (s.todo thread).head? with
    | none => rfl
    | some task =>
      cases task with
      | handleRead conn =>
        by_cases here : conn = k
        · subst here
          obtain ⟨rest, waits⟩ := List.head?_eq_some_iff.mp next
          have input := input (told_known inv (waiting_valid inv (mem_todo waits)))
          cases read : answer.read with
          | delivered bytes =>
            simp only [arrived, next, read, if_true] at fits
            simp [TcpConnection.handleRead_inside input fits]
          | failed errno =>
            simp [TcpConnection.handleRead, input.readFd_failed, error_bind, Except.overruns]
        · cases answer.read <;> simp [here]
      | _ => rfl
  | _ => rfl

def setInput (s : ServerRun) (k : Nat) (input : Buffer) : ServerRun :=
  s.setConn k { s.conn k with inputBuffer := input }

/-- A connection's input is of no account to what waits. -/
theorem Inv.setInput {s : ServerRun} {hand : List Task} (inv : s.Inv hand) {k : Nat}
    (exists_ : k < s.accepted) (input : Buffer) : (s.setInput k input).Inv hand := by
  have same : s.log = assign s.log k (s.log k) := (assign_self _ _).symm
  refine ⟨inv.replace rfl same rfl id exists_ (fun _ _ => Iff.rfl) inv.registered
    (inv.protocol k) (inv.fresh k exists_) (inv.ended k), ?_, ?_⟩
  · intro p task mem
    apply (inv.valid p task ?_).mono (Nat.le_refl _) fun _ told => told
    cases p <;> exact mem
  · obtain ⟨place, placed⟩ := inv.placed
    refine ⟨place, placed.held.same fun p conn => ?_, placed.early⟩
    cases p <;> rfl

def Reads (s : ServerRun) (k : Nat) (l : ServerAct) : Prop :=
  ∃ thread answer rest, l = .task thread answer ∧ s.todo thread = .handleRead k :: rest

theorem arrived_none {s : ServerRun} {k : Nat} {l : ServerAct} (other : ¬ s.Reads k l) :
    s.arrived k l = [] := by
  cases l with
  | task thread answer =>
    simp only [arrived]
    split
    · rename_i conn bytes first _
      rw [if_neg]
      rintro rfl
      obtain ⟨rest, next⟩ := List.head?_eq_some_iff.mp first
      exact other ⟨thread, answer, rest, rfl, next⟩
    · rfl
  | _ => rfl

/-- What is delivered is behind the input of the connection after the step, which
otherwise is as it was; a new connection has none. -/
theorem step_feeds {s t : ServerRun} {k : Nat} {l : ServerAct} (inv : s.forgetting.Inv [])
    (input : k < s.accepted → (s.conn k).inputBuffer.Inv)
    (fits : (s.arrived k l).length ≤ (s.conn k).inputBuffer.offered)
    (h : s.step l = some t) :
    (k < s.accepted → (t.conn k).inputBuffer.Inv ∧
      (t.conn k).inputBuffer.readable = (s.conn k).inputBuffer.readable ++ s.arrived k l) ∧
    (¬ k < s.accepted → s.arrived k l = [] ∧
      (k < t.accepted → (t.conn k).inputBuffer = Buffer.new)) := by
  by_cases reads : s.Reads k l
  · obtain ⟨thread, answer, rest, rfl, next⟩ := reads
    have known : k < s.accepted := told_known inv (waiting_valid inv (mem_todo next))
    obtain ⟨_, c, effects, ran, performs⟩ := step_performs h next rfl
    have now : t.conn k = c := by rw [performs.conn, assign_same]
    refine ⟨fun _ => ?_, fun unknown => absurd known unknown⟩
    rw [now]
    cases hread : answer.read with
    | delivered bytes =>
      have arrives : s.arrived k (.task thread answer) = bytes := by
        simp only [arrived, next, List.head?_cons, hread, if_true]
      rw [arrives] at fits ⊢
      rw [hread] at ran
      exact TcpConnection.handleRead_receives (input known) fits ran
    | failed errno =>
      rw [hread] at ran
      obtain ⟨read, hread, _⟩ := TcpConnection.handleRead_input ran
      cases ((input known).readFd_failed errno 0).symm.trans hread
  · rw [arrived_none reads, List.append_nil]
    cases step_becomes h k with
    | same same =>
      rw [same]
      refine ⟨fun known => ⟨input known, rfl⟩, fun unknown => ⟨rfl, fun known => ?_⟩⟩
      obtain ⟨sockfd, server, _, _, _, new, _⟩ := step_newest h unknown known
      rw [← same, new]
      rfl
    | new _ _ newest new =>
      rw [new]
      exact ⟨fun known => absurd known (by omega), fun _ => ⟨rfl, fun _ => rfl⟩⟩
    | @ran thread answer task rest effects label next _ hr =>
      have known : k < s.accepted := result_known inv (waiting_valid inv (mem_todo next)) hr
      obtain same | rfl := (result_same hr).2
      · rw [same]
        exact ⟨fun _ => ⟨input known, rfl⟩, fun unknown => absurd known unknown⟩
      · exact absurd ⟨thread, answer, rest, label, next⟩ reads

end ServerRun

namespace InputRun

/-- The user's code runs on the thread of the connection's loop, and has been given
the buffer. -/
def canTake (s : InputRun) (k : Nat) : Bool :=
  s.run.inUserCode (s.run.conn k).loop && (s.run.log k).contains .message

/-- `readv` stores no more than it is offered. -/
def step (k : Nat) (s : InputRun) (l : InputAct) : Option InputRun :=
  if s.overrun then none
  else
    match l with
    | .server l =>
      if (s.run.arrived k l).length ≤ (s.run.conn k).inputBuffer.offered then
        if s.run.overruns k l then some { s with overrun := true }
        else (s.run.step l).map fun t =>
          { s with run := t, delivered := s.delivered ++ s.run.arrived k l }
      else none
    | .take op =>
      if op.takes && s.canTake k then
        match (s.run.conn k).inputBuffer.call op with
        | .ok (input, out) =>
          some { s with
            run := s.run.setInput k input
            taken := s.taken ++ op.hands (s.run.conn k).inputBuffer out }
        | .error .outOfBounds => some { s with overrun := true }
        | .error _ => none
      else none

structure Start (s : InputRun) : Prop where
  run : s.run.Start
  delivered : s.delivered = []
  taken : s.taken = []
  overrun : s.overrun = false

def machine (k : Nat) : Machine InputRun InputAct := ⟨Start, step k⟩

/-- The bytes delivered are those taken and then those still readable, and nothing has
gone outside the buffer. -/
def Kept (k : Nat) (s : InputRun) : Prop := s.overrun = false ∧
  (k < s.run.accepted → s.delivered = s.taken ++ (s.run.conn k).inputBuffer.readable)

/-- No read of the connection fails, and the user asks for no longer a string than there
is. -/
def AsksWithin (k : Nat) (s : InputRun) : InputAct → Prop
  | .take op => op.overlong (s.run.conn k).inputBuffer = false
  | .server l => s.run.readFails k l = false

instance (k : Nat) (s : InputRun) : ∀ l, Decidable (s.AsksWithin k l)
  | .take op => inferInstanceAs (Decidable (op.overlong (s.run.conn k).inputBuffer = false))
  | .server l => inferInstanceAs (Decidable (s.run.readFails k l = false))

structure Receives (k : Nat) (s : InputRun) : Prop where
  inv : s.run.forgetting.Inv []
  unborn : ¬ k < s.run.accepted → s.delivered = [] ∧ s.taken = []
  input : k < s.run.accepted → (s.run.conn k).inputBuffer.Inv
  kept : s.Kept k

theorem Start.receives {s : InputRun} (h : s.Start) (k : Nat) : s.Receives k := by
  have none : ¬ k < s.run.accepted := by
    rw [h.run.accepted]
    exact Nat.not_lt_zero k
  exact ⟨h.run.forgetting_inv, fun _ => ⟨h.delivered, h.taken⟩, fun known => absurd known none,
    h.overrun, fun known => absurd known none⟩

/-- A step of the server delivers what arrives, or goes outside the buffer. -/
theorem server_cases {k : Nat} {s t : InputRun} {l : ServerAct}
    (hs : s.step k (.server l) = some t) : s.overrun = false ∧
      (s.run.arrived k l).length ≤ (s.run.conn k).inputBuffer.offered ∧
      ((s.run.overruns k l = true ∧ t.overrun = true) ∨
        (s.run.overruns k l = false ∧ ∃ u, s.run.step l = some u ∧
          t = { s with run := u, delivered := s.delivered ++ s.run.arrived k l })) := by
  simp only [step, Option.ite_none_left_eq_some, Option.ite_none_right_eq_some] at hs
  obtain ⟨going, fits, hs⟩ := hs
  refine ⟨Bool.of_not_eq_true going, fits, ?_⟩
  split at hs
  · rename_i overruns
    cases hs
    exact .inl ⟨overruns, rfl⟩
  · rename_i inside
    obtain ⟨u, ran, rfl⟩ := Option.map_eq_some_iff.mp hs
    exact .inr ⟨Bool.of_not_eq_true inside, u, ran, rfl⟩

theorem Receives.server {k : Nat} {s t : InputRun} {l : ServerAct} (h : s.Receives k)
    (hs : s.step k (.server l) = some t) (within : s.run.readFails k l = false) :
    t.Receives k := by
  obtain ⟨going, fits, ⟨overruns, _⟩ | ⟨_, u, ran, rfl⟩⟩ := server_cases hs
  · rw [ServerRun.overruns_eq h.inv h.input fits, within] at overruns
    cases overruns
  obtain ⟨old, new⟩ := ServerRun.step_feeds h.inv h.input fits ran
  refine ⟨ServerRun.step_forgetting_inv h.inv ran, ?_, ?_, going, ?_⟩
  · intro unknown
    have before : ¬ k < s.run.accepted := by
      obtain same | ⟨_, next⟩ := ServerRun.step_accepted ran
      · exact same ▸ unknown
      · intro known
        exact unknown (by simp only [next]; omega)
    obtain ⟨delivered, taken⟩ := h.unborn before
    simp only [delivered, taken, (new before).1, List.append_nil, and_self]
  · intro known
    by_cases before : k < s.run.accepted
    · exact (old before).1
    · simp only [(new before).2 known]
      exact Buffer.new_inv
  · intro known
    by_cases before : k < s.run.accepted
    · simp only [(old before).2, h.kept.2 before, List.append_assoc]
    · obtain ⟨delivered, taken⟩ := h.unborn before
      simp only [delivered, taken, (new before).1, (new before).2 known, Buffer.new_readable,
        List.append_nil]

theorem take_cases {k : Nat} {s t : InputRun} {op : BufferCall}
    (hs : s.step k (.take op) = some t) : s.overrun = false ∧ op.takes = true ∧
      s.run.log k ≠ [] ∧
      ((∃ input out, (s.run.conn k).inputBuffer.call op = .ok (input, out) ∧
        t = { s with
          run := s.run.setInput k input
          taken := s.taken ++ op.hands (s.run.conn k).inputBuffer out }) ∨
      ((s.run.conn k).inputBuffer.call op = .error .outOfBounds ∧ t.overrun = true)) := by
  simp only [step, Option.ite_none_left_eq_some, Option.ite_none_right_eq_some,
    Bool.and_eq_true] at hs
  obtain ⟨going, ⟨takes, can⟩, hs⟩ := hs
  simp only [canTake, Bool.and_eq_true] at can
  refine ⟨Bool.of_not_eq_true going, takes, ?_, ?_⟩
  · intro none
    rw [none] at can
    cases can.2
  · split at hs
    · rename_i input out called
      cases hs
      exact .inl ⟨input, out, called, rfl⟩
    · rename_i outside
      cases hs
      exact .inr ⟨outside, rfl⟩
    · cases hs

theorem Receives.take {k : Nat} {s t : InputRun} {op : BufferCall} (h : s.Receives k)
    (hs : s.step k (.take op) = some t) :
    (s.AsksWithin k (.take op) → t.Receives k) ∧ (t.Kept k → s.AsksWithin k (.take op)) := by
  obtain ⟨going, takes, told, ⟨input, out, called, rfl⟩ | ⟨outside, overrun⟩⟩ := take_cases hs
  · have known : k < s.run.accepted := ServerRun.told_known h.inv told
    have now : ((s.run.setInput k input).conn k).inputBuffer = input := by
      simp only [ServerRun.setInput, ServerRun.setConn, assign_same]
    constructor
    · intro within
      have possible := BufferCall.takes_possible takes (s.run.conn k).inputBuffer
      obtain ⟨b, hb, inv, readable, _⟩ | throws := (h.input known).call possible within
      · cases hb.symm.trans called
        refine ⟨h.inv.setInput known input, fun unknown => absurd known unknown, ?_, going, ?_⟩
        · intro _
          simp only [now]
          exact inv
        · intro _
          have loses := BufferCall.hands_effect takes (s.run.conn k).inputBuffer
          simp only [now, readable, List.append_assoc, ← loses]
          exact h.kept.2 known
      · cases throws.symm.trans called
    · intro kept
      apply Bool.eq_false_iff.mpr
      intro beyond
      obtain ⟨_, empty, _, str, rfl, longer⟩ := (h.input known).call_overlong beyond called
      have whole := kept.2 known
      simp only [now, empty, List.append_nil] at whole
      rw [h.kept.2 known] at whole
      have lengths := congrArg List.length (List.append_cancel_left whole)
      cases op with
      | retrieveAsString len =>
        simp only [BufferCall.hands, Option.getD_some] at lengths
        omega
      | _ => cases beyond
  · have known : k < s.run.accepted := ServerRun.told_known h.inv told
    constructor
    · intro within
      have possible := BufferCall.takes_possible takes (s.run.conn k).inputBuffer
      obtain ⟨_, hb, _⟩ | throws := (h.input known).call possible within
      · cases hb.symm.trans outside
      · cases throws.symm.trans outside
    · intro kept
      rw [kept.1] at overrun
      cases overrun

/-- In every run of a server and its user, and in every state on the way, what was
delivered to a connection is what the user took of it followed by what is still to be
read, and nothing has gone outside its buffer, exactly when no read of it fails and no
string is asked for that is longer than what there is. -/
theorem received_iff {s : InputRun} (hs : s.Start) (k : Nat) (ls : List InputAct) :
    (machine k).Always (Kept k) s ls ↔ (machine k).Steps (AsksWithin k) s ls := by
  apply always_iff_steps (I := Receives k) (fun s h => h.kept) ?_ ?_ (hs.receives k)
  · intro s l t receives ran within
    cases l with
    | server l => exact receives.server ran within
    | take op => exact (receives.take ran).1 within
  · intro s l t receives ran kept
    cases l with
    | server l =>
      obtain ⟨_, fits, ⟨_, overrun⟩ | ⟨inside, _⟩⟩ := server_cases ran
      · rw [kept.1] at overrun
        cases overrun
      · rw [ServerRun.overruns_eq receives.inv receives.input fits] at inside
        exact inside
    | take op => exact (receives.take ran).2 kept

def newborn : InputRun := ⟨ServerRun.newborn, [], [], false⟩

theorem newborn_start : newborn.Start := ⟨ServerRun.newborn_start, rfl, rfl, rfl⟩

def twoBytes : Answer := ⟨.delivered [120, 121], .accepted 0, fun _ => 0⟩

/-- The first connection is told of two bytes. -/
def telling : List InputAct :=
  [.server (.poll 1 [(0, EPOLLIN)]), .server (.dispatch 1 true), .server (.task 1 twoBytes)]

/-- The user takes one byte of the first two, and then all there are. -/
def portions : List InputAct :=
  (ServerRun.closing.take 8).map .server ++ telling ++
    [.take (.retrieveAsString 1), .server (.dispatch 1 true), .server (.runFunctor 1)] ++
    telling ++ [.take .retrieveAllAsString]

theorem received_iff_portions : (machine 0).Always (Kept 0) newborn portions ∧
    ∃ t, (machine 0).exec newborn portions = some t ∧ t.taken = [120, 121, 120, 121] := by
  have run : ((machine 0).exec newborn portions).map (fun t => t.taken) =
      some [120, 121, 120, 121] := by decide +kernel
  have within : (machine 0).Steps (AsksWithin 0) newborn portions := by decide +kernel
  exact ⟨(received_iff newborn_start 0 portions).mpr within, Option.map_eq_some_iff.mp run⟩

end InputRun
end Kenmuduo
