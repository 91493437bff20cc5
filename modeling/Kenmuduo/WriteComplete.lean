import Kenmuduo.Shutdown

/-!
# The write-complete functor

A connection just established, with its bytes in a ledger. Write events are
never registered, so a send is the only step that can complete anything.
`sendInLoop` queues the functor where its write took nothing, and queues none
where it took everything.
-/

namespace Kenmuduo
open Transition

/-- A send of data or a drain, and the peer is not found gone. -/
def LoopStep.paces (l : LoopStep) : Bool :=
  l.peerUp && match l with
    | sendInLoop data _ => data.len != 0
    | handleWrite _ => true
    | _ => false

/-- All the bytes that were handed over were accepted. -/
def AllAccepted (handed accepted : List (Nat × Nat)) : Prop := ∀ p ∈ handed, p ∈ accepted

instance (handed accepted : List (Nat × Nat)) : Decidable (AllAccepted handed accepted) :=
  inferInstanceAs (Decidable (∀ p ∈ handed, p ∈ accepted))

theorem AllAccepted.of_append {handed more accepted : List (Nat × Nat)}
    (h : AllAccepted (handed ++ more) accepted) : AllAccepted handed accepted :=
  fun p hp => h p (List.mem_append_left _ hp)

/-- The first `len` bytes of a message are all among its first `k`. -/
theorem allAccepted_iff (n len k : Nat) :
    AllAccepted ((List.range len).map fun i => (n, i)) ((List.range k).map fun i => (n, i)) ↔
      len ≤ k := by
  constructor
  · intro all
    apply Nat.le_of_not_lt
    intro less
    have last := all (n, k) (List.mem_map.mpr ⟨k, List.mem_range.mpr less, rfl⟩)
    simp at last
  · intro enough p hp
    obtain ⟨i, hi, rfl⟩ := List.mem_map.mp hp
    have inside := List.mem_range.mp hi
    exact List.mem_map.mpr ⟨i, List.mem_range.mpr (by omega), rfl⟩

structure Pacing where
  conn : TcpConnection
  ledger : Ledger
  /-- How many messages `sendInLoop` was handed. -/
  sends : Nat
  handed : List (Nat × Nat)
  /-- How many write-complete functors were queued. -/
  completed : Nat

namespace Pacing

def after (s : Pacing) (conn : TcpConnection) (effects : List Effect) : LoopStep → Pacing
  | .sendInLoop data _ => {
      conn := conn
      ledger := s.ledger.send s.sends effects
      sends := s.sends + 1
      handed := s.handed ++ (List.range data.len).map fun i => (s.sends, i)
      completed := s.completed + effects.count .writeComplete }
  | _ => { s with
      conn := conn
      ledger := s.ledger.drain effects
      completed := s.completed + effects.count .writeComplete }

def step (s : Pacing) (l : LoopStep) : Option Pacing :=
  if l.paces && l.possible s.conn then
    match s.conn.perform l with
    | .ok (conn, effects) => some (s.after conn effects l)
    | .error _ => none
  else none

/-- Just after `connectEstablished`, with a write-complete callback. -/
structure Start (s : Pacing) : Prop where
  established : ∃ (c : TcpConnection) (effects : List Effect),
    c.Fresh ∧ c.connectEstablished = .ok (s.conn, effects)
  set : s.conn.writeCompleteCallback = true
  ledger : s.ledger = ⟨[], []⟩
  handed : s.handed = []

def machine : Machine Pacing LoopStep := ⟨Start, step⟩

/-- One functor for a step after which all bytes are accepted that were not
before its write, none for any other. -/
def Notified (s : Pacing) (l : LoopStep) : Prop :=
  ∀ t, s.step l = some t → t.completed = s.completed +
    if AllAccepted t.handed t.ledger.accepted ∧ ¬ AllAccepted t.handed s.ledger.accepted then 1
    else 0

/-- A direct write fails or takes a part of the data. -/
def TakesPart (s : Pacing) : LoopStep → Prop
  | .sendInLoop data (.accepted k) => s.conn.Unloaded → 0 < k ∧ k < data.len
  | _ => True

theorem step_cases {s t : Pacing} {l : LoopStep} (h : s.step l = some t) :
    l.paces = true ∧ l.possible s.conn = true ∧
    ∃ conn effects, s.conn.perform l = .ok (conn, effects) ∧ t = s.after conn effects l := by
  simp only [step, Option.ite_none_right_eq_some, Bool.and_eq_true] at h
  obtain ⟨⟨paces, fits⟩, h⟩ := h
  split at h
  · rename_i conn effects hp
    cases h
    exact ⟨paces, fits, conn, effects, hp, rfl⟩
  · cases h

structure Quiet (s : Pacing) : Prop where
  live : s.conn.state ≠ .kDisconnected
  set : s.conn.writeCompleteCallback = true
  output : s.conn.outputBuffer.Inv
  idle : s.conn.channel.isWriting = false

structure Unsent (s : Pacing) : Prop extends Quiet s where
  empty : s.conn.outputBuffer.readableBytes = 0
  handed : s.handed = []
  accepted : s.ledger.accepted = []

/-- Some data is in the output, and some was never accepted. -/
structure Stuck (s : Pacing) : Prop extends Quiet s where
  pending : s.conn.outputBuffer.readableBytes ≠ 0
  owed : ¬ AllAccepted s.handed s.ledger.accepted

theorem Start.unsent {s : Pacing} (h : s.Start) : s.Unsent := by
  obtain ⟨c, effects, fresh, he⟩ := h.established
  obtain ⟨same, _⟩ := TcpConnection.connectEstablished_ok he
  have output : s.conn.outputBuffer = Buffer.new := by rw [same]; exact fresh.output
  refine ⟨⟨by simp [same], h.set, by rw [output]; exact Buffer.new_inv, ?_⟩, by rw [output]; rfl,
    h.handed, by rw [h.ledger]⟩
  rw [same, Channel.update_isWriting, Channel.enableReading_isWriting, Channel.tie_isWriting,
    fresh.channel, Channel.new_isWriting]

/-- Without write interest a drain does nothing. -/
theorem Quiet.drain {s t : Pacing} {w : WriteResult} (q : s.Quiet)
    (h : s.step (.handleWrite w) = some t) : t = s := by
  obtain ⟨_, _, conn, effects, hp, rfl⟩ := step_cases h
  cases (TcpConnection.handleWrite_idle q.idle w).symm.trans hp
  simp [after, Ledger.drain]

/-- The second half of `sendInLoop` completes nothing. -/
theorem sendInLoop_completes {c c' : TcpConnection} {data : Message} {w : WriteResult}
    {effects : List Effect} (live : c.state ≠ .kDisconnected)
    (h : c.sendInLoop data w = .ok (c', effects)) :
    effects.count .writeComplete = (c.directWrite data w).effects.count .writeComplete ∧
    c'.writeCompleteCallback = c.writeCompleteCallback := by
  obtain ⟨_, gone, _⟩ | ⟨rfl, _, _, rfl⟩ | ⟨_, _, _, _, _, _, _, rfl, rfl⟩ :=
    TcpConnection.sendInLoop_cases h
  · exact absurd gone live
  · exact ⟨rfl, rfl⟩
  · refine ⟨?_, rfl⟩
    rw [List.count_append, List.count_append, TcpConnection.highWaterEffects]
    split <;> simp

/-- What the first send finds and leaves. -/
theorem Unsent.send {s t : Pacing} {data : Message} {w : WriteResult} (u : s.Unsent)
    (h : s.step (.sendInLoop data w) = some t) :
    0 < data.len ∧
    t.completed = s.completed + (s.conn.directWrite data w).effects.count .writeComplete ∧
    (AllAccepted t.handed t.ledger.accepted ↔
      data.len ≤ ((s.conn.directWrite data w).effects.flatMap Effect.accepted).length) ∧
    ¬ AllAccepted t.handed s.ledger.accepted ∧
    t.Quiet ∧ t.conn.outputBuffer.readableBytes = (s.conn.directWrite data w).remaining := by
  obtain ⟨paces, fits, conn, effects, hp, rfl⟩ := step_cases h
  simp only [LoopStep.paces, Bool.and_eq_true, bne_iff_ne] at paces
  obtain ⟨up, some⟩ := paces
  have hmax : (s.conn.directWrite data w).remaining ≤ data.len :=
    TcpConnection.directWrite_remaining fun k hk => by
      subst hk
      simpa [LoopStep.possible] using fits
  obtain ⟨output, state, writing, readable, bytes, _⟩ := TcpConnection.sendInLoop_output u.output
    u.live (SendPath.directWrite_peerUp up) hmax hp
  obtain ⟨count, callback⟩ := sendInLoop_completes u.live hp
  refine ⟨Nat.pos_of_ne_zero some, ?_, ?_, ?_, ⟨?_, ?_, output, ?_⟩, ?_⟩
  · simp only [after, count]
  · simp only [after, Ledger.send, u.handed, u.accepted, List.nil_append, bytes]
    exact allAccepted_iff ..
  · simp only [after, u.handed, u.accepted, List.nil_append]
    intro all
    cases all (s.sends, 0) (List.mem_map.mpr
      ⟨0, List.mem_range.mpr (Nat.pos_of_ne_zero some), rfl⟩)
  · exact state ▸ u.live
  · exact callback.trans u.set
  · exact writing.trans u.idle
  · have empty := u.output.readableBytes_zero.mp u.empty
    simp only [after]
    rw [← output.readable_length, readable, empty, List.nil_append, Pointer.cells_length]

theorem notified_iff {s t : Pacing} {l : LoopStep} (h : s.step l = some t) :
    Notified s l ↔ t.completed = s.completed +
      if AllAccepted t.handed t.ledger.accepted ∧ ¬ AllAccepted t.handed s.ledger.accepted then 1
      else 0 := by
  constructor
  · exact fun notified => notified t h
  · intro notified u hu
    cases h.symm.trans hu
    exact notified

/-- The first send is notified of rightly if its write fails or takes a part,
and leaves the connection stuck. -/
theorem Unsent.send_notified {s t : Pacing} {data : Message} {w : WriteResult} (u : s.Unsent)
    (h : s.step (.sendInLoop data w) = some t) :
    (Notified s (.sendInLoop data w) ↔ s.TakesPart (.sendInLoop data w)) ∧
    (s.TakesPart (.sendInLoop data w) → t.Stuck) := by
  obtain ⟨some, count, all, before, quiet, left⟩ := u.send h
  have un : s.conn.Unloaded := ⟨u.idle, u.empty⟩
  rw [notified_iff h]
  cases w with
  | failed errno =>
    simp only [TcpConnection.directWrite_failed un, List.count_nil, List.flatMap_nil,
      List.length_nil, Nat.le_zero] at count all left
    have owed : ¬ AllAccepted t.handed t.ledger.accepted := fun h => by
      have none := all.mp h
      omega
    constructor
    · rw [if_neg fun h => owed h.1]
      exact iff_of_true count trivial
    · exact fun _ => ⟨quiet, by omega, owed⟩
  | accepted k =>
    simp only [TcpConnection.directWrite_accepted un, u.set, Bool.and_true] at count all left
    have took : ((Effect.written (data.mem.cells k) ::
        if (k == 0) = true then [.writeComplete] else []).flatMap Effect.accepted).length = k := by
      split <;> simp [Effect.accepted]
    rw [took] at all
    simp only [TakesPart, un, true_implies, before, not_false_eq_true, and_true, all]
    constructor
    · rw [count]
      by_cases none : k = 0
      · subst none
        simp
        omega
      · simp [none]
        omega
    · intro part
      exact ⟨quiet, by omega, fun h => absurd (all.mp h) (by omega)⟩

theorem paces_cases {s t : Pacing} {l : LoopStep} (h : s.step l = some t) :
    (∃ data w, l = .sendInLoop data w) ∨ ∃ w, l = .handleWrite w := by
  obtain ⟨paces, _⟩ := step_cases h
  cases l with
  | sendInLoop data w => exact .inl ⟨data, w, rfl⟩
  | handleWrite w => exact .inr ⟨w, rfl⟩
  | handleRead | shutdownInLoop | shutdown => simp [LoopStep.paces] at paces

theorem Quiet.drain_notified {s t : Pacing} {w : WriteResult} (q : s.Quiet)
    (h : s.step (.handleWrite w) = some t) : Notified s (.handleWrite w) := by
  rw [notified_iff h, q.drain h]
  simp

theorem Unsent.step {s t : Pacing} {l : LoopStep} (u : s.Unsent) (h : s.step l = some t) :
    (Notified s l ↔ s.TakesPart l) ∧ (s.TakesPart l → t.Unsent ∨ t.Stuck) := by
  obtain ⟨data, w, rfl⟩ | ⟨w, rfl⟩ := paces_cases h
  · obtain ⟨agree, stuck⟩ := u.send_notified h
    exact ⟨agree, fun part => .inr (stuck part)⟩
  · constructor
    · exact iff_of_true (u.drain_notified h) trivial
    · intro _
      rw [u.drain h]
      exact .inl u

theorem Stuck.step {s t : Pacing} {l : LoopStep} (stuck : s.Stuck) (h : s.step l = some t) :
    (Notified s l ∧ s.TakesPart l) ∧ t.Stuck := by
  obtain ⟨data, w, rfl⟩ | ⟨w, rfl⟩ := paces_cases h
  · have loaded : ¬ s.conn.Unloaded := fun un => stuck.pending un.2
    rw [notified_iff h]
    obtain ⟨_, _, conn, effects, hp, rfl⟩ := step_cases h
    obtain ⟨output, same, writing, readable, bytes, incomplete, _⟩ :=
      TcpConnection.sendInLoop_loaded stuck.output stuck.live loaded hp
    have owed : ¬ AllAccepted (s.after conn effects (.sendInLoop data w)).handed
        (s.after conn effects (.sendInLoop data w)).ledger.accepted := by
      intro all
      apply stuck.owed
      simp only [after, Ledger.send, bytes] at all
      simpa using all.of_append
    refine ⟨⟨?_, ?_⟩, ⟨⟨?_, ?_, output, writing.trans stuck.idle⟩, ?_, owed⟩⟩
    · rw [if_neg fun h => owed h.1]
      simp only [after, List.count_eq_zero_of_not_mem incomplete]
    · cases w with
      | accepted k => exact fun un => absurd un loaded
      | failed errno => trivial
    · simp only [after]
      rw [same]
      exact stuck.live
    · simp only [after]
      rw [same]
      exact stuck.set
    · have pending := stuck.pending
      rw [← stuck.output.readable_length] at pending
      simp only [after]
      rw [← output.readable_length, readable, List.length_append]
      omega
  · refine ⟨⟨stuck.drain_notified h, trivial⟩, ?_⟩
    rw [stuck.drain h]
    exact stuck

/-- In a run from a new connection, each step queues the functors it should
exactly when each direct write fails or takes a part of its data. -/
theorem notified_iff_takesPart {s : Pacing} (hs : s.Start) (ls : List LoopStep) :
    machine.Steps Notified s ls ↔ machine.Steps TakesPart s ls := by
  refine steps_iff_steps (I := fun s => s.Unsent ∨ s.Stuck) ?_ ?_ (.inl hs.unsent) ls
  · rintro s l t (unsent | stuck) h
    · exact (unsent.step h).1
    · exact iff_of_true (stuck.step h).1.1 (stuck.step h).1.2
  · rintro s l t (unsent | stuck) h part
    · exact (unsent.step h).2 part
    · exact .inr (stuck.step h).2

def newcomer : Pacing where
  conn := { SendPath.newcomer.conn with writeCompleteCallback := true }
  ledger := ⟨[], []⟩
  sends := 0
  handed := []
  completed := 0

theorem newcomer_start : newcomer.Start :=
  ⟨⟨{ TcpConnection.new 1 "server-127.0.0.1:8000#1" 7 with
      connectionCallback := true
      messageCallback := true
      writeCompleteCallback := true
      closeCallback := true }, _, ⟨rfl, rfl, rfl⟩, rfl⟩, rfl, rfl, rfl⟩

theorem notified_partial : machine.Steps Notified newcomer
    [.sendInLoop (.ofList [60, 61] (by decide)) (.accepted 1), .handleWrite (.accepted 1)] :=
  (notified_iff_takesPart newcomer_start _).mpr fun _ _ =>
    ⟨fun _ => ⟨Nat.one_pos, Nat.lt_succ_self 1⟩, fun _ _ => ⟨trivial, trivial⟩⟩

theorem completed_of_steps {s t : Pacing} {l : LoopStep} (h : machine.step s l = some t)
    (steps : machine.Steps Notified s [l]) : t.completed = s.completed +
      if AllAccepted t.handed t.ledger.accepted ∧ ¬ AllAccepted t.handed s.ledger.accepted then 1
      else 0 :=
  (steps t h).1 t h

/-- All of three bytes are taken, and no functor is queued. -/
theorem not_notified_complete : newcomer.Start ∧
    ∃ t, machine.exec newcomer
        [.sendInLoop (.ofList [60, 61, 62] (by decide)) (.accepted 3)] = some t ∧
      AllAccepted t.handed t.ledger.accepted ∧ t.completed = 0 ∧
      ¬ machine.Steps Notified newcomer
        [.sendInLoop (.ofList [60, 61, 62] (by decide)) (.accepted 3)] := by
  have run : (machine.exec newcomer
      [.sendInLoop (.ofList [60, 61, 62] (by decide)) (.accepted 3)]).map
        (fun t => (t.handed, t.ledger.accepted, t.completed)) =
      some ([(0, 0), (0, 1), (0, 2)], [(0, 0), (0, 1), (0, 2)], 0) := by decide +kernel
  obtain ⟨t, ht, found⟩ := Option.map_eq_some_iff.mp run
  simp only [Prod.mk.injEq] at found
  obtain ⟨handed, accepted, completed⟩ := found
  have all : AllAccepted t.handed t.ledger.accepted := by
    rw [handed, accepted]
    decide
  have before : ¬ AllAccepted t.handed newcomer.ledger.accepted := by
    intro none
    cases none (0, 0) (by rw [handed]; exact List.mem_cons_self)
  refine ⟨newcomer_start, t, ht, all, completed, ?_⟩
  intro steps
  obtain ⟨u, hu, rest⟩ := Option.bind_eq_some_iff.mp ht
  cases rest
  have notified := completed_of_steps hu steps
  rw [if_pos ⟨all, before⟩, completed] at notified
  cases notified

end Pacing
end Kenmuduo
