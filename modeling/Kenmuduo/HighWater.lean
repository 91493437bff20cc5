import Kenmuduo.SendPath

/-!
# The high-water mark

`sendInLoop` decides from the length it predicts before it appends. The
prediction is right, and nothing but an append adds to the output, so the user
is told exactly when the output reaches the mark from below.
-/

namespace Kenmuduo
open Transition

/-- The size argument of a high-water functor. -/
def Effect.water : Effect → Option Nat
  | highWater size => some size
  | _ => none

namespace TcpConnection

/-- The callback is set, with this mark. -/
structure Marked (mark : Nat) (c : TcpConnection) : Prop where
  set : c.highWaterMarkCallback = true
  mark : c.highWaterMark = mark
  output : c.outputBuffer.Inv

/-- The output is below the mark in `c` and no longer in `c'`. -/
def Reaches (mark : Nat) (c c' : TcpConnection) : Prop :=
  c.outputBuffer.readableBytes < mark ∧ mark ≤ c'.outputBuffer.readableBytes

instance (mark : Nat) (c c' : TcpConnection) : Decidable (Reaches mark c c') :=
  inferInstanceAs (Decidable (_ ∧ _))

/-- One functor with what is in the output where the mark is reached, none
elsewhere. -/
def edge (mark : Nat) (c c' : TcpConnection) : List Nat :=
  if Reaches mark c c' then [c'.outputBuffer.readableBytes] else []

theorem edge_of_shrinks {mark : Nat} {c c' : TcpConnection}
    (less : c'.outputBuffer.readableBytes ≤ c.outputBuffer.readableBytes) :
    edge mark c c' = [] := by
  apply if_neg
  intro reaches
  exact absurd (Nat.lt_of_lt_of_le reaches.1 reaches.2) (Nat.not_lt.mpr less)

/-- Where the output is left alone, the user hears nothing. -/
theorem Marked.unmoved {mark : Nat} {c c' : TcpConnection} (m : c.Marked mark)
    (set : c'.highWaterMarkCallback = c.highWaterMarkCallback)
    (same : c'.highWaterMark = c.highWaterMark) (output : c'.outputBuffer = c.outputBuffer) :
    c'.Marked mark ∧ [] = edge mark c c' := by
  constructor
  · exact ⟨set.trans m.set, same.trans m.mark, output ▸ m.output⟩
  · rw [edge_of_shrinks (Nat.le_of_eq (by rw [output]))]

theorem directWrite_water (c : TcpConnection) (data : Message) (w : WriteResult) :
    (c.directWrite data w).effects.filterMap Effect.water = [] := by
  by_cases un : c.Unloaded
  · cases w with
    | accepted k =>
      rw [directWrite_accepted un]
      cases k == 0 && c.writeCompleteCallback <;> simp [Effect.water]
    | failed errno => simp [directWrite_failed un]
  · simp [directWrite_loaded un]

theorem handleWrite_water {c c' : TcpConnection} {w : WriteResult} {effects : List Effect}
    (inv : c.outputBuffer.Inv) (h : c.handleWrite w = .ok (c', effects)) :
    effects.filterMap Effect.water = [] := by
  by_cases writing : c.channel.isWriting = true
  · obtain ⟨_, _, hw, ⟨_, rfl⟩ | ⟨k, _, _, rfl⟩ | ⟨k, _, _, rfl⟩⟩ :=
      handleWrite_writing inv writing w
    · cases hw.symm.trans h
      rfl
    · cases hw.symm.trans h
      rfl
    · cases hw.symm.trans h
      cases c.writeCompleteCallback <;> by_cases hd : c.state = .kDisconnecting <;>
        simp [hd, Effect.water]
  · cases (handleWrite_idle (by simpa using writing) w).symm.trans h
    rfl

/-- The length that is predicted is the one that an append leaves. -/
theorem highWaterEffects_append {c : TcpConnection} {data : Pointer UInt8} {n : Nat} {b : Buffer}
    (inv : c.outputBuffer.Inv) (fits : n ≤ vectorMax) (h : c.outputBuffer.append data n = .ok b) :
    b.Inv ∧ c.highWaterEffects n =
      if c.highWaterMark ≤ b.readableBytes ∧ c.outputBuffer.readableBytes < c.highWaterMark ∧
        c.highWaterMarkCallback then [.highWater b.readableBytes] else [] := by
  obtain ⟨b', hb, inv', readable, _⟩ | ⟨fails, _⟩ := inv.append data fits
  · cases hb.symm.trans h
    have grown : b.readableBytes = c.outputBuffer.readableBytes + n := by
      rw [← inv'.readable_length, readable, List.length_append, inv.readable_length,
        Pointer.cells_length]
    have small : c.outputBuffer.readableBytes + n < 18446744073709551616 := by
      obtain ⟨_, _, inside, size⟩ := inv'.bounds
      have held := inv'.readableBytes_eq
      omega
    refine ⟨inv', ?_⟩
    rw [highWaterEffects, sizeAdd_eq small, ← grown]
  · cases fails.symm.trans h

theorem sendInLoop_marked {mark : Nat} {c c' : TcpConnection} {data : Message} {w : WriteResult}
    {effects : List Effect} (m : c.Marked mark)
    (fits : (LoopStep.sendInLoop data w).possible c = true)
    (h : c.sendInLoop data w = .ok (c', effects)) :
    c'.Marked mark ∧ effects.filterMap Effect.water = edge mark c c' := by
  obtain ⟨rfl, _, rfl⟩ | ⟨rfl, _, _, rfl⟩ | ⟨_, _, _, buffer, channel, hb, _, rfl, rfl⟩ :=
    sendInLoop_cases h
  · exact m.unmoved rfl rfl rfl
  · rw [directWrite_water]
    exact m.unmoved rfl rfl rfl
  · have hmax : (c.directWrite data w).remaining ≤ data.len := directWrite_remaining fun k hk => by
      subst hk
      simpa [LoopStep.possible] using fits
    obtain ⟨output, water⟩ := highWaterEffects_append m.output (Nat.le_trans hmax data.fits) hb
    refine ⟨⟨m.set, m.mark, output⟩, ?_⟩
    rw [List.filterMap_append, List.filterMap_append, directWrite_water, water, m.set, m.mark]
    simp only [edge, Reaches, and_true, and_comm (b := mark ≤ buffer.readableBytes)]
    split <;> rfl

/-- A step queues the functors of its edge. -/
theorem perform_marked {mark : Nat} {c c' : TcpConnection} {l : LoopStep} {effects : List Effect}
    (m : c.Marked mark) (fits : l.possible c = true) (h : c.perform l = .ok (c', effects)) :
    c'.Marked mark ∧ effects.filterMap Effect.water = edge mark c c' := by
  cases l with
  | sendInLoop data w => exact sendInLoop_marked m fits h
  | handleWrite w =>
    obtain ⟨_, _, hw, output, moved, same, _⟩ := handleWrite_drains m.output w
    cases hw.symm.trans h
    constructor
    · rw [same]
      exact ⟨m.set, m.mark, output⟩
    · rw [handleWrite_water m.output hw, edge_of_shrinks]
      rw [← m.output.readable_length, ← output.readable_length, moved, List.length_append]
      exact Nat.le_add_left ..
  | handleRead r =>
    obtain ⟨input, ⟨rfl, rfl | rfl⟩ | ⟨rfl, rfl⟩⟩ := handleRead_ok h
    · exact m.unmoved rfl rfl rfl
    · exact m.unmoved rfl rfl rfl
    · exact m.unmoved rfl rfl rfl
  | shutdownInLoop =>
    cases h
    have silent : c.shutdownInLoop.filterMap Effect.water = [] := by
      unfold shutdownInLoop
      split
      · rfl
      · rfl
    rw [silent]
    exact m.unmoved rfl rfl rfl
  | shutdown =>
    cases h
    exact m.unmoved rfl rfl rfl

end TcpConnection

namespace SendPath

/-- The high-water functors queued so far. -/
def waters (s : SendPath) : List Nat := s.trace.filterMap Effect.water

def marking (mark : Nat) : Machine SendPath LoopStep :=
  ⟨fun s => s.conn.Marked mark, step LoopStep.any⟩

theorem marked_step {mark : Nat} {s t : SendPath} {l : LoopStep} (m : s.conn.Marked mark)
    (h : (marking mark).step s l = some t) :
    t.conn.Marked mark ∧ t.waters = s.waters ++ TcpConnection.edge mark s.conn t.conn := by
  obtain ⟨_, fits, conn, effects, hp, rfl⟩ := step_cases h
  obtain ⟨marked, water⟩ := TcpConnection.perform_marked m fits hp
  refine ⟨marked, ?_⟩
  rw [← water]
  exact List.filterMap_append ..

/-- A step queues a functor that the ones before were not. -/
theorem reaches_of_waters {mark : Nat} {s t : SendPath} {l : LoopStep} (m : s.conn.Marked mark)
    (h : (marking mark).step s l = some t) (queued : t.waters ≠ s.waters) :
    TcpConnection.Reaches mark s.conn t.conn := by
  apply Decidable.byContradiction
  intro stays
  apply queued
  rw [(marked_step m h).2, TcpConnection.edge, if_neg stays, List.append_nil]

/-- In a run with a fixed mark, each step queues one high-water functor, with
the bytes then in the output, when it takes the output from below the mark to
the mark or above, and none otherwise. Before the next one is queued, the output
has been below the mark. -/
theorem high_water_edges {mark : Nat} {s t u : SendPath} {l : LoopStep}
    (hs : s.conn.Marked mark) (ls : List LoopStep) (run : (marking mark).exec s ls = some t)
    (next : (marking mark).step t l = some u) :
    u.waters = t.waters ++ (if TcpConnection.Reaches mark t.conn u.conn then
      [u.conn.outputBuffer.readableBytes] else []) ∧
    ∀ ms v m w, (marking mark).exec u ms = some v → (marking mark).step v m = some w →
      u.waters ≠ t.waters → w.waters ≠ v.waters →
      mark ≤ u.conn.outputBuffer.readableBytes ∧ v.conn.outputBuffer.readableBytes < mark := by
  have keeps : ∀ s l t, s.conn.Marked mark → (marking mark).step s l = some t →
      t.conn.Marked mark := fun _ _ _ m h => (marked_step m h).1
  have before : t.conn.Marked mark := (marking mark).exec_keeps keeps hs ls run
  obtain ⟨after, queued⟩ := marked_step before next
  refine ⟨queued, fun ms v m w on next' first second => ?_⟩
  have later : v.conn.Marked mark := (marking mark).exec_keeps keeps after ms on
  exact ⟨(reaches_of_waters before next first).2, (reaches_of_waters later next' second).1⟩

/-- An established connection with mark 2 that waits to write. -/
def marked : SendPath where
  conn := { newcomer.conn with
    channel := newcomer.conn.channel.enableWriting.update
    highWaterMarkCallback := true
    highWaterMark := 2 }
  trace := []
  sent := []
  overread := false

/-- Three bytes reach the mark; two of them are written before two more reach
it again. -/
theorem high_water_edges_twice : ∃ u v w,
    (marking 2).step marked (.sendInLoop (.ofList [49, 50, 51] (by decide)) (.accepted 0)) =
      some u ∧
    (marking 2).exec u [.handleWrite (.accepted 2)] = some v ∧
    (marking 2).step v (.sendInLoop (.ofList [52, 53] (by decide)) (.accepted 0)) = some w ∧
    u.waters = [3] ∧ w.waters = [3, 3] ∧ v.conn.outputBuffer.readableBytes < 2 := by
  have run : (((marking 2).step marked
      (.sendInLoop (.ofList [49, 50, 51] (by decide)) (.accepted 0))).bind fun u =>
        ((marking 2).exec u [.handleWrite (.accepted 2)]).bind fun v =>
          ((marking 2).step v (.sendInLoop (.ofList [52, 53] (by decide)) (.accepted 0))).map
            fun w => (u.conn.outputBuffer.readableBytes, u.waters, v.waters, w.waters)) =
      some (3, [3], [3], [3, 3]) := by
    decide +kernel
  obtain ⟨u, hu, run⟩ := Option.bind_eq_some_iff.mp run
  obtain ⟨v, hv, run⟩ := Option.bind_eq_some_iff.mp run
  obtain ⟨w, hw, found⟩ := Option.map_eq_some_iff.mp run
  simp only [Prod.mk.injEq] at found
  obtain ⟨size, first, before, second⟩ := found
  have ready : marked.conn.Marked 2 := ⟨rfl, rfl, Buffer.new_inv⟩
  obtain ⟨edge, again⟩ := high_water_edges ready [] rfl hu
  have reaches : TcpConnection.Reaches 2 marked.conn u.conn := ⟨by decide, by omega⟩
  have queued : u.waters = [3] := by
    rw [edge, if_pos reaches, size]
    rfl
  obtain ⟨_, below⟩ := again _ v _ w hv hw (by rw [queued]; decide) (by rw [before, second]; decide)
  exact ⟨u, v, w, hu, hv, hw, queued, second, below⟩

end SendPath
end Kenmuduo
