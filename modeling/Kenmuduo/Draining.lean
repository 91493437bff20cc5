import Kenmuduo.SendPath

/-!
# Draining the output

From a connection that has data to write and waits for write events to the
step that takes the last byte. Partial and failed writes, sends and shutdowns
come in any order; only that one step ends the writing, tells the user and
half-closes.
-/

namespace Kenmuduo
open Transition

/-- The step reads nothing. -/
def LoopStep.writes : LoopStep → Bool
  | handleRead _ => false
  | _ => true

/-- Data is pending, and write events are asked for. -/
structure TcpConnection.Armed (c : TcpConnection) : Prop where
  live : c.state ≠ .kDisconnected
  writing : c.channel.isWriting = true
  output : c.outputBuffer.Inv
  pending : c.outputBuffer.readableBytes ≠ 0

namespace SendPath

structure ArmedStart (s : SendPath) : Prop where
  armed : s.conn.Armed
  trace : s.trace = []
  sent : s.sent = []

/-- No step follows the one that empties the output. -/
def drainStep (s : SendPath) (l : LoopStep) : Option SendPath :=
  if s.conn.outputBuffer.readableBytes = 0 then none else s.step LoopStep.writes l

def draining : Machine SendPath LoopStep := ⟨ArmedStart, drainStep⟩

/-- What the effects that end the writing are. -/
structure Ends (conn : TcpConnection) (effects : List Effect) : Prop where
  empty : conn.outputBuffer.readableBytes = 0
  idle : conn.channel.isWriting = false
  told : effects.count .writeComplete = if conn.writeCompleteCallback then 1 else 0
  halfClosed : effects.count .shutdownWrite = if conn.state = .kDisconnecting then 1 else 0

/-- A step keeps the connection waiting to write and does neither of the two,
or takes the last byte and does both. -/
theorem armed_step {s t : SendPath} {l : LoopStep} (armed : s.conn.Armed)
    (h : s.step LoopStep.writes l = some t) :
    ∃ effects, t.trace = s.trace ++ effects ∧ t.sent = s.sent ++ l.data ∧
    s.conn.outputBuffer.readable ++ l.data =
      effects.flatMap Effect.accepted ++ t.conn.outputBuffer.readable ∧
    (t.conn.Armed ∧ .writeComplete ∉ effects ∧ .shutdownWrite ∉ effects ∨ Ends t.conn effects) := by
  obtain ⟨writes, _, conn, effects, hp, rfl⟩ := step_cases h
  refine ⟨effects, rfl, rfl, ?_⟩
  cases l with
  | sendInLoop data w =>
    have loaded : ¬ s.conn.Unloaded := fun un => armed.pending un.2
    obtain ⟨output, same, writing, readable, bytes, untold, unclosed⟩ :=
      TcpConnection.sendInLoop_loaded armed.output armed.live loaded hp
    constructor
    · rw [bytes, readable]
      rfl
    · left
      refine ⟨⟨?_, writing.trans armed.writing, output, ?_⟩, untold, unclosed⟩
      · rw [same]
        exact armed.live
      · have pending := armed.pending
        rw [← armed.output.readable_length] at pending
        rw [← output.readable_length, readable, List.length_append]
        omega
  | handleWrite w =>
    obtain ⟨c', es, hw, out⟩ := TcpConnection.handleWrite_writing armed.output armed.writing w
    cases hw.symm.trans hp
    obtain ⟨rfl, rfl⟩ | ⟨k, rfl, pending, rfl⟩ | ⟨k, rfl, empty, rfl⟩ := out
    · exact ⟨by simp [LoopStep.data], .inl ⟨armed, by simp, by simp⟩⟩
    · obtain ⟨output, left⟩ := armed.output.retrieve k
      constructor
      · rw [left]
        simp [LoopStep.data, Effect.accepted]
      · exact .inl ⟨⟨armed.live, armed.writing, output, pending⟩, by simp, by simp⟩
    · obtain ⟨_, left⟩ := armed.output.retrieve k
      constructor
      · rw [left]
        cases s.conn.writeCompleteCallback <;> by_cases hd : s.conn.state = .kDisconnecting <;>
          simp [hd, LoopStep.data, Effect.accepted]
      · right
        constructor
        · exact empty
        · simp
        · cases s.conn.writeCompleteCallback <;> by_cases hd : s.conn.state = .kDisconnecting <;>
            simp [hd]
        · cases s.conn.writeCompleteCallback <;> by_cases hd : s.conn.state = .kDisconnecting <;>
            simp [hd]
  | handleRead r => cases writes
  | shutdownInLoop =>
    cases hp
    have waits : s.conn.shutdownInLoop = [] := by simp [TcpConnection.shutdownInLoop, armed.writing]
    rw [waits]
    exact ⟨by simp [LoopStep.data], .inl ⟨armed, by simp, by simp⟩⟩
  | shutdown =>
    cases hp
    have live : (s.conn.setState .kDisconnecting).state ≠ .kDisconnected := by
      simp [TcpConnection.setState]
    exact ⟨by simp [LoopStep.data, TcpConnection.setState],
      .inl ⟨⟨live, armed.writing, armed.output, armed.pending⟩, by simp, by simp⟩⟩

/-- Where a drain can be: `initial` was in the output when it began. -/
structure Draining (initial : List UInt8) (s : SendPath) : Prop where
  kept : initial ++ s.sent = s.accepted ++ s.conn.outputBuffer.readable
  phase : s.conn.Armed ∧ .writeComplete ∉ s.trace ∧ .shutdownWrite ∉ s.trace ∨ Ends s.conn s.trace

theorem ArmedStart.draining {s : SendPath} (h : s.ArmedStart) :
    Draining s.conn.outputBuffer.readable s := by
  constructor
  · simp [h.sent, accepted, h.trace]
  · exact .inl ⟨h.armed, by simp [h.trace], by simp [h.trace]⟩

theorem Draining.step {initial : List UInt8} {s t : SendPath} {l : LoopStep}
    (d : Draining initial s) (h : s.drainStep l = some t) : Draining initial t := by
  unfold drainStep at h
  split at h
  · cases h
  rename_i pending
  obtain ⟨armed, untold, unclosed⟩ := d.phase.resolve_right fun ends => pending ends.empty
  obtain ⟨effects, trace, sent, moved, after⟩ := armed_step armed h
  constructor
  · rw [sent, ← List.append_assoc, d.kept, List.append_assoc, moved, accepted, accepted, trace,
      List.flatMap_append, List.append_assoc]
  · rw [trace]
    obtain ⟨armed', untold', unclosed'⟩ | ends := after
    · left
      refine ⟨armed', ?_, ?_⟩
      · simp [untold, untold']
      · simp [unclosed, unclosed']
    · right
      constructor
      · exact ends.empty
      · exact ends.idle
      · rw [List.count_append, List.count_eq_zero_of_not_mem untold, Nat.zero_add]
        exact ends.told
      · rw [List.count_append, List.count_eq_zero_of_not_mem unclosed, Nat.zero_add]
        exact ends.halfClosed

/-- On the way to an empty output no byte is lost or reordered, and only the
step that empties it ends the writing, with one functor for a callback that is
set and one half-close for a connection that is disconnecting. -/
theorem drain_exact {s t : SendPath} (hs : s.ArmedStart) (ls : List LoopStep)
    (h : draining.exec s ls = some t) :
    s.conn.outputBuffer.readable ++ t.sent = t.accepted ++ t.conn.outputBuffer.readable ∧
    (t.conn.outputBuffer.readableBytes ≠ 0 → t.conn.channel.isWriting = true ∧
      .writeComplete ∉ t.trace ∧ .shutdownWrite ∉ t.trace) ∧
    (t.conn.outputBuffer.readableBytes = 0 → Ends t.conn t.trace) := by
  have d : Draining s.conn.outputBuffer.readable t :=
    draining.exec_keeps (fun _ _ _ d step => d.step step) hs.draining ls h
  refine ⟨d.kept, ?_, ?_⟩
  · intro pending
    obtain ⟨armed, untold, unclosed⟩ := d.phase.resolve_right fun ends => pending ends.empty
    exact ⟨armed.writing, untold, unclosed⟩
  · intro empty
    exact d.phase.resolve_left fun waiting => waiting.1.pending empty

/-- An established connection with a write-complete callback that waits to
write what is in `output`. -/
def waiting (output : Buffer) : SendPath where
  conn := { newcomer.conn with
    channel := newcomer.conn.channel.enableWriting.update
    writeCompleteCallback := true
    outputBuffer := output }
  trace := []
  sent := []
  overread := false

/-- Two bytes wait; one more is sent and the connection shut down before the
kernel has taken them all. -/
theorem drain_exact_shutdown : ∃ b t,
    Buffer.new.append (Pointer.ofList [97, 98] 0) 2 = .ok b ∧
    draining.exec (waiting b) [.handleWrite (.accepted 1), .shutdown,
      .sendInLoop (.ofList [99] (by decide)) (.accepted 0), .handleWrite (.failed EWOULDBLOCK),
      .shutdownInLoop, .handleWrite (.accepted 2)] = some t ∧
    (waiting b).conn.outputBuffer.readable ++ t.sent =
      t.accepted ++ t.conn.outputBuffer.readable ∧
    Ends t.conn t.trace := by
  have run : ((Buffer.new.append (Pointer.ofList [97, 98] 0) 2).toOption.bind fun b =>
      (draining.exec (waiting b) [.handleWrite (.accepted 1), .shutdown,
        .sendInLoop (.ofList [99] (by decide)) (.accepted 0), .handleWrite (.failed EWOULDBLOCK),
        .shutdownInLoop, .handleWrite (.accepted 2)]).map fun t =>
          (b.readableBytes, t.conn.outputBuffer.readableBytes)) = some (2, 0) := by
    decide +kernel
  obtain ⟨b, hb, run⟩ := Option.bind_eq_some_iff.mp run
  obtain ⟨t, ht, found⟩ := Option.map_eq_some_iff.mp run
  simp only [Prod.mk.injEq] at found
  obtain ⟨pending, empty⟩ := found
  obtain ⟨b', appended, inv, _⟩ | ⟨fails, _⟩ :=
    Buffer.new_inv.append (Pointer.ofList [97, 98] 0) (show 2 ≤ vectorMax by decide)
  · rw [appended] at hb
    cases hb
    have live : newcomer.conn.state ≠ .kDisconnected := by decide
    have writing : newcomer.conn.channel.enableWriting.update.isWriting = true := by decide
    have armed : (waiting b).conn.Armed :=
      ⟨live, writing, inv, by rw [waiting, pending]; decide⟩
    obtain ⟨kept, _, ends⟩ := drain_exact ⟨armed, rfl, rfl⟩ _ ht
    exact ⟨b, t, appended, ht, kept, ends empty⟩
  · rw [fails] at hb
    cases hb

end SendPath
end Kenmuduo
