import Kenmuduo.TcpConnection
import Kenmuduo.Transition

/-!
# The send path of one connection

Runs of the functions a connection's loop thread executes, in any order and
against any answers of the kernel. What happened before is kept in the trace.

`sendInLoop` treats what a direct write accepted as what is left to send, and
where something is left it registers for read events. So the byte stream
survives a step exactly when a direct write takes half of its data, and the
write interest is right exactly as long as nothing is ever left.
-/

namespace Kenmuduo
open Transition

inductive LoopStep
  | sendInLoop (data : Message) (w : WriteResult)
  | handleWrite (w : WriteResult)
  | handleRead (r : ReadResult)
  | shutdownInLoop
  /-- The store of `shutdown`, on whichever thread. -/
  | shutdown

/-- The kernel moves at most what it is offered. -/
def LoopStep.possible (c : TcpConnection) : LoopStep → Bool
  | sendInLoop data (.accepted k) => k ≤ data.len
  | handleWrite (.accepted k) => k ≤ c.outputBuffer.readableBytes
  | handleRead (.delivered bytes) => bytes.length ≤ c.inputBuffer.offered
  | _ => true

/-- No write of the step finds the peer gone. -/
def LoopStep.peerUp : LoopStep → Bool
  | sendInLoop _ (.failed errno) | handleWrite (.failed errno) =>
    errno != EPIPE && errno != ECONNRESET
  | _ => true

def LoopStep.any (_ : LoopStep) : Bool := true

def TcpConnection.perform (c : TcpConnection) :
    LoopStep → Except Fault (TcpConnection × List Effect)
  | .sendInLoop data w => c.sendInLoop data w
  | .handleWrite w => c.handleWrite w
  | .handleRead r => c.handleRead r
  | .shutdownInLoop => .ok (c, c.shutdownInLoop)
  | .shutdown => .ok (c.setState .kDisconnecting, [])

/-- The data a step sends. -/
def LoopStep.data : LoopStep → List UInt8
  | sendInLoop data _ => data.bytes
  | _ => []

/-- The step copies from behind the data it was given. -/
def LoopStep.overreads (effects : List Effect) : LoopStep → Bool
  | sendInLoop data _ => effects.any (Effect.overreads data.len)
  | _ => false

/-- A connection between two steps of its loop thread, and what was done. -/
structure SendPath where
  conn : TcpConnection
  trace : List Effect
  /-- The data of all `sendInLoop` calls. -/
  sent : List UInt8
  overread : Bool

namespace SendPath

def step (allowed : LoopStep → Bool) (s : SendPath) (l : LoopStep) : Option SendPath :=
  if allowed l && l.possible s.conn then
    match s.conn.perform l with
    | .ok (conn, effects) =>
      some ⟨conn, s.trace ++ effects, s.sent ++ l.data, s.overread || l.overreads effects⟩
    | .error _ => none
  else none

theorem step_cases {allowed : LoopStep → Bool} {s t : SendPath} {l : LoopStep}
    (h : s.step allowed l = some t) :
    allowed l = true ∧ l.possible s.conn = true ∧
    ∃ conn effects, s.conn.perform l = .ok (conn, effects) ∧
      t = ⟨conn, s.trace ++ effects, s.sent ++ l.data, s.overread || l.overreads effects⟩ := by
  unfold step at h
  split at h
  · rename_i enabled
    simp only [Bool.and_eq_true] at enabled
    split at h
    · rename_i conn effects hp
      cases h
      exact ⟨enabled.1, enabled.2, conn, effects, hp, rfl⟩
    · cases h
  · cases h

/-- All the bytes the kernel took. -/
def accepted (s : SendPath) : List UInt8 := s.trace.flatMap Effect.accepted

/-! ## The byte stream -/

/-- What the kernel took and what is still buffered are together what was
sent, and nothing else was read. -/
def StreamKept (s : SendPath) : Prop :=
  s.sent = s.accepted ++ s.conn.outputBuffer.readable ∧ s.overread = false

/-- A connection that is not disconnected, before anything is sent. -/
structure Opened (s : SendPath) : Prop where
  live : s.conn.state ≠ .kDisconnected
  output : s.conn.outputBuffer.Inv
  empty : s.conn.outputBuffer.readable = []
  accepted : s.accepted = []
  sent : s.sent = []
  overread : s.overread = false

def streaming : Machine SendPath LoopStep := ⟨Opened, step LoopStep.peerUp⟩

/-- A direct write of the step is refused, or takes half of the data. -/
def HalfTaken (s : SendPath) : LoopStep → Prop
  | .sendInLoop data (.accepted k) => s.conn.Unloaded → 2 * k = data.len
  | _ => True

structure Streaming (s : SendPath) : Prop where
  live : s.conn.state ≠ .kDisconnected
  output : s.conn.outputBuffer.Inv
  kept : s.StreamKept

theorem Opened.streaming {s : SendPath} (h : s.Opened) : s.Streaming :=
  ⟨h.live, h.output, by simp [h.sent, h.accepted, h.empty], h.overread⟩

theorem directWrite_peerUp {c : TcpConnection} {data : Message} {w : WriteResult}
    (h : (LoopStep.sendInLoop data w).peerUp = true) :
    (c.directWrite data w).faultError = false := by
  by_cases un : c.Unloaded
  · cases w with
    | accepted k => rw [TcpConnection.directWrite_accepted un]
    | failed errno =>
      simp only [LoopStep.peerUp, Bool.and_eq_true, bne_iff_ne] at h
      simp [TcpConnection.directWrite_failed un, h.1, h.2]
  · rw [TcpConnection.directWrite_loaded un]

/-- The first `k` bytes and the `k` after them are the message when it is
twice as long. -/
theorem doubled_iff (data : Message) (k : Nat) :
    data.bytes = data.mem.cells k ++ (data.mem.shift k).cells k ↔ 2 * k = data.len := by
  rw [← Pointer.cells_add]
  constructor
  · intro same
    have lengths := congrArg List.length same
    simp only [Message.bytes_length, Pointer.cells_length] at lengths
    omega
  · intro half
    rw [Message.bytes, ← half, Nat.two_mul]

theorem sendInLoop_kept {s t : SendPath} {data : Message} {w : WriteResult} (inv : s.Streaming)
    (h : streaming.step s (.sendInLoop data w) = some t) :
    t.conn.state ≠ .kDisconnected ∧ t.conn.outputBuffer.Inv ∧
    (t.StreamKept ↔ s.HalfTaken (.sendInLoop data w)) := by
  obtain ⟨up, fits, conn, effects, hp, rfl⟩ := step_cases h
  obtain ⟨sent, past⟩ := inv.kept
  have nofault := directWrite_peerUp (c := s.conn) up
  have hmax : (s.conn.directWrite data w).remaining ≤ data.len :=
    TcpConnection.directWrite_remaining fun k hk => by
      subst hk
      simpa [LoopStep.possible] using fits
  obtain ⟨out, state, _, readable, acc, reads⟩ :=
    TcpConnection.sendInLoop_output inv.output inv.live nofault hmax hp
  refine ⟨state ▸ inv.live, out, ?_⟩
  have split : StreamKept ⟨conn, s.trace ++ effects, s.sent ++ LoopStep.data (.sendInLoop data w),
      s.overread || LoopStep.overreads effects (.sendInLoop data w)⟩ ↔
      (s.conn.outputBuffer.readable ++ data.bytes =
        (s.conn.directWrite data w).effects.flatMap Effect.accepted ++
          (s.conn.outputBuffer.readable ++
            (data.mem.shift (s.conn.directWrite data w).nwrote).cells
              (s.conn.directWrite data w).remaining)) ∧
      ¬ (0 < (s.conn.directWrite data w).remaining ∧ data.len <
        (s.conn.directWrite data w).nwrote + (s.conn.directWrite data w).remaining) := by
    simp only [StreamKept, accepted, List.flatMap_append, acc, readable, sent, LoopStep.data,
      LoopStep.overreads, reads, past, Bool.false_or, List.append_assoc, List.append_cancel_left_eq,
      decide_eq_false_iff_not]
  rw [split]
  by_cases un : s.conn.Unloaded
  · have empty := inv.output.readableBytes_zero.mp un.2
    cases w with
    | accepted k =>
      have bytes : (s.conn.directWrite data (.accepted k)).effects.flatMap Effect.accepted =
          data.mem.cells k := by
        rw [TcpConnection.directWrite_accepted un]
        cases k == 0 && s.conn.writeCompleteCallback <;> simp [Effect.accepted]
      rw [bytes, TcpConnection.directWrite_accepted un]
      simp only [empty, List.nil_append, doubled_iff, HalfTaken, un, true_implies]
      constructor
      · exact fun h => h.1
      · exact fun half => ⟨half, by omega⟩
    | failed errno =>
      simp [TcpConnection.directWrite_failed un, Message.bytes, HalfTaken]
  · simp only [TcpConnection.directWrite_loaded un, Pointer.shift_zero, List.flatMap_nil,
      List.nil_append, Message.bytes, true_and, Nat.zero_add, Nat.lt_irrefl, and_false,
      not_false_eq_true, true_iff]
    cases w with
    | accepted k => exact fun un' => absurd un' un
    | failed errno => trivial

/-- A step that does not send moves bytes from the output to the kernel, at
most. -/
theorem other_kept {s t : SendPath} {l : LoopStep} (inv : s.Streaming)
    (other : ∀ data w, l ≠ .sendInLoop data w) (h : streaming.step s l = some t) :
    t.Streaming := by
  obtain ⟨_, _, conn, effects, hp, rfl⟩ := step_cases h
  obtain ⟨sent, past⟩ := inv.kept
  have moves : conn.state ≠ .kDisconnected ∧ conn.outputBuffer.Inv ∧
      s.conn.outputBuffer.readable =
        effects.flatMap Effect.accepted ++ conn.outputBuffer.readable ∧
      l.data = [] ∧ l.overreads effects = false := by
    cases l with
    | sendInLoop data w => exact absurd rfl (other data w)
    | handleWrite w =>
      obtain ⟨c', es, hw, out, readable, same, _⟩ := TcpConnection.handleWrite_drains inv.output w
      cases hw.symm.trans hp
      exact ⟨by rw [same]; exact inv.live, out, readable, rfl, rfl⟩
    | handleRead r =>
      obtain ⟨input, ⟨same, heff⟩ | ⟨same, heff⟩⟩ := TcpConnection.handleRead_ok hp
      · rcases heff with rfl | rfl <;>
          exact ⟨same ▸ inv.live, same ▸ inv.output, by rw [same]; rfl, rfl, rfl⟩
      · subst heff
        exact ⟨by rw [same]; simp, same ▸ inv.output, by rw [same]; rfl, rfl, rfl⟩
    | shutdownInLoop =>
      cases hp
      refine ⟨inv.live, inv.output, ?_, rfl, rfl⟩
      unfold TcpConnection.shutdownInLoop
      split <;> rfl
    | shutdown =>
      cases hp
      exact ⟨by simp [TcpConnection.setState], inv.output, rfl, rfl, rfl⟩
  obtain ⟨live, out, readable, data, reads⟩ := moves
  refine ⟨live, out, ?_, ?_⟩
  · simp only [accepted, List.flatMap_append, data, List.append_nil, List.append_assoc, ← readable]
    exact sent
  · simp only [past, reads, Bool.or_false]

/-- A run keeps the byte stream, in every state on its way, exactly when each
direct write of it is refused or takes half of its data. -/
theorem stream_kept_iff {s : SendPath} (hs : s.Opened) (ls : List LoopStep) :
    streaming.Always StreamKept s ls ↔ streaming.Steps HalfTaken s ls := by
  refine always_iff_steps (I := Streaming) (fun s h => h.kept) ?_ ?_ hs.streaming ls
  · intro s l t inv h half
    by_cases send : ∃ data w, l = .sendInLoop data w
    · obtain ⟨data, w, rfl⟩ := send
      obtain ⟨live, out, kept⟩ := sendInLoop_kept inv h
      exact ⟨live, out, kept.mpr half⟩
    · exact other_kept inv (fun data w hl => send ⟨data, w, hl⟩) h
  · intro s l t inv h kept
    by_cases send : ∃ data w, l = .sendInLoop data w
    · obtain ⟨data, w, rfl⟩ := send
      exact (sendInLoop_kept inv h).2.2.mp kept
    · cases l with
      | sendInLoop data w => exact absurd ⟨data, w, rfl⟩ send
      | handleWrite | handleRead | shutdownInLoop | shutdown => trivial

/-- A connection with the callbacks `newConnection` sets, just established. -/
def newcomer : SendPath where
  conn := { TcpConnection.new 1 "server-127.0.0.1:8000#1" 7 with
    state := .kConnected
    channel := (Channel.new 7).tie.enableReading.update
    connectionCallback := true
    messageCallback := true
    closeCallback := true }
  trace := [.connectionCallback true]
  sent := []
  overread := false

theorem newcomer_opened : newcomer.Opened :=
  ⟨by decide, Buffer.new_inv, Buffer.new_readable, rfl, rfl, rfl⟩

/-- One of two bytes is taken by the direct write. -/
theorem stream_kept_half : streaming.Always StreamKept newcomer
    [.sendInLoop (.ofList [97, 98] (by decide)) (.accepted 1)] :=
  (stream_kept_iff newcomer_opened _).mpr fun _ _ => ⟨fun _ => rfl, trivial⟩

/-- All of three bytes are taken by the direct write, and the three bytes
behind them are buffered. -/
theorem stream_not_kept : newcomer.Opened ∧
    ∃ t, streaming.exec newcomer
        [.sendInLoop (.ofList [97, 98, 99] (by decide)) (.accepted 3)] = some t ∧
      t.accepted = [97, 98, 99] ∧ t.conn.outputBuffer.readable = [0, 0, 0] ∧ t.overread = true ∧
      ¬ t.StreamKept := by
  have run : (streaming.exec newcomer
      [.sendInLoop (.ofList [97, 98, 99] (by decide)) (.accepted 3)]).map
        (fun t => (t.accepted, t.conn.outputBuffer.readable, t.overread)) =
      some ([97, 98, 99], [0, 0, 0], true) := by decide +kernel
  obtain ⟨t, ht, after⟩ := Option.map_eq_some_iff.mp run
  simp only [Prod.mk.injEq] at after
  obtain ⟨acc, readable, past⟩ := after
  exact ⟨newcomer_opened, t, ht, acc, readable, past, fun kept => by simp [kept.2] at past⟩

/-! ## The write interest -/

/-- `handleClose` has run. -/
def closed (s : SendPath) : Prop := .closeCallback ∈ s.trace

/-- Until it closes, a connection waits to write exactly when it has something
to write. -/
def WriteInterest (s : SendPath) : Prop :=
  s.closed ∨ (s.conn.channel.isWriting = true ↔ 0 < s.conn.outputBuffer.readableBytes)

/-- Just after `connectEstablished`. -/
structure Established (s : SendPath) : Prop where
  established : ∃ c : TcpConnection, c.Fresh ∧ c.connectEstablished = .ok (s.conn, s.trace)
  sent : s.sent = []
  overread : s.overread = false

def looping : Machine SendPath LoopStep := ⟨Established, step LoopStep.any⟩

/-- The step comes after the close, or leaves no data to buffer: its direct
write is refused, fails for a peer that is gone, or has no data. -/
def LeavesNothing (s : SendPath) : LoopStep → Prop
  | .sendInLoop _ (.accepted k) => s.closed ∨ k = 0
  | .sendInLoop data (.failed errno) =>
    s.closed ∨ errno = EPIPE ∨ errno = ECONNRESET ∨ data.len = 0
  | _ => True

/-- Nothing was ever buffered. -/
structure Idle (s : SendPath) : Prop where
  live : s.conn.state ≠ .kDisconnected
  output : s.conn.outputBuffer.Inv
  unloaded : s.conn.Unloaded

theorem Idle.writeInterest {s : SendPath} (h : s.Idle) : s.WriteInterest := by
  refine .inr ?_
  rw [h.unloaded.1, h.unloaded.2]
  simp

theorem Established.idle {s : SendPath} (h : s.Established) : s.Idle := by
  obtain ⟨c, fresh, he⟩ := h.established
  obtain ⟨same, _⟩ := TcpConnection.connectEstablished_ok he
  refine ⟨by simp [same], by rw [same]; exact fresh.output ▸ Buffer.new_inv, ?_, ?_⟩
  · rw [same]
    simp only [Channel.update_isWriting, Channel.enableReading_isWriting, Channel.tie_isWriting]
    rw [fresh.channel, Channel.new_isWriting]
  · rw [same]
    exact fresh.output ▸ rfl

theorem closed_step {s t : SendPath} {l : LoopStep} (h : looping.step s l = some t)
    (closed : s.closed) : t.closed := by
  obtain ⟨_, _, _, _, _, rfl⟩ := step_cases h
  exact List.mem_append_left _ closed

/-- A send leaves an idle connection idle, or leaves data without asking to
write it. -/
theorem sendInLoop_idle {s t : SendPath} {data : Message} {w : WriteResult} (idle : s.Idle)
    (opened : ¬ s.closed) (h : looping.step s (.sendInLoop data w) = some t) :
    (s.LeavesNothing (.sendInLoop data w) → t.Idle) ∧
    (t.WriteInterest → s.LeavesNothing (.sendInLoop data w)) := by
  obtain ⟨_, fits, conn, effects, hp, rfl⟩ := step_cases h
  have un := idle.unloaded
  have quiet_iff : s.LeavesNothing (.sendInLoop data w) ↔ (s.conn.directWrite data w).quiet := by
    cases w with
    | accepted k =>
      simp [LeavesNothing, opened, TcpConnection.directWrite_accepted un, Direct.quiet]
    | failed errno =>
      simp only [LeavesNothing, opened, TcpConnection.directWrite_failed un, Direct.quiet, false_or,
        Bool.and_eq_true, bne_iff_ne, Bool.or_eq_true, beq_iff_eq, ← or_assoc]
      refine or_congr_left ⟨fun gone => ⟨?_, gone⟩, fun gone => gone.2⟩
      rcases gone with rfl | rfl <;> decide
  rw [quiet_iff]
  rcases TcpConnection.sendInLoop_cases hp with ⟨_, gone, _⟩ | ⟨rfl, _, hq, rfl⟩ |
    ⟨_, hf, hr, buffer, channel, hb, writing, same, _⟩
  · exact absurd gone idle.live
  · exact ⟨fun _ => ⟨idle.live, idle.output, un⟩, fun _ => hq⟩
  · refine ⟨fun hq => ?_, fun interest => ?_⟩
    · rcases hq with fault | none
      · exact absurd fault (by simp [hf])
      · omega
    · exfalso
      have hmax : (s.conn.directWrite data w).remaining ≤ data.len :=
        TcpConnection.directWrite_remaining fun k hk => by
          subst hk
          simpa [LoopStep.possible] using fits
      obtain ⟨out, _, _, readable, _⟩ :=
        TcpConnection.sendInLoop_output idle.output idle.live hf hmax hp
      have waits : conn.channel.isWriting = false := by rw [same, ← un.1, ← writing]
      rcases interest with shut | ⟨_, waiting⟩
      · rcases List.mem_append.mp shut with before | now
        · exact opened before
        · exact TcpConnection.not_mem_of_internal (TcpConnection.sendInLoop_internal hp).2.2 rfl now
      · have pending : 0 < conn.outputBuffer.readableBytes := by
          rw [← out.readable_length, readable, List.length_append, Pointer.cells_length]
          omega
        exact absurd (waiting pending) (by simp [waits])

/-- A step that does not send leaves an idle connection idle, or closes it. -/
theorem other_idle {s t : SendPath} {l : LoopStep} (idle : s.Idle)
    (other : ∀ data w, l ≠ .sendInLoop data w) (h : looping.step s l = some t) :
    t.closed ∨ t.Idle := by
  obtain ⟨_, _, conn, effects, hp, rfl⟩ := step_cases h
  cases l with
  | sendInLoop data w => exact absurd rfl (other data w)
  | handleWrite w =>
    cases (TcpConnection.handleWrite_idle idle.unloaded.1 w).symm.trans hp
    exact .inr ⟨idle.live, idle.output, idle.unloaded⟩
  | handleRead r =>
    obtain ⟨input, ⟨same, _⟩ | ⟨same, heff⟩⟩ := TcpConnection.handleRead_ok hp
    · subst same
      exact .inr ⟨idle.live, idle.output, idle.unloaded⟩
    · subst heff
      exact .inl (List.mem_append_right _ (by simp))
  | shutdownInLoop =>
    cases hp
    exact .inr ⟨idle.live, idle.output, idle.unloaded⟩
  | shutdown =>
    cases hp
    exact .inr ⟨by simp [TcpConnection.setState], idle.output, idle.unloaded⟩

theorem newcomer_established : newcomer.Established :=
  ⟨⟨{ TcpConnection.new 1 "server-127.0.0.1:8000#1" 7 with
      connectionCallback := true
      messageCallback := true
      closeCallback := true }, ⟨rfl, rfl, rfl⟩, rfl⟩, rfl, rfl⟩

end SendPath
end Kenmuduo
