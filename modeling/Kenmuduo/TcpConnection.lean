import Kenmuduo.Buffer
import Kenmuduo.Channel

/-!
# TcpConnection

TcpConnection.cc. A function of the connection returns the connection it
leaves and, in order, what it did outside of it: bytes given to the kernel,
functors queued with its loop, callbacks called. Callbacks are modelled by
whether they are set; calling one that is not is `std::bad_function_call`.
What the kernel answers is an argument.
-/

namespace Kenmuduo

abbrev EWOULDBLOCK : Nat := 11
abbrev EPIPE : Nat := 32
abbrev ECONNRESET : Nat := 104

inductive StateE
  | kDisconnected | kConnecting | kConnected | kDisconnecting
  deriving DecidableEq, Repr

/-- `len` bytes at a pointer, with whatever memory follows them. No object is
larger than `PTRDIFF_MAX`. -/
structure Message where
  mem : Pointer UInt8
  len : Nat
  fits : len ≤ vectorMax

def Message.bytes (m : Message) : List UInt8 := m.mem.cells m.len

/-- The characters of a string, zeros behind it. -/
def Message.ofList (xs : List UInt8) (h : xs.length ≤ vectorMax) : Message :=
  ⟨Pointer.ofList xs 0, xs.length, h⟩

@[simp] theorem Message.bytes_length (m : Message) : m.bytes.length = m.len := by
  simp [Message.bytes]

inductive Effect
  /-- Bytes a `::write` gave to the kernel. -/
  | written (bytes : List UInt8)
  /-- Bytes `[off, off + n)` from the caller's pointer went to `outputBuffer_`. -/
  | copied (off n : Nat)
  /-- `queueInLoop` of `writeCompleteCallback_`. -/
  | writeComplete
  /-- `queueInLoop` of `highWaterMarkCallback_` with its size argument. -/
  | highWater (size : Nat)
  | shutdownWrite
  | connectionCallback (connected : Bool)
  | messageCallback
  | closeCallback
  | handleError
  deriving DecidableEq, Repr

/-- The bytes an effect gave to the kernel. -/
def Effect.accepted : Effect → List UInt8
  | written bytes => bytes
  | _ => []

/-- The effect copied bytes from behind a caller's `len` bytes. -/
def Effect.overreads (len : Nat) : Effect → Bool
  | copied off n => len < off + n
  | _ => false

/-- A call of the user's connection or message callback. -/
inductive Callback
  | connection (connected : Bool)
  | message
  deriving DecidableEq, Repr

def Effect.callback : Effect → Option Callback
  | connectionCallback connected => some (.connection connected)
  | messageCallback => some .message
  | _ => none

/-- Neither a connection, message nor close callback. -/
def Effect.internal : Effect → Bool
  | connectionCallback _ | messageCallback | closeCallback => false
  | _ => true

/-- Calling a callback that is set is its effect. -/
def call (set : Bool) (e : Effect) : Except Fault (List Effect) :=
  if set then .ok [e] else .error .badFunctionCall

structure TcpConnection where
  loop : Nat
  name : String
  state : StateE
  channel : Channel
  connectionCallback : Bool
  messageCallback : Bool
  writeCompleteCallback : Bool
  closeCallback : Bool
  highWaterMarkCallback : Bool
  highWaterMark : Nat
  inputBuffer : Buffer
  outputBuffer : Buffer
  deriving DecidableEq, Repr

/-- Why `sendInLoop` has what is left to buffer: how much its direct write
gave to the kernel, what it takes to be left, and whether the peer is gone. -/
structure Direct where
  nwrote : Nat
  remaining : Nat
  faultError : Bool
  effects : List Effect
  deriving DecidableEq, Repr

/-- The second half of `sendInLoop` has nothing to do. -/
def Direct.quiet (d : Direct) : Prop := d.faultError = true ∨ d.remaining = 0

namespace TcpConnection

def new (loop : Nat) (name : String) (sockfd : Nat) : TcpConnection where
  loop := loop
  name := name
  state := .kConnecting
  channel := Channel.new sockfd
  connectionCallback := false
  messageCallback := false
  writeCompleteCallback := false
  closeCallback := false
  highWaterMarkCallback := false
  highWaterMark := 64 * 1024 * 1024
  inputBuffer := Buffer.new
  outputBuffer := Buffer.new

def setState (c : TcpConnection) (state : StateE) : TcpConnection := { c with state := state }

def connected (c : TcpConnection) : Bool := c.state == .kConnected

/-- What the constructor leaves, whatever callbacks are set afterwards. -/
structure Fresh (c : TcpConnection) : Prop where
  channel : c.channel = Channel.new c.channel.fd
  input : c.inputBuffer = Buffer.new
  output : c.outputBuffer = Buffer.new

def connectEstablished (c : TcpConnection) : Except Fault (TcpConnection × List Effect) := do
  let c := { c with state := .kConnected, channel := c.channel.tie.enableReading.update }
  let up ← call c.connectionCallback (.connectionCallback c.connected)
  return (c, up)

def connectionDestroyed (c : TcpConnection) : Except Fault (TcpConnection × List Effect) :=
  if c.state = .kConnected then do
    let c := { c with state := .kDisconnected, channel := c.channel.disableAll.update }
    let down ← call c.connectionCallback (.connectionCallback c.connected)
    return ({ c with channel := c.channel.remove }, down)
  else
    return ({ c with channel := c.channel.remove }, [])

def handleClose (c : TcpConnection) : Except Fault (TcpConnection × List Effect) := do
  let c := { c with state := .kDisconnecting, channel := c.channel.disableWriting.update }
  let down ← call c.connectionCallback (.connectionCallback c.connected)
  let close ← call c.closeCallback .closeCallback
  return (c, down ++ close)

/-- Reads `SO_ERROR` and logs it. -/
def handleError (c : TcpConnection) : TcpConnection × List Effect := (c, [.handleError])

def handleRead (c : TcpConnection) (r : ReadResult) :
    Except Fault (TcpConnection × List Effect) := do
  let read ← c.inputBuffer.readFd r 0
  let c := { c with inputBuffer := read.buf }
  if 0 < read.n then
    let message ← call c.messageCallback .messageCallback
    return (c, message)
  else if read.n = 0 then c.handleClose
  else return c.handleError

def shutdownInLoop (c : TcpConnection) : List Effect :=
  if !c.channel.isWriting then [.shutdownWrite] else []

def handleWrite (c : TcpConnection) (w : WriteResult) :
    Except Fault (TcpConnection × List Effect) :=
  if c.channel.isWriting then do
    let write ← c.outputBuffer.writeFd w 0
    if 0 < write.n then
      let c := { c with outputBuffer := c.outputBuffer.retrieve write.n.toNat }
      if c.outputBuffer.readableBytes = 0 then
        let c := { c with channel := c.channel.disableWriting.update }
        let done := if c.writeCompleteCallback then [.writeComplete] else []
        let half := if c.state = .kDisconnecting then c.shutdownInLoop else []
        return (c, .written write.accepted :: (done ++ half))
      else return (c, [.written write.accepted])
    else return (c, [])
  else return (c, [])

/-- The first half of `sendInLoop`. After a successful write `remaining` is
what was written, not what is left. -/
def directWrite (c : TcpConnection) (data : Message) (w : WriteResult) : Direct :=
  if !c.channel.isWriting && c.outputBuffer.readableBytes == 0 then
    match w with
    | .accepted k =>
      ⟨k, k, false, .written (data.mem.cells k) ::
        if k == 0 && c.writeCompleteCallback then [.writeComplete] else []⟩
    | .failed errno =>
      ⟨0, data.len, errno != EWOULDBLOCK && (errno == EPIPE || errno == ECONNRESET), []⟩
  else ⟨0, data.len, false, []⟩

/-- The high-water functor the second half of `sendInLoop` queues. -/
def highWaterEffects (c : TcpConnection) (remaining : Nat) : List Effect :=
  let oldLen := c.outputBuffer.readableBytes
  if c.highWaterMark ≤ sizeAdd oldLen remaining ∧ oldLen < c.highWaterMark ∧
      c.highWaterMarkCallback then
    [.highWater (sizeAdd oldLen remaining)]
  else []

/-- The buffered rest asks for read events where a comment of the source
wants write events registered. -/
def sendInLoop (c : TcpConnection) (data : Message) (w : WriteResult) :
    Except Fault (TcpConnection × List Effect) :=
  if c.state = .kDisconnected then .ok (c, [])
  else
    let d := c.directWrite data w
    if !d.faultError && 0 < d.remaining then do
      let buffer ← c.outputBuffer.append (data.mem.shift d.nwrote) d.remaining
      let channel := if !c.channel.isWriting then c.channel.enableReading.update else c.channel
      return ({ c with outputBuffer := buffer, channel := channel },
        d.effects ++ c.highWaterEffects d.remaining ++ [.copied d.nwrote d.remaining])
    else .ok (c, d.effects)

/-! ## What a call leaves -/

theorem call_ok {set : Bool} {e : Effect} {es : List Effect} (h : call set e = .ok es) :
    es = [e] := by
  unfold call at h
  split at h
  · cases h; rfl
  · cases h

theorem connectEstablished_ok {c c' : TcpConnection} {effects : List Effect}
    (h : c.connectEstablished = .ok (c', effects)) :
    c' = { c with state := .kConnected, channel := c.channel.tie.enableReading.update } ∧
    effects = [.connectionCallback true] := by
  obtain ⟨up, hu, result⟩ := bind_ok_iff.mp h
  cases result
  exact ⟨rfl, call_ok hu⟩

theorem handleClose_ok {c c' : TcpConnection} {effects : List Effect}
    (h : c.handleClose = .ok (c', effects)) :
    c' = { c with state := .kDisconnecting, channel := c.channel.disableWriting.update } ∧
    effects = [.connectionCallback false, .closeCallback] := by
  simp only [handleClose, bind_ok_iff, pure_ok] at h
  obtain ⟨down, hd, close, hc, result⟩ := h
  cases result
  exact ⟨rfl, by rw [call_ok hd, call_ok hc]; rfl⟩

/-- `handleRead` ends in the message callback, in `handleError` or in
`handleClose`. -/
theorem handleRead_ok {c c' : TcpConnection} {r : ReadResult} {effects : List Effect}
    (h : c.handleRead r = .ok (c', effects)) :
    ∃ input,
      (c' = { c with inputBuffer := input } ∧
        (effects = [.messageCallback] ∨ effects = [.handleError])) ∨
      (c' = { c with
          inputBuffer := input
          state := .kDisconnecting
          channel := c.channel.disableWriting.update } ∧
        effects = [.connectionCallback false, .closeCallback]) := by
  simp only [handleRead, bind_ok_iff] at h
  obtain ⟨read, _, h⟩ := h
  refine ⟨read.buf, ?_⟩
  split at h
  · obtain ⟨message, hm, result⟩ := bind_ok_iff.mp h
    cases result
    exact .inl ⟨rfl, .inl (call_ok hm)⟩
  · split at h
    · exact .inr (handleClose_ok h)
    · cases h
      exact .inl ⟨rfl, .inr rfl⟩

/-- Bytes delivered to a connection are a message, none are its end; the user
hears of nothing else. -/
theorem handleRead_delivered {c c' : TcpConnection} {bytes : List UInt8} {effects : List Effect}
    (fits : bytes.length ≤ vectorMax) (h : c.handleRead (.delivered bytes) = .ok (c', effects)) :
    effects = if bytes = [] then [.connectionCallback false, .closeCallback]
      else [.messageCallback] := by
  simp only [handleRead, bind_ok_iff] at h
  obtain ⟨read, hread, h⟩ := h
  have count : read.n = bytes.length := by
    rw [Buffer.readFd_n hread, Buffer.readv, toSsize_eq (Nat.lt_succ_of_le fits)]
  cases bytes with
  | nil =>
    simp only [count, List.length_nil, Int.natCast_zero, Int.lt_irrefl, if_false, if_true] at h
    exact (handleClose_ok h).2
  | cons b bs =>
    have some : (0 : Int) < read.n := by
      rw [count, List.length_cons]
      omega
    simp only [some, if_true] at h
    obtain ⟨message, hm, result⟩ := bind_ok_iff.mp h
    cases result
    rw [if_neg (by simp)]
    exact call_ok hm

/-- A failed read that got past `readFd` would be logged. -/
theorem handleRead_failed {c c' : TcpConnection} {errno : Nat} {effects : List Effect}
    (h : c.handleRead (.failed errno) = .ok (c', effects)) : effects = [.handleError] := by
  simp only [handleRead, bind_ok_iff] at h
  obtain ⟨read, hread, h⟩ := h
  have count : read.n = -1 := by
    rw [Buffer.readFd_n hread]
    rfl
  simp only [count] at h
  cases h
  rfl

/-- The output is as it was, and no write gets registered. -/
structure SameOutput (c c' : TcpConnection) : Prop where
  buffer : c'.outputBuffer = c.outputBuffer
  idle : c.channel.isWriting = false → c'.channel.isWriting = false

theorem handleClose_sameOutput {c c' : TcpConnection} {effects : List Effect}
    (h : c.handleClose = .ok (c', effects)) : c.SameOutput c' := by
  obtain ⟨rfl, _⟩ := handleClose_ok h
  constructor
  · rfl
  · intro _
    rw [Channel.update_isWriting, Channel.disableWriting_isWriting]

theorem handleRead_sameOutput {c c' : TcpConnection} {r : ReadResult} {effects : List Effect}
    (h : c.handleRead r = .ok (c', effects)) : c.SameOutput c' := by
  obtain ⟨input, ⟨rfl, _⟩ | ⟨rfl, _⟩⟩ := handleRead_ok h
  · exact ⟨rfl, id⟩
  · constructor
    · rfl
    · intro _
      rw [Channel.update_isWriting, Channel.disableWriting_isWriting]

theorem connectionDestroyed_ok {c c' : TcpConnection} {effects : List Effect}
    (h : c.connectionDestroyed = .ok (c', effects)) :
    (c.state = .kConnected ∧
      c' = { c with state := .kDisconnected, channel := c.channel.disableAll.update.remove } ∧
      effects = [.connectionCallback false]) ∨
    (c.state ≠ .kConnected ∧ c' = { c with channel := c.channel.remove } ∧ effects = []) := by
  unfold connectionDestroyed at h
  split at h
  · rename_i up
    obtain ⟨down, hd, result⟩ := bind_ok_iff.mp h
    cases result
    exact .inl ⟨up, rfl, call_ok hd⟩
  · rename_i gone
    cases h
    exact .inr ⟨gone, rfl, rfl⟩

theorem connectionDestroyed_sameOutput {c c' : TcpConnection} {effects : List Effect}
    (h : c.connectionDestroyed = .ok (c', effects)) : c.SameOutput c' := by
  rcases connectionDestroyed_ok h with ⟨_, rfl, _⟩ | ⟨_, rfl, _⟩
  · constructor
    · rfl
    · intro _
      rw [Channel.remove_isWriting, Channel.update_isWriting, Channel.disableAll_isWriting]
  · exact ⟨rfl, id⟩

theorem sendInLoop_disconnected {c : TcpConnection} (h : c.state = .kDisconnected)
    (data : Message) (w : WriteResult) : c.sendInLoop data w = .ok (c, []) := by
  simp [sendInLoop, h]

theorem sendInLoop_quiet {c : TcpConnection} {data : Message} {w : WriteResult}
    (hc : c.state ≠ .kDisconnected) (hq : (c.directWrite data w).quiet) :
    c.sendInLoop data w = .ok (c, (c.directWrite data w).effects) := by
  have idle : (!(c.directWrite data w).faultError &&
      decide (0 < (c.directWrite data w).remaining)) = false := by
    rcases hq with hq | hq <;> simp [hq]
  simp only [sendInLoop, hc, if_false, idle, Bool.false_eq_true]

/-- The output is empty and no write is registered: `sendInLoop` tries the
socket first. -/
def Unloaded (c : TcpConnection) : Prop :=
  c.channel.isWriting = false ∧ c.outputBuffer.readableBytes = 0

theorem directWrite_accepted {c : TcpConnection} (h : c.Unloaded) (data : Message) (k : Nat) :
    c.directWrite data (.accepted k) = ⟨k, k, false, .written (data.mem.cells k) ::
      if k == 0 && c.writeCompleteCallback then [.writeComplete] else []⟩ := by
  simp [directWrite, h.1, h.2]

theorem directWrite_failed {c : TcpConnection} (h : c.Unloaded) (data : Message) (errno : Nat) :
    c.directWrite data (.failed errno) =
      ⟨0, data.len, errno != EWOULDBLOCK && (errno == EPIPE || errno == ECONNRESET), []⟩ := by
  simp [directWrite, h.1, h.2]

theorem directWrite_loaded {c : TcpConnection} (h : ¬ c.Unloaded) (data : Message)
    (w : WriteResult) : c.directWrite data w = ⟨0, data.len, false, []⟩ := by
  have skip : (!c.channel.isWriting && c.outputBuffer.readableBytes == 0) = false := by
    cases hw : c.channel.isWriting with
    | true => rfl
    | false => simpa using fun h0 => h ⟨hw, h0⟩
  simp [directWrite, skip]

theorem directWrite_remaining {c : TcpConnection} {data : Message} {w : WriteResult}
    (h : ∀ k, w = .accepted k → k ≤ data.len) : (c.directWrite data w).remaining ≤ data.len := by
  by_cases un : c.Unloaded
  · cases w with
    | accepted k => simpa [directWrite_accepted un] using h k rfl
    | failed errno => simp [directWrite_failed un]
  · simp [directWrite_loaded un]

/-- Everything a call can do. -/
theorem sendInLoop_cases {c c' : TcpConnection} {data : Message} {w : WriteResult}
    {effects : List Effect} (h : c.sendInLoop data w = .ok (c', effects)) :
    let d := c.directWrite data w
    (c' = c ∧ c.state = .kDisconnected ∧ effects = []) ∨
    (c' = c ∧ c.state ≠ .kDisconnected ∧ d.quiet ∧ effects = d.effects) ∨
    (c.state ≠ .kDisconnected ∧ d.faultError = false ∧ 0 < d.remaining ∧
      ∃ buffer channel, c.outputBuffer.append (data.mem.shift d.nwrote) d.remaining = .ok buffer ∧
        channel.isWriting = c.channel.isWriting ∧
        c' = { c with outputBuffer := buffer, channel := channel } ∧
        effects = d.effects ++ c.highWaterEffects d.remaining ++
          [.copied d.nwrote d.remaining]) := by
  intro d
  by_cases hc : c.state = .kDisconnected
  · rw [sendInLoop_disconnected hc] at h
    cases h
    exact .inl ⟨rfl, hc, rfl⟩
  by_cases hq : d.quiet
  · rw [sendInLoop_quiet hc hq] at h
    cases h
    exact .inr (.inl ⟨rfl, hc, hq, rfl⟩)
  have hf : d.faultError = false := by
    simpa using fun fault => hq (.inl fault)
  have hr : 0 < d.remaining := Nat.pos_of_ne_zero fun none => hq (.inr none)
  have busy : (!(c.directWrite data w).faultError &&
      decide (0 < (c.directWrite data w).remaining)) = true := by
    simp only [Bool.and_eq_true, Bool.not_eq_true', decide_eq_true_eq]
    exact ⟨hf, hr⟩
  simp only [sendInLoop, hc, if_false, busy, if_true] at h
  obtain ⟨buffer, hb, result⟩ := bind_ok_iff.mp h
  cases result
  refine .inr (.inr ⟨hc, hf, hr, buffer, _, hb, ?_, rfl, rfl⟩)
  split
  · rw [Channel.update_isWriting, Channel.enableReading_isWriting]
  · rfl

/-- A send leaves everything but the output and its channel as it was. -/
theorem sendInLoop_same {c c' : TcpConnection} {data : Message} {w : WriteResult}
    {effects : List Effect} (h : c.sendInLoop data w = .ok (c', effects)) :
    c' = { c with outputBuffer := c'.outputBuffer, channel := c'.channel } := by
  rcases sendInLoop_cases h with ⟨rfl, _⟩ | ⟨rfl, _⟩ | ⟨_, _, _, _, _, _, _, rfl, _⟩
  · rfl
  · rfl
  · rfl

theorem highWaterEffects_inert (c : TcpConnection) (remaining len : Nat) :
    (c.highWaterEffects remaining).flatMap Effect.accepted = [] ∧
    (c.highWaterEffects remaining).any (Effect.overreads len) = false := by
  simp only [highWaterEffects]
  split
  · exact ⟨rfl, rfl⟩
  · exact ⟨rfl, rfl⟩

theorem directWrite_overreads (c : TcpConnection) (data : Message) (w : WriteResult) (len : Nat) :
    (c.directWrite data w).effects.any (Effect.overreads len) = false := by
  by_cases un : c.Unloaded
  · cases w with
    | accepted k =>
      rw [directWrite_accepted un]
      cases k == 0 && c.writeCompleteCallback <;> simp [Effect.overreads]
    | failed errno => simp [directWrite_failed un]
  · simp [directWrite_loaded un]

theorem directWrite_internal (c : TcpConnection) (data : Message) (w : WriteResult) :
    (c.directWrite data w).effects.all Effect.internal = true := by
  by_cases un : c.Unloaded
  · cases w with
    | accepted k =>
      rw [directWrite_accepted un]
      cases k == 0 && c.writeCompleteCallback <;> simp [Effect.internal]
    | failed errno => simp [directWrite_failed un]
  · simp [directWrite_loaded un]

/-- A send calls none of the user's callbacks and keeps the state. -/
theorem sendInLoop_internal {c c' : TcpConnection} {data : Message} {w : WriteResult}
    {effects : List Effect} (h : c.sendInLoop data w = .ok (c', effects)) :
    c'.state = c.state ∧ c'.loop = c.loop ∧ effects.all Effect.internal = true := by
  have water :
      (c.highWaterEffects (c.directWrite data w).remaining).all Effect.internal = true := by
    simp only [highWaterEffects]
    split <;> simp [Effect.internal]
  rcases sendInLoop_cases h with ⟨rfl, _, rfl⟩ | ⟨rfl, _, _, rfl⟩ | ⟨_, _, _, _, _, _, _, rfl, rfl⟩
  · exact ⟨rfl, rfl, rfl⟩
  · exact ⟨rfl, rfl, directWrite_internal ..⟩
  · refine ⟨rfl, rfl, ?_⟩
    simp [directWrite_internal, water, Effect.internal]

theorem not_mem_of_internal {effects : List Effect} {e : Effect}
    (h : effects.all Effect.internal = true) (he : e.internal = false) : e ∉ effects := by
  intro mem
  have := List.all_eq_true.mp h e mem
  rw [he] at this
  cases this

theorem callbacks_of_internal {effects : List Effect} (h : effects.all Effect.internal = true) :
    effects.filterMap Effect.callback = [] := by
  rw [List.filterMap_eq_nil_iff]
  intro e mem
  have inside := List.all_eq_true.mp h e mem
  cases e <;> first | rfl | cases inside

/-- What a call leaves when the peer is not gone: after the bytes of the
direct write, `remaining` bytes at `data + nwrote` are behind the output. -/
theorem sendInLoop_output {c c' : TcpConnection} {data : Message} {w : WriteResult}
    {effects : List Effect} (inv : c.outputBuffer.Inv) (hc : c.state ≠ .kDisconnected)
    (hf : (c.directWrite data w).faultError = false)
    (hmax : (c.directWrite data w).remaining ≤ data.len)
    (h : c.sendInLoop data w = .ok (c', effects)) :
    let d := c.directWrite data w
    c'.outputBuffer.Inv ∧ c'.state = c.state ∧ c'.channel.isWriting = c.channel.isWriting ∧
    c'.outputBuffer.readable =
      c.outputBuffer.readable ++ (data.mem.shift d.nwrote).cells d.remaining ∧
    effects.flatMap Effect.accepted = d.effects.flatMap Effect.accepted ∧
    effects.any (Effect.overreads data.len) =
      decide (0 < d.remaining ∧ data.len < d.nwrote + d.remaining) := by
  intro d
  rcases sendInLoop_cases h with ⟨_, gone, _⟩ | ⟨rfl, _, hq, rfl⟩ |
    ⟨_, _, hr, buffer, channel, hb, writing, rfl, rfl⟩
  · exact absurd gone hc
  · have none : d.remaining = 0 := by
      rcases hq with fault | none
      · exact absurd fault (by simp [hf])
      · exact none
    refine ⟨inv, rfl, rfl, by simp [none, Pointer.cells], rfl, ?_⟩
    simp [none, directWrite_overreads]
  · obtain ⟨quietBytes, quietReads⟩ := c.highWaterEffects_inert d.remaining data.len
    rcases inv.append (data.mem.shift d.nwrote) (Nat.le_trans hmax data.fits) with
      ⟨b, hb', inv', readable, _⟩ | ⟨he, _⟩
    · cases hb'.symm.trans hb
      refine ⟨inv', rfl, writing, readable, ?_, ?_⟩
      · rw [List.flatMap_append, List.flatMap_append, quietBytes, List.append_nil]
        simp [d, Effect.accepted]
      · rw [List.any_append, List.any_append, directWrite_overreads, quietReads]
        simp [d, Effect.overreads, hr]
    · cases he.symm.trans hb

/-- Behind pending output, all the data is buffered and nothing is written. -/
theorem sendInLoop_loaded {c c' : TcpConnection} {data : Message} {w : WriteResult}
    {effects : List Effect} (inv : c.outputBuffer.Inv) (hc : c.state ≠ .kDisconnected)
    (loaded : ¬ c.Unloaded) (h : c.sendInLoop data w = .ok (c', effects)) :
    c'.outputBuffer.Inv ∧
    c' = { c with outputBuffer := c'.outputBuffer, channel := c'.channel } ∧
    c'.channel.isWriting = c.channel.isWriting ∧
    c'.outputBuffer.readable = c.outputBuffer.readable ++ data.bytes ∧
    effects.flatMap Effect.accepted = [] ∧
    .writeComplete ∉ effects ∧ .shutdownWrite ∉ effects := by
  have whole := directWrite_loaded loaded data w
  obtain ⟨output, _, writing, readable, bytes, _⟩ :=
    sendInLoop_output inv hc (by rw [whole]) (Nat.le_of_eq (by rw [whole])) h
  rw [whole, Pointer.shift_zero] at readable
  rw [whole] at bytes
  refine ⟨output, sendInLoop_same h, writing, readable, bytes, ?_⟩
  rcases sendInLoop_cases h with ⟨_, gone, _⟩ | ⟨_, _, _, rfl⟩ | ⟨_, _, _, _, _, _, _, _, rfl⟩
  · exact absurd gone hc
  · simp [whole]
  · simp only [whole, highWaterEffects]
    split <;> simp

theorem shutdownInLoop_internal (c : TcpConnection) :
    c.shutdownInLoop.all Effect.internal = true := by
  unfold shutdownInLoop
  split <;> rfl

/-- A drain calls none of the user's callbacks and keeps the state. -/
theorem handleWrite_internal {c c' : TcpConnection} {w : WriteResult} {effects : List Effect}
    (h : c.handleWrite w = .ok (c', effects)) :
    c'.state = c.state ∧ c'.loop = c.loop ∧ effects.all Effect.internal = true := by
  unfold handleWrite at h
  split at h
  · obtain ⟨write, _, h⟩ := bind_ok_iff.mp h
    split at h
    · dsimp only at h
      split at h
      · cases h
        refine ⟨rfl, rfl, ?_⟩
        simp only [List.all_cons, List.all_append, Bool.and_eq_true]
        refine ⟨rfl, ?_, ?_⟩
        · split <;> rfl
        · split
          · exact shutdownInLoop_internal _
          · rfl
      · cases h
        exact ⟨rfl, rfl, rfl⟩
    · cases h
      exact ⟨rfl, rfl, rfl⟩
  · cases h
    exact ⟨rfl, rfl, rfl⟩

/-- A drain leaves everything but the output and its channel as it was. -/
theorem handleWrite_same {c c' : TcpConnection} {w : WriteResult} {effects : List Effect}
    (h : c.handleWrite w = .ok (c', effects)) :
    c' = { c with outputBuffer := c'.outputBuffer, channel := c'.channel } := by
  unfold handleWrite at h
  split at h
  · obtain ⟨write, _, h⟩ := bind_ok_iff.mp h
    split at h
    · dsimp only at h
      split at h
      · cases h
        rfl
      · cases h
        rfl
    · cases h
      rfl
  · cases h
    rfl

theorem shutdownInLoop_idle {c : TcpConnection} (h : c.channel.isWriting = false) :
    c.shutdownInLoop = [.shutdownWrite] := by
  simp [shutdownInLoop, h]

theorem handleWrite_idle {c : TcpConnection} (h : c.channel.isWriting = false) (w : WriteResult) :
    c.handleWrite w = .ok (c, []) := by
  simp [handleWrite, h]

/-- With a write registered, the connection stays as it is when the kernel
takes nothing; taken bytes leave the output, and with the last of them writing
ends. -/
theorem handleWrite_writing {c : TcpConnection} (inv : c.outputBuffer.Inv)
    (writing : c.channel.isWriting = true) (w : WriteResult) :
    ∃ c' effects, c.handleWrite w = .ok (c', effects) ∧
    ((c' = c ∧ effects = []) ∨
      (∃ k, c' = { c with outputBuffer := c.outputBuffer.retrieve k } ∧
        c'.outputBuffer.readableBytes ≠ 0 ∧
        effects = [.written (c.outputBuffer.readable.take k)]) ∨
      (∃ k, c' = { c with
          outputBuffer := c.outputBuffer.retrieve k
          channel := c.channel.disableWriting.update } ∧
        c'.outputBuffer.readableBytes = 0 ∧
        effects = .written (c.outputBuffer.readable.take k) ::
          ((if c.writeCompleteCallback then [.writeComplete] else []) ++
            if c.state = .kDisconnecting then [.shutdownWrite] else []))) := by
  simp only [handleWrite, writing, if_true, inv.writeFd, ok_bind]
  cases w with
  | failed errno => exact ⟨c, [], rfl, .inl ⟨rfl, rfl⟩⟩
  | accepted k =>
    by_cases refused : k = 0
    · subst refused
      exact ⟨c, [], rfl, .inl ⟨rfl, rfl⟩⟩
    have took : (0 : Int) < k := by omega
    simp only [took, if_true, Int.toNat_natCast]
    split
    · rename_i empty
      refine ⟨_, _, rfl, .inr (.inr ⟨k, rfl, empty, ?_⟩)⟩
      simp only [shutdownInLoop, Channel.update_isWriting, Channel.disableWriting_isWriting,
        Bool.not_false, if_true]
    · rename_i pending
      exact ⟨_, _, rfl, .inr (.inl ⟨k, rfl, pending, rfl⟩)⟩

/-- What `handleWrite` leaves: the bytes the kernel took are gone from the
front of the output, and nothing else about the connection changes but the
write interest. -/
theorem handleWrite_drains {c : TcpConnection} (inv : c.outputBuffer.Inv) (w : WriteResult) :
    ∃ c' effects, c.handleWrite w = .ok (c', effects) ∧ c'.outputBuffer.Inv ∧
    c.outputBuffer.readable = effects.flatMap Effect.accepted ++ c'.outputBuffer.readable ∧
    c' = { c with outputBuffer := c'.outputBuffer, channel := c'.channel } ∧
    (∀ off n, .copied off n ∉ effects) ∧
    (.shutdownWrite ∈ effects → c'.outputBuffer.readable = []) := by
  by_cases writing : c.channel.isWriting = true
  case neg =>
    exact ⟨c, [], handleWrite_idle (by simpa using writing) w, inv, by simp, rfl, by simp, by simp⟩
  obtain ⟨c', effects, hw, ⟨rfl, rfl⟩ | ⟨k, rfl, _, rfl⟩ | ⟨k, rfl, empty, rfl⟩⟩ :=
    handleWrite_writing inv writing w
  · exact ⟨c', [], hw, inv, by simp, rfl, by simp, by simp⟩
  · obtain ⟨inv', left⟩ := inv.retrieve k
    refine ⟨_, _, hw, inv', ?_, rfl, by simp, by simp⟩
    rw [left]
    simp [Effect.accepted]
  · obtain ⟨inv', left⟩ := inv.retrieve k
    refine ⟨_, _, hw, inv', ?_, rfl, ?_, fun _ => inv'.readableBytes_zero.mp empty⟩
    · rw [left]
      cases c.writeCompleteCallback <;> by_cases hd : c.state = .kDisconnecting <;>
        simp [hd, Effect.accepted]
    · cases c.writeCompleteCallback <;> by_cases hd : c.state = .kDisconnecting <;>
        simp [hd]

end TcpConnection
end Kenmuduo
