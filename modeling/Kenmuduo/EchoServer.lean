import Kenmuduo.SendPath
import Kenmuduo.SentOnce
import Kenmuduo.Receiving

/-!
# The echo server of the example

example/TestServer.cc: the message callback sends back all that has come in and
shuts the connection down. Callbacks are called on the thread of the connection's
loop, so `send` and `shutdown` go on to `sendInLoop` and `shutdownInLoop` there.
-/

namespace Kenmuduo
open Transition

namespace TcpConnection

/-- The characters of a string, and what is behind them in memory. -/
def characters (msg : List UInt8) (beyond : Pointer UInt8) : Pointer UInt8 :=
  fun i => msg.getD i (beyond i)

theorem characters_cells {msg : List UInt8} (beyond : Pointer UInt8) {n : Nat}
    (h : n ≤ msg.length) : (characters msg beyond).cells n = msg.take n := by
  have same : (characters msg beyond).cells n = (Pointer.ofList msg 0).cells n := by
    apply List.map_congr_left
    intro i mem
    have inside : i < msg.length := Nat.lt_of_lt_of_le (List.mem_range.mp mem) h
    simp only [characters, Pointer.ofList, List.getD_eq_getElem?_getD,
      List.getElem?_eq_getElem inside, Option.getD_some]
  rw [same, Pointer.ofList_cells h]

/-- `send` on the thread of the connection's loop. -/
def sendHere (c : TcpConnection) (msg : List UInt8) (beyond : Pointer UInt8) (w : WriteResult) :
    Except Fault (TcpConnection × List Effect) :=
  if c.state = .kConnected then
    if fits : msg.length ≤ vectorMax then
      c.sendInLoop ⟨characters msg beyond, msg.length, fits⟩ w
    else .error .lengthError
  else .ok (c, [])

/-- `shutdown` on the thread of the connection's loop. -/
def shutdownHere (c : TcpConnection) : TcpConnection × List Effect :=
  if c.state = .kConnected then
    (c.setState .kDisconnecting, (c.setState .kDisconnecting).shutdownInLoop)
  else (c, [])

/-- `EchoServer::onMessage`. -/
def onMessage (c : TcpConnection) (beyond : Pointer UInt8) (w : WriteResult) :
    Except Fault (TcpConnection × List Effect) := do
  let (msg, input) ← c.inputBuffer.retrieveAllAsString
  let (c, sent) ← sendHere { c with inputBuffer := input } msg beyond w
  let (c, closed) := c.shutdownHere
  return (c, sent ++ closed)

/-- `handleRead` with the message callback of the echo server. -/
def handleReadEchoing (c : TcpConnection) (r : ReadResult) (beyond : Pointer UInt8)
    (w : WriteResult) : Except Fault (TcpConnection × List Effect) := do
  let (c, effects) ← c.handleRead r
  if effects.contains .messageCallback then
    let (c, echoed) ← c.onMessage beyond w
    return (c, effects ++ echoed)
  else return (c, effects)

end TcpConnection

/-- A connection of the echo server, what it did, and what was delivered to it. -/
structure EchoRun where
  conn : TcpConnection
  trace : List Effect
  reads : List (List UInt8)

inductive EchoStep
  | handleRead (r : ReadResult) (beyond : Pointer UInt8) (w : WriteResult)
  | handleWrite (w : WriteResult)
  | handleClose
  | handleError
  | connectionDestroyed

/-- The kernel moves at most what it is offered. -/
def EchoStep.possible (c : TcpConnection) : EchoStep → Bool
  | handleRead (.delivered bytes) _ (.accepted k) =>
    bytes.length ≤ c.inputBuffer.offered && k ≤ c.inputBuffer.readableBytes + bytes.length
  | handleRead (.delivered bytes) _ (.failed _) => bytes.length ≤ c.inputBuffer.offered
  | handleRead (.failed _) _ _ | handleWrite _ | handleClose | handleError
  | connectionDestroyed => true

/-- What a step delivers. -/
def EchoStep.reads : EchoStep → List (List UInt8)
  | handleRead (.delivered bytes) _ _ => if bytes = [] then [] else [bytes]
  | handleRead (.failed _) _ _ | handleWrite _ | handleClose | handleError
  | connectionDestroyed => []

def EchoStep.perform (c : TcpConnection) :
    EchoStep → Except Fault (TcpConnection × List Effect)
  | handleRead r beyond w => c.handleReadEchoing r beyond w
  | handleWrite w => c.handleWrite w
  | handleClose => c.handleClose
  | handleError => .ok c.handleError
  | connectionDestroyed => c.connectionDestroyed

/-- Nothing of it is written or closes the write side. -/
def Quiet (effects : List Effect) : Prop :=
  ∀ e ∈ effects, e.accepted = [] ∧ e ≠ .shutdownWrite

theorem Quiet.append {first second : List Effect} (h : Quiet first) (h' : Quiet second) :
    Quiet (first ++ second) := by
  intro e mem
  cases List.mem_append.mp mem with
  | inl old => exact h e old
  | inr new => exact h' e new

theorem Quiet.accepted {effects : List Effect} (h : Quiet effects) :
    effects.flatMap Effect.accepted = [] :=
  List.flatMap_eq_nil_iff.mpr fun e mem => (h e mem).1

theorem Quiet.open {effects : List Effect} (h : Quiet effects) : .shutdownWrite ∉ effects :=
  fun mem => (h _ mem).2 rfl

namespace TcpConnection

/-- A send writes a first part of its data, and does not close the write side. -/
theorem sendInLoop_part {c c' : TcpConnection} {data : Message} {w : WriteResult}
    {effects : List Effect} (fits : ∀ k, w = .accepted k → k ≤ data.len)
    (h : c.sendInLoop data w = .ok (c', effects)) :
    effects.flatMap Effect.accepted <+: data.bytes ∧ .shutdownWrite ∉ effects := by
  have direct : (c.directWrite data w).effects.flatMap Effect.accepted <+: data.bytes ∧
      .shutdownWrite ∉ (c.directWrite data w).effects := by
    by_cases un : c.Unloaded
    · cases w with
      | failed errno =>
        rw [directWrite_failed un]
        exact ⟨List.nil_prefix, List.not_mem_nil⟩
      | accepted k =>
        have split : data.bytes = data.mem.cells k ++ (data.mem.shift k).cells (data.len - k) := by
          rw [← Pointer.cells_add, Message.bytes, Nat.add_sub_cancel' (fits k rfl)]
        rw [directWrite_accepted un, split]
        cases k == 0 && c.writeCompleteCallback <;> simp [Effect.accepted]
    · rw [directWrite_loaded un]
      exact ⟨List.nil_prefix, List.not_mem_nil⟩
  have water : .shutdownWrite ∉ c.highWaterEffects (c.directWrite data w).remaining := by
    simp only [highWaterEffects]
    split <;> simp
  obtain ⟨_, _, rfl⟩ | ⟨_, _, _, rfl⟩ | ⟨_, _, _, _, _, _, _, _, rfl⟩ := sendInLoop_cases h
  · exact ⟨List.nil_prefix, List.not_mem_nil⟩
  · exact direct
  · have inert := (c.highWaterEffects_inert (c.directWrite data w).remaining 0).1
    constructor
    · rw [List.flatMap_append, List.flatMap_append, inert]
      simpa [Effect.accepted] using direct.1
    · simp [direct.2, water]

/-- Nothing waits for the user, and no write is registered. -/
structure AtEase (c : TcpConnection) : Prop where
  idle : c.channel.isWriting = false
  output : c.outputBuffer.Inv
  input : c.inputBuffer.Inv
  empty : c.inputBuffer.readable = []

/-- A function that leaves the output alone, and the input or nothing in it. -/
theorem AtEase.same {c c' : TcpConnection} (h : c.AtEase) (same : c.SameOutput c')
    (input : c'.inputBuffer = c.inputBuffer) : c'.AtEase := by
  refine ⟨same.idle h.idle, ?_, ?_, ?_⟩
  · exact same.buffer ▸ h.output
  · exact input ▸ h.input
  · rw [input]
    exact h.empty

theorem AtEase.sendHere {c c' : TcpConnection} {msg : List UInt8} {beyond : Pointer UInt8}
    {w : WriteResult} {effects : List Effect} (h : c.AtEase)
    (fits : ∀ k, w = .accepted k → k ≤ msg.length)
    (sent : c.sendHere msg beyond w = .ok (c', effects)) :
    c'.AtEase ∧ c'.state = c.state ∧ (c.state ≠ .kConnected → effects = []) ∧
      effects.flatMap Effect.accepted <+: msg ∧ .shutdownWrite ∉ effects := by
  unfold TcpConnection.sendHere at sent
  split at sent
  · rename_i up
    split at sent
    · rename_i fits'
      have whole : Message.bytes ⟨characters msg beyond, msg.length, fits'⟩ = msg := by
        rw [Message.bytes, characters_cells beyond (Nat.le_refl _), List.take_length]
      obtain ⟨part, open_⟩ := sendInLoop_part fits sent
      obtain ⟨idle, output, _⟩ := sendInLoop_backlogs h.idle h.output fits sent
      have input : c'.inputBuffer = c.inputBuffer := by rw [sendInLoop_same sent]
      rw [whole] at part
      refine ⟨⟨idle, output, ?_, ?_⟩, (sendInLoop_internal sent).1, fun gone => absurd up gone,
        part, open_⟩
      · exact input ▸ h.input
      · rw [input]
        exact h.empty
    · cases sent
  · cases sent
    exact ⟨h, rfl, fun _ => rfl, List.nil_prefix, List.not_mem_nil⟩

/-- The message callback takes all there is. A connection that is up echoes a first
part of it and closes its write side; another one does nothing. -/
theorem onMessage_echoes {c c' : TcpConnection} {beyond : Pointer UInt8} {w : WriteResult}
    {effects : List Effect} (idle : c.channel.isWriting = false) (output : c.outputBuffer.Inv)
    (input : c.inputBuffer.Inv)
    (fits : ∀ k, w = .accepted k → k ≤ c.inputBuffer.readable.length)
    (h : c.onMessage beyond w = .ok (c', effects)) :
    c'.AtEase ∧ c'.state ≠ .kConnected ∧
      ((c.state ≠ .kConnected ∧ effects = []) ∨
        (c.state = .kConnected ∧ ∃ sent, effects = sent ++ [.shutdownWrite] ∧
          .shutdownWrite ∉ sent ∧
          sent.flatMap Effect.accepted <+: c.inputBuffer.readable)) := by
  simp only [onMessage, input.retrieveAllAsString, ok_bind] at h
  obtain ⟨⟨d, sent⟩, hs, h⟩ := bind_ok_iff.mp h
  have ease : AtEase { c with inputBuffer := c.inputBuffer.retrieveAll } :=
    ⟨idle, output, input.retrieveAll, Buffer.retrieveAll_readable _⟩
  obtain ⟨ease, state, nothing, part, open_⟩ := ease.sendHere fits hs
  cases h
  unfold shutdownHere
  by_cases up : d.state = .kConnected
  · rw [if_pos up]
    have writing : (d.setState .kDisconnecting).channel.isWriting = false := ease.idle
    have closes : (d.setState .kDisconnecting).shutdownInLoop = [.shutdownWrite] := by
      simp [shutdownInLoop, writing]
    have down : (d.setState .kDisconnecting).state ≠ .kConnected := StateE.noConfusion
    exact ⟨ease.same ⟨rfl, id⟩ rfl, down,
      .inr ⟨state.symm.trans up, sent, by rw [closes], open_, part⟩⟩
  · rw [if_neg up]
    refine ⟨ease, up, .inl ⟨?_, ?_⟩⟩
    · exact fun still => up (state.trans still)
    · rw [nothing fun still => up (state.trans still)]
      rfl

end TcpConnection

namespace EchoRun

def step (s : EchoRun) (l : EchoStep) : Option EchoRun :=
  if l.possible s.conn then
    match l.perform s.conn with
    | .ok (conn, effects) => some ⟨conn, s.trace ++ effects, s.reads ++ l.reads⟩
    | .error _ => none
  else none

/-- Just after `connectEstablished`. -/
structure Established (s : EchoRun) : Prop where
  established : ∃ c : TcpConnection, c.Fresh ∧ c.connectEstablished = .ok (s.conn, s.trace)
  reads : s.reads = []

def machine : Machine EchoRun EchoStep := ⟨Established, step⟩

theorem step_cases {s t : EchoRun} {l : EchoStep} (h : s.step l = some t) :
    l.possible s.conn = true ∧ ∃ conn effects, l.perform s.conn = .ok (conn, effects) ∧
      t = ⟨conn, s.trace ++ effects, s.reads ++ l.reads⟩ := by
  unfold step at h
  split at h
  · rename_i possible
    split at h
    · rename_i conn effects hp
      cases h
      exact ⟨possible, conn, effects, hp, rfl⟩
    · cases h
  · cases h

/-- What happened before the first message came in. -/
def early (s : EchoRun) : List Effect :=
  s.trace.takeWhile fun e => !(e matches .messageCallback)

/-- A message has come in, and the user had not been told by then that the connection
is down. -/
def Answers (s : EchoRun) : Prop := s.reads ≠ [] ∧ .connectionCallback false ∉ s.early

/-- A first part of what came in first was written, then the write side was closed, and
after that nothing was written and it was not closed again; nothing of this happened
when there was nothing to answer. -/
def EchoedOnce (s : EchoRun) : Prop :=
  (s.Answers ∧ ∃ echo rest, s.trace = echo ++ .shutdownWrite :: rest ∧ .shutdownWrite ∉ echo ∧
    echo.flatMap Effect.accepted <+: s.reads.headD [] ∧ Quiet rest) ∨
  (¬ s.Answers ∧ Quiet s.trace)

/-- Until the first message nothing is written, and the user has been told when the
connection is not up; from then on it is not up. -/
structure Echoing (s : EchoRun) : Prop where
  ease : s.conn.AtEase
  once : s.EchoedOnce
  before : s.reads = [] → Quiet s.trace ∧ .messageCallback ∉ s.trace ∧
    (s.conn.state = .kConnected ↔ .connectionCallback false ∉ s.trace)
  after : s.reads ≠ [] → .messageCallback ∈ s.trace ∧ s.conn.state ≠ .kConnected

theorem early_append {trace : List Effect} (more : List Effect)
    (told : .messageCallback ∈ trace) :
    (trace ++ more).takeWhile (fun e => !(e matches .messageCallback)) =
      trace.takeWhile fun e => !(e matches .messageCallback) := by
  induction trace with
  | nil => cases told
  | cons e rest ih =>
    cases e with
    | messageCallback => rfl
    | _ =>
      rcases List.mem_cons.mp told with other | told
      · cases other
      · simp [ih told]

theorem early_first {trace : List Effect} (more : List Effect)
    (untold : .messageCallback ∉ trace) :
    (trace ++ .messageCallback :: more).takeWhile (fun e => !(e matches .messageCallback)) =
      trace := by
  induction trace with
  | nil => rfl
  | cons e rest ih =>
    have later := ih fun mem => untold (List.mem_cons_of_mem e mem)
    cases e with
    | messageCallback => exact absurd List.mem_cons_self untold
    | _ => simp [later]

theorem Established.echoing {s : EchoRun} (h : s.Established) : s.Echoing := by
  obtain ⟨c, fresh, ran⟩ := h.established
  obtain ⟨same, effects⟩ := TcpConnection.connectEstablished_ok ran
  have quiet : Quiet s.trace := by
    rw [effects]
    intro e mem
    rw [List.mem_singleton.mp mem]
    exact ⟨rfl, Effect.noConfusion⟩
  refine ⟨?_, .inr ⟨fun answers => answers.1 h.reads, quiet⟩, fun _ => ⟨quiet, ?_, ?_⟩,
    fun some => absurd h.reads some⟩
  · rw [same]
    constructor
    · rw [Channel.update_isWriting, Channel.enableReading_isWriting, Channel.tie_isWriting,
        fresh.channel, Channel.new_isWriting]
    · exact fresh.output ▸ Buffer.new_inv
    · exact fresh.input ▸ Buffer.new_inv
    · exact fresh.input ▸ Buffer.new_readable
  · simp [effects]
  · simp [same, effects]

/-- The first message stays the first. -/
theorem headD_append {reads more : List (List UInt8)} (h : reads ≠ []) :
    (reads ++ more).headD [] = reads.headD [] := by
  cases reads with
  | nil => exact absurd rfl h
  | cons first rest => rfl

/-- A step has the same answer to give when a message was there before. -/
theorem answers_later {s : EchoRun} {c : TcpConnection} {effects : List Effect}
    {more : List (List UInt8)} (first : s.reads ≠ []) (told : .messageCallback ∈ s.trace) :
    Answers ⟨c, s.trace ++ effects, s.reads ++ more⟩ ↔ s.Answers := by
  unfold Answers early
  simp only [early_append effects told, ne_eq, List.append_eq_nil_iff, first, false_and,
    not_false_eq_true, true_and]

/-- Something quiet happens to a connection that has had its first message. -/
theorem EchoedOnce.later {s : EchoRun} (h : s.EchoedOnce) {c : TcpConnection}
    {effects : List Effect} {more : List (List UInt8)} (first : s.reads ≠ [])
    (told : .messageCallback ∈ s.trace) (quiet : Quiet effects) :
    EchoedOnce ⟨c, s.trace ++ effects, s.reads ++ more⟩ := by
  have same : Answers ⟨c, s.trace ++ effects, s.reads ++ more⟩ ↔ s.Answers :=
    answers_later first told
  obtain ⟨answers, echo, rest, trace, open_, part, late⟩ | ⟨silent, before⟩ := h
  · refine .inl ⟨same.mpr answers, echo, rest ++ effects, ?_, open_, ?_, late.append quiet⟩
    · simp [trace]
    · rw [headD_append first]
      exact part
  · exact .inr ⟨fun answers => silent (same.mp answers), before.append quiet⟩

/-- No message comes, and the user is told when the connection is no longer up. -/
theorem Echoing.quiet {s : EchoRun} (h : s.Echoing) {c : TcpConnection} {effects : List Effect}
    (ease : c.AtEase) (quiet : Quiet effects) (untold : .messageCallback ∉ effects)
    (told : (c.state = s.conn.state ∧ .connectionCallback false ∉ effects) ∨
      (c.state ≠ .kConnected ∧ .connectionCallback false ∈ effects)) :
    Echoing ⟨c, s.trace ++ effects, s.reads ++ []⟩ := by
  by_cases first : s.reads = []
  · obtain ⟨before, none, state⟩ := h.before first
    refine ⟨ease, .inr ⟨fun answers => answers.1 (by simp [first]), before.append quiet⟩,
      fun _ => ⟨before.append quiet, by simp [none, untold], ?_⟩, fun some => ?_⟩
    · rcases told with ⟨same, silent⟩ | ⟨down, said⟩
      · simp [same, state, silent]
      · simp [down, said]
    · simp [first] at some
  · obtain ⟨message, down⟩ := h.after first
    refine ⟨ease, h.once.later first message quiet, fun none => ?_, fun _ => ⟨?_, ?_⟩⟩
    · rw [List.append_nil] at none
      exact absurd none first
    · exact List.mem_append_left _ message
    · rcases told with ⟨same, _⟩ | ⟨gone, _⟩
      · exact same ▸ down
      · exact gone

theorem closing_quiet : Quiet [.connectionCallback false, .closeCallback] := by
  intro e mem
  cases mem with
  | head => exact ⟨rfl, Effect.noConfusion⟩
  | tail _ mem =>
    rw [List.mem_singleton.mp mem]
    exact ⟨rfl, Effect.noConfusion⟩

theorem single_quiet {e : Effect} (silent : e.accepted = []) (other : e ≠ .shutdownWrite) :
    Quiet [e] := by
  intro e' mem
  rw [List.mem_singleton.mp mem]
  exact ⟨silent, other⟩

/-- A message: the first one is echoed if the connection is up, the later ones find it
closing. -/
theorem Echoing.message {s : EchoRun} (h : s.Echoing) {c c' : TcpConnection}
    {bytes : List UInt8} {beyond : Pointer UInt8} {w : WriteResult} {echoed : List Effect}
    (input : c.inputBuffer.Inv) (readable : c.inputBuffer.readable = bytes)
    (same : s.conn.SameOutput c) (state : c.state = s.conn.state)
    (fits : ∀ k, w = .accepted k → k ≤ bytes.length)
    (ran : c.onMessage beyond w = .ok (c', echoed)) :
    Echoing ⟨c', s.trace ++ ([.messageCallback] ++ echoed), s.reads ++ [bytes]⟩ := by
  have told : Quiet [.messageCallback] := single_quiet rfl Effect.noConfusion
  obtain ⟨ease, down, what⟩ := TcpConnection.onMessage_echoes (same.idle h.ease.idle)
    (same.buffer ▸ h.ease.output) input (readable ▸ fits) ran
  have mentions : .messageCallback ∈ s.trace ++ ([.messageCallback] ++ echoed) := by simp
  have down' : s.reads ++ [bytes] ≠ [] → .messageCallback ∈ s.trace ++ ([.messageCallback] ++
      echoed) ∧ c'.state ≠ .kConnected := fun _ => ⟨mentions, down⟩
  refine ⟨ease, ?_, fun none => by simp at none, down'⟩
  by_cases first : s.reads = []
  · obtain ⟨before, none, told_⟩ := h.before first
    have early_ : early ⟨c', s.trace ++ ([.messageCallback] ++ echoed), s.reads ++ [bytes]⟩ =
        s.trace := early_first echoed none
    obtain ⟨gone, rfl⟩ | ⟨up, sent, rfl, open_, part⟩ := what
    · have said : .connectionCallback false ∈ s.trace := by
        refine Decidable.byContradiction fun silent => gone ?_
        rw [state]
        exact told_.mpr silent
      refine .inr ⟨fun answers => answers.2 (by rw [early_]; exact said), ?_⟩
      rw [List.append_nil]
      exact before.append told
    · refine .inl ⟨⟨by simp, ?_⟩, s.trace ++ [.messageCallback] ++ sent, [], ?_, ?_, ?_, ?_⟩
      · rw [early_]
        exact told_.mp (state ▸ up)
      · simp
      · intro mem
        cases List.mem_append.mp mem with
        | inl old => exact (before.append told).open old
        | inr new => exact open_ new
      · rw [List.flatMap_append, (before.append told).accepted]
        simp only [first]
        exact readable ▸ part
      · exact fun e none => by cases none
  · obtain ⟨message, gone⟩ := h.after first
    obtain ⟨_, rfl⟩ | ⟨up, _⟩ := what
    · rw [List.append_nil]
      exact h.once.later first message told
    · exact absurd (state.symm.trans up) gone

theorem Echoing.step {s t : EchoRun} {l : EchoStep} (h : s.Echoing) (hs : s.step l = some t) :
    t.Echoing := by
  obtain ⟨possible, c, effects, ran, rfl⟩ := step_cases hs
  cases l with
  | handleWrite w =>
    cases (TcpConnection.handleWrite_idle h.ease.idle w).symm.trans ran
    exact h.quiet h.ease (fun e none => by cases none) List.not_mem_nil
      (.inl ⟨rfl, List.not_mem_nil⟩)
  | handleError =>
    cases ran
    exact h.quiet h.ease (single_quiet rfl Effect.noConfusion) (by simp) (.inl ⟨rfl, by simp⟩)
  | handleClose =>
    have same := TcpConnection.handleClose_sameOutput ran
    obtain ⟨rfl, rfl⟩ := TcpConnection.handleClose_ok ran
    exact h.quiet (h.ease.same same rfl) closing_quiet (by simp)
      (.inr ⟨StateE.noConfusion, List.mem_cons_self⟩)
  | connectionDestroyed =>
    have same := TcpConnection.connectionDestroyed_sameOutput ran
    obtain ⟨_, rfl, rfl⟩ | ⟨_, rfl, rfl⟩ := TcpConnection.connectionDestroyed_ok ran
    · exact h.quiet (h.ease.same same rfl) (single_quiet rfl Effect.noConfusion) (by simp)
        (.inr ⟨StateE.noConfusion, List.mem_cons_self⟩)
    · exact h.quiet (h.ease.same same rfl) (fun e none => by cases none) List.not_mem_nil
        (.inl ⟨rfl, List.not_mem_nil⟩)
  | handleRead r beyond w =>
    simp only [EchoStep.perform, TcpConnection.handleReadEchoing] at ran
    obtain ⟨⟨d, told⟩, read, ran⟩ := bind_ok_iff.mp ran
    cases r with
    | failed errno =>
      obtain ⟨_, failed, _⟩ := TcpConnection.handleRead_input read
      cases (h.ease.input.readFd_failed errno 0).symm.trans failed
    | delivered bytes =>
      have offered : bytes.length ≤ s.conn.inputBuffer.offered := by
        cases w <;> simp [EchoStep.possible] at possible <;> simp [possible]
      have fits : bytes.length ≤ vectorMax := Nat.le_trans offered h.ease.input.offered_le
      have same := TcpConnection.handleRead_sameOutput read
      obtain ⟨input, readable⟩ := TcpConnection.handleRead_receives h.ease.input offered read
      have callbacks := TcpConnection.handleRead_delivered fits read
      rw [h.ease.empty, List.nil_append] at readable
      cases bytes with
      | nil =>
        rw [if_pos rfl] at callbacks
        subst callbacks
        cases ran
        have ease : d.AtEase :=
          ⟨same.idle h.ease.idle, same.buffer ▸ h.ease.output, input, readable⟩
        have down : d.state ≠ .kConnected := by
          obtain ⟨_, ⟨_, message | error⟩ | ⟨rfl, _⟩⟩ := TcpConnection.handleRead_ok read
          · cases message
          · cases error
          · exact StateE.noConfusion
        exact h.quiet ease closing_quiet (by simp) (.inr ⟨down, List.mem_cons_self⟩)
      | cons b bs =>
        rw [if_neg (List.cons_ne_nil b bs)] at callbacks
        subst callbacks
        have state : d.state = s.conn.state := by
          obtain ⟨_, ⟨rfl, _⟩ | ⟨_, closes⟩⟩ := TcpConnection.handleRead_ok read
          · rfl
          · cases closes
        obtain ⟨⟨e, echoed⟩, message, result⟩ := bind_ok_iff.mp ran
        cases result
        apply h.message input readable same state ?_ message
        intro k taken
        subst taken
        have empty : s.conn.inputBuffer.readableBytes = 0 :=
          h.ease.input.readableBytes_zero.mpr h.ease.empty
        simp only [EchoStep.possible, empty, Nat.zero_add, Bool.and_eq_true,
          decide_eq_true_eq] at possible
        exact possible.2

/-- A connection that `EchoServer` has, just established. -/
def upcoming : EchoRun where
  conn := SendPath.newcomer.conn
  trace := SendPath.newcomer.trace
  reads := []

theorem upcoming_established : upcoming.Established :=
  ⟨SendPath.newcomer_established.established, rfl⟩

/-- Two messages come in, and the write of the first takes two bytes. -/
def twoMessages : List EchoStep :=
  [.handleRead (.delivered [112, 105, 110, 103]) (fun _ => 0) (.accepted 2),
    .handleRead (.delivered [112, 111]) (fun _ => 0) (.accepted 2)]

end EchoRun
end Kenmuduo
