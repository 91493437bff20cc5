import Kenmuduo.SendPath

/-!
# send and shutdown from many threads

One connection, the functors its loop has queued for it, and the threads that
call `send` and `shutdown`: the test of `state_`, the store and `runInLoop` are
steps of their own. A ledger follows each byte of each message from the caller
to the kernel, so that what a half-close cuts off can be told.

Nothing ever registers for write events, so `shutdownInLoop` half-closes
whenever it runs.
-/

namespace Kenmuduo
open Transition

/-! ## Where the bytes are -/

/-- Byte `i` of message `n` is the pair `(n, i)`. -/
structure Ledger where
  accepted : List (Nat × Nat)
  held : List (Nat × Nat)
  deriving DecidableEq, Repr

namespace Ledger

def send (g : Ledger) (n : Nat) (effects : List Effect) : Ledger where
  accepted :=
    g.accepted ++ (List.range (effects.flatMap Effect.accepted).length).map fun i => (n, i)
  held := g.held ++ effects.flatMap fun
    | .copied off len => (List.range len).map fun i => (n, off + i)
    | _ => []

def drain (g : Ledger) (effects : List Effect) : Ledger where
  accepted := g.accepted ++ g.held.take (effects.flatMap Effect.accepted).length
  held := g.held.drop (effects.flatMap Effect.accepted).length

end Ledger

/-! ## The threads -/

structure Sent where
  message : Nat
  len : Nat
  deriving DecidableEq, Repr

inductive ConnFunctor
  | sendInLoop (message : Nat) (data : Message)
  | shutdownInLoop (call : Nat)
  | connectionDestroyed

/-- How far a thread is in `send` or `shutdown`. -/
inductive ConnCall
  | none
  | sending (message : Nat) (data : Message)
  | sent (sent : Sent)
  | shutting (call : Nat)
  | stored (call : Nat)

def ConnCall.isNone : ConnCall → Bool
  | none => true
  | _ => false

/-- What there was when `shutdownWrite` was called. -/
structure HalfClose where
  output : List UInt8
  accepted : List (Nat × Nat)
  /-- The messages whose `send` had returned when the `shutdown` began. -/
  owed : List Sent
  deriving DecidableEq, Repr

structure SharedConn where
  conn : TcpConnection
  threadId : Nat
  queue : List ConnFunctor
  calls : Nat → ConnCall
  sends : Nat
  returned : List Sent
  /-- For each `shutdown` that found `kConnected`, the sends that had returned. -/
  shutdowns : List (List Sent)
  firstStored : Option Nat
  ledger : Ledger
  /-- No `sendInLoop` so far left anything to buffer. -/
  quiet : Bool
  halfClosed : List HalfClose

inductive SharedAct
  | send (thread : Nat) (data : Message)
  /-- The second half of `send`; `w` answers its write on the loop's thread. -/
  | sendGo (thread : Nat) (w : WriteResult)
  | sendReturn (thread : Nat)
  | shutdown (thread : Nat)
  | shutdownStore (thread : Nat)
  | shutdownGo (thread : Nat)
  | destroy
  /-- The loop runs the next functor. A message is read where it was then. -/
  | runFunctor (mem : Pointer UInt8) (w : WriteResult)
  | handleRead (r : ReadResult)
  | handleWrite (w : WriteResult)
  | handleClose

def leavesNothing (data : Message) : WriteResult → Bool
  | .accepted k => k == 0
  | .failed _ => data.len == 0

namespace SharedConn

def setCall (s : SharedConn) (thread : Nat) (c : ConnCall) : SharedConn :=
  { s with calls := fun t => if t = thread then c else s.calls t }

def enqueue (s : SharedConn) (functor : ConnFunctor) : SharedConn :=
  { s with queue := s.queue ++ [functor] }

def sendInLoop (s : SharedConn) (message : Nat) (data : Message) (w : WriteResult) :
    Option SharedConn :=
  if (LoopStep.sendInLoop data w).possible s.conn && (LoopStep.sendInLoop data w).peerUp then
    match s.conn.sendInLoop data w with
    | .ok (conn, effects) =>
      some { s with
        conn := conn
        ledger := s.ledger.send message effects
        quiet := s.quiet && (s.conn.state == .kDisconnected || leavesNothing data w) }
    | .error _ => none
  else none

/-- Records the half-close, if there was one, with what it should wait for. -/
def halfClose (s : SharedConn) (effects : List Effect) (call : Option Nat) : SharedConn :=
  if effects.contains .shutdownWrite then
    { s with halfClosed := s.halfClosed ++
        [⟨s.conn.outputBuffer.readable, s.ledger.accepted,
          (call.bind fun c => s.shutdowns[c]?).getD []⟩] }
  else s

def shutdownInLoop (s : SharedConn) (call : Nat) : SharedConn :=
  s.halfClose s.conn.shutdownInLoop (some call)

def perform (s : SharedConn) (result : Except Fault (TcpConnection × List Effect)) :
    Option SharedConn :=
  match result with
  | .ok (conn, _) => some { s with conn := conn }
  | .error _ => none

def handleWrite (s : SharedConn) (w : WriteResult) : Option SharedConn :=
  if (LoopStep.handleWrite w).possible s.conn && (LoopStep.handleWrite w).peerUp then
    match s.conn.handleWrite w with
    | .ok (conn, effects) =>
      some (({ s with conn := conn, ledger := s.ledger.drain effects } : SharedConn).halfClose
        effects s.firstStored)
    | .error _ => none
  else none

def idle (s : SharedConn) : Bool := (s.calls s.threadId).isNone

/-- The next functor of the queue; a message is read from `mem`. -/
def runFunctor (s : SharedConn) (mem : Pointer UInt8) (w : WriteResult) : Option SharedConn :=
  match s.queue with
  | [] => none
  | functor :: rest =>
    let s := { s with queue := rest }
    match functor with
    | .sendInLoop message data => s.sendInLoop message { data with mem := mem } w
    | .shutdownInLoop call => some (s.shutdownInLoop call)
    | .connectionDestroyed => s.perform s.conn.connectionDestroyed

def step (s : SharedConn) : SharedAct → Option SharedConn
  | .send thread data =>
    if (s.calls thread).isNone then
      if s.conn.state = .kConnected then
        some ({ s with sends := s.sends + 1 }.setCall thread (.sending s.sends data))
      else some s
    else none
  | .sendGo thread w =>
    match s.calls thread with
    | .sending message data =>
      if thread = s.threadId then
        (s.sendInLoop message data w).map fun t => t.setCall thread (.sent ⟨message, data.len⟩)
      else
        some ((s.enqueue (.sendInLoop message data)).setCall thread (.sent ⟨message, data.len⟩))
    | _ => none
  | .sendReturn thread =>
    match s.calls thread with
    | .sent sent => some ({ s with returned := s.returned ++ [sent] }.setCall thread .none)
    | _ => none
  | .shutdown thread =>
    if (s.calls thread).isNone then
      if s.conn.state = .kConnected then
        some ({ s with shutdowns := s.shutdowns ++ [s.returned] }.setCall thread
          (.shutting s.shutdowns.length))
      else some s
    else none
  | .shutdownStore thread =>
    match s.calls thread with
    | .shutting call =>
      some ({ s with
        conn := s.conn.setState .kDisconnecting
        firstStored := s.firstStored.or (some call) }.setCall thread (.stored call))
    | _ => none
  | .shutdownGo thread =>
    match s.calls thread with
    | .stored call =>
      if thread = s.threadId then some ((s.shutdownInLoop call).setCall thread .none)
      else some ((s.enqueue (.shutdownInLoop call)).setCall thread .none)
    | _ => none
  | .destroy => some (s.enqueue .connectionDestroyed)
  | .runFunctor mem w => if s.idle then s.runFunctor mem w else none
  | .handleRead r => if s.idle then s.perform (s.conn.handleRead r) else none
  | .handleWrite w => if s.idle then s.handleWrite w else none
  | .handleClose => if s.idle then s.perform s.conn.handleClose else none

structure Start (s : SharedConn) : Prop where
  established : ∃ (c : TcpConnection) (effects : List Effect),
    c.Fresh ∧ c.connectEstablished = .ok (s.conn, effects)
  queue : s.queue = []
  calls : ∀ thread, s.calls thread = .none
  returned : s.returned = []
  shutdowns : s.shutdowns = []
  firstStored : s.firstStored = none
  ledger : s.ledger = ⟨[], []⟩
  quiet : s.quiet = true
  halfClosed : s.halfClosed = []

def machine : Machine SharedConn SharedAct := ⟨Start, step⟩

/-- Every half-close cut nothing off: the output was empty, and the kernel had
every byte of every message it should wait for. -/
def Graceful (s : SharedConn) : Prop :=
  ∀ e ∈ s.halfClosed, e.output = [] ∧
    ∀ sent ∈ e.owed, ∀ i, i < sent.len → (sent.message, i) ∈ e.accepted

/-- No send left anything to buffer, and all the `shutdown` should wait for
are empty messages. -/
def NothingOwed (s : SharedConn) (call : Nat) : Prop :=
  s.quiet = true ∧ ∀ sent ∈ s.shutdowns[call]?.getD [], sent.len = 0

/-- The call whose `shutdownInLoop` the step runs, at once or from the queue. -/
def closes (s : SharedConn) : SharedAct → Option Nat
  | .shutdownGo thread =>
    match s.calls thread with
    | .stored call => if thread = s.threadId then some call else none
    | _ => none
  | .runFunctor _ _ =>
    match s.queue with
    | .shutdownInLoop call :: _ => some call
    | _ => none
  | _ => none

def ShutsDownEmpty (s : SharedConn) (l : SharedAct) : Prop :=
  ∀ call, s.closes l = some call → s.NothingOwed call

/-- The write interest is never set, so nothing ever leaves the buffer; as
long as nothing went in, the kernel took nothing either. -/
structure Inert (s : SharedConn) : Prop where
  idle : s.conn.channel.isWriting = false
  output : s.conn.outputBuffer.Inv
  quiet : s.quiet = true ↔ s.conn.outputBuffer.readable = []
  accepted : s.quiet = true → s.ledger.accepted = []

def found (s : SharedConn) (call : Nat) : HalfClose :=
  ⟨s.conn.outputBuffer.readable, s.ledger.accepted, s.shutdowns[call]?.getD []⟩

theorem Start.inert {s : SharedConn} (h : s.Start) : s.Inert := by
  obtain ⟨c, effects, fresh, he⟩ := h.established
  obtain ⟨same, _⟩ := TcpConnection.connectEstablished_ok he
  have output : s.conn.outputBuffer = Buffer.new := by rw [same]; exact fresh.output
  constructor
  · rw [same, Channel.update_isWriting, Channel.enableReading_isWriting, Channel.tie_isWriting,
      fresh.channel, Channel.new_isWriting]
  · rw [output]
    exact Buffer.new_inv
  · rw [output, Buffer.new_readable]
    exact iff_of_true h.quiet rfl
  · intro _
    rw [h.ledger]

theorem Inert.of_same {s t : SharedConn} (h : s.Inert) (same : s.conn.SameOutput t.conn)
    (quiet : t.quiet = s.quiet) (ledger : t.ledger = s.ledger) : t.Inert := by
  constructor
  · exact same.idle h.idle
  · rw [same.buffer]
    exact h.output
  · rw [same.buffer, quiet]
    exact h.quiet
  · rw [quiet, ledger]
    exact h.accepted

/-- What a direct write leaves over on an idle connection. -/
theorem remaining_zero_iff {c : TcpConnection} (un : c.Unloaded) (data : Message)
    (w : WriteResult) : (c.directWrite data w).remaining = 0 ↔ leavesNothing data w = true := by
  cases w with
  | accepted k => simp [TcpConnection.directWrite_accepted un, leavesNothing]
  | failed errno => simp [TcpConnection.directWrite_failed un, leavesNothing]

/-- A send that leaves nothing over gave nothing to the kernel either. -/
theorem accepted_nil_of_leavesNothing {c : TcpConnection} (un : c.Unloaded) {data : Message}
    {w : WriteResult} (nothing : leavesNothing data w = true) :
    (c.directWrite data w).effects.flatMap Effect.accepted = [] := by
  cases w with
  | accepted k =>
    have refused : k = 0 := by simpa [leavesNothing] using nothing
    rw [TcpConnection.directWrite_accepted un, refused]
    cases c.writeCompleteCallback <;> simp [Effect.accepted, Pointer.cells]
  | failed errno => simp [TcpConnection.directWrite_failed un]

theorem sendInLoop_inert {s t : SharedConn} {message : Nat} {data : Message} {w : WriteResult}
    (inv : s.Inert) (h : s.sendInLoop message data w = some t) :
    t.Inert ∧ t.halfClosed = s.halfClosed := by
  simp only [sendInLoop, Option.ite_none_right_eq_some, Bool.and_eq_true] at h
  obtain ⟨⟨fits, up⟩, h⟩ := h
  split at h
  case h_2 => cases h
  rename_i conn effects hs
  cases h
  refine ⟨?_, rfl⟩
  by_cases gone : s.conn.state = .kDisconnected
  · rw [TcpConnection.sendInLoop_disconnected gone] at hs
    cases hs
    refine inv.of_same ⟨rfl, id⟩ (by simp [gone]) ?_
    simp [Ledger.send]
  have hmax : (s.conn.directWrite data w).remaining ≤ data.len :=
    TcpConnection.directWrite_remaining fun k hk => by
      subst hk
      simpa [LoopStep.possible] using fits
  obtain ⟨output, _, writing, readable, bytes, _⟩ := TcpConnection.sendInLoop_output inv.output gone
    (SendPath.directWrite_peerUp up) hmax hs
  have connected : (s.conn.state == .kDisconnected) = false := by simpa using gone
  have unloaded (quiet : s.quiet = true) : s.conn.Unloaded :=
    ⟨inv.idle, inv.output.readableBytes_zero.mpr (inv.quiet.mp quiet)⟩
  refine ⟨writing.trans inv.idle, output, ?_, ?_⟩
  · simp only [connected, Bool.false_or, Bool.and_eq_true, readable, List.append_eq_nil_iff]
    rw [← List.length_eq_zero_iff (l := Pointer.cells _ _), Pointer.cells_length, ← inv.quiet]
    apply and_congr_right
    intro quiet
    exact (remaining_zero_iff (unloaded quiet) data w).symm
  · simp only [connected, Bool.false_or, Bool.and_eq_true]
    rintro ⟨quiet, nothing⟩
    rw [Ledger.send, inv.accepted quiet, bytes,
      accepted_nil_of_leavesNothing (unloaded quiet) nothing]
    rfl

theorem shutdownInLoop_inert {s : SharedConn} (inv : s.Inert) (call : Nat) :
    (s.shutdownInLoop call).Inert ∧
    (s.shutdownInLoop call).halfClosed = s.halfClosed ++ [s.found call] := by
  have now : (s.conn.shutdownInLoop).contains .shutdownWrite = true := by
    rw [TcpConnection.shutdownInLoop_idle inv.idle]
    rfl
  rw [shutdownInLoop, halfClose, if_pos now]
  exact ⟨inv.of_same ⟨rfl, id⟩ rfl rfl, rfl⟩

theorem perform_inert {s t : SharedConn} {result : Except Fault (TcpConnection × List Effect)}
    (inv : s.Inert) (same : ∀ c effects, result = .ok (c, effects) → s.conn.SameOutput c)
    (h : s.perform result = some t) : t.Inert ∧ t.halfClosed = s.halfClosed := by
  unfold perform at h
  split at h
  · rename_i conn effects
    cases h
    exact ⟨inv.of_same (same conn effects rfl) rfl rfl, rfl⟩
  · cases h

theorem handleWrite_inert {s t : SharedConn} {w : WriteResult} (inv : s.Inert)
    (h : s.handleWrite w = some t) : t.Inert ∧ t.halfClosed = s.halfClosed := by
  simp only [handleWrite, TcpConnection.handleWrite_idle inv.idle, Option.ite_none_right_eq_some,
    Option.some.injEq] at h
  obtain ⟨_, rfl⟩ := h
  refine ⟨inv.of_same ⟨rfl, id⟩ rfl ?_, rfl⟩
  simp [halfClose, Ledger.drain]

theorem runFunctor_inert {s t : SharedConn} {mem : Pointer UInt8} {w : WriteResult} (inv : s.Inert)
    (h : s.runFunctor mem w = some t) :
    t.Inert ∧
    t.halfClosed = s.halfClosed ++ (s.closes (.runFunctor mem w)).toList.map s.found := by
  cases hq : s.queue with
  | nil => simp [runFunctor, hq] at h
  | cons functor rest =>
    have popped : Inert { s with queue := rest } := inv.of_same ⟨rfl, id⟩ rfl rfl
    simp only [runFunctor, hq] at h
    cases functor with
    | sendInLoop message data =>
      simpa [closes, hq] using sendInLoop_inert popped h
    | shutdownInLoop call =>
      cases h
      simpa [closes, hq, found] using shutdownInLoop_inert popped call
    | connectionDestroyed =>
      simpa [closes, hq] using perform_inert popped
        (fun c effects hd => TcpConnection.connectionDestroyed_sameOutput hd) h

/-- A step keeps the connection inert, and half-closes only in place of a
`shutdown`. -/
theorem step_inert {s t : SharedConn} {l : SharedAct} (inv : s.Inert) (h : s.step l = some t) :
    t.Inert ∧ t.halfClosed = s.halfClosed ++ (s.closes l).toList.map s.found := by
  have keeps : ∀ u : SharedConn, u.conn = s.conn → u.quiet = s.quiet → u.ledger = s.ledger →
      u.Inert := fun u conn quiet ledger => inv.of_same (by rw [conn]; exact ⟨rfl, id⟩) quiet ledger
  cases l with
  | send thread data =>
    simp only [step, Option.ite_none_right_eq_some] at h
    obtain ⟨_, h⟩ := h
    split at h <;> cases h <;> exact ⟨keeps _ rfl rfl rfl, by simp [closes, setCall]⟩
  | sendGo thread w =>
    simp only [step] at h
    split at h
    case h_2 => cases h
    rename_i message data _
    split at h
    · obtain ⟨u, hu, rfl⟩ := Option.map_eq_some_iff.mp h
      obtain ⟨inert, same⟩ := sendInLoop_inert inv hu
      exact ⟨inert.of_same ⟨rfl, id⟩ rfl rfl, by simpa [closes, setCall] using same⟩
    · cases h
      exact ⟨keeps _ rfl rfl rfl, by simp [closes, setCall, enqueue]⟩
  | sendReturn thread =>
    simp only [step] at h
    split at h <;> cases h
    exact ⟨keeps _ rfl rfl rfl, by simp [closes, setCall]⟩
  | shutdown thread =>
    simp only [step, Option.ite_none_right_eq_some] at h
    obtain ⟨_, h⟩ := h
    split at h <;> cases h <;> exact ⟨keeps _ rfl rfl rfl, by simp [closes, setCall]⟩
  | shutdownStore thread =>
    simp only [step] at h
    split at h <;> cases h
    exact ⟨inv.of_same ⟨rfl, id⟩ rfl rfl, by simp [closes, setCall]⟩
  | shutdownGo thread =>
    simp only [step] at h
    split at h
    case h_2 => cases h
    rename_i call hc
    split at h
    · rename_i own
      subst own
      cases h
      obtain ⟨inert, added⟩ := shutdownInLoop_inert inv call
      refine ⟨inert.of_same ⟨rfl, id⟩ rfl rfl, ?_⟩
      simpa [closes, hc, setCall] using added
    · rename_i foreign
      cases h
      exact ⟨keeps _ rfl rfl rfl, by simp [closes, hc, foreign, setCall, enqueue]⟩
  | destroy =>
    cases h
    exact ⟨keeps _ rfl rfl rfl, by simp [closes, enqueue]⟩
  | runFunctor mem w =>
    simp only [step, Option.ite_none_right_eq_some] at h
    exact runFunctor_inert inv h.2
  | handleRead r =>
    simp only [step, Option.ite_none_right_eq_some] at h
    simpa [closes] using perform_inert inv
      (fun c effects hr => TcpConnection.handleRead_sameOutput hr) h.2
  | handleWrite w =>
    simp only [step, Option.ite_none_right_eq_some] at h
    simpa [closes] using handleWrite_inert inv h.2
  | handleClose =>
    simp only [step, Option.ite_none_right_eq_some] at h
    simpa [closes] using perform_inert inv
      (fun c effects hc => TcpConnection.handleClose_sameOutput hc) h.2

theorem found_complete {s : SharedConn} (inv : s.Inert) (call : Nat) :
    ((s.found call).output = [] ∧ ∀ sent ∈ (s.found call).owed, ∀ i, i < sent.len →
      (sent.message, i) ∈ (s.found call).accepted) ↔ s.NothingOwed call := by
  constructor
  · rintro ⟨empty, complete⟩
    have quiet := inv.quiet.mpr empty
    refine ⟨quiet, fun sent owed => ?_⟩
    apply Nat.eq_zero_of_not_pos
    intro bytes
    have taken := complete sent owed 0 bytes
    rw [found, inv.accepted quiet] at taken
    cases taken
  · rintro ⟨quiet, nothing⟩
    refine ⟨inv.quiet.mp quiet, fun sent owed i inside => ?_⟩
    rw [nothing sent owed] at inside
    cases inside

/-- A step that half-closes is graceful exactly when nothing is owed. -/
theorem step_graceful {s t : SharedConn} {l : SharedAct} (inv : s.Inert) (so_far : s.Graceful)
    (h : s.step l = some t) : t.Graceful ↔ s.ShutsDownEmpty l := by
  obtain ⟨_, added⟩ := step_inert inv h
  cases hc : s.closes l with
  | none =>
    rw [hc, Option.toList_none, List.map_nil, List.append_nil] at added
    constructor
    · intro _ call hcall
      rw [hc] at hcall
      cases hcall
    · intro _ e he
      exact so_far e (added ▸ he)
  | some call =>
    rw [hc, Option.toList_some, List.map_singleton] at added
    constructor
    · intro graceful other hother
      cases hc.symm.trans hother
      exact (found_complete inv call).mp (graceful (s.found call) (by simp [added]))
    · intro empty e he
      rw [added, List.mem_append, List.mem_singleton] at he
      cases he with
      | inl before => exact so_far e before
      | inr now => exact now ▸ (found_complete inv call).mpr (empty call hc)

/-- A run shuts down gracefully throughout exactly when, whenever
`shutdownInLoop` runs in it, nothing was left to buffer before and only empty
messages are owed. -/
theorem graceful_iff {s : SharedConn} (hs : s.Start) (ls : List SharedAct) :
    machine.Always Graceful s ls ↔ machine.Steps ShutsDownEmpty s ls := by
  refine always_iff_steps (I := fun s => s.Inert ∧ s.Graceful) ?_ ?_ ?_ ?_ ls
  · exact fun s inv => inv.2
  · intro s l t inv h empty
    exact ⟨(step_inert inv.1 h).1, (step_graceful inv.1 inv.2 h).mpr empty⟩
  · intro s l t inv h graceful
    exact (step_graceful inv.1 inv.2 h).mp graceful
  · refine ⟨hs.inert, fun e he => ?_⟩
    rw [hs.halfClosed] at he
    cases he

def newcomer : SharedConn where
  conn := SendPath.newcomer.conn
  threadId := 1
  queue := []
  calls := fun _ => .none
  sends := 0
  returned := []
  shutdowns := []
  firstStored := none
  ledger := ⟨[], []⟩
  quiet := true
  halfClosed := []

theorem newcomer_start : newcomer.Start := by
  obtain ⟨c, fresh, established⟩ := SendPath.newcomer_established.established
  exact ⟨⟨c, _, fresh, established⟩, rfl, fun _ => rfl, rfl, rfl, rfl, rfl, rfl, rfl⟩

theorem graceful_unsent : machine.Always Graceful newcomer
    [.shutdown 2, .shutdownStore 2, .shutdownGo 2, .runFunctor (fun _ => 0) (.accepted 0)] := by
  refine (graceful_iff newcomer_start _).mpr ?_
  intro s₁ h₁
  cases h₁
  refine ⟨fun _ h => (by cases h), fun s₂ h₂ => ?_⟩
  cases h₂
  refine ⟨fun _ h => (by cases h), fun s₃ h₃ => ?_⟩
  cases h₃
  refine ⟨fun _ h => (by cases h), fun _ _ => ⟨fun call h => ?_, trivial⟩⟩
  cases h
  exact ⟨rfl, fun sent owed => by cases owed⟩

/-- A handler on the loop's thread sends two bytes, which the kernel takes,
and shuts down. -/
theorem not_graceful_echo : newcomer.Start ∧
    ∃ t, machine.exec newcomer
        [.send 1 (.ofList [104, 105] (by decide)), .sendGo 1 (.accepted 2), .sendReturn 1,
          .shutdown 1, .shutdownStore 1, .shutdownGo 1] = some t ∧
      t.halfClosed = [⟨[0, 0], [(0, 0), (0, 1)], [⟨0, 2⟩]⟩] ∧ ¬ t.Graceful := by
  have run : (machine.exec newcomer
      [.send 1 (.ofList [104, 105] (by decide)), .sendGo 1 (.accepted 2), .sendReturn 1,
        .shutdown 1, .shutdownStore 1, .shutdownGo 1]).map halfClosed =
      some [⟨[0, 0], [(0, 0), (0, 1)], [⟨0, 2⟩]⟩] := by decide +kernel
  obtain ⟨t, ht, closed⟩ := Option.map_eq_some_iff.mp run
  refine ⟨newcomer_start, t, ht, closed, ?_⟩
  intro graceful
  have empty := (graceful _ (by rw [closed]; exact List.mem_singleton_self _)).1
  cases empty

end SharedConn
end Kenmuduo
