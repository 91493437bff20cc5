import Kenmuduo.Confinement

/-!
# What reaches the peer

No function of a connection asks for write events, so `handleWrite` never has
anything to do and what is in the output buffer stays there. A direct write that
takes bytes leaves some of them in the buffer as well; with these before it,
`sendInLoop` does not write again. So the socket of a connection gets the bytes of
one `::write` in all its life, and everything sent later waits for good.
-/

namespace Kenmuduo
open Transition

/-- The non-empty writes of some effects. -/
def writes (effects : List Effect) : List (List UInt8) :=
  (effects.map Effect.accepted).filter fun bytes => !bytes.isEmpty

theorem writes_append (first second : List Effect) :
    writes (first ++ second) = writes first ++ writes second := by
  simp [writes]

/-- The write that answers a task takes at most what it was offered. -/
def Answer.offers (answer : Answer) : Task → Bool
  | .functor (.sendInLoop _ data) =>
    match answer.write with
    | .accepted k => k ≤ data.len
    | .failed _ => true
  | _ => true

/-! ## One function of a connection -/

/-- A function of the connection leaves no write interest, only adds to the output,
and writes only if there was no output before and is some now. -/
structure TcpConnection.Backlogs (c c' : TcpConnection) (effects : List Effect) : Prop where
  idle : c'.channel.isWriting = false
  output : c'.outputBuffer.Inv
  grows : c.outputBuffer.readable <+: c'.outputBuffer.readable
  once : writes effects = [] ∨
    ((writes effects).length = 1 ∧ c.outputBuffer.readable = [] ∧ c'.outputBuffer.readable ≠ [])

namespace TcpConnection

theorem SameOutput.backlogs {c c' : TcpConnection} {effects : List Effect}
    (same : c.SameOutput c') (idle : c.channel.isWriting = false) (output : c.outputBuffer.Inv)
    (quiet : writes effects = []) : c.Backlogs c' effects := by
  constructor
  · exact same.idle idle
  · rw [same.buffer]
    exact output
  · exact same.buffer ▸ List.prefix_refl _
  · exact .inl quiet

/-- Before the first byte is pending, a direct write gives the kernel the first `k`
bytes; behind pending output nothing is written. -/
theorem directWrite_writes (c : TcpConnection) (data : Message) (w : WriteResult) :
    writes (c.directWrite data w).effects = [] ∨
    ((writes (c.directWrite data w).effects).length = 1 ∧ c.Unloaded ∧
      0 < (c.directWrite data w).remaining ∧ (c.directWrite data w).faultError = false) := by
  by_cases un : c.Unloaded
  · cases w with
    | failed errno =>
      rw [directWrite_failed un]
      exact .inl rfl
    | accepted k =>
      rw [directWrite_accepted un]
      cases k with
      | zero =>
        left
        cases c.writeCompleteCallback <;> simp [writes, Effect.accepted, Pointer.cells]
      | succ k =>
        right
        refine ⟨?_, un, Nat.succ_pos k, rfl⟩
        have some : (data.mem.cells (k + 1)).isEmpty = false := by
          rw [← Bool.not_eq_true, List.isEmpty_iff]
          intro none
          have lengths := congrArg List.length none
          rw [Pointer.cells_length] at lengths
          cases lengths
        simp [writes, Effect.accepted, some]
  · rw [directWrite_loaded un]
    exact .inl rfl

theorem highWaterEffects_writes (c : TcpConnection) (remaining : Nat) :
    writes (c.highWaterEffects remaining) = [] := by
  simp only [highWaterEffects]
  split <;> rfl

theorem sendInLoop_backlogs {c c' : TcpConnection} {data : Message} {w : WriteResult}
    {effects : List Effect} (idle : c.channel.isWriting = false) (output : c.outputBuffer.Inv)
    (fits : ∀ k, w = .accepted k → k ≤ data.len) (h : c.sendInLoop data w = .ok (c', effects)) :
    c.Backlogs c' effects := by
  have direct := c.directWrite_writes data w
  obtain ⟨rfl, _, rfl⟩ | ⟨rfl, _, quiet, rfl⟩ |
    ⟨live, fault, some, buffer, channel, _, _, _, rfl⟩ := sendInLoop_cases h
  · exact ⟨idle, output, List.prefix_refl _, .inl rfl⟩
  · refine ⟨idle, output, List.prefix_refl _, .inl ?_⟩
    apply direct.resolve_right
    rintro ⟨_, _, some, fault⟩
    obtain broken | none := quiet
    · rw [fault] at broken
      cases broken
    · omega
  · obtain ⟨kept, _, writing, readable, _⟩ :=
      sendInLoop_output output live fault (directWrite_remaining fits) h
    constructor
    · rw [writing]
      exact idle
    · exact kept
    · rw [readable]
      exact List.prefix_append _ _
    · have all : writes ((c.directWrite data w).effects ++
          c.highWaterEffects (c.directWrite data w).remaining ++
            [.copied (c.directWrite data w).nwrote (c.directWrite data w).remaining]) =
          writes (c.directWrite data w).effects := by
        rw [writes_append, writes_append, highWaterEffects_writes, List.append_nil]
        simp [writes, Effect.accepted]
      rw [all]
      obtain none | ⟨one, un, _⟩ := direct
      · exact .inl none
      · refine .inr ⟨one, output.readableBytes_zero.mp un.2, ?_⟩
        rw [readable]
        intro none
        have lengths := congrArg List.length none
        rw [List.length_append, Pointer.cells_length, List.length_nil] at lengths
        omega

end TcpConnection

namespace ServerRun

theorem result_backlogs {s : ServerRun} {answer : Answer} {task : Task} {conn : Nat}
    {c : TcpConnection} {effects : List Effect}
    (idle : (s.conn conn).channel.isWriting = false) (output : (s.conn conn).outputBuffer.Inv)
    (offers : answer.offers task = true)
    (hr : s.result answer task = some (conn, .ok (c, effects))) :
    (s.conn conn).Backlogs c effects := by
  cases task with
  | functor cb =>
    cases cb with
    | connectEstablished k =>
      obtain ⟨rfl, ran⟩ := Prod.mk.inj (Option.some.inj hr)
      obtain ⟨rfl, rfl⟩ := TcpConnection.connectEstablished_ok ran
      refine TcpConnection.SameOutput.backlogs ⟨rfl, fun idle => ?_⟩ idle output rfl
      rw [Channel.update_isWriting, Channel.enableReading_isWriting, Channel.tie_isWriting]
      exact idle
    | connectionDestroyed k =>
      obtain ⟨rfl, ran⟩ := Prod.mk.inj (Option.some.inj hr)
      have same := TcpConnection.connectionDestroyed_sameOutput ran
      apply same.backlogs idle output
      obtain ⟨_, _, rfl⟩ | ⟨_, _, rfl⟩ := TcpConnection.connectionDestroyed_ok ran
      · rfl
      · rfl
    | removeConnectionInLoop k => cases hr
    | sendInLoop k data =>
      obtain ⟨rfl, ran⟩ := Prod.mk.inj (Option.some.inj hr)
      apply TcpConnection.sendInLoop_backlogs idle output ?_ ran
      intro taken written
      simpa [Answer.offers, written] using offers
    | shutdownInLoop k =>
      cases hr
      apply TcpConnection.SameOutput.backlogs ⟨rfl, id⟩ idle output
      unfold TcpConnection.shutdownInLoop
      split <;> rfl
  | handleClose k =>
    obtain ⟨rfl, ran⟩ := Prod.mk.inj (Option.some.inj hr)
    apply (TcpConnection.handleClose_sameOutput ran).backlogs idle output
    rw [(TcpConnection.handleClose_ok ran).2]
    rfl
  | handleError k =>
    cases hr
    exact TcpConnection.SameOutput.backlogs ⟨rfl, id⟩ idle output rfl
  | handleRead k =>
    obtain ⟨rfl, ran⟩ := Prod.mk.inj (Option.some.inj hr)
    apply (TcpConnection.handleRead_sameOutput ran).backlogs idle output
    obtain ⟨_, ⟨_, rfl | rfl⟩ | ⟨_, rfl⟩⟩ := TcpConnection.handleRead_ok ran
    · rfl
    · rfl
    · rfl
  | handleWrite k =>
    obtain ⟨rfl, ran⟩ := Prod.mk.inj (Option.some.inj hr)
    cases (TcpConnection.handleWrite_idle idle answer.write).symm.trans ran
    exact TcpConnection.SameOutput.backlogs ⟨rfl, id⟩ idle output rfl
  | setDisconnecting k =>
    cases hr
    exact TcpConnection.SameOutput.backlogs ⟨rfl, id⟩ idle output rfl
  | runInLoop _ _ | removeConnection _ | destroyServer _ => cases hr

/-! ## Along a run -/

/-- What the kernel gets of the connection in a step. -/
def wrote (s : ServerRun) (k : Nat) : ServerAct → List (List UInt8)
  | .task thread answer =>
    match (s.todo thread).head?.bind (s.result answer) with
    | some (conn, .ok (_, effects)) => if conn = k then writes effects else []
    | _ => []
  | _ => []

/-- With the non-empty writes to the connection's socket. -/
def writing (k : Nat) : Machine (ServerRun × List (List UInt8)) ServerAct :=
  machine.watched [] fun s l _ r => r ++ s.wrote k l

/-- The kernel takes at most what it is offered. -/
def Offered (p : ServerRun × List (List UInt8)) : ServerAct → Prop
  | .task thread answer => (p.1.todo thread).head?.all answer.offers = true
  | _ => True

instance (p : ServerRun × List (List UInt8)) : ∀ l, Decidable (Offered p l)
  | .task thread answer =>
    inferInstanceAs (Decidable ((p.1.todo thread).head?.all answer.offers = true))
  | .newConnection _ | .poll _ _ | .dispatch _ _ | .runFunctor _ | .send _ _ _ | .shutdown _ _
  | .destroyServer _ _ => isTrue trivial

/-- A step is a function of the connection, or writes nothing to it and leaves it as it
was, unless it is new. -/
inductive Touches (s t : ServerRun) (k : Nat) : ServerAct → Prop
  | runs {thread answer task rest c effects} : s.todo thread = task :: rest →
      s.result answer task = some (k, .ok (c, effects)) → t.conn k = c →
      t.accepted = s.accepted → s.wrote k (.task thread answer) = writes effects →
      Touches s t k (.task thread answer)
  | rests {l} : s.wrote k l = [] → t.conn k = s.conn k → t.accepted = s.accepted →
      Touches s t k l
  | accepts {l sockfd} {server : TcpServer} : s.wrote k l = [] →
      t.conn = assign s.conn s.accepted (server.newConnection s.accepted sockfd).1 →
      t.accepted = s.accepted + 1 → Touches s t k l

theorem step_touches {s t : ServerRun} {l : ServerAct} (h : s.step l = some t) (k : Nat) :
    s.Touches t k l := by
  have quiet (none : s.wrote k l = []) (other : ∀ thread answer, l ≠ .task thread answer) :
      s.Touches t k l := by
    obtain ⟨thread, answer, rfl⟩ | ⟨_, _, same | new⟩ := step_quiet h
    · exact absurd rfl (other thread answer)
    · exact .rests none (by rw [same.1]) same.2.1
    · obtain ⟨_, _, _, _, conn, accepted⟩ := new
      exact .accepts none conn accepted
  cases l with
  | task thread answer =>
    obtain ⟨task, rest, next, possible, ran⟩ := step_task h
    cases hr : s.result answer task with
    | none =>
      obtain ⟨conn, _, accepted, _⟩ := runTask_conn (s := s.setTodo thread rest) hr ran
      have same : t.conn k = s.conn k := by rw [conn]; rfl
      have record : s.wrote k (.task thread answer) = [] := by
        simp only [wrote, next, List.head?_cons, Option.bind_some, hr]
      exact .rests record same accepted
    | some performed =>
      obtain ⟨conn, result⟩ := performed
      obtain ⟨_, c, effects, rfl, performs⟩ := step_performs h next hr
      have record : s.wrote k (.task thread answer) = if conn = k then writes effects else [] := by
        simp only [wrote, next, List.head?_cons, Option.bind_some, hr]
      by_cases here : conn = k
      · subst here
        rw [if_pos rfl] at record
        exact .runs next hr (by rw [performs.conn, assign_same]) performs.accepted record
      · rw [if_neg here] at record
        apply Touches.rests record ?_ performs.accepted
        rw [performs.conn, assign_other _ _ (Ne.symm here)]
        rfl
  | _ => exact quiet rfl fun _ _ => ServerAct.noConfusion

/-- A connection has been written to once at most, and since then it has output
pending. -/
structure Backlogged (k : Nat) (p : ServerRun × List (List UInt8)) : Prop where
  inv : p.1.forgetting.Inv []
  unborn : ¬ k < p.1.accepted → p.2 = []
  idle : k < p.1.accepted → (p.1.conn k).channel.isWriting = false
  output : k < p.1.accepted → (p.1.conn k).outputBuffer.Inv
  once : p.2.length ≤ 1
  pending : k < p.1.accepted → p.2 ≠ [] → (p.1.conn k).outputBuffer.readable ≠ []

theorem Start.backlogged {s : ServerRun} (h : s.Start) (k : Nat) : Backlogged k (s, []) := by
  constructor
  · exact h.forgetting_inv
  · exact fun _ => rfl
  · intro known
    rw [h.accepted] at known
    cases known
  · intro known
    rw [h.accepted] at known
    cases known
  · exact Nat.zero_le 1
  · exact fun _ some => absurd rfl some

/-- What a step does to the connection and to what was written. -/
theorem Backlogged.step {k : Nat} {p q : ServerRun × List (List UInt8)} {l : ServerAct}
    (h : Backlogged k p) (offered : Offered p l) (hs : (writing k).step p l = some q) :
    Backlogged k q ∧ (k < p.1.accepted → k < q.1.accepted ∧
      (p.1.conn k).outputBuffer.readable <+: (q.1.conn k).outputBuffer.readable ∧
      ((p.1.conn k).outputBuffer.readable ≠ [] → q.2 = p.2)) := by
  obtain ⟨ran, record⟩ := Machine.watched_step hs
  have ran : p.1.step l = some q.1 := ran
  have inv := step_forgetting_inv h.inv ran
  cases step_touches ran k with
  | @runs thread answer task rest c effects next hr now accepted wrote =>
    have known : k < p.1.accepted := result_known h.inv (waiting_valid h.inv (mem_todo next)) hr
    have offers : answer.offers task = true := by simpa [Offered, next] using offered
    obtain ⟨idle, output, grows, once⟩ := result_backlogs (h.idle known) (h.output known) offers hr
    rw [wrote] at record
    rw [← now] at idle output grows once
    have before : (p.1.conn k).outputBuffer.readable ≠ [] → q.2 = p.2 := by
      intro pending
      obtain quiet | ⟨_, empty, _⟩ := once
      · rw [record, quiet, List.append_nil]
      · exact absurd empty pending
    refine ⟨⟨inv, ?_, fun _ => idle, fun _ => output, ?_, ?_⟩, fun _ => ⟨?_, grows, before⟩⟩
    · intro unknown
      rw [accepted] at unknown
      exact absurd known unknown
    · obtain quiet | ⟨one, empty, _⟩ := once
      · rw [record, quiet, List.append_nil]
        exact h.once
      · have none : p.2 = [] := by
          apply Decidable.byContradiction
          exact fun some => h.pending known some empty
        apply Nat.le_of_eq
        rw [record, none, List.nil_append, one]
    · intro _ some
      obtain quiet | ⟨_, _, pending⟩ := once
      · rw [record, quiet, List.append_nil] at some
        intro none
        rw [none] at grows
        exact h.pending known some (List.prefix_nil.mp grows)
      · exact pending
    · rw [accepted]
      exact known
  | rests wrote same accepted =>
    have record : q.2 = p.2 := by rw [record, wrote, List.append_nil]
    rw [same, accepted, record]
    refine ⟨⟨inv, ?_, ?_, ?_, ?_, ?_⟩, fun known => ⟨known, List.prefix_refl _, fun _ => rfl⟩⟩
    · rw [accepted, record]
      exact h.unborn
    · rw [accepted, same]
      exact h.idle
    · rw [accepted, same]
      exact h.output
    · rw [record]
      exact h.once
    · rw [accepted, same, record]
      exact h.pending
  | @accepts _ sockfd server wrote conn accepted =>
    have record : q.2 = p.2 := by rw [record, wrote, List.append_nil]
    by_cases known : k < p.1.accepted
    · have same : q.1.conn k = p.1.conn k := by
        rw [conn]
        exact assign_other _ _ (by omega)
      rw [same, record]
      have known' : k < q.1.accepted := by omega
      refine ⟨⟨inv, fun unknown => absurd known' unknown, fun _ => ?_, fun _ => ?_, ?_,
        fun _ => ?_⟩, fun _ => ⟨known', List.prefix_refl _, fun _ => rfl⟩⟩
      · rw [same]
        exact h.idle known
      · rw [same]
        exact h.output known
      · rw [record]
        exact h.once
      · rw [same, record]
        exact h.pending known
    · have none : q.2 = [] := by rw [record, h.unborn known]
      refine ⟨⟨inv, fun _ => none, ?_, ?_, ?_, ?_⟩, fun old => absurd old known⟩
      · intro known'
        have newest : k = p.1.accepted := by omega
        rw [conn, newest, assign_same]
        exact Channel.new_isWriting sockfd
      · intro known'
        have newest : k = p.1.accepted := by omega
        rw [conn, newest, assign_same]
        exact Buffer.new_inv
      · rw [none]
        exact Nat.zero_le 1
      · exact fun _ some => absurd none some

/-- From then on. -/
theorem Backlogged.exec {k : Nat} {p q : ServerRun × List (List UInt8)} {ls : List ServerAct}
    (h : Backlogged k p) (steps : (writing k).Steps Offered p ls)
    (run : (writing k).exec p ls = some q) (known : k < p.1.accepted) :
    (p.1.conn k).outputBuffer.readable <+: (q.1.conn k).outputBuffer.readable ∧
      ((p.1.conn k).outputBuffer.readable ≠ [] → q.2 = p.2) := by
  induction ls generalizing p with
  | nil =>
    cases run
    exact ⟨List.prefix_refl _, fun _ => rfl⟩
  | cons l ls ih =>
    obtain ⟨u, hs, rest⟩ := Option.bind_eq_some_iff.mp run
    obtain ⟨offered, steps⟩ := steps u hs
    obtain ⟨next, kept⟩ := h.step offered hs
    obtain ⟨known, grows, same⟩ := kept known
    obtain ⟨later, still⟩ := ih next steps rest known
    refine ⟨grows.trans later, fun pending => ?_⟩
    have more : (u.1.conn k).outputBuffer.readable ≠ [] := by
      intro none
      rw [none] at grows
      exact pending (List.prefix_nil.mp grows)
    rw [still more, same pending]

/-- In every run in which no write takes more than it is offered, a connection never
asks for write events and its socket gets the bytes of one write at most; output that
is pending stays in front of the buffer for good, and while there is any nothing is
written. -/
theorem written_once {k : Nat} {p : ServerRun × List (List UInt8)}
    (h : (writing k).ReachableBy Offered p) :
    p.2.length ≤ 1 ∧ (k < p.1.accepted → (p.1.conn k).channel.isWriting = false ∧
      (p.2 ≠ [] → (p.1.conn k).outputBuffer.readable ≠ []) ∧
      ∀ ls q, (writing k).Steps Offered p ls → (writing k).exec p ls = some q →
        (p.1.conn k).outputBuffer.readable <+: (q.1.conn k).outputBuffer.readable ∧
        ((p.1.conn k).outputBuffer.readable ≠ [] → q.2 = p.2)) := by
  have backlogged : Backlogged k p := by
    apply h.invariant
    · rintro ⟨s, r⟩ ⟨start, rfl⟩
      exact Start.backlogged start k
    · exact fun _ _ _ before offered hs => (before.step offered hs).1
  refine ⟨backlogged.once, fun known => ⟨backlogged.idle known, backlogged.pending known, ?_⟩⟩
  exact fun ls q steps run => backlogged.exec steps run known

def hello : Message := Message.ofList [104, 101] (by decide)

def goodbye : Message := Message.ofList [101, 110, 100] (by decide)

/-- A write takes one byte, of a string that is still there. -/
def oneByte : Answer := ⟨.delivered [], .accepted 1, Pointer.ofList [104, 105, 33] 0⟩

/-- Thread 2 sends twice, and the io loop runs both functors. -/
def sendingTwice : List ServerAct :=
  closing.take 8 ++ [.send 2 0 hello, .task 2 eof, .send 2 0 goodbye, .task 2 eof, .poll 1 [],
    .dispatch 1 true, .runFunctor 1, .task 1 oneByte, .runFunctor 1, .task 1 oneByte]

/-- One byte of the first string is written; the byte behind it and all of the second
string wait. -/
theorem written_once_twice : ∃ p, (writing 0).exec (newborn, []) sendingTwice = some p ∧
    p.2 = [[104]] ∧ (p.1.conn 0).outputBuffer.readable = [105, 104, 105, 33] ∧
    p.2.length ≤ 1 ∧ (0 < p.1.accepted → (p.1.conn 0).channel.isWriting = false ∧
      (p.2 ≠ [] → (p.1.conn 0).outputBuffer.readable ≠ []) ∧
      ∀ ls q, (writing 0).Steps Offered p ls → (writing 0).exec p ls = some q →
        (p.1.conn 0).outputBuffer.readable <+: (q.1.conn 0).outputBuffer.readable ∧
        ((p.1.conn 0).outputBuffer.readable ≠ [] → q.2 = p.2)) := by
  have run : ((writing 0).exec (newborn, []) sendingTwice).map
      (fun p => (p.2, (p.1.conn 0).outputBuffer.readable)) =
        some ([[104]], [105, 104, 105, 33]) := by decide +kernel
  obtain ⟨p, hp, found⟩ := Option.map_eq_some_iff.mp run
  obtain ⟨written, pending⟩ := Prod.mk.inj found
  have reachable : (writing 0).ReachableBy Offered p := by
    have start : (writing 0).start (newborn, []) := ⟨newborn_start, rfl⟩
    apply Machine.ReachableBy.of_steps (.start start) sendingTwice ?_ hp
    decide +kernel
  exact ⟨p, hp, written, pending, written_once reachable⟩

end ServerRun
end Kenmuduo
