import Kenmuduo.AnyOrder
import Kenmuduo.CallbackOrder
import Kenmuduo.FailedRead
import Kenmuduo.ScatterRead
import Kenmuduo.SendPath

/-!
# Callbacks that are not set

`newConnection` copies the server's callbacks to the connection. Where the
connection queues one of them, or highWaterMarkCallback_, it tests it first;
connectionCallback_ and messageCallback_ it calls untested. That goes wrong in
two places only: `connectEstablished` comes before every other call of
connectionCallback_, and `handleRead` alone calls messageCallback_.
-/

namespace Kenmuduo
open Transition

/-! ## Buffers call nothing -/

namespace Buffer

theorem makeSpace_no_call (b : Buffer) (len : Nat) :
    b.makeSpace len ≠ .error .badFunctionCall := by
  unfold makeSpace
  split
  · apply bind_ne_error (orFault_ne_error _ (by decide))
    intro grown _ fails
    cases fails
  · apply bind_ne_error (orFault_ne_error _ (by decide))
    intro moved _ fails
    cases fails

theorem append_no_call (b : Buffer) (data : Pointer UInt8) (len : Nat) :
    b.append data len ≠ .error .badFunctionCall := by
  unfold append
  apply bind_ne_error
  · unfold ensureWritableBytes
    split
    · exact b.makeSpace_no_call len
    · exact fun fails => by cases fails
  · intro room _
    apply bind_ne_error (orFault_ne_error _ (by decide))
    intro filled _ fails
    cases fails

theorem readFd_no_call (b : Buffer) (r : ReadResult) (saveErrno : Nat) :
    b.readFd r saveErrno ≠ .error .badFunctionCall := by
  simp only [readFd, Nat.not_lt_zero, if_false]
  apply bind_ne_error (orFault_ne_error _ (by decide))
  intro filled _
  split
  · exact fun fails => by cases fails
  · apply bind_ne_error (append_no_call _ _ _)
    intro b' _ fails
    cases fails

theorem writeFd_no_call (b : Buffer) (w : WriteResult) (saveErrno : Nat) :
    b.writeFd w saveErrno ≠ .error .badFunctionCall := by
  unfold writeFd
  apply bind_ne_error (orFault_ne_error _ (by decide))
  intro bytes _
  cases w with
  | accepted k | failed errno => exact fun fails => by cases fails

/-- The end of the stream leaves a new buffer as it is. -/
theorem readFd_nothing : new.readFd (.delivered []) 0 = .ok ⟨0, 0, new, 0⟩ := by
  have stored : new.buffer.copyFrom new.writerIndex (Pointer.ofList [] 0)
      (min ([] : List UInt8).length new.writableBytes) = some new.buffer := by
    rw [List.length_nil, Nat.zero_min]
    rfl
  rw [readFd_delivered stored, new_writableBytes]
  rfl

end Buffer

/-! ## What a connection calls -/

namespace TcpConnection

/-- The callback that the effect calls, or queues, is set. -/
def has (c : TcpConnection) : Effect → Bool
  | .connectionCallback _ => c.connectionCallback
  | .messageCallback => c.messageCallback
  | .closeCallback => c.closeCallback
  | .writeComplete => c.writeCompleteCallback
  | .highWater _ => c.highWaterMarkCallback
  | .written _ | .copied _ _ | .shutdownWrite | .handleError => true

/-- A function of the connection calls no callback that is not set, and queues
none. -/
structure CallsSet (c : TcpConnection) (result : Except Fault (TcpConnection × List Effect)) :
    Prop where
  called : result ≠ .error .badFunctionCall
  has : ∀ c' effects, result = .ok (c', effects) → ∀ e ∈ effects, c.has e = true

theorem callsSet_ok {c c' : TcpConnection} {effects : List Effect}
    (h : ∀ e ∈ effects, c.has e = true) : c.CallsSet (.ok (c', effects)) := by
  constructor
  · intro fails
    cases fails
  · intro _ _ same
    cases same
    exact h

instance (c : TcpConnection) : ∀ result, Decidable (c.CallsSet result)
  | .ok (c', effects) =>
    decidable_of_iff (∀ e ∈ effects, c.has e = true) ⟨callsSet_ok, fun h => h.has c' effects rfl⟩
  | .error fault =>
    decidable_of_iff (fault ≠ .badFunctionCall)
      ⟨fun other => ⟨fun fails => other (Except.error.inj fails), fun _ _ ok => nomatch ok⟩,
        fun h same => h.called (congrArg Except.error same)⟩

/-- What comes before the calls calls nothing. -/
theorem callsSet_bind {α : Type} {c : TcpConnection} {x : Except Fault α}
    {f : α → Except Fault (TcpConnection × List Effect)} (hx : x ≠ .error .badFunctionCall)
    (hf : ∀ a, x = .ok a → c.CallsSet (f a)) : c.CallsSet (x >>= f) := by
  constructor
  · exact bind_ne_error hx fun a ha => (hf a ha).called
  · intro c' effects h
    obtain ⟨a, ha, h⟩ := bind_ok_iff.mp h
    exact (hf a ha).has c' effects h

theorem call_set {set : Bool} {e : Effect} {es : List Effect} (h : call set e = .ok es) :
    set = true := by
  unfold call at h
  split at h
  · rename_i filled
    exact filled
  · cases h

theorem connectEstablished_callsSet (c : TcpConnection) :
    c.CallsSet c.connectEstablished ↔ c.connectionCallback = true := by
  unfold connectEstablished call
  cases set : c.connectionCallback with
  | true =>
    refine iff_of_true (callsSet_ok ?_) rfl
    simpa [has] using set
  | false => exact iff_of_false (fun h => h.called rfl) Bool.false_ne_true

theorem handleClose_callsSet {c : TcpConnection} (connection : c.connectionCallback = true)
    (close : c.closeCallback = true) : c.CallsSet c.handleClose := by
  simp only [handleClose, call, connection, close, if_true, ok_bind, pure_ok]
  apply callsSet_ok
  simp [has, connection, close]

theorem connectionDestroyed_callsSet {c : TcpConnection}
    (connection : c.state = .kConnected → c.connectionCallback = true) :
    c.CallsSet c.connectionDestroyed := by
  unfold connectionDestroyed
  split
  · rename_i up
    simp only [call, connection up, if_true, ok_bind, pure_ok]
    apply callsSet_ok
    simp [has, connection up]
  · exact callsSet_ok fun _ none => by cases none

/-- A read calls messageCallback_ only when it was delivered bytes. -/
theorem handleRead_callsSet {c : TcpConnection} {r : ReadResult}
    (connection : c.connectionCallback = true) (close : c.closeCallback = true)
    (message : ∀ bytes, r = .delivered bytes → bytes ≠ [] → c.messageCallback = true) :
    c.CallsSet (c.handleRead r) := by
  unfold handleRead
  apply callsSet_bind (c.inputBuffer.readFd_no_call r 0)
  intro read hread
  have count := Buffer.readFd_n hread
  by_cases some : 0 < read.n
  · have set : c.messageCallback = true := by
      cases r with
      | failed errno =>
        rw [count] at some
        exact absurd some (show ¬ (0 : Int) < toSsize (sizeMod - 1) by decide)
      | delivered bytes =>
        apply message bytes rfl
        rintro rfl
        rw [count] at some
        exact absurd some (by decide)
    simp only [some, if_true, call, set, ok_bind, pure_ok]
    apply callsSet_ok
    simp [has, set]
  · simp only [some, if_false]
    split
    · have closed := handleClose_callsSet (c := { c with inputBuffer := read.buf }) connection close
      exact ⟨closed.called, closed.has⟩
    · exact callsSet_ok (by simp [has])

/-- A half-close calls nothing. -/
theorem shutdownInLoop_has (c d : TcpConnection) :
    ∀ e ∈ d.shutdownInLoop, c.has e = true := by
  intro e mem
  unfold shutdownInLoop at mem
  split at mem
  · rw [List.mem_singleton.mp mem]
    rfl
  · cases mem

theorem handleWrite_callsSet (c : TcpConnection) (w : WriteResult) :
    c.CallsSet (c.handleWrite w) := by
  unfold handleWrite
  split
  · apply callsSet_bind (c.outputBuffer.writeFd_no_call w 0)
    intro write _
    split
    · dsimp only
      split
      · apply callsSet_ok
        intro e mem
        rcases List.mem_cons.mp mem with rfl | mem
        · rfl
        rcases List.mem_append.mp mem with done | half
        · split at done
          · rename_i set
            rw [List.mem_singleton.mp done]
            exact set
          · cases done
        · split at half
          · exact shutdownInLoop_has c _ e half
          · cases half
      · apply callsSet_ok
        simp [has]
    · exact callsSet_ok fun _ none => by cases none
  · exact callsSet_ok fun _ none => by cases none

theorem directWrite_has (c : TcpConnection) (data : Message) (w : WriteResult) :
    ∀ e ∈ (c.directWrite data w).effects, c.has e = true := by
  intro e mem
  by_cases un : c.Unloaded
  · cases w with
    | accepted k =>
      rw [directWrite_accepted un] at mem
      rcases List.mem_cons.mp mem with rfl | notified
      · rfl
      · split at notified
        · rename_i queues
          rw [List.mem_singleton.mp notified]
          exact (Bool.and_eq_true_iff.mp queues).2
        · cases notified
    | failed errno =>
      rw [directWrite_failed un] at mem
      cases mem
  · rw [directWrite_loaded un] at mem
    cases mem

theorem highWaterEffects_has (c : TcpConnection) (remaining : Nat) :
    ∀ e ∈ c.highWaterEffects remaining, c.has e = true := by
  intro e mem
  unfold highWaterEffects at mem
  dsimp only at mem
  split at mem
  · rename_i queues
    rw [List.mem_singleton.mp mem]
    exact queues.2.2
  · cases mem

theorem sendInLoop_callsSet (c : TcpConnection) (data : Message) (w : WriteResult) :
    c.CallsSet (c.sendInLoop data w) := by
  unfold sendInLoop
  split
  · exact callsSet_ok fun _ none => by cases none
  · dsimp only
    split
    · apply callsSet_bind (c.outputBuffer.append_no_call _ _)
      intro buffer _
      apply callsSet_ok
      intro e mem
      rcases List.mem_append.mp mem with mem | mem
      · rcases List.mem_append.mp mem with mem | mem
        · exact c.directWrite_has data w e mem
        · exact c.highWaterEffects_has _ e mem
      · rw [List.mem_singleton.mp mem]
        rfl
    · exact callsSet_ok (c.directWrite_has data w)

/-! ## A connection nothing was read from -/

/-- Bytes that a new input buffer is offered can be taken up. -/
theorem handleRead_unset {c : TcpConnection} (new : c.inputBuffer = Buffer.new)
    (unset : c.messageCallback = false) {bytes : List UInt8} (some : bytes ≠ [])
    (fits : bytes.length ≤ c.inputBuffer.offered) :
    c.handleRead (.delivered bytes) = .error .badFunctionCall := by
  rw [new] at fits
  obtain ⟨read, hread, received⟩ | ⟨_, _, beyond⟩ := Buffer.new_inv.readFd fits 0
  · have count : 0 < read.n := by
      rw [received.n]
      exact Int.natCast_pos.mpr (List.length_pos_iff.mpr some)
    simp only [handleRead, new, hread, ok_bind, count, if_true, call, unset, Bool.false_eq_true,
      if_false, error_bind]
  · rw [Buffer.offered, Buffer.new_writableBytes, if_pos (by decide)] at fits
    simp only [extrabuffSize] at fits
    have beyond : 9223372036854775807 < 8 + bytes.length := beyond
    omega

/-- Without messageCallback_, a read leaves a new input buffer as it is. -/
theorem handleRead_untouched {c c' : TcpConnection} {answer : Answer} {effects : List Effect}
    (new : c.inputBuffer = Buffer.new) (unset : c.messageCallback = false)
    (possible : answer.possible = true) (h : c.handleRead answer.read = .ok (c', effects)) :
    c'.inputBuffer = Buffer.new := by
  cases hread : answer.read with
  | failed errno =>
    rw [hread] at h
    simp only [handleRead, new, Buffer.new_inv.readFd_failed, error_bind, reduceCtorEq] at h
  | delivered bytes =>
    have fits : bytes.length ≤ vectorMax := by simpa [Answer.possible, hread] using possible
    rw [hread] at h
    cases bytes with
    | nil =>
      simp only [handleRead, new, Buffer.readFd_nothing, ok_bind, Int.lt_irrefl, if_false,
        if_true] at h
      rw [(handleClose_ok h).1]
    | cons b bs =>
      simp only [handleRead, bind_ok_iff] at h
      obtain ⟨read, hread, h⟩ := h
      have count : 0 < read.n := by
        rw [Buffer.readFd_n hread, Buffer.readv, toSsize_eq (Nat.lt_succ_of_le fits)]
        exact Int.natCast_pos.mpr (Nat.succ_pos _)
      rw [if_pos count] at h
      obtain ⟨message, hm, _⟩ := bind_ok_iff.mp h
      rw [unset] at hm
      cases hm

end TcpConnection

/-! ## Along a run -/

/-- The read brings bytes. -/
def Answer.brings (answer : Answer) : Bool :=
  match answer.read with
  | .delivered (_ :: _) => true
  | _ => false

/-- The callback that the task calls untested is set on the server. -/
def TcpServer.provides (server : TcpServer) (answer : Answer) : Task → Bool
  | .functor (.connectEstablished _) => server.connectionCallback
  | .handleRead _ => server.messageCallback || !answer.brings
  | _ => true

/-- The connection has the server's callbacks; without messageCallback_ nothing
has come in. -/
structure TcpConnection.Wired (server : TcpServer) (c : TcpConnection) : Prop where
  connection : c.connectionCallback = server.connectionCallback
  message : c.messageCallback = server.messageCallback
  close : c.closeCallback = true
  unread : server.messageCallback = false → c.inputBuffer = Buffer.new

theorem TcpServer.newConnection_callbacks (server : TcpServer) (conn sockfd : Nat) :
    (server.newConnection conn sockfd).2.connectionCallback = server.connectionCallback ∧
    (server.newConnection conn sockfd).2.messageCallback = server.messageCallback ∧
    (server.newConnection conn sockfd).1.Wired server := by
  by_cases base : server.numLoops = 0
  · simp only [newConnection, getNextLoop, base, if_true]
    exact ⟨trivial, trivial, rfl, rfl, rfl, fun _ => rfl⟩
  · simp only [newConnection, getNextLoop, base, if_false]
    exact ⟨trivial, trivial, rfl, rfl, rfl, fun _ => rfl⟩

namespace ServerRun

/-- A read is delivered no more than it offers room for. -/
def feasible (s : ServerRun) (answer : Answer) : Task → Bool
  | .handleRead conn => (LoopStep.handleRead answer.read).possible (s.conn conn)
  | _ => true

/-- The thread's next task calls no empty callback, and queues none. -/
def NoEmptyCall (s : ServerRun) : ServerAct → Prop
  | .task thread answer => ∀ task ∈ (s.todo thread).head?, s.feasible answer task = true →
      ∀ performed ∈ s.result answer task, (s.conn performed.1).CallsSet performed.2
  | _ => True

/-- The server that was started with the run provides what the thread's next
task calls untested. -/
def Supplied (server : TcpServer) (s : ServerRun) : ServerAct → Prop
  | .task thread answer => ∀ task ∈ (s.todo thread).head?, s.feasible answer task = true →
      server.provides answer task = true
  | _ => True

instance (s : ServerRun) : ∀ l, Decidable (s.NoEmptyCall l)
  | .task thread answer => inferInstanceAs (Decidable (∀ task ∈ (s.todo thread).head?,
      s.feasible answer task = true →
        ∀ performed ∈ s.result answer task, (s.conn performed.1).CallsSet performed.2))
  | .newConnection _ | .poll _ _ | .dispatch _ _ | .runFunctor _ | .send _ _ _ | .shutdown _ _
  | .destroyServer _ _ => isTrue trivial

instance (server : TcpServer) (s : ServerRun) : ∀ l, Decidable (Supplied server s l)
  | .task thread answer => inferInstanceAs (Decidable (∀ task ∈ (s.todo thread).head?,
      s.feasible answer task = true → server.provides answer task = true))
  | .newConnection _ | .poll _ _ | .dispatch _ _ | .runFunctor _ | .send _ _ _ | .shutdown _ _
  | .destroyServer _ _ => isTrue trivial

/-- The callbacks of a server and its connections are those it was given, and no
user was told of a connection without connectionCallback_. -/
structure Wired (server : TcpServer) (s : ServerRun) : Prop where
  inv : s.forgetting.Inv []
  config : ∀ now, s.server = some now → now.connectionCallback = server.connectionCallback ∧
    now.messageCallback = server.messageCallback
  conns : ∀ conn, conn < s.accepted → (s.conn conn).Wired server
  told : ∀ conn, s.log conn ≠ [] → server.connectionCallback = true

/-- A connection keeps its callbacks. -/
theorem result_wired {server : TcpServer} {s : ServerRun} {answer : Answer} {task : Task}
    {conn : Nat} {c : TcpConnection} {effects : List Effect}
    (wired : (s.conn conn).Wired server) (possible : answer.possible = true)
    (hr : s.result answer task = some (conn, .ok (c, effects))) : c.Wired server := by
  obtain ⟨same, input⟩ := result_same hr
  constructor
  · rw [same]
    exact wired.connection
  · rw [same]
    exact wired.message
  · rw [same]
    exact wired.close
  · intro unset
    have new := wired.unread unset
    obtain kept | rfl := input
    · rw [kept, new]
    · obtain ⟨_, ran⟩ := Prod.mk.inj (Option.some.inj hr)
      exact TcpConnection.handleRead_untouched new (wired.message.trans unset) possible ran

/-- The user is told of a connection when it is established. -/
theorem step_tells {s t : ServerRun} {l : ServerAct} (inv : s.forgetting.Inv [])
    (h : s.step l = some t) {conn : Nat} (none : s.log conn = []) (told : t.log conn ≠ []) :
    ∃ thread answer rest, l = .task thread answer ∧
      s.todo thread = .functor (.connectEstablished conn) :: rest := by
  cases step_acts h with
  | accepts _ _ same | rests _ same => exact absurd none (same ▸ told)
  | @performs thread answer task rest k c effects next _ hr performs =>
    by_cases here : conn = k
    case neg =>
      rw [performs.log, assign_other _ _ here] at told
      exact absurd none told
    subst here
    have valid := waiting_valid inv (mem_todo next)
    cases task with
    | functor cb =>
      cases cb with
      | connectEstablished k =>
        obtain ⟨rfl, _⟩ := Prod.mk.inj (Option.some.inj hr)
        exact ⟨thread, answer, rest, rfl, next⟩
      | connectionDestroyed k =>
        obtain ⟨rfl, ran⟩ := Prod.mk.inj (Option.some.inj hr)
        have new := (inv.fresh k valid ((forgetting_log s k).mpr none)).1
        obtain ⟨up, _⟩ | ⟨_, _, rfl⟩ := TcpConnection.connectionDestroyed_ok ran
        · cases new.symm.trans up
        · rw [performs.log, assign_same, List.filterMap_nil, List.append_nil] at told
          exact absurd none told
      | removeConnectionInLoop k => cases hr
      | sendInLoop k data | shutdownInLoop k =>
        obtain ⟨rfl, _⟩ := Prod.mk.inj (Option.some.inj hr)
        exact absurd none valid
    | handleClose k | handleError k | handleRead k | handleWrite k | setDisconnecting k =>
      obtain ⟨rfl, _⟩ := Prod.mk.inj (Option.some.inj hr)
      exact absurd none valid
    | runInLoop _ _ | removeConnection _ | destroyServer _ => cases hr

theorem Start.wired {s : ServerRun} (h : s.Start) {server : TcpServer}
    (hs : s.server = some server) : Wired server s := by
  constructor
  · exact h.forgetting_inv
  · intro now same
    cases hs.symm.trans same
    exact ⟨rfl, rfl⟩
  · intro conn early
    rw [h.accepted] at early
    cases early
  · intro conn told
    exact absurd (h.log conn) told

theorem Wired.step {server : TcpServer} {s t : ServerRun} {l : ServerAct} (wired : Wired server s)
    (h : s.step l = some t) : Wired server t := by
  constructor
  · exact step_forgetting_inv wired.inv h
  · intro now same
    cases step_serves h with
    | same kept => exact wired.config now (kept ▸ same)
    | accept _ was accepted =>
      cases accepted.symm.trans same
      obtain ⟨connection, message⟩ := wired.config _ was
      obtain ⟨copied, copied', _⟩ := TcpServer.newConnection_callbacks _ s.accepted _
      exact ⟨copied.trans connection, copied'.trans message⟩
    | erase _ _ was erased =>
      cases erased.symm.trans same
      have config := wired.config _ was
      exact config
    | destroyed _ _ gone => cases gone.symm.trans same
  · intro conn early
    by_cases old : conn < s.accepted
    · cases step_becomes h conn with
      | same kept =>
        rw [kept]
        exact wired.conns conn old
      | new _ _ new _ => exact absurd old (by omega)
      | ran _ _ possible hr => exact result_wired (wired.conns conn old) possible hr
    · obtain ⟨sockfd, now, _, was, rfl, new, _⟩ := step_newest h old early
      obtain ⟨connection, message⟩ := wired.config now was
      obtain ⟨_, _, made⟩ := now.newConnection_callbacks s.accepted sockfd
      rw [new]
      exact ⟨made.connection.trans connection, made.message.trans message, made.close,
        fun unset => made.unread (message.trans unset)⟩
  · intro conn told
    by_cases none : s.log conn = []
    · obtain ⟨thread, answer, rest, rfl, next⟩ := step_tells wired.inv h none told
      obtain ⟨_, c, effects, ran, _⟩ := step_performs h next rfl
      have exists_ : conn < s.accepted := waiting_valid wired.inv (mem_todo next)
      obtain ⟨up, set, _⟩ := bind_ok_iff.mp ran
      rw [← (wired.conns conn exists_).connection]
      exact TcpConnection.call_set set
    · exact wired.told conn none

/-! ## When no empty callback is called -/

/-- A task whose callback the server provides calls no empty one. -/
theorem Wired.callsSet {server : TcpServer} {s : ServerRun} (wired : Wired server s)
    {answer : Answer} {task : Task} (valid : s.Valid task)
    (provided : server.provides answer task = true) {conn : Nat}
    {result : Except Fault (TcpConnection × List Effect)}
    (hr : s.result answer task = some (conn, result)) : (s.conn conn).CallsSet result := by
  have known := wired.conns conn (result_known wired.inv valid hr)
  have told (told : s.log conn ≠ []) : (s.conn conn).connectionCallback = true :=
    known.connection.trans (wired.told conn told)
  cases task with
  | functor cb =>
    cases cb with
    | connectEstablished k =>
      cases hr
      exact (TcpConnection.connectEstablished_callsSet _).mpr (known.connection.trans provided)
    | connectionDestroyed k =>
      cases hr
      apply TcpConnection.connectionDestroyed_callsSet
      intro up
      apply told
      intro none
      have new := (wired.inv.fresh conn valid ((forgetting_log s conn).mpr none)).1
      cases new.symm.trans up
    | removeConnectionInLoop k => cases hr
    | sendInLoop k data =>
      cases hr
      exact TcpConnection.sendInLoop_callsSet _ _ _
    | shutdownInLoop k =>
      cases hr
      exact TcpConnection.callsSet_ok (TcpConnection.shutdownInLoop_has _ _)
  | handleClose k =>
    cases hr
    exact TcpConnection.handleClose_callsSet (told valid) known.close
  | handleError k =>
    cases hr
    apply TcpConnection.callsSet_ok
    simp [TcpConnection.has]
  | handleRead k =>
    cases hr
    apply TcpConnection.handleRead_callsSet (told valid) known.close
    intro bytes hread some
    rw [known.message]
    cases bytes with
    | nil => exact absurd rfl some
    | cons b bs => simpa [TcpServer.provides, Answer.brings, hread] using provided
  | handleWrite k =>
    cases hr
    exact TcpConnection.handleWrite_callsSet _ _
  | setDisconnecting k =>
    cases hr
    exact TcpConnection.callsSet_ok fun _ none => by cases none
  | runInLoop _ _ | removeConnection _ | destroyServer _ => cases hr

/-- A task that calls no empty callback is one whose callback the server
provides. -/
theorem Wired.provides {server : TcpServer} {s : ServerRun} (wired : Wired server s)
    {answer : Answer} {task : Task} (valid : s.Valid task)
    (feasible : s.feasible answer task = true)
    (calls : ∀ performed ∈ s.result answer task, (s.conn performed.1).CallsSet performed.2) :
    server.provides answer task = true := by
  cases task with
  | functor cb =>
    cases cb with
    | connectEstablished conn =>
      have set := (TcpConnection.connectEstablished_callsSet _).mp (calls _ rfl)
      exact (wired.conns conn valid).connection.symm.trans set
    | _ => rfl
  | handleRead conn =>
    have known := wired.conns conn (told_known wired.inv valid)
    cases set : server.messageCallback with
    | true => simp [TcpServer.provides, set]
    | false =>
      cases hread : answer.read with
      | failed errno => simp [TcpServer.provides, Answer.brings, hread]
      | delivered bytes =>
        by_cases some : bytes = []
        · simp [TcpServer.provides, Answer.brings, hread, some]
        · have fits : bytes.length ≤ (s.conn conn).inputBuffer.offered := by
            simpa [ServerRun.feasible, LoopStep.possible, hread] using feasible
          have empty := TcpConnection.handleRead_unset (known.unread set)
            (known.message.trans set) some fits
          have called := (calls _ rfl).called
          rw [hread, empty] at called
          exact absurd rfl called
  | _ => rfl

theorem Wired.noEmptyCall_iff {server : TcpServer} {s : ServerRun} (wired : Wired server s)
    (l : ServerAct) : s.NoEmptyCall l ↔ Supplied server s l := by
  cases l with
  | task thread answer =>
    have valid {task : Task} (first : task ∈ (s.todo thread).head?) : s.Valid task :=
      waiting_valid wired.inv (p := .todo thread) (List.mem_of_mem_head? first)
    constructor
    · intro calls task first feasible
      exact wired.provides (valid first) feasible (calls task first feasible)
    · intro supplied task first feasible performed ran
      exact wired.callsSet (valid first) (supplied task first feasible) ran
  | _ => exact Iff.rfl

/-- However connections are accepted, served and closed, no empty callback is
called exactly when connectionCallback_ is set where a connection is
established, and messageCallback_ where one is read from. -/
theorem no_empty_call_iff {s : ServerRun} (hs : s.Start) {server : TcpServer}
    (configured : s.server = some server) (ls : List ServerAct) :
    machine.Tries NoEmptyCall s ls ↔ machine.Tries (Supplied server) s ls := by
  apply tries_iff_tries (I := Wired server)
  · exact fun s l wired => wired.noEmptyCall_iff l
  · exact fun s l t wired h _ => wired.step h
  · exact hs.wired configured

/-- The server of `newborn` without messageCallback_. -/
def muted : ServerRun :=
  { newborn with
    server := newborn.server.map fun server => { server with messageCallback := false } }

theorem muted_start : muted.Start :=
  ⟨⟨_, rfl, rfl⟩, rfl, fun _ => rfl, fun _ => rfl, fun _ => rfl, fun _ => rfl, fun _ => rfl⟩

/-- A peer that sends nothing is served without messageCallback_. -/
theorem no_empty_call_muted : machine.Tries NoEmptyCall muted closing :=
  (no_empty_call_iff muted_start rfl closing).mpr (by decide +kernel)

/-- The server of `newborn` without connectionCallback_. -/
def unheard : ServerRun :=
  { newborn with
    server := newborn.server.map fun server => { server with connectionCallback := false } }

theorem unheard_start : unheard.Start :=
  ⟨⟨_, rfl, rfl⟩, rfl, fun _ => rfl, fun _ => rfl, fun _ => rfl, fun _ => rfl, fun _ => rfl⟩

/-- `read` delivers a byte. -/
def letter : Answer := ⟨.delivered [65], .accepted 0, fun _ => 0⟩

/-- The first connection calls the empty connectionCallback_, and the first byte
the empty messageCallback_. -/
theorem calls_empty : unheard.Start ∧
    (∃ t, machine.exec unheard (closing.take 6) = some t ∧
      (t.conn 0).connectEstablished = .error .badFunctionCall) ∧
    ¬ machine.Tries NoEmptyCall unheard (closing.take 7) ∧ muted.Start ∧
    ¬ machine.Tries NoEmptyCall muted (closing.take 10 ++ [.task 1 letter]) := by
  have run : (machine.exec unheard (closing.take 6)).map
      (fun t => (t.conn 0).connectionCallback) = some false := by
    decide +kernel
  obtain ⟨t, ht, unset⟩ := Option.map_eq_some_iff.mp run
  refine ⟨unheard_start, ⟨t, ht, ?_⟩, by decide +kernel, muted_start, by decide +kernel⟩
  simp only [TcpConnection.connectEstablished, Kenmuduo.call, unset, Bool.false_eq_true, if_false,
    error_bind]

end ServerRun
end Kenmuduo
