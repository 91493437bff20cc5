import Kenmuduo.EPollPoller
import Kenmuduo.TcpConnection
import Kenmuduo.Transition

/-!
# TcpServer and its connections

TcpServer.cc, EventLoopThreadPool.cc and the dispatch of Channel.cc, with any
number of io loops. Loop 0 is the base loop and thread `i` runs loop `i`;
other threads have other numbers. What a thread is in the middle of is a stack
of tasks: a function of a connection runs up to the user callback it makes,
and what it does after that callback is a task of its own. A loop that is in no
task goes on with its poll, its dispatch or its batch of functors.

A connection is named by the order of the accepts. User code can act on it as
soon as a callback has handed it out.
-/

namespace Kenmuduo
open Transition

/-! ## The server -/

/-- What `snprintf` leaves in a buffer of 64 bytes. -/
def snprintf64 (s : String) : String := String.ofList (s.toList.take 63)

/-- `++nextConnId_`, an `int`. -/
def intSucc (n : Int) : Int := if n = 2147483647 then -2147483648 else n + 1

structure TcpServer where
  name : String
  ipPort : String
  connectionCallback : Bool
  messageCallback : Bool
  writeCompleteCallback : Bool
  /-- The size of the thread pool's `loops_`. -/
  numLoops : Nat
  next : Nat
  nextConnId : Int
  connections : List (String × Nat)
  deriving DecidableEq, Repr

namespace TcpServer

def getNextLoop (s : TcpServer) : Nat × TcpServer :=
  if s.numLoops = 0 then (0, s)
  else (s.next + 1, { s with next := if s.numLoops ≤ s.next + 1 then 0 else s.next + 1 })

def connName (s : TcpServer) : String :=
  s.name ++ snprintf64 ("-" ++ s.ipPort ++ "#" ++ toString s.nextConnId)

def erase (s : TcpServer) (name : String) : TcpServer :=
  { s with connections := s.connections.filter fun item => item.1 != name }

/-- The connection that `newConnection` makes, and the server after it. -/
def newConnection (s : TcpServer) (conn sockfd : Nat) : TcpConnection × TcpServer :=
  let (ioLoop, s) := s.getNextLoop
  let connName := s.connName
  ({ TcpConnection.new ioLoop connName sockfd with
      connectionCallback := s.connectionCallback
      messageCallback := s.messageCallback
      writeCompleteCallback := s.writeCompleteCallback
      closeCallback := true },
    { s with
      nextConnId := intSucc s.nextConnId
      connections := (s.erase connName).connections ++ [(connName, conn)] })

theorem getNextLoop_connections (s : TcpServer) : s.getNextLoop.2.connections = s.connections := by
  unfold getNextLoop
  split <;> rfl

theorem newConnection_connections {s : TcpServer} {conn sockfd : Nat} {item : String × Nat}
    (h : item ∈ (s.newConnection conn sockfd).2.connections) :
    item ∈ s.connections ∨ item.2 = conn := by
  cases List.mem_append.mp h with
  | inl old => exact .inl (getNextLoop_connections s ▸ (List.mem_filter.mp old).1)
  | inr new => exact .inr (by rw [List.mem_singleton.mp new])

/-- Entries under other names stay. -/
theorem newConnection_keeps {s : TcpServer} {conn sockfd : Nat} {item : String × Nat}
    (mem : item ∈ s.connections) (other : item.1 ≠ s.getNextLoop.2.connName) :
    item ∈ (s.newConnection conn sockfd).2.connections := by
  have entry : item ∈ s.getNextLoop.2.connections := (getNextLoop_connections s).symm ▸ mem
  exact List.mem_append_left _ (List.mem_filter.mpr ⟨entry, bne_iff_ne.mpr other⟩)

theorem newConnection_enters (s : TcpServer) (conn sockfd : Nat) :
    (s.getNextLoop.2.connName, conn) ∈ (s.newConnection conn sockfd).2.connections :=
  List.mem_append_right _ (List.mem_singleton_self _)

/-- The thread pool's index is in range, and so is the loop it gives. -/
theorem newConnection_pool {s : TcpServer} (range : s.next = 0 ∨ s.next < s.numLoops)
    (conn sockfd : Nat) : (s.newConnection conn sockfd).2.numLoops = s.numLoops ∧
      ((s.newConnection conn sockfd).2.next = 0 ∨
        (s.newConnection conn sockfd).2.next < s.numLoops) ∧
      (s.newConnection conn sockfd).1.loop ≤ s.numLoops := by
  by_cases base : s.numLoops = 0
  · simp only [newConnection, getNextLoop, base, if_true, TcpConnection.new]
    simp only [base] at range
    exact ⟨trivial, range, Nat.le_refl 0⟩
  · simp only [newConnection, getNextLoop, base, if_false, TcpConnection.new]
    refine ⟨trivial, ?_, by omega⟩
    split
    · exact .inl rfl
    · exact .inr (by omega)

end TcpServer

/-! ## Threads, loops and connections -/

inductive ServerFunctor
  | connectEstablished (conn : Nat)
  | connectionDestroyed (conn : Nat)
  | removeConnectionInLoop (conn : Nat)
  | sendInLoop (conn : Nat) (data : Message)
  | shutdownInLoop (conn : Nat)

/-- What a thread is about to do. -/
inductive Task
  | functor (cb : ServerFunctor)
  | runInLoop (loop : Nat) (cb : ServerFunctor)
  | handleClose (conn : Nat)
  | handleError (conn : Nat)
  | handleRead (conn : Nat)
  | handleWrite (conn : Nat)
  | removeConnection (conn : Nat)
  | setDisconnecting (conn : Nat)
  /-- The rest of `~TcpServer` and of its members' destructors. -/
  | destroyServer (conns : List Nat)

/-- Where a loop is when its thread is in no task. -/
inductive LoopFrame
  | polling
  | dispatching (activeChannels : List (Nat × Mask))
  | batch (functors : List ServerFunctor)

/-- What the kernel answers, and the memory a queued message is read from. -/
structure Answer where
  read : ReadResult
  write : WriteResult
  mem : Pointer UInt8

/-- `readv` returns an `ssize_t`. -/
def Answer.possible (answer : Answer) : Bool :=
  match answer.read with
  | .delivered bytes => bytes.length ≤ vectorMax
  | .failed _ => true

structure ServerRun where
  /-- `none` once it is destroyed. -/
  server : Option TcpServer
  accepted : Nat
  conn : Nat → TcpConnection
  pendingFunctors : Nat → List ServerFunctor
  frame : Nat → LoopFrame
  todo : Nat → List Task
  log : Nat → List Callback
  destroyed : Nat → Bool

inductive ServerAct
  | newConnection (sockfd : Nat)
  | poll (loop : Nat) (activeChannels : List (Nat × Mask))
  /-- The next active channel; `locked` when `tie_.lock()` finds its connection.
  After the last one, the swap of `doPendingFunctor`. -/
  | dispatch (loop : Nat) (locked : Bool)
  | runFunctor (loop : Nat)
  | task (thread : Nat) (answer : Answer)
  | send (thread conn : Nat) (data : Message)
  | shutdown (thread conn : Nat)
  /-- `~TcpServer` begins, with the connections in the order of its hash map. -/
  | destroyServer (thread : Nat) (conns : List Nat)

def handleEvent (conn : Nat) (revents : Mask) : List Task :=
  (if revents.has EPOLLHUP && !revents.has EPOLLIN then [.handleClose conn] else []) ++
  (if revents.has EPOLLERR then [.handleError conn] else []) ++
  (if revents.has (EPOLLIN ||| EPOLLPRI ||| EPOLLRDHUP) then [.handleRead conn] else []) ++
  (if revents.has EPOLLOUT then [.handleWrite conn] else [])

/-- The user's code may run when this is the thread's next task: it is in none
or has just made a callback. -/
def Task.afterCallback : Task → Bool
  | functor _ | runInLoop _ _ | setDisconnecting _ => false
  | _ => true

namespace ServerRun

def setTodo (s : ServerRun) (thread : Nat) (tasks : List Task) : ServerRun :=
  { s with todo := assign s.todo thread tasks }

def setFrame (s : ServerRun) (loop : Nat) (frame : LoopFrame) : ServerRun :=
  { s with frame := assign s.frame loop frame }

def setPending (s : ServerRun) (loop : Nat) (functors : List ServerFunctor) : ServerRun :=
  { s with pendingFunctors := assign s.pendingFunctors loop functors }

def setConn (s : ServerRun) (conn : Nat) (c : TcpConnection) : ServerRun :=
  { s with conn := assign s.conn conn c }

def call (s : ServerRun) (thread : Nat) (tasks : List Task) : ServerRun :=
  s.setTodo thread (tasks ++ s.todo thread)

def queueInLoop (s : ServerRun) (loop : Nat) (cb : ServerFunctor) : ServerRun :=
  s.setPending loop (s.pendingFunctors loop ++ [cb])

def runInLoop (s : ServerRun) (thread loop : Nat) (cb : ServerFunctor) : ServerRun :=
  if thread = loop then s.call thread [.functor cb] else s.queueInLoop loop cb

def addCallbacks (s : ServerRun) (conn : Nat) (callbacks : List Callback) : ServerRun :=
  { s with log := assign s.log conn (s.log conn ++ callbacks) }

def setDestroyed (s : ServerRun) (conn : Nat) : ServerRun :=
  { s with destroyed := assign s.destroyed conn true }

/-- A function of the connection, with the callbacks it made; the close
callback is still to come. The functors that it queues with a user's callback are
left to the models of the queues and of ownership. -/
def perform (s : ServerRun) (thread conn : Nat)
    (result : Except Fault (TcpConnection × List Effect)) : Option ServerRun :=
  match result with
  | .ok (c, effects) =>
    some (((s.setConn conn c).addCallbacks conn (effects.filterMap Effect.callback)).call thread
      (if effects.contains .closeCallback then [.removeConnection conn] else []))
  | .error _ => none

/-- The functors bound by the server and its connections. -/
def runFunctor (s : ServerRun) (thread : Nat) (answer : Answer) : ServerFunctor → Option ServerRun
  | .connectEstablished conn => s.perform thread conn (s.conn conn).connectEstablished
  | .connectionDestroyed conn =>
    (s.perform thread conn (s.conn conn).connectionDestroyed).map fun t => t.setDestroyed conn
  | .removeConnectionInLoop conn =>
    match s.server with
    | some server =>
      some (({ s with server := some (server.erase (s.conn conn).name) } : ServerRun).queueInLoop
        (s.conn conn).loop (.connectionDestroyed conn))
    | none => none
  | .sendInLoop conn data =>
    s.perform thread conn ((s.conn conn).sendInLoop { data with mem := answer.mem } answer.write)
  | .shutdownInLoop conn => s.perform thread conn (.ok (s.conn conn, (s.conn conn).shutdownInLoop))

/-- A task of the thread. A destroyed server's functions are not defined. -/
def runTask (s : ServerRun) (thread : Nat) (answer : Answer) : Task → Option ServerRun
  | .functor cb => s.runFunctor thread answer cb
  | .runInLoop loop cb => some (s.runInLoop thread loop cb)
  | .handleClose conn => s.perform thread conn (s.conn conn).handleClose
  | .handleError conn => s.perform thread conn (.ok (s.conn conn).handleError)
  | .handleRead conn => s.perform thread conn ((s.conn conn).handleRead answer.read)
  | .handleWrite conn => s.perform thread conn ((s.conn conn).handleWrite answer.write)
  | .removeConnection conn =>
    match s.server with
    | some _ => some (s.call thread [.runInLoop 0 (.removeConnectionInLoop conn)])
    | none => none
  | .setDisconnecting conn => some (s.setConn conn ((s.conn conn).setState .kDisconnecting))
  | .destroyServer [] => some { s with server := none }
  | .destroyServer (conn :: conns) =>
    some (s.call thread [.runInLoop (s.conn conn).loop (.connectionDestroyed conn),
      .destroyServer conns])

def inUserCode (s : ServerRun) (thread : Nat) : Bool :=
  match s.todo thread with
  | [] => true
  | task :: _ => task.afterCallback

/-- What the kernel can report: channels with the loop's poller, each once, with
events they ask for or that are always reported. -/
def canReport (s : ServerRun) (loop : Nat) (activeChannels : List (Nat × Mask)) : Bool :=
  decide (activeChannels.map Prod.fst).Nodup && activeChannels.all fun (conn, revents) =>
    conn < s.accepted && (s.conn conn).loop == loop && (s.conn conn).channel.index == kAdded &&
      (revents &&& ~~~((s.conn conn).channel.events ||| EPOLLERR ||| EPOLLHUP)) == 0

def step (s : ServerRun) : ServerAct → Option ServerRun
  | .newConnection sockfd =>
    match s.server, s.frame 0, s.todo 0 with
    | some server, .dispatching _, [] =>
      let (c, server) := server.newConnection s.accepted sockfd
      some ({ s.setConn s.accepted c with server := some server, accepted := s.accepted + 1 }.call 0
        [.runInLoop c.loop (.connectEstablished s.accepted)])
    | _, _, _ => none
  | .poll loop activeChannels =>
    match s.frame loop, s.todo loop with
    | .polling, [] =>
      if s.canReport loop activeChannels then some (s.setFrame loop (.dispatching activeChannels))
      else none
    | _, _ => none
  | .dispatch loop locked =>
    match s.frame loop, s.todo loop with
    | .dispatching ((conn, revents) :: rest), [] =>
      some ((s.setFrame loop (.dispatching rest)).setTodo loop
        (if locked then handleEvent conn revents else []))
    | .dispatching [], [] =>
      some ((s.setFrame loop (.batch (s.pendingFunctors loop))).setPending loop [])
    | _, _ => none
  | .runFunctor loop =>
    match s.frame loop, s.todo loop with
    | .batch (cb :: rest), [] => some ((s.setFrame loop (.batch rest)).setTodo loop [.functor cb])
    | .batch [], [] => some (s.setFrame loop .polling)
    | _, _ => none
  | .task thread answer =>
    match s.todo thread with
    | task :: rest =>
      if answer.possible then (s.setTodo thread rest).runTask thread answer task else none
    | [] => none
  | .send thread conn data =>
    if s.inUserCode thread && !(s.log conn).isEmpty then
      if (s.conn conn).state = .kConnected then
        some (s.call thread [.runInLoop (s.conn conn).loop (.sendInLoop conn data)])
      else some s
    else none
  | .shutdown thread conn =>
    if s.inUserCode thread && !(s.log conn).isEmpty then
      if (s.conn conn).state = .kConnected then
        some (s.call thread [.setDisconnecting conn,
          .runInLoop (s.conn conn).loop (.shutdownInLoop conn)])
      else some s
    else none
  | .destroyServer thread conns =>
    match s.server with
    | some server =>
      if s.inUserCode thread && conns.isPerm (server.connections.map Prod.snd) then
        some (s.call thread [.destroyServer conns])
      else none
    | none => none

/-- What each step leads to, and when it can be taken. -/
inductive Stepped (s : ServerRun) : ServerAct → ServerRun → Prop
  | accept {server active sockfd} : s.server = some server → s.frame 0 = .dispatching active →
      s.todo 0 = [] →
      Stepped s (.newConnection sockfd)
        ({ s.setConn s.accepted (server.newConnection s.accepted sockfd).1 with
            server := some (server.newConnection s.accepted sockfd).2
            accepted := s.accepted + 1 }.call 0
          [.runInLoop (server.newConnection s.accepted sockfd).1.loop
            (.connectEstablished s.accepted)])
  | poll {loop activeChannels} : s.frame loop = .polling → s.todo loop = [] →
      s.canReport loop activeChannels = true →
      Stepped s (.poll loop activeChannels) (s.setFrame loop (.dispatching activeChannels))
  | visit {loop locked conn revents rest} :
      s.frame loop = .dispatching ((conn, revents) :: rest) → s.todo loop = [] →
      Stepped s (.dispatch loop locked) ((s.setFrame loop (.dispatching rest)).setTodo loop
        (if locked then handleEvent conn revents else []))
  | swap {loop locked} : s.frame loop = .dispatching [] → s.todo loop = [] →
      Stepped s (.dispatch loop locked)
        ((s.setFrame loop (.batch (s.pendingFunctors loop))).setPending loop [])
  | next {loop cb rest} : s.frame loop = .batch (cb :: rest) → s.todo loop = [] →
      Stepped s (.runFunctor loop) ((s.setFrame loop (.batch rest)).setTodo loop [.functor cb])
  | batchEnd {loop} : s.frame loop = .batch [] → s.todo loop = [] →
      Stepped s (.runFunctor loop) (s.setFrame loop .polling)
  | task {thread answer task rest t} : s.todo thread = task :: rest → answer.possible = true →
      (s.setTodo thread rest).runTask thread answer task = some t →
      Stepped s (.task thread answer) t
  | send {thread conn data} : s.inUserCode thread = true → s.log conn ≠ [] →
      (s.conn conn).state = .kConnected →
      Stepped s (.send thread conn data)
        (s.call thread [.runInLoop (s.conn conn).loop (.sendInLoop conn data)])
  | sendNot {thread conn data} : s.inUserCode thread = true → s.log conn ≠ [] →
      (s.conn conn).state ≠ .kConnected → Stepped s (.send thread conn data) s
  | shutdown {thread conn} : s.inUserCode thread = true → s.log conn ≠ [] →
      (s.conn conn).state = .kConnected →
      Stepped s (.shutdown thread conn) (s.call thread [.setDisconnecting conn,
        .runInLoop (s.conn conn).loop (.shutdownInLoop conn)])
  | shutdownNot {thread conn} : s.inUserCode thread = true → s.log conn ≠ [] →
      (s.conn conn).state ≠ .kConnected → Stepped s (.shutdown thread conn) s
  | destroyServer {thread conns server} : s.server = some server →
      s.inUserCode thread = true → conns.Perm (server.connections.map Prod.snd) →
      Stepped s (.destroyServer thread conns) (s.call thread [.destroyServer conns])

theorem Stepped.step {s t : ServerRun} {l : ServerAct} (h : s.Stepped l t) :
    s.step l = some t := by
  cases h with
  | accept hs hf ht => simp only [ServerRun.step, hs, hf, ht]
  | poll hf ht can =>
    simp only [ServerRun.step, hf, ht]
    rw [if_pos can]
  | visit hf ht | swap hf ht | next hf ht | batchEnd hf ht => simp only [ServerRun.step, hf, ht]
  | task next possible ran =>
    simp only [ServerRun.step, next]
    rw [if_pos possible, ran]
  | send user told up | shutdown user told up => simp [ServerRun.step, user, told, up]
  | sendNot user told gone | shutdownNot user told gone =>
    simp [ServerRun.step, user, told, gone]
  | destroyServer hs user permitted =>
    simp [ServerRun.step, hs, user, List.isPerm_iff.mpr permitted]

theorem stepped {s t : ServerRun} {l : ServerAct} (h : s.step l = some t) : s.Stepped l t := by
  cases l with
  | newConnection sockfd =>
    simp only [step] at h
    split at h
    · rename_i hs hf ht
      cases h
      exact .accept hs hf ht
    · cases h
  | poll loop activeChannels =>
    simp only [step] at h
    split at h
    · rename_i hf ht
      split at h
      · rename_i can
        cases h
        exact .poll hf ht can
      · cases h
    · cases h
  | dispatch loop locked =>
    simp only [step] at h
    split at h
    · rename_i hf ht
      cases h
      exact .visit hf ht
    · rename_i hf ht
      cases h
      exact .swap hf ht
    · cases h
  | runFunctor loop =>
    simp only [step] at h
    split at h
    · rename_i hf ht
      cases h
      exact .next hf ht
    · rename_i hf ht
      cases h
      exact .batchEnd hf ht
    · cases h
  | task thread answer =>
    simp only [step] at h
    split at h
    · rename_i next
      split at h
      · rename_i possible
        exact .task next possible h
      · cases h
    · cases h
  | send thread conn data =>
    simp only [step, Bool.and_eq_true, Bool.not_eq_true', List.isEmpty_eq_false_iff] at h
    split at h
    · rename_i known
      split at h
      · rename_i up
        cases h
        exact .send known.1 known.2 up
      · rename_i gone
        cases h
        exact .sendNot known.1 known.2 gone
    · cases h
  | shutdown thread conn =>
    simp only [step, Bool.and_eq_true, Bool.not_eq_true', List.isEmpty_eq_false_iff] at h
    split at h
    · rename_i known
      split at h
      · rename_i up
        cases h
        exact .shutdown known.1 known.2 up
      · rename_i gone
        cases h
        exact .shutdownNot known.1 known.2 gone
    · cases h
  | destroyServer thread conns =>
    simp only [step, Bool.and_eq_true, List.isPerm_iff] at h
    split at h
    · rename_i hs
      split at h
      · rename_i permitted
        cases h
        exact .destroyServer hs permitted.1 permitted.2
      · cases h
    · cases h

structure Start (s : ServerRun) : Prop where
  server : ∃ server : TcpServer, s.server = some server ∧ server.connections = []
  accepted : s.accepted = 0
  pendingFunctors : ∀ loop, s.pendingFunctors loop = []
  frame : ∀ loop, s.frame loop = .polling
  todo : ∀ thread, s.todo thread = []
  log : ∀ conn, s.log conn = []
  destroyed : ∀ conn, s.destroyed conn = false

def machine : Machine ServerRun ServerAct := ⟨Start, step⟩

end ServerRun
end Kenmuduo
