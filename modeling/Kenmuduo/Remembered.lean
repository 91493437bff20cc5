import Kenmuduo.AtRest
import Kenmuduo.ConnectionNames
import Mathlib.Data.List.Nodup

/-!
# Where a connection is

An accepted connection has an entry in `connections_`, or its `connectionDestroyed`
waits with a thread or has run. The server forgets a connection when its number
comes round while it has an entry, or when it is accepted while the server is
destroyed, and in no other way.
-/

namespace Kenmuduo
open Transition

/-! ## The keys of connections_ -/

/-- Connections are named after their numbers, and `connections_` has each under its
name. -/
structure TcpServer.Names (server : TcpServer) (s : ServerRun) (addr : InetAddress) : Prop where
  ipPort : server.ipPort = addr.toIpPort
  nextConnId : server.nextConnId = connId s.accepted
  names : ∀ conn, conn < s.accepted →
    (s.conn conn).name = fullName server.name addr (connId conn)
  keys : (server.connections.map Prod.fst).Nodup
  own : ∀ item ∈ server.connections, item.2 < s.accepted ∧ item.1 = (s.conn item.2).name

namespace TcpServer

theorem Names.connName {server : TcpServer} {s : ServerRun} {addr : InetAddress}
    (names : server.Names s addr) :
    server.connName = fullName server.name addr (connId s.accepted) := by
  obtain ⟨lo, hi⟩ := connId_bounds s.accepted
  rw [TcpServer.connName, names.ipPort, names.nextConnId, snprintf64_whole lo hi, fullName]

theorem Names.sameId_iff {server : TcpServer} {s : ServerRun} {addr : InetAddress}
    (names : server.Names s addr) {c d : Nat} (hc : c < s.accepted) (hd : d < s.accepted) :
    NameRun.sameId c d = true ↔ (s.conn c).name = (s.conn d).name := by
  rw [names.names c hc, names.names d hd]
  constructor
  · intro same
    rw [connId_sameId same]
  · exact fun same => connId_injective (fullName_injective same)

theorem getNextLoop_connName (server : TcpServer) :
    server.getNextLoop.2.connName = server.connName := by
  unfold getNextLoop
  split <;> rfl

/-- The next connection takes the key of an entry exactly when it has its number. -/
theorem Names.key_iff {server : TcpServer} {s : ServerRun} {addr : InetAddress}
    (names : server.Names s addr) {item : String × Nat} (mem : item ∈ server.connections) :
    item.1 = server.connName ↔ NameRun.sameId item.2 s.accepted = true := by
  obtain ⟨known, key⟩ := names.own item mem
  rw [key, names.names item.2 known, names.connName]
  constructor
  · exact fun same => connId_injective (fullName_injective same)
  · intro same
    rw [connId_sameId same]

/-- No connection has two entries. -/
theorem Names.values {server : TcpServer} {s : ServerRun} {addr : InetAddress}
    (names : server.Names s addr) : (server.connections.map Prod.snd).Nodup := by
  have apart : server.connections.Nodup := names.keys.of_map Prod.fst
  refine apart.map_on fun item mem other mem' same => ?_
  apply List.inj_on_of_nodup_map names.keys mem mem'
  rw [(names.own item mem).2, (names.own other mem').2, same]

end TcpServer

namespace ServerRun

/-- While the server is there, it has its connections under their names. -/
def Named (s : ServerRun) : Prop :=
  ∀ server, s.server = some server → ∃ addr, server.Names s addr

theorem step_name {s t : ServerRun} {l : ServerAct} (h : s.step l = some t) {conn : Nat}
    (known : conn < s.accepted) : (t.conn conn).name = (s.conn conn).name := by
  cases step_becomes h conn with
  | same same => rw [same]
  | new _ _ new => exact absurd known (by omega)
  | ran _ _ _ hr => rw [(result_same hr).1]

/-- A step that accepts no connection keeps the names and adds no entry. -/
theorem Named.rest {s t : ServerRun} {server server' : TcpServer} {addr : InetAddress}
    {l : ServerAct} (names : server.Names s addr) (h : s.step l = some t)
    (accepted : t.accepted = s.accepted) (name : server'.name = server.name)
    (ipPort : server'.ipPort = server.ipPort) (nextConnId : server'.nextConnId = server.nextConnId)
    (fewer : server'.connections.Sublist server.connections) : server'.Names t addr := by
  constructor
  · rw [ipPort, names.ipPort]
  · rw [nextConnId, names.nextConnId, accepted]
  · intro conn known
    rw [accepted] at known
    rw [step_name h known, names.names conn known, name]
  · exact names.keys.sublist (fewer.map Prod.fst)
  · intro item mem
    obtain ⟨known, key⟩ := names.own item (fewer.subset mem)
    exact ⟨accepted ▸ known, by rw [key, step_name h known]⟩

/-- A new connection comes under the next name, which no other entry has any more. -/
theorem Named.accept {s t : ServerRun} {server : TcpServer} {addr : InetAddress} {sockfd : Nat}
    (names : server.Names s addr) (h : s.step (.newConnection sockfd) = some t)
    (conn : t.conn = assign s.conn s.accepted (server.newConnection s.accepted sockfd).1)
    (accepted : t.accepted = s.accepted + 1) :
    (server.newConnection s.accepted sockfd).2.Names t addr := by
  obtain ⟨own, name, ipPort, nextConnId, connections⟩ :=
    server.newConnection_names s.accepted sockfd
  have new : (t.conn s.accepted).name = server.connName := by rw [conn, assign_same, own]
  constructor
  · rw [ipPort, names.ipPort]
  · rw [nextConnId, names.nextConnId, connId_succ, accepted]
  · intro k known
    rw [name]
    by_cases old : k < s.accepted
    · rw [step_name h old, names.names k old]
    · obtain rfl : k = s.accepted := by omega
      rw [new, names.connName]
  · rw [connections, List.map_append]
    have kept := names.keys.sublist
      ((List.filter_sublist (p := fun item => item.1 != server.connName)).map Prod.fst)
    refine kept.append (List.nodup_singleton _) ?_
    intro key old now
    rw [List.map_singleton, List.mem_singleton] at now
    obtain ⟨item, mem, rfl⟩ := List.mem_map.mp old
    exact absurd now (bne_iff_ne.mp (List.mem_filter.mp mem).2)
  · rw [connections]
    intro item mem
    rcases List.mem_append.mp mem with old | now
    · obtain ⟨known, key⟩ := names.own item (List.mem_filter.mp old).1
      exact ⟨by omega, by rw [key, step_name h known]⟩
    · rw [List.mem_singleton.mp now]
      exact ⟨by omega, new.symm⟩

theorem Named.step {s t : ServerRun} {l : ServerAct} (named : s.Named) (h : s.step l = some t) :
    t.Named := by
  intro server now
  rcases step_accepted h with same | ⟨⟨sockfd, rfl⟩, next⟩
  · cases step_serves h with
    | same kept =>
      obtain ⟨addr, names⟩ := named server (kept ▸ now)
      exact ⟨addr, Named.rest names h same rfl rfl rfl (List.Sublist.refl _)⟩
    | accept hact _ _ =>
      subst hact
      obtain ⟨_, _, _, _, next, _⟩ := step_accepts h
      omega
    | erase _ _ hs erased =>
      cases now.symm.trans erased
      obtain ⟨addr, names⟩ := named _ hs
      exact ⟨addr, Named.rest names h same rfl rfl rfl List.filter_sublist⟩
    | destroyed _ _ gone =>
      rw [gone] at now
      cases now
  · obtain ⟨before, hs, conn, accepted, _⟩ := step_accepts h
    cases now.symm.trans accepted
    obtain ⟨addr, names⟩ := named before hs
    exact ⟨addr, Named.accept names h conn next⟩

theorem step_erases {s t : ServerRun} {thread conn : Nat} {answer : Answer} {rest : List Task}
    (h : s.step (.task thread answer) = some t)
    (next : s.todo thread = .functor (.removeConnectionInLoop conn) :: rest) :
    ∃ server, s.server = some server ∧ t.server = some (server.erase (s.conn conn).name) := by
  obtain ⟨_, run⟩ := step_runs h next
  simp only [runTask, runFunctor] at run
  split at run
  · rename_i server hs
    exact ⟨server, hs, by rw [← Option.some.inj run]; rfl⟩
  · cases run

end ServerRun

namespace OwnedRun

/-- The connection of every accept has an entry that `~TcpServer` has not passed, or
its `connectionDestroyed` waits or has run, and never both. -/
def Remembered (s : OwnedRun) : Prop := ∀ conn, conn < s.run.accepted →
  (s.entered conn = true ↔ s.run.destroyed conn = false ∧ ¬ s.Destroying conn)

/-- A connection that has an entry keeps its number to itself: none is accepted or
removed under it; and none is accepted while the server is destroyed. -/
def OwnNumber (s : OwnedRun) : ServerAct → Prop
  | .newConnection _ => s.tearing = false ∧ ∀ conn, conn < s.run.accepted →
      s.entered conn = true → NameRun.sameId conn s.run.accepted = false
  | .task thread _ => ∀ task ∈ (s.run.todo thread).head?, ∀ gone ∈ task.erasing,
      ∀ conn, conn < s.run.accepted → s.entered conn = true →
        NameRun.sameId conn gone = true → conn = gone
  | _ => True

instance (s : OwnedRun) : ∀ l, Decidable (s.OwnNumber l)
  | .newConnection _ => inferInstanceAs (Decidable (s.tearing = false ∧
      ∀ conn, conn < s.run.accepted → s.entered conn = true →
        NameRun.sameId conn s.run.accepted = false))
  | .task thread _ => inferInstanceAs (Decidable (∀ task ∈ (s.run.todo thread).head?,
      ∀ gone ∈ task.erasing, ∀ conn, conn < s.run.accepted → s.entered conn = true →
        NameRun.sameId conn gone = true → conn = gone))
  | .poll _ _ | .dispatch _ _ | .runFunctor _ | .send _ _ _ | .shutdown _ _
  | .destroyServer _ _ => isTrue trivial

def NumbersApart (s : OwnedRun) (l : OwnerAct) : Prop := ∀ act ∈ l.act, s.OwnNumber act

instance (s : OwnedRun) (l : OwnerAct) : Decidable (s.NumbersApart l) :=
  inferInstanceAs (Decidable (∀ act ∈ l.act, s.OwnNumber act))

/-- A server after its constructor, on which `nextConnId_` is still 1. -/
structure Begun (s : OwnedRun) : Prop extends s.Start where
  numbered : ∀ server, s.run.server = some server → server.nextConnId = 1 ∧
    ∃ addr : InetAddress, server.ipPort = addr.toIpPort

/-! ## Coming to be destroyed -/

theorem destroys_runInLoop (loop : Nat) (cb : ServerFunctor) (conn : Nat) :
    (Task.runInLoop loop cb).destroys conn = (Task.functor cb).destroys conn := by
  cases cb <;> rfl

/-- `connectionDestroyed` comes to wait when the connection is removed, or when
`~TcpServer` comes to it. -/
theorem Destroying.before {s t : OwnedRun} {act : ServerAct} {conn : Nat}
    (h : t.Destroying conn) (threads : t.threads = s.threads) (bound : act.thread < s.threads)
    (ran : s.run.step act = some t.run) : s.Destroying conn ∨
      ∃ thread answer rest, act = .task thread answer ∧
        (s.run.todo thread = .functor (.removeConnectionInLoop conn) :: rest ∨
          ∃ conns, s.run.todo thread = .destroyServer (conn :: conns) :: rest) := by
  obtain ⟨thread, below, task, mem, destroys⟩ := h
  rw [threads] at below
  obtain ⟨p, here, mem⟩ := ServerRun.work_of_mem_tasks mem
  rcases ServerRun.step_arrives ran mem with old | arrives
  · exact .inl (.of_work below here old destroys)
  · cases arrives with
    | event _ events =>
      obtain rfl | rfl | rfl | rfl := ServerRun.mem_handleEvent events <;> cases destroys
    | @swap loop _ cb _ queued =>
      exact .inl (.of_work (p := .pending loop) below here (List.mem_map_of_mem queued) destroys)
    | @next loop cb rest hf =>
      exact .inl (.of_work (p := .frame loop) below here (ServerRun.mem_batch hf) destroys)
    | @task k answer first rest _ _ next _ follows =>
      have first_waits : first ∈ s.run.work [] (.todo k) := ServerRun.mem_todo next
      cases follows with
      | inline | queue _ =>
        rw [← destroys_runInLoop] at destroys
        exact .inl (.of_work bound rfl first_waits destroys)
      | erase _ =>
        obtain rfl := beq_iff_eq.mp destroys
        exact .inr ⟨k, answer, rest, rfl, .inl next⟩
      | destroy =>
        obtain rfl := beq_iff_eq.mp destroys
        exact .inr ⟨k, answer, rest, rfl, .inr ⟨_, next⟩⟩
      | close | eof _ | remove _ | rest => cases destroys
    | accept _ | report _ _ | store _ _ | destroyServer | send _ _ | shutdown _ _ => cases destroys

theorem destroyed_before {s t : OwnedRun} {act : ServerAct} {conn : Nat}
    (gone : t.run.destroyed conn = true) (bound : act.thread < s.threads)
    (ran : s.run.step act = some t.run) : s.run.destroyed conn = true ∨ s.Destroying conn := by
  rcases (ServerRun.step_destroyed ran conn).mp gone with was | ⟨thread, answer, rest, rfl, next⟩
  · exact .inl was
  · exact .inr (.of_work (p := .todo thread) bound rfl (ServerRun.mem_todo next)
      (beq_self_eq_true conn))

/-- A connection that neither is removed nor is the next one of `~TcpServer` does not
come to be destroyed. -/
theorem idle_step {s t : OwnedRun} {act : ServerAct} (threads : t.threads = s.threads)
    (bound : act.thread < s.threads) (ran : s.run.step act = some t.run) {conn : Nat}
    (idle : s.run.destroyed conn = false ∧ ¬ s.Destroying conn)
    (other : ∀ thread answer rest, act = .task thread answer →
      s.run.todo thread ≠ .functor (.removeConnectionInLoop conn) :: rest ∧
        ∀ conns, s.run.todo thread ≠ .destroyServer (conn :: conns) :: rest) :
    t.run.destroyed conn = false ∧ ¬ t.Destroying conn := by
  constructor
  · rw [← Bool.not_eq_true]
    intro gone
    rcases destroyed_before gone bound ran with was | destroying
    · rw [idle.1] at was
      cases was
    · exact idle.2 destroying
  · intro destroying
    rcases destroying.before threads bound ran with
      was | ⟨thread, answer, rest, same, removed | ⟨conns, next⟩⟩
    · exact idle.2 was
    · exact (other thread answer rest same).1 removed
    · exact (other thread answer rest same).2 conns next

/-- What holds in a run as long as every connection is remembered. -/
structure Settled (s : OwnedRun) : Prop where
  kept : s.Kept
  named : s.run.Named
  listed : ∀ thread conns, .destroyServer conns ∈ s.run.todo thread → conns.Nodup
  once : ∀ conn, s.entered conn = true → s.run.destroyed conn = false ∧ ¬ s.Destroying conn

theorem Settled.remembered {s : OwnedRun} (settled : s.Settled) : s.Remembered := by
  intro conn known
  constructor
  · exact settled.once conn
  · rintro ⟨alive, idle⟩
    exact (settled.kept.held conn known alive).resolve_right idle

theorem Kept.destroying_known {s : OwnedRun} (kept : s.Kept) {conn : Nat}
    (destroying : s.Destroying conn) : conn < s.run.accepted := by
  obtain ⟨thread, _, task, mem, destroys⟩ := destroying
  obtain ⟨p, _, mem⟩ := ServerRun.work_of_mem_tasks mem
  have valid := ServerRun.waiting_valid kept.inv mem
  rcases Task.destroys_cases destroys with rfl | ⟨loop, rfl⟩ <;> exact valid

/-- The next connection is neither destroyed nor about to be. -/
theorem Kept.unborn_idle {s : OwnedRun} (kept : s.Kept) :
    s.run.destroyed s.run.accepted = false ∧ ¬ s.Destroying s.run.accepted := by
  constructor
  · rw [← Bool.not_eq_true]
    exact fun gone => Nat.lt_irrefl _ (kept.early _ gone)
  · exact fun destroying => Nat.lt_irrefl _ (kept.destroying_known destroying)

theorem Kept.removed_known {s : OwnedRun} (kept : s.Kept) {thread gone : Nat} {rest : List Task}
    (next : s.run.todo thread = .functor (.removeConnectionInLoop gone) :: rest) :
    gone < s.run.accepted := by
  have waits : .functor (.removeConnectionInLoop gone) ∈ s.run.work [] (.todo thread) :=
    ServerRun.mem_todo next
  exact ServerRun.told_known kept.inv (ServerRun.waiting_valid kept.inv waits)

/-- `~TcpServer` comes to no connection twice. -/
theorem Settled.listed_step {s t : OwnedRun} {act : ServerAct} (settled : s.Settled)
    (ran : s.run.step act = some t.run) {thread : Nat} {conns : List Nat}
    (due : .destroyServer conns ∈ t.run.todo thread) : conns.Nodup := by
  rcases destroyServer_arrives ran due with
    old | ⟨_, server, hs, perm⟩ | ⟨_, conn, rest, _, next⟩
  · exact settled.listed thread conns old
  · obtain ⟨addr, names⟩ := settled.named server hs
    exact perm.nodup_iff.mpr names.values
  · exact (settled.listed thread _ (by rw [next]; exact List.mem_cons_self)).of_cons

/-- The entry is gone when `connectionDestroyed` comes to wait. -/
theorem Settled.once_step {s t : OwnedRun} {l : OwnerAct} {act : ServerAct} (settled : s.Settled)
    (h : s.step l = some t) (threads : t.threads = s.threads) (bound : act.thread < s.threads)
    (ran : s.run.step act = some t.run) {conn : Nat} (entered : t.entered conn = true) :
    t.run.destroyed conn = false ∧ ¬ t.Destroying conn := by
  have idle : s.run.destroyed conn = false ∧ ¬ s.Destroying conn := by
    rcases entered_before h entered with was | ⟨_, rfl⟩
    · exact settled.once conn was
    · exact settled.kept.unborn_idle
  obtain ⟨server, hs, ⟨item, mem, rfl⟩, ahead⟩ := entered_iff.mp entered
  apply idle_step threads bound ran idle
  rintro thread answer rest rfl
  constructor
  · intro removed
    obtain ⟨before, hs', erased⟩ := ServerRun.step_erases ran removed
    cases hs.symm.trans erased
    obtain ⟨addr, names⟩ := settled.named before hs'
    obtain ⟨old, other⟩ := List.mem_filter.mp mem
    exact absurd (names.own item old).2 (bne_iff_ne.mp other)
  · intro conns next
    have once : (item.2 :: conns).Nodup :=
      settled.listed thread _ (by rw [next]; exact List.mem_cons_self)
    obtain ⟨_, run⟩ := ServerRun.step_runs ran next
    have due : .destroyServer conns ∈ t.run.todo thread := by
      rw [← Option.some.inj run]
      simp [ServerRun.call, ServerRun.setTodo]
    exact (List.nodup_cons.mp once).1 (ahead thread (threads ▸ bound) conns due)

/-! ## Being remembered -/

/-- The entries, while no `~TcpServer` runs. -/
theorem entered_of_mem {s : OwnedRun} {server : TcpServer} (hs : s.run.server = some server)
    (idle : s.tearing = false) {item : String × Nat} (mem : item ∈ server.connections) :
    s.entered item.2 = true := by
  refine entered_iff.mpr ⟨server, hs, ⟨item, mem, rfl⟩, ?_⟩
  intro thread below conns due
  have tearing : s.tearing = true :=
    List.any_eq_true.mpr ⟨thread, List.mem_range.mpr below, List.any_eq_true.mpr ⟨_, due, rfl⟩⟩
  rw [idle] at tearing
  cases tearing

/-- Every step but a removal then meets what the server needs to remember. -/
theorem Settled.remembers {s : OwnedRun} {act : ServerAct} (settled : s.Settled)
    (own : s.OwnNumber act) (other : ∀ thread answer gone rest, act = .task thread answer →
      s.run.todo thread ≠ .functor (.removeConnectionInLoop gone) :: rest) : s.Remembers act := by
  cases act with
  | newConnection sockfd =>
    refine ⟨own.1, ?_⟩
    intro server hs item mem key
    obtain ⟨addr, names⟩ := settled.named server hs
    rw [TcpServer.getNextLoop_connName, names.key_iff mem,
      own.2 item.2 (names.own item mem).1 (entered_of_mem hs own.1 mem)] at key
    cases key
  | task thread answer =>
    intro task first gone erases
    obtain ⟨rest, next⟩ := List.head?_eq_some_iff.mp first
    unfold Task.erasing at erases
    split at erases
    · cases erases
      exact absurd next (other thread answer gone rest rfl)
    · cases erases
  | poll | dispatch | runFunctor | send | shutdown | destroyServer => trivial

/-- A removal takes the entry of the connection, and only it. -/
theorem Settled.entered_remove {s t : OwnedRun} {thread gone : Nat} {answer : Answer}
    {rest : List Task} (settled : s.Settled) (threads : t.threads = s.threads)
    (ran : s.run.step (.task thread answer) = some t.run)
    (next : s.run.todo thread = .functor (.removeConnectionInLoop gone) :: rest) {conn : Nat}
    (entered : s.entered conn = true)
    (own : NameRun.sameId conn gone = true → conn = gone) :
    t.entered conn = true ∨ t.Destroying conn := by
  obtain ⟨server, hs, ⟨item, mem, rfl⟩, ahead⟩ := entered_iff.mp entered
  obtain ⟨addr, names⟩ := settled.named server hs
  obtain ⟨known, key⟩ := names.own item mem
  by_cases same : item.2 = gone
  · rw [← same] at next
    exact .inr (.of_remove settled.kept threads known ran next)
  refine .inl (entered_iff.mpr ?_)
  have gone_known := settled.kept.removed_known next
  have other : item.1 ≠ (s.run.conn gone).name := by
    intro named
    exact same (own ((names.sameId_iff known gone_known).mpr (key.symm.trans named)))
  obtain ⟨_, hs', erased⟩ := ServerRun.step_erases ran next
  cases hs.symm.trans hs'
  refine ⟨_, erased, ⟨item, List.mem_filter.mpr ⟨mem, bne_iff_ne.mpr other⟩, rfl⟩, ?_⟩
  intro k below conns due
  rcases destroyServer_arrives ran due with old | ⟨⟨⟩, _⟩ | ⟨_, _, _, ⟨⟩, now⟩
  · exact ahead k (threads ▸ below) conns old
  · cases next.symm.trans now

theorem Settled.held_step {s t : OwnedRun} {act : ServerAct} (settled : s.Settled)
    (threads : t.threads = s.threads) (bound : act.thread < s.threads)
    (ran : s.run.step act = some t.run) (own : s.OwnNumber act) {conn : Nat}
    (known : conn < t.run.accepted) (alive : t.run.destroyed conn = false) :
    t.entered conn = true ∨ t.Destroying conn := by
  by_cases removal : ∃ thread answer gone rest, act = .task thread answer ∧
      s.run.todo thread = .functor (.removeConnectionInLoop gone) :: rest
  · obtain ⟨thread, answer, gone, rest, rfl, next⟩ := removal
    have old : conn < s.run.accepted := by
      rcases ServerRun.step_accepted ran with same | ⟨⟨_, ⟨⟩⟩, _⟩
      exact same ▸ known
    have alive' : s.run.destroyed conn = false := by
      rw [← Bool.not_eq_true] at alive ⊢
      exact fun gone => alive ((ServerRun.step_destroyed ran conn).mpr (.inl gone))
    rcases settled.kept.held conn old alive' with entered | destroying
    · refine settled.entered_remove threads ran next entered ?_
      exact own (.functor (.removeConnectionInLoop gone)) (by rw [next]; rfl) gone rfl conn old
        entered
    · refine .inr ((destroying.step settled.kept threads ran).resolve_right ?_)
      rw [alive]
      exact Bool.false_ne_true
  · refine settled.kept.held_step threads bound ran ?_ known alive
    exact settled.remembers own fun thread answer gone rest same next =>
      removal ⟨thread, answer, gone, rest, same, next⟩

theorem Settled.step {s t : OwnedRun} {l : OwnerAct} (settled : s.Settled)
    (h : s.step l = some t) (apart : s.NumbersApart l) : t.Settled := by
  obtain ⟨threads, ⟨user, same⟩ | ⟨act, hact, bound, ran⟩⟩ := step_run h
  · have kept : t.Kept := settled.kept.step h (by rw [user]; exact fun _ none => nomatch none)
    refine ⟨kept, same ▸ settled.named, same ▸ settled.listed, ?_⟩
    intro conn entered
    have before : s.entered conn = true := by
      rw [← entered]
      unfold OwnedRun.entered passed
      rw [same, threads]
    unfold Destroying
    rw [same, threads]
    exact settled.once conn before
  · have own := apart act hact
    obtain ⟨n, within, onLoops⟩ := settled.kept.loops
    have early : ∀ conn, t.run.destroyed conn = true → conn < t.run.accepted := by
      intro conn gone
      have known : conn < s.run.accepted := by
        rcases destroyed_before gone bound ran with was | destroying
        · exact settled.kept.early conn was
        · exact settled.kept.destroying_known destroying
      rcases ServerRun.step_accepted ran with same | ⟨_, next⟩ <;> omega
    have kept : t.Kept :=
      ⟨ServerRun.step_forgetting_inv settled.kept.inv ran,
        ServerRun.step_atHome settled.kept.inv settled.kept.home ran,
        ⟨n, threads ▸ within, onLoops.step ran⟩, early,
        fun _ known alive => settled.held_step threads bound ran own known alive⟩
    exact ⟨kept, settled.named.step ran, fun _ _ due => settled.listed_step ran due,
      fun _ entered => settled.once_step h threads bound ran entered⟩

theorem Begun.settled {s : OwnedRun} (h : s.Begun) : s.Settled := by
  obtain ⟨server, hs, empty⟩ := h.run.server
  obtain ⟨one, addr, ipPort⟩ := h.numbered server hs
  refine ⟨start_kept h.toStart, ?_, ?_, ?_⟩
  · intro server' hs'
    cases hs.symm.trans hs'
    refine ⟨addr, ipPort, ?_, ?_, ?_, ?_⟩
    · rw [one, h.run.accepted]
      decide
    · intro conn known
      rw [h.run.accepted] at known
      cases known
    · rw [empty]
      exact List.nodup_nil
    · rw [empty]
      intro item mem
      cases mem
  · intro thread conns due
    rw [h.run.todo] at due
    cases due
  · intro conn entered
    obtain ⟨server', hs', ⟨item, mem, _⟩, _⟩ := entered_iff.mp entered
    cases hs.symm.trans hs'
    rw [empty] at mem
    cases mem

/-! ## Being forgotten -/

/-- `~TcpServer` does not come to a connection that is accepted meanwhile. -/
theorem Settled.accept_idle {s t : OwnedRun} {sockfd : Nat} (settled : s.Settled)
    (threads : t.threads = s.threads)
    (bound : (ServerAct.newConnection sockfd).thread < s.threads)
    (ran : s.run.step (.newConnection sockfd) = some t.run) (remembered : t.Remembered) :
    s.tearing = false := by
  rw [← Bool.not_eq_true]
  intro tearing
  obtain ⟨thread, below, busy⟩ := List.any_eq_true.mp tearing
  obtain ⟨task, mem, destroys⟩ := List.any_eq_true.mp busy
  split at destroys
  · rename_i conns
    have new : s.run.accepted < t.run.accepted := by
      obtain ⟨_, _, _, _, next, _⟩ := ServerRun.step_accepts ran
      omega
    have idle := idle_step threads bound ran settled.kept.unborn_idle
      fun _ _ _ task => nomatch task
    obtain ⟨server, hs, _, ahead⟩ := entered_iff.mp ((remembered _ new).mpr idle)
    rcases destroyServer_waits ran mem with gone | ⟨rest, within, due⟩
    · rw [hs] at gone
      cases gone
    · have listed := within _ (ahead thread (threads ▸ List.mem_range.mp below) rest due)
      have waits : .destroyServer conns ∈ s.run.work [] (.todo thread) := mem
      exact Nat.lt_irrefl _ (ServerRun.waiting_valid settled.kept.inv waits _ listed)
  · cases destroys

/-- A new connection takes the entry of one with its number. -/
theorem Settled.accept_apart {s t : OwnedRun} {sockfd : Nat} (settled : s.Settled)
    (threads : t.threads = s.threads)
    (bound : (ServerAct.newConnection sockfd).thread < s.threads)
    (ran : s.run.step (.newConnection sockfd) = some t.run) (remembered : t.Remembered) {conn : Nat}
    (known : conn < s.run.accepted) (entered : s.entered conn = true) :
    NameRun.sameId conn s.run.accepted = false := by
  rw [← Bool.not_eq_true]
  intro same
  have idle := idle_step threads bound ran (settled.once conn entered)
    fun _ _ _ task => nomatch task
  obtain ⟨server, hs, _, now, next, _⟩ := ServerRun.step_accepts ran
  obtain ⟨addr, names⟩ := settled.named server hs
  obtain ⟨server', hs', ⟨item, mem, rfl⟩, _⟩ :=
    entered_iff.mp ((remembered conn (by omega)).mpr idle)
  cases now.symm.trans hs'
  obtain ⟨_, _, _, _, connections⟩ := server.newConnection_names s.run.accepted sockfd
  rw [connections] at mem
  rcases List.mem_append.mp mem with old | new
  · obtain ⟨old, other⟩ := List.mem_filter.mp old
    exact bne_iff_ne.mp other ((names.key_iff old).mpr same)
  · rw [List.mem_singleton.mp new] at known
    exact Nat.lt_irrefl _ known

/-- A removal takes the entry of the connection that has the number. -/
theorem Settled.remove_apart {s t : OwnedRun} {thread gone : Nat} {answer : Answer}
    {rest : List Task} (settled : s.Settled) (threads : t.threads = s.threads)
    (bound : (ServerAct.task thread answer).thread < s.threads)
    (ran : s.run.step (.task thread answer) = some t.run)
    (next : s.run.todo thread = .functor (.removeConnectionInLoop gone) :: rest)
    (remembered : t.Remembered) {conn : Nat} (known : conn < s.run.accepted)
    (entered : s.entered conn = true) (same : NameRun.sameId conn gone = true) : conn = gone := by
  by_contra other
  have idle : t.run.destroyed conn = false ∧ ¬ t.Destroying conn := by
    apply idle_step threads bound ran (settled.once conn entered)
    rintro _ _ rest' ⟨⟩
    rw [next]
    constructor
    · rintro ⟨⟩
      exact other rfl
    · rintro _ ⟨⟩
  have gone_known := settled.kept.removed_known next
  have known' : conn < t.run.accepted := by
    rcases ServerRun.step_accepted ran with same | ⟨_, next⟩ <;> omega
  obtain ⟨server', hs', ⟨item, mem, rfl⟩, _⟩ := entered_iff.mp ((remembered conn known').mpr idle)
  obtain ⟨server, hs, erased⟩ := ServerRun.step_erases ran next
  cases hs'.symm.trans erased
  obtain ⟨addr, names⟩ := settled.named server hs
  obtain ⟨old, kept⟩ := List.mem_filter.mp mem
  apply bne_iff_ne.mp kept
  rw [(names.own item old).2]
  exact (names.sameId_iff known gone_known).mp same

theorem Settled.apart {s t : OwnedRun} {l : OwnerAct} (settled : s.Settled)
    (h : s.step l = some t) (remembered : t.Remembered) : s.NumbersApart l := by
  intro act hact
  obtain ⟨threads, ⟨user, _⟩ | ⟨act', hact', bound, ran⟩⟩ := step_run h
  · rw [user] at hact
    cases hact
  obtain rfl : act' = act := Option.some.inj (hact'.symm.trans hact)
  cases act' with
  | newConnection sockfd =>
    exact ⟨settled.accept_idle threads bound ran remembered,
      fun _ known entered => settled.accept_apart threads bound ran remembered known entered⟩
  | task thread answer =>
    intro task first gone erases conn known entered same
    obtain ⟨rest, next⟩ := List.head?_eq_some_iff.mp first
    unfold Task.erasing at erases
    split at erases
    · cases erases
      exact settled.remove_apart threads bound ran next remembered known entered same
    · cases erases
  | poll | dispatch | runFunctor | send | shutdown | destroyServer => trivial

/-- The first connection is established, closed by its peer and destroyed; the second
one is accepted, and `~TcpServer` runs. -/
def replaced : List OwnerAct :=
  [.poll 0 [] true, .server (.newConnection 7)] ++ LedgerRun.closing ++
    [.poll 0 [] true, .server (.newConnection 8), .server (.task 0 ServerRun.eof),
      .server (.dispatch 0 true), .server (.runFunctor 0), .server (.destroyServer 0 [1]),
      .server (.task 0 ServerRun.eof), .server (.task 0 ServerRun.eof),
      .server (.task 0 ServerRun.eof)]

theorem newborn_begun : newborn.Begun := by
  refine ⟨newborn_start, ?_⟩
  intro server hs
  cases hs
  exact ⟨rfl, ⟨127, 0, 0, 1, 8080⟩, by decide +kernel⟩

/-- Connections are accepted before `nextConnId_` comes round, and none during
`~TcpServer`. -/
def FirstRound (s : OwnedRun) (l : OwnerAct) : Prop :=
  ∀ sockfd, l.act = some (.newConnection sockfd) →
    s.tearing = false ∧ s.run.accepted < intRange

theorem sameId_small {c d : Nat} (hc : c < intRange) (hd : d < intRange)
    (same : NameRun.sameId c d = true) : c = d := by
  rw [NameRun.sameId, beq_iff_eq, Nat.mod_eq_of_lt hc, Nat.mod_eq_of_lt hd] at same
  exact same

theorem Settled.first_apart {s : OwnedRun} {l : OwnerAct} (settled : s.Settled)
    (few : s.run.accepted ≤ intRange) (first : s.FirstRound l) : s.NumbersApart l := by
  intro act hact
  cases act with
  | newConnection sockfd =>
    obtain ⟨idle, more⟩ := first sockfd hact
    refine ⟨idle, fun conn known _ => ?_⟩
    rw [← Bool.not_eq_true]
    intro same
    exact absurd (sameId_small (by omega) more same) (Nat.ne_of_lt known)
  | task thread answer =>
    intro task now gone erases conn known _ same
    obtain ⟨rest, next⟩ := List.head?_eq_some_iff.mp now
    unfold Task.erasing at erases
    split at erases
    · cases erases
      have gone_known := settled.kept.removed_known next
      exact sameId_small (by omega) (by omega) same
    · cases erases
  | poll | dispatch | runFunctor | send | shutdown | destroyServer => trivial

/-- No connection is forgotten among the first `2 ^ 32`. -/
theorem remembered_first {s : OwnedRun} (hs : s.Begun) {ls : List OwnerAct}
    (first : machine.Steps FirstRound s ls) : machine.Always Remembered s ls := by
  refine first.always (I := fun s => s.Settled ∧ s.run.accepted ≤ intRange)
    (fun s settled => settled.1.remembered) ?_ ⟨hs.settled, ?_⟩
  · rintro s l t ⟨settled, few⟩ h ok
    refine ⟨settled.step h (settled.first_apart few ok), ?_⟩
    obtain ⟨_, ⟨_, same⟩ | ⟨act, hact, _, ran⟩⟩ := step_run h
    · rw [same]
      exact few
    · rcases ServerRun.step_accepted ran with same | ⟨⟨sockfd, rfl⟩, next⟩
      · omega
      · have more := (ok sockfd hact).2
        omega
  · rw [hs.run.accepted]
    exact Nat.zero_le _

/-- Once the server is gone and no `connectionDestroyed` waits, each connection it
accepted has been destroyed. -/
theorem Remembered.all_destroyed {s : OwnedRun} (remembered : s.Remembered)
    (gone : s.run.server = none) (idle : ∀ conn, ¬ s.Destroying conn) {conn : Nat}
    (known : conn < s.run.accepted) : s.run.destroyed conn = true := by
  rw [← Bool.not_eq_false]
  intro alive
  obtain ⟨server, hs, _⟩ := entered_iff.mp ((remembered conn known).mpr ⟨alive, idle conn⟩)
  rw [gone] at hs
  cases hs

end OwnedRun
end Kenmuduo
