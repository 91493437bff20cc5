import Kenmuduo.InetAddress
import Kenmuduo.TcpServer

/-!
# The names of connections

`connections_` is keyed by names that end in the value of `nextConnId_`, an
`int` that comes round after `2 ^ 32` accepts. The rest of a name is the same
for all connections of a server, and `snprintf` cuts nothing off.
-/

namespace Kenmuduo
open Transition

/-- What the accepts and removals make of `connections_`. -/
structure NameRun where
  server : TcpServer
  accepted : Nat
  /-- The name of each accepted connection. -/
  name : Nat → String
  /-- `removeConnectionInLoop` has run for the connection. -/
  removed : Nat → Bool
  /-- `newConnection` has built a name that was a key. -/
  collided : Bool

inductive NameAct
  | newConnection (sockfd : Nat)
  | removeConnectionInLoop (conn : Nat)
  deriving DecidableEq, Repr

/-- The number of values of an `int`. -/
abbrev intRange : Nat := 4294967296

/-- `nextConnId_` after `n` accepts. -/
def connId (n : Nat) : Int := ((n + 2147483649) % intRange : Nat) - 2147483648

namespace NameRun

def step (s : NameRun) : NameAct → Option NameRun
  | .newConnection sockfd =>
    let (c, server) := s.server.newConnection s.accepted sockfd
    some
      { server := server
        accepted := s.accepted + 1
        name := assign s.name s.accepted c.name
        removed := s.removed
        collided := s.collided || s.server.connections.any fun item => item.1 == c.name }
  | .removeConnectionInLoop conn =>
    if conn < s.accepted then
      some { s with
        server := s.server.erase (s.name conn)
        removed := assign s.removed conn true }
    else none

/-- A server after its constructor. -/
structure Start (s : NameRun) : Prop where
  ipPort : ∃ addr : InetAddress, s.server.ipPort = addr.toIpPort
  nextConnId : s.server.nextConnId = 1
  connections : s.server.connections = []
  accepted : s.accepted = 0
  removed : ∀ conn, s.removed conn = false
  collided : s.collided = false

def machine : Machine NameRun NameAct := ⟨Start, step⟩

/-- No name was ever a key when it was built; `connections_` maps the name of
each connection that was accepted and not removed to it; and it has as many
entries as there were accepts, less the connections that were removed. -/
structure Distinct (s : NameRun) : Prop where
  collided : s.collided = false
  maps : ∀ conn, conn < s.accepted → s.removed conn = false →
    s.server.connections.lookup (s.name conn) = some conn
  size : s.server.connections.length + (List.range s.accepted).countP s.removed = s.accepted

/-- Two accepts that got the same value of `nextConnId_`. -/
def sameId (c d : Nat) : Bool := c % intRange == d % intRange

/-- A step uses the number of no other connection that is in `connections_`. -/
def NumbersApart (s : NameRun) : NameAct → Prop
  | .newConnection _ => ∀ item ∈ s.server.connections, sameId item.2 s.accepted = false
  | .removeConnectionInLoop conn =>
    ∀ item ∈ s.server.connections, sameId item.2 conn = true → item.2 = conn

instance (s : NameRun) : ∀ l, Decidable (s.NumbersApart l)
  | .newConnection _ =>
    inferInstanceAs (Decidable (∀ item ∈ s.server.connections, sameId item.2 s.accepted = false))
  | .removeConnectionInLoop conn => inferInstanceAs
      (Decidable (∀ item ∈ s.server.connections, sameId item.2 conn = true → item.2 = conn))

end NameRun

/-! ## Numbers and names -/

theorem intSucc_cases (n : Int) :
    (n = 2147483647 ∧ intSucc n = -2147483648) ∨ (n ≠ 2147483647 ∧ intSucc n = n + 1) := by
  unfold intSucc
  split
  · rename_i last
    exact .inl ⟨last, rfl⟩
  · rename_i more
    exact .inr ⟨more, rfl⟩

theorem connId_succ (n : Nat) : intSucc (connId n) = connId (n + 1) := by
  have next := intSucc_cases (connId n)
  simp only [connId, intRange] at *
  omega

theorem connId_injective {c d : Nat} (h : connId c = connId d) : NameRun.sameId c d = true := by
  simp only [connId, intRange] at h
  simp only [NameRun.sameId, intRange, beq_iff_eq]
  omega

theorem connId_sameId {c d : Nat} (h : NameRun.sameId c d = true) : connId c = connId d := by
  simp only [NameRun.sameId, intRange, beq_iff_eq] at h
  simp only [connId, intRange]
  omega

theorem connId_bounds (n : Nat) : -2147483648 ≤ connId n ∧ connId n < 2147483648 := by
  simp only [connId, intRange]
  omega

/-- A negative number is a sign and a decimal. -/
theorem toString_negSucc (n : Nat) :
    (toString (Int.negSucc n)).toList = '-' :: (toString (n + 1)).toList := by
  show ("-" ++ toString (n + 1)).toList = _
  rw [String.toList_append]
  rfl

/-- An `int` has at most ten digits and a sign. -/
theorem int_length {n : Int} (lo : -2147483648 ≤ n) (hi : n < 2147483648) :
    (toString n).toList.length ≤ 11 := by
  cases n with
  | ofNat n =>
    have bound : (n : Int) < 2147483648 := hi
    have digits : (toString n).toList.length ≤ 10 :=
      decimal_length 9 (Nat.lt_of_lt_of_le (show n < 2147483648 by omega) (by decide))
    exact Nat.le_succ_of_le digits
  | negSucc n =>
    have digits : (toString (n + 1)).toList.length ≤ 10 :=
      decimal_length 9 (Nat.lt_of_lt_of_le (show n + 1 < 2147483649 by omega) (by decide))
    rw [toString_negSucc]
    exact Nat.succ_le_succ digits

theorem int_injective {m n : Int} (h : (toString m).toList = (toString n).toList) : m = n := by
  cases m with
  | ofNat m =>
    cases n with
    | ofNat n => exact congrArg Int.ofNat (decimal_injective h)
    | negSucc n =>
      rw [toString_negSucc] at h
      have signed : '-' ∈ (toString m).toList := by
        show '-' ∈ (toString (Int.ofNat m)).toList
        rw [h]
        exact List.mem_cons_self
      exact absurd signed (decimal_unsigned m)
  | negSucc m =>
    rw [toString_negSucc] at h
    cases n with
    | ofNat n =>
      have signed : '-' ∈ (toString n).toList := by
        show '-' ∈ (toString (Int.ofNat n)).toList
        rw [← h]
        exact List.mem_cons_self
      exact absurd signed (decimal_unsigned n)
    | negSucc n =>
      rw [toString_negSucc] at h
      have same := decimal_injective (List.cons.inj h).2
      rw [Nat.succ.inj same]

/-- Nothing is cut off a name, whatever the address and the number. -/
theorem snprintf64_whole {addr : InetAddress} {id : Int} (lo : -2147483648 ≤ id)
    (hi : id < 2147483648) :
    snprintf64 ("-" ++ addr.toIpPort ++ "#" ++ toString id) =
      "-" ++ addr.toIpPort ++ "#" ++ toString id := by
  have port := addr.toIpPort_length
  have number := int_length lo hi
  have fits : ("-" ++ addr.toIpPort ++ "#" ++ toString id).toList.length ≤ 63 := by
    have dash : "-".toList.length = 1 := by decide
    have hash : "#".toList.length = 1 := by decide
    simp only [String.toList_append, List.length_append]
    omega
  rw [snprintf64, List.take_of_length_le fits, String.ofList_toList]

/-- The name of the connection with the number. -/
def fullName (name : String) (addr : InetAddress) (id : Int) : String :=
  name ++ ("-" ++ addr.toIpPort ++ "#" ++ toString id)

theorem fullName_injective {name : String} {addr : InetAddress} {m n : Int}
    (h : fullName name addr m = fullName name addr n) : m = n := by
  have chars := congrArg String.toList h
  simp only [fullName, String.toList_append] at chars
  have ends := List.append_cancel_left (List.append_cancel_left chars)
  exact int_injective (by simpa using ends)

theorem TcpServer.newConnection_names (s : TcpServer) (conn sockfd : Nat) :
    (s.newConnection conn sockfd).1.name = s.connName ∧
    (s.newConnection conn sockfd).2.name = s.name ∧
    (s.newConnection conn sockfd).2.ipPort = s.ipPort ∧
    (s.newConnection conn sockfd).2.nextConnId = intSucc s.nextConnId ∧
    (s.newConnection conn sockfd).2.connections =
      (s.erase s.connName).connections ++ [(s.connName, conn)] := by
  by_cases base : s.numLoops = 0
  · simp [newConnection, getNextLoop, base, TcpConnection.new]
  · simp [newConnection, getNextLoop, base, TcpConnection.new, connName, erase]

namespace NameRun

/-- The connections that were accepted and not removed. -/
def live (s : NameRun) : List Nat := (List.range s.accepted).filter fun conn => !s.removed conn

theorem mem_live {s : NameRun} {conn : Nat} :
    conn ∈ s.live ↔ conn < s.accepted ∧ s.removed conn = false := by
  simp [live]

/-- `connections_` has the live connections under their names, whose numbers
differ. -/
structure Numbered (s : NameRun) (addr : InetAddress) : Prop where
  ipPort : s.server.ipPort = addr.toIpPort
  nextConnId : s.server.nextConnId = connId s.accepted
  names : ∀ conn, conn < s.accepted → s.name conn = fullName s.server.name addr (connId conn)
  entries : s.server.connections = s.live.map fun conn => (s.name conn, conn)
  apart : ∀ c ∈ s.live, ∀ d ∈ s.live, sameId c d = true → c = d
  unborn : ∀ conn, s.accepted ≤ conn → s.removed conn = false
  collided : s.collided = false

theorem Start.numbered {s : NameRun} (h : s.Start) : ∃ addr, s.Numbered addr := by
  obtain ⟨addr, ipPort⟩ := h.ipPort
  have none : s.live = [] := by simp [live, h.accepted]
  refine ⟨addr, ipPort, ?_, ?_, ?_, ?_, fun conn _ => h.removed conn, h.collided⟩
  · rw [h.nextConnId, h.accepted]
    decide
  · rw [h.accepted]
    intro conn early
    cases early
  · rw [h.connections, none]
    rfl
  · rw [none]
    intro c mem
    cases mem

theorem Numbered.name_injective {s : NameRun} {addr : InetAddress} (inv : s.Numbered addr)
    {c d : Nat} (hc : c < s.accepted) (hd : d < s.accepted) (h : s.name c = s.name d) :
    sameId c d = true := by
  rw [inv.names c hc, inv.names d hd] at h
  exact connId_injective (fullName_injective h)

theorem Numbered.name_sameId {s : NameRun} {addr : InetAddress} (inv : s.Numbered addr)
    {c d : Nat} (hc : c < s.accepted) (hd : d < s.accepted) (h : sameId c d = true) :
    s.name c = s.name d := by
  rw [inv.names c hc, inv.names d hd, connId_sameId h]

/-- The name that the next accept builds. -/
theorem Numbered.connName {s : NameRun} {addr : InetAddress} (inv : s.Numbered addr) :
    s.server.connName = fullName s.server.name addr (connId s.accepted) := by
  obtain ⟨lo, hi⟩ := connId_bounds s.accepted
  rw [TcpServer.connName, inv.ipPort, inv.nextConnId, snprintf64_whole lo hi, fullName]

theorem mem_entries {s : NameRun} {addr : InetAddress} (inv : s.Numbered addr)
    {item : String × Nat} (h : item ∈ s.server.connections) :
    item.2 ∈ s.live ∧ item.1 = s.name item.2 := by
  rw [inv.entries] at h
  obtain ⟨conn, mem, rfl⟩ := List.mem_map.mp h
  exact ⟨mem, rfl⟩

theorem entry_of_live {s : NameRun} {addr : InetAddress} (inv : s.Numbered addr) {conn : Nat}
    (h : conn ∈ s.live) : (s.name conn, conn) ∈ s.server.connections := by
  rw [inv.entries]
  exact List.mem_map.mpr ⟨conn, h, rfl⟩

/-- A list of distinct keys gives each of them its value. -/
theorem lookup_map {f : Nat → String} {l : List Nat} (apart : ∀ c ∈ l, ∀ d ∈ l, f c = f d → c = d)
    {conn : Nat} (h : conn ∈ l) : (l.map fun c => (f c, c)).lookup (f conn) = some conn := by
  induction l with
  | nil => cases h
  | cons d l ih =>
    rw [List.map_cons, List.lookup_cons]
    by_cases same : f conn = f d
    · have := apart conn h d List.mem_cons_self same
      simp [this]
    · have rest : conn ∈ l := by
        cases h with
        | head => exact absurd rfl same
        | tail _ mem => exact mem
      have key : (f conn == f d) = false := beq_eq_false_iff_ne.mpr same
      rw [key]
      exact ih (fun c hc d hd => apart c (List.mem_cons_of_mem _ hc) d (List.mem_cons_of_mem _ hd))
        rest

theorem Numbered.distinct {s : NameRun} {addr : InetAddress} (inv : s.Numbered addr) :
    s.Distinct := by
  refine ⟨inv.collided, ?_, ?_⟩
  · intro conn early kept
    rw [inv.entries]
    refine lookup_map (fun c hc d hd same => ?_) (mem_live.mpr ⟨early, kept⟩)
    exact inv.apart c hc d hd (inv.name_injective (mem_live.mp hc).1 (mem_live.mp hd).1 same)
  · have total := List.length_eq_countP_add_countP s.removed (l := List.range s.accepted)
    have kept : s.live.length = (List.range s.accepted).countP fun conn => ¬s.removed conn := by
      rw [live, List.countP_eq_length_filter]
      simp
    rw [inv.entries, List.length_map, kept]
    rw [List.length_range] at total
    omega

/-- The next accept's name is a key exactly when a live connection has its
number. -/
theorem Numbered.key_iff {s : NameRun} {addr : InetAddress} (inv : s.Numbered addr)
    {item : String × Nat} (h : item ∈ s.server.connections) :
    item.1 = s.server.connName ↔ sameId item.2 s.accepted = true := by
  obtain ⟨mem, key⟩ := mem_entries inv h
  rw [key, inv.names item.2 (mem_live.mp mem).1, inv.connName]
  constructor
  · intro same
    exact connId_injective (fullName_injective same)
  · intro same
    rw [connId_sameId same]

/-- What an accept does to the names. -/
structure Accepts (s t : NameRun) : Prop where
  serverName : t.server.name = s.server.name
  ipPort : t.server.ipPort = s.server.ipPort
  nextConnId : t.server.nextConnId = intSucc s.server.nextConnId
  connections : t.server.connections =
    (s.server.erase s.server.connName).connections ++ [(s.server.connName, s.accepted)]
  accepted : t.accepted = s.accepted + 1
  name : t.name = assign s.name s.accepted s.server.connName
  removed : t.removed = s.removed
  collided : t.collided =
    (s.collided || s.server.connections.any fun item => item.1 == s.server.connName)

theorem newConnection_accepts {s t : NameRun} {sockfd : Nat}
    (h : s.step (.newConnection sockfd) = some t) : s.Accepts t := by
  obtain ⟨hname, name, ipPort, nextConnId, connections⟩ :=
    TcpServer.newConnection_names s.server s.accepted sockfd
  cases h
  exact ⟨name, ipPort, nextConnId, connections, rfl, congrArg (assign s.name s.accepted) hname, rfl,
    congrArg (fun key => s.collided || s.server.connections.any fun item => item.1 == key) hname⟩

theorem accepts_live {s t : NameRun} {addr : InetAddress} (inv : s.Numbered addr)
    (h : s.Accepts t) : t.live = s.live ++ [s.accepted] := by
  simp [live, h.accepted, h.removed, List.range_succ, inv.unborn s.accepted (Nat.le_refl _)]

/-- An accept whose number no live connection has. -/
theorem newConnection_numbered {s t : NameRun} {addr : InetAddress} (sockfd : Nat)
    (inv : s.Numbered addr) (h : s.Accepts t) (ok : s.NumbersApart (.newConnection sockfd)) :
    t.Numbered addr := by
  have noKey : ∀ item ∈ s.server.connections, item.1 ≠ s.server.connName := by
    intro item mem key
    have same := (inv.key_iff mem).mp key
    rw [ok item mem] at same
    cases same
  have kept : (s.server.erase s.server.connName).connections = s.server.connections := by
    refine List.filter_eq_self.mpr fun item mem => ?_
    simpa using noKey item mem
  have live := accepts_live inv h
  have fresh : ∀ conn ∈ s.live, sameId conn s.accepted = false := fun conn mem =>
    ok _ (entry_of_live inv mem)
  refine ⟨h.ipPort.trans inv.ipPort, ?_, ?_, ?_, ?_, ?_, ?_⟩
  · rw [h.nextConnId, inv.nextConnId, connId_succ, h.accepted]
  · intro conn early
    rw [h.accepted] at early
    rw [h.name, h.serverName, assign]
    split
    · rename_i new
      rw [new, inv.connName]
    · rename_i old
      exact inv.names conn (by omega)
  · rw [h.connections, kept, inv.entries, live, List.map_append, h.name]
    congr 1
    · refine List.map_congr_left fun conn mem => ?_
      have old : conn ≠ s.accepted := Nat.ne_of_lt (mem_live.mp mem).1
      rw [assign_other _ _ old]
    · simp
  · rw [live]
    intro c hc d hd same
    rcases List.mem_append.mp hc with hc | hc <;> rcases List.mem_append.mp hd with hd | hd
    · exact inv.apart c hc d hd same
    · rw [List.mem_singleton.mp hd, fresh c hc] at same
      cases same
    · rw [List.mem_singleton.mp hc] at same
      have swapped : sameId d s.accepted = true := by
        simp only [sameId, beq_iff_eq] at same ⊢
        exact same.symm
      rw [fresh d hd] at swapped
      cases swapped
    · rw [List.mem_singleton.mp hc, List.mem_singleton.mp hd]
  · intro conn later
    rw [h.removed]
    rw [h.accepted] at later
    exact inv.unborn conn (by omega)
  · rw [h.collided, inv.collided, Bool.false_or, List.any_eq_false]
    intro item mem
    simpa using noKey item mem

theorem remove_live {s t : NameRun} {conn : Nat}
    (h : s.step (.removeConnectionInLoop conn) = some t) :
    t.live = s.live.filter fun c => c != conn := by
  simp only [step, Option.ite_none_right_eq_some, Option.some.injEq] at h
  obtain ⟨_, rfl⟩ := h
  simp only [live, List.filter_filter]
  refine List.filter_congr fun c _ => ?_
  by_cases same : c = conn
  · simp [same]
  · simp [same]

/-- A removal whose number no other live connection has. -/
theorem remove_numbered {s t : NameRun} {addr : InetAddress} {conn : Nat} (inv : s.Numbered addr)
    (h : s.step (.removeConnectionInLoop conn) = some t)
    (ok : s.NumbersApart (.removeConnectionInLoop conn)) : t.Numbered addr := by
  have live := remove_live h
  simp only [step, Option.ite_none_right_eq_some, Option.some.injEq] at h
  obtain ⟨early, rfl⟩ := h
  refine ⟨inv.ipPort, inv.nextConnId, inv.names, ?_, ?_, ?_, inv.collided⟩
  · rw [live]
    simp only [TcpServer.erase, inv.entries, List.filter_map]
    congr 1
    refine List.filter_congr fun c mem => ?_
    by_cases same : c = conn
    · simp [same]
    · have other : s.name c ≠ s.name conn := by
        intro key
        have entry := entry_of_live inv mem
        exact same (ok _ entry (inv.name_injective (mem_live.mp mem).1 early key))
      exact (bne_iff_ne.mpr other).trans (bne_iff_ne.mpr same).symm
  · rw [live]
    intro c hc d hd
    exact inv.apart c (List.mem_filter.mp hc).1 d (List.mem_filter.mp hd).1
  · intro c later
    have later : s.accepted ≤ c := later
    exact (assign_other s.removed true (by omega)).trans (inv.unborn c later)

/-- A step that uses the number of another live connection takes its entry
away. -/
theorem step_apart {s t : NameRun} {addr : InetAddress} {l : NameAct} (inv : s.Numbered addr)
    (h : s.step l = some t) (distinct : t.Distinct) : s.NumbersApart l := by
  cases l with
  | newConnection sockfd =>
    intro item mem
    cases same : sameId item.2 s.accepted with
    | false => rfl
    | true =>
      have collided := (newConnection_accepts h).collided
      rw [distinct.collided, eq_comm, Bool.or_eq_false_iff, List.any_eq_false] at collided
      have key := (inv.key_iff mem).mpr same
      exact absurd (beq_iff_eq.mpr key) (collided.2 item mem)
  | removeConnectionInLoop conn =>
    intro item mem same
    simp only [step, Option.ite_none_right_eq_some, Option.some.injEq] at h
    obtain ⟨early, rfl⟩ := h
    refine Classical.byContradiction fun other => ?_
    obtain ⟨here, _⟩ := mem_entries inv mem
    obtain ⟨exists_, kept⟩ := mem_live.mp here
    have found := distinct.maps item.2 exists_ ((assign_other _ _ other).trans kept)
    obtain ⟨before, after, parts, _⟩ := List.lookup_eq_some_iff.mp found
    have entry : (s.name item.2, item.2) ∈ (s.server.erase (s.name conn)).connections := by
      rw [parts]
      exact List.mem_append_right _ List.mem_cons_self
    have apart := (List.mem_filter.mp entry).2
    simp [inv.name_sameId exists_ early same] at apart

/-- No entry is ever overwritten or lost exactly when no step uses the number
of another connection that is in `connections_`. -/
theorem distinct_iff {s : NameRun} (hs : s.Start) (ls : List NameAct) :
    machine.Always Distinct s ls ↔ machine.Steps NumbersApart s ls := by
  obtain ⟨addr, numbered⟩ := hs.numbered
  refine Transition.always_iff_steps (I := fun s => s.Numbered addr) ?_ ?_ ?_ numbered ls
  · intro s inv
    exact inv.distinct
  · intro s l t inv h ok
    cases l with
    | newConnection sockfd => exact newConnection_numbered sockfd inv (newConnection_accepts h) ok
    | removeConnectionInLoop conn => exact remove_numbered inv h ok
  · intro s l t inv h distinct
    exact step_apart inv h distinct

/-- A server at 127.0.0.1:8080 with one io loop. -/
def listening : NameRun where
  server :=
    { name := "EchoServer", ipPort := InetAddress.toIpPort ⟨127, 0, 0, 1, 8080⟩,
      connectionCallback := true, messageCallback := true, writeCompleteCallback := false,
      numLoops := 1, next := 0, nextConnId := 1, connections := [] }
  accepted := 0
  name := fun _ => ""
  removed := fun _ => false
  collided := false

theorem listening_start : listening.Start :=
  ⟨⟨_, rfl⟩, rfl, rfl, rfl, fun _ => rfl, rfl⟩

/-- Two connections come, the first goes and a third one comes. -/
theorem distinct_three : machine.Always Distinct listening
    [.newConnection 7, .newConnection 8, .removeConnectionInLoop 0, .newConnection 7,
      .removeConnectionInLoop 0] :=
  (distinct_iff listening_start _).mpr (by decide)

/-- `n` connections come and go, one after the other. -/
def churn : Nat → List NameAct
  | 0 => []
  | n + 1 => churn n ++ [.newConnection 8, .removeConnectionInLoop (n + 1)]

theorem sameId_zero {n : Nat} (h : n + 1 < intRange) : sameId 0 (n + 1) = false := by
  simp only [sameId, intRange, beq_eq_false_iff_ne] at *
  omega

/-- As long as the numbers do not come round, connection 0 stays. -/
theorem churn_exec {s : NameRun} {addr : InetAddress} (inv : s.Numbered addr)
    (one : s.accepted = 1) (live : s.live = [0]) {n : Nat} (h : n < intRange) :
    ∃ t, machine.exec s (churn n) = some t ∧ t.Numbered addr ∧ t.accepted = n + 1 ∧
      t.live = [0] := by
  induction n with
  | zero => exact ⟨s, rfl, inv, one, live⟩
  | succ n ih =>
    obtain ⟨t, ht, inv, accepted, live⟩ := ih (by omega)
    have other := sameId_zero h
    obtain ⟨u, hu⟩ : ∃ u, t.step (.newConnection 8) = some u := ⟨_, rfl⟩
    have accepts := newConnection_accepts hu
    have uinv : u.Numbered addr := by
      refine newConnection_numbered 8 inv accepts fun item mem => ?_
      have first : item.2 = 0 := by simpa [live] using (mem_entries inv mem).1
      rw [first, accepted, other]
    have uaccepted : u.accepted = n + 2 := by rw [accepts.accepted, accepted]
    have ulive : u.live = [0, n + 1] := by rw [accepts_live inv accepts, live, accepted]; rfl
    obtain ⟨v, hv⟩ : ∃ v, u.step (.removeConnectionInLoop (n + 1)) = some v :=
      ⟨_, if_pos (by omega)⟩
    have vlive : v.live = [0] := by
      rw [remove_live hv, ulive]
      simp
    have vaccepted : v.accepted = n + 2 := by
      simp only [step, Option.ite_none_right_eq_some, Option.some.injEq] at hv
      obtain ⟨_, rfl⟩ := hv
      exact uaccepted
    refine ⟨v, ?_, ?_, vaccepted, vlive⟩
    · rw [churn, Machine.exec_append, ht, Option.bind_some]
      show ((t.step (.newConnection 8)).bind fun t =>
        (t.step (.removeConnectionInLoop (n + 1))).bind some) = some v
      rw [hu, Option.bind_some, hv, Option.bind_some]
    · refine remove_numbered uinv hv fun item mem same => ?_
      have either : item.2 = 0 ∨ item.2 = n + 1 := by
        simpa [ulive] using (mem_entries uinv mem).1
      rcases either with first | last
      · rw [first, other] at same
        cases same
      · exact last

/-- When the numbers come round, the next connection takes the name of
connection 0. -/
theorem churn_collides {n : Nat} (h : n + 1 = intRange) : ¬ machine.Always Distinct listening
    (.newConnection 7 :: (churn n ++ [.newConnection 9])) := by
  intro always
  obtain ⟨s, hs⟩ : ∃ s, listening.step (.newConnection 7) = some s := ⟨_, rfl⟩
  obtain ⟨addr, start⟩ := listening_start.numbered
  have accepts := newConnection_accepts hs
  have one : s.accepted = 1 := accepts.accepted
  have live : s.live = [0] := accepts_live start accepts
  have inv : s.Numbered addr := by
    refine newConnection_numbered 7 start accepts fun item mem => ?_
    cases mem
  obtain ⟨t, ht, inv, accepted, live⟩ := churn_exec inv one live (n := n) (by omega)
  obtain ⟨u, hu⟩ : ∃ u, t.step (.newConnection 9) = some u := ⟨_, rfl⟩
  have run : machine.exec listening (.newConnection 7 :: (churn n ++ [.newConnection 9])) =
      some u := by
    show (listening.step (.newConnection 7)).bind (fun t => machine.exec t _) = some u
    rw [hs, Option.bind_some, Machine.exec_append, ht, Option.bind_some]
    show (t.step (.newConnection 9)).bind some = some u
    rw [hu, Option.bind_some]
  have old : (t.name 0, 0) ∈ t.server.connections := entry_of_live inv (by simp [live])
  have differ : sameId 0 t.accepted = false := step_apart inv hu (always.final run) _ old
  rw [accepted, h] at differ
  cases differ

/-- Connection 0 is never removed, and `2 ^ 32 - 1` others come and go. -/
theorem not_distinct_after_wrap : ¬ machine.Always Distinct listening
    (.newConnection 7 :: (churn 4294967295 ++ [.newConnection 9])) :=
  churn_collides rfl

end NameRun
end Kenmuduo
