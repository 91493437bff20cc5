import Kenmuduo.UseCount

/-!
# The channels a loop has still to visit

A loop visits its active channels by raw pointer, and `tie_` guards only the one
it is visiting. Connections are removed by functors that the loop runs after
the pass, but `~TcpServer` runs `connectionDestroyed` at once for connections
of the loop it is called in, and takes the acceptor with it.
-/

namespace Kenmuduo
open Transition

/-- The connection whose channel is put into the poller or kept there. -/
def Executed.registers : Executed → Option Nat
  | updateChannel conn => some conn
  | _ => none

namespace OwnedRun

/-- A loop has still to visit the connection's channel. -/
def active (s : OwnedRun) (conn : Nat) : Bool :=
  (List.range s.threads).any fun loop =>
    ((s.run.frame loop).activeChannels.map Prod.fst).contains conn

/-- When a loop goes on to its next channel, the connection or the server that the
channel belongs to is alive. -/
def ChannelsAlive (s : OwnedRun) : Prop :=
  (∀ loop, loop < s.threads → s.ready loop = true → (s.run.todo loop).isEmpty = true →
    ∀ channel ∈ (s.run.frame loop).activeChannels.head?, s.owned channel.1 = true) ∧
  (s.ready 0 = true → (s.run.todo 0).isEmpty = true → s.acceptorDue = true →
    s.run.server.isSome = true)

instance (s : OwnedRun) : Decidable s.ChannelsAlive :=
  inferInstanceAs (Decidable ((∀ loop, loop < s.threads → s.ready loop = true →
      (s.run.todo loop).isEmpty = true →
      ∀ channel ∈ (s.run.frame loop).activeChannels.head?, s.owned channel.1 = true) ∧
    (s.ready 0 = true → (s.run.todo 0).isEmpty = true → s.acceptorDue = true →
      s.run.server.isSome = true)))

/-- The task that the step takes up. -/
def taken (s : OwnedRun) : ServerAct → Option Task
  | .task thread _ => (s.run.todo thread).head?
  | _ => none

/-- No channel of a destroyed connection is registered, and the server is not
destroyed while its acceptor's channel is to be visited. -/
def Spares (s : OwnedRun) (act : ServerAct) : Prop :=
  (∀ e ∈ s.run.executes act, ∀ conn ∈ e.2.registers, s.run.destroyed conn = false) ∧
  ∀ task ∈ s.taken act, task.ending = true → s.acceptorDue = false

/-- The step keeps what the loops have still to visit. -/
def KeepsActive (s : OwnedRun) (l : OwnerAct) : Prop :=
  s.Keeps active l ∧ ∀ act ∈ l.act, s.Spares act

instance (s : OwnedRun) (act : ServerAct) : Decidable (s.Spares act) :=
  inferInstanceAs (Decidable ((∀ e ∈ s.run.executes act, ∀ conn ∈ e.2.registers,
    s.run.destroyed conn = false) ∧
    ∀ task ∈ s.taken act, task.ending = true → s.acceptorDue = false))

instance (s : OwnedRun) (l : OwnerAct) : Decidable (s.KeepsActive l) :=
  inferInstanceAs (Decidable (s.Keeps active l ∧ ∀ act ∈ l.act, s.Spares act))

/-! ## Channels that are removed -/

/-- Without `updateChannel` a removed channel stays removed. -/
theorem final_removed {c : Channel} {calls : List PollerCall} (removed : c.index = kNew)
    (none : ∀ d, .updateChannel d ∉ calls) : (PollerCall.final c calls).index = kNew := by
  induction calls generalizing c with
  | nil => exact removed
  | cons call calls ih =>
    have later : ∀ d, .updateChannel d ∉ calls := fun d mem => none d (List.mem_cons_of_mem _ mem)
    cases call with
    | updateChannel d => exact absurd List.mem_cons_self (none d)
    | removeChannel d => exact ih rfl later

/-- The channels of destroyed connections are in no poller. -/
def Removed (s : OwnedRun) : Prop :=
  ∀ conn, s.run.destroyed conn = true → (s.run.conn conn).channel.index = kNew

theorem Removed.step {s t : OwnedRun} {act : ServerAct} (removed : s.Removed) (kept : s.Kept)
    (ran : s.run.step act = some t.run) (spares : s.Spares act) : t.Removed := by
  intro conn gone
  rcases (ServerRun.step_destroyed ran conn).mp gone with was | ⟨thread, answer, rest, rfl, next⟩
  · cases ServerRun.step_becomes ran conn with
    | same same =>
      rw [same]
      exact removed conn was
    | new _ _ new _ =>
      have known := kept.early conn was
      omega
    | @ran thread answer task rest effects hact next _ hr =>
      subst hact
      rw [ServerRun.result_channel hr]
      refine final_removed (removed conn was) fun d mem => ?_
      have executed : (thread, .updateChannel conn) ∈ s.run.executes (.task thread answer) := by
        simp only [ServerRun.executes, next]
        refine List.mem_map_of_mem ?_
        simp only [ServerRun.taskExecutes, hr, List.mem_append]
        exact .inl (.inr (List.mem_map_of_mem (f := PollerCall.executed conn) mem))
      have alive := spares.1 _ executed conn rfl
      rw [was] at alive
      cases alive
  · obtain ⟨_, c, effects, result, performs⟩ := ServerRun.step_performs ran next rfl
    rw [performs.conn, assign_same]
    obtain ⟨_, rfl, _⟩ | ⟨_, rfl, _⟩ := TcpConnection.connectionDestroyed_ok result <;> rfl

/-! ## Channels that are active -/

theorem mem_activeChannels {s : ServerRun} {loop conn : Nat} :
    conn ∈ (s.frame loop).activeChannels.map Prod.fst ↔
      .handleError conn ∈ s.work [] (.frame loop) := by
  rw [ServerRun.work_frame]
  cases s.frame loop with
  | polling => simp [LoopFrame.activeChannels, LoopFrame.tasks]
  | dispatching channels => simp [LoopFrame.activeChannels, LoopFrame.tasks]
  | batch functors => simp [LoopFrame.activeChannels, LoopFrame.tasks]

theorem active_iff {s : OwnedRun} {conn : Nat} : s.active conn = true ↔
    ∃ loop, loop < s.threads ∧ .handleError conn ∈ s.run.work [] (.frame loop) := by
  simp only [active, List.any_eq_true, List.mem_range, List.contains_iff_mem, mem_activeChannels]

theorem active_known {s : OwnedRun} (kept : s.Kept) {conn : Nat} (waits : s.active conn = true) :
    conn < s.run.accepted := by
  obtain ⟨loop, _, mem⟩ := active_iff.mp waits
  exact ServerRun.told_known kept.inv (ServerRun.waiting_valid kept.inv mem)

/-- A channel that is still to be visited was so before, or was just reported. -/
theorem active_step {s t : OwnedRun} {l : OwnerAct} {conn : Nat} (h : s.step l = some t)
    (waits : t.active conn = true) : s.active conn = true ∨
      (conn < t.run.accepted ∧ (t.run.conn conn).channel.index = kAdded) := by
  obtain ⟨loop, bound, mem⟩ := active_iff.mp waits
  obtain ⟨threads, ⟨_, same⟩ | ⟨act, _, _, ran⟩⟩ := step_run h
  · rw [same] at mem
    exact .inl (active_iff.mpr ⟨loop, threads ▸ bound, mem⟩)
  rcases ServerRun.step_arrives ran mem with old | arrives
  · exact .inl (active_iff.mpr ⟨loop, threads ▸ bound, old⟩)
  · cases arrives with
    | report can reported =>
      obtain ⟨_, _, ⟨conns, accepted, _⟩ | ⟨_, _, same, _⟩⟩ :=
        (ServerRun.step_quiet ran).resolve_left (by rintro ⟨_, _, same⟩; cases same)
      · simp only [ServerRun.canReport, Bool.and_eq_true, List.all_eq_true, decide_eq_true_eq,
          beq_iff_eq] at can
        obtain ⟨⟨⟨known, _⟩, index⟩, _⟩ := can.2 _ reported
        rw [conns, accepted]
        exact .inr ⟨known, index⟩
      · cases same
    | task _ _ follows => cases follows

theorem follow_acceptorDue {s : OwnedRun} {act : ServerAct} {run : ServerRun}
    (due : (s.follow act run).acceptorDue = true) : s.acceptorDue = true := by
  cases act with
  | newConnection sockfd => cases due
  | dispatch | runFunctor | task =>
    simp only [follow] at due
    split at due <;> exact due
  | _ => exact due

/-- The acceptor's channel is to be visited only while there is a server. -/
theorem acceptor_step {s t : OwnedRun} {l : OwnerAct} (h : s.step l = some t)
    (spares : ∀ act ∈ l.act, s.Spares act)
    (before : s.acceptorDue = true → s.run.server.isSome = true)
    (due : t.acceptorDue = true) : t.run.server.isSome = true := by
  cases l with
  | server act =>
    simp only [step] at h
    split at h
    · obtain ⟨run, ran, rfl⟩ := Option.map_eq_some_iff.mp h
      have was := follow_acceptorDue due
      rw [(s.follow_run act run).1]
      cases ServerRun.step_serves ran with
      | same same =>
        rw [same]
        exact before was
      | accept _ _ now | erase _ _ _ now =>
        rw [now]
        rfl
      | @destroyed thread answer rest hact next _ =>
        subst hact
        have idle := (spares _ rfl).2 (.destroyServer []) (by rw [taken, next]; rfl) rfl
        rw [was] at idle
        cases idle
    · cases h
  | poll loop activeChannels acceptor =>
    simp only [step] at h
    split at h
    · obtain ⟨run, ran, rfl⟩ := Option.map_eq_some_iff.mp h
      have same : run.server = s.run.server := by
        rcases ServerRun.step_quiet ran with ⟨_, _, same⟩ | ⟨_, _, ⟨_, _, same⟩ | ⟨_, _, same, _⟩⟩
        · cases same
        · exact same
        · cases same
      show run.server.isSome = true
      rw [same]
      by_cases base : loop = 0
      · simp only [base, if_true, Bool.and_eq_true] at due
        exact due.2
      · simp only [base, if_false] at due
        exact before due
    · cases h
  | acceptFails =>
    simp only [step] at h
    split at h
    · split at h <;> cases h
      cases due
    · cases h
  | returns thread | copy thread conn | drop thread conn =>
    simp only [step] at h
    split at h <;> cases h
    exact before due

/-! ## Dispatch -/

/-- What holds in every run that keeps what is active. -/
structure Sound (s : OwnedRun) : Prop where
  kept : s.Kept
  swept : s.Swept
  removed : s.Removed
  owned : ∀ conn, s.active conn = true → s.owned conn = true
  acceptor : s.acceptorDue = true → s.run.server.isSome = true

theorem start_sound {s : OwnedRun} (hs : s.Start) : s.Sound := by
  refine ⟨start_kept hs, hs.swept, fun conn gone => ?_, fun conn waits => ?_, fun due => ?_⟩
  · rw [hs.run.destroyed] at gone
    cases gone
  · obtain ⟨loop, _, mem⟩ := active_iff.mp waits
    rw [hs.run.work] at mem
    cases mem
  · rw [hs.acceptorDue] at due
    cases due

theorem Sound.step {s t : OwnedRun} {l : OwnerAct} (sound : s.Sound) (h : s.step l = some t)
    (keeps : s.KeepsActive l) : t.Sound := by
  have kept := sound.kept.step h keeps.1.1
  have removed : t.Removed := by
    obtain ⟨_, ⟨_, same⟩ | ⟨act, hact, _, ran⟩⟩ := step_run h
    · intro conn
      rw [same]
      exact sound.removed conn
    · exact sound.removed.step sound.kept ran (keeps.2 act hact)
  refine ⟨kept, sound.swept.step h, removed, fun conn waits => ?_,
    acceptor_step h keeps.2 sound.acceptor⟩
  rcases active_step h waits with before | ⟨known, added⟩
  · exact keeps.1.owned sound.kept sound.swept h (active_known kept waits) before
      (sound.owned conn before)
  · cases gone : t.run.destroyed conn with
    | false => exact kept.owned known gone
    | true =>
      rw [removed conn gone] at added
      cases added

theorem Sound.alive {s : OwnedRun} (sound : s.Sound) : s.ChannelsAlive := by
  refine ⟨fun loop bound _ _ channel next => ?_, fun _ _ => sound.acceptor⟩
  refine sound.owned _ (List.any_eq_true.mpr ⟨loop, List.mem_range.mpr bound, ?_⟩)
  rw [List.contains_iff_mem]
  exact List.mem_map_of_mem (List.mem_of_mem_head? next)

/-- In every run whose steps keep what is still to be visited, a loop visits
channels of connections and of a server that are alive. -/
theorem channels_alive {s : OwnedRun} (hs : s.Start) {ls : List OwnerAct}
    (keeps : machine.Steps KeepsActive s ls) : machine.Always ChannelsAlive s ls :=
  keeps.always (fun _ sound => sound.alive) (fun _ _ _ sound h ok => sound.step h ok)
    (start_sound hs)

/-- A server without io loops. -/
def single : OwnedRun :=
  { newborn with run := { newborn.run with
      server := newborn.run.server.map fun server => { server with numLoops := 0 } } }

theorem single_start : single.Start := by
  refine ⟨⟨⟨_, rfl, rfl⟩, rfl, fun _ => rfl, fun _ => rfl, fun _ => rfl, fun _ => rfl,
    fun _ => rfl⟩, fun server hs => ?_, fun _ _ => rfl, fun _ => rfl, fun _ => rfl, fun _ => rfl,
    fun _ => rfl, rfl⟩
  cases hs
  exact ⟨rfl, by decide⟩

/-- The base loop accepts a connection. -/
def accepting (sockfd : Nat) : List OwnerAct :=
  [.poll 0 [] true, .server (.newConnection sockfd), .server (.task 0 ServerRun.eof),
    .server (.task 0 ServerRun.eof), .returns 0, .server (.dispatch 0 true),
    .server (.runFunctor 0)]

/-- A byte for a connection. -/
def byte : Answer := ⟨.delivered [0], .accepted 0, fun _ => 0⟩

/-- In the message callback of connection 0 the server is destroyed, and with it
both connections. -/
def destroying : List OwnerAct :=
  [.server (.task 0 byte), .server (.destroyServer 0 [0, 1]), .server (.task 0 byte),
    .server (.task 0 byte), .server (.task 0 byte), .returns 0, .server (.task 0 byte),
    .server (.task 0 byte), .server (.task 0 byte), .returns 0, .server (.task 0 byte),
    .returns 0]

/-- Connection 0 comes last in the pass. -/
theorem channels_alive_last : machine.Always ChannelsAlive single
    (accepting 7 ++ accepting 8 ++ [.poll 0 [(1, EPOLLIN), (0, EPOLLIN)] false,
      .server (.dispatch 0 true), .server (.task 0 byte), .returns 0,
      .server (.dispatch 0 true)] ++ destroying) :=
  channels_alive single_start (by decide +kernel)

/-- Connection 0 comes first: the channel of connection 1 is gone when the loop
comes to it. -/
theorem not_channels_alive_first : single.Start ∧
    ∃ s, machine.exec single (accepting 7 ++ accepting 8 ++
      [.poll 0 [(0, EPOLLIN), (1, EPOLLIN)] false, .server (.dispatch 0 true)] ++
      destroying) = some s ∧ s.owned 1 = false ∧ ¬ s.ChannelsAlive := by
  have run : (machine.exec single (accepting 7 ++ accepting 8 ++
      [.poll 0 [(0, EPOLLIN), (1, EPOLLIN)] false, .server (.dispatch 0 true)] ++
      destroying)).map (fun s => (s.owned 1, decide s.ChannelsAlive)) = some (false, false) := by
    decide +kernel
  obtain ⟨s, hs, found⟩ := Option.map_eq_some_iff.mp run
  simp only [Prod.mk.injEq, decide_eq_false_iff_not] at found
  exact ⟨single_start, s, hs, found⟩

end OwnedRun
end Kenmuduo
