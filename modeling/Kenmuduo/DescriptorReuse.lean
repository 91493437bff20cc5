import Kenmuduo.DescriptorLedger
import Kenmuduo.DestroyedQuiet

/-!
# The epoll sets while descriptors are used again

The server with the epoll set of each of its loops. A closed descriptor leaves
every epoll set, and the kernel gives its number to a later connection, whose
channel may be on another loop. A poller's map can still have the old channel
then, but the epoll set cannot.
-/

namespace Kenmuduo
open Transition

namespace EPollPoller

variable {ι : Type}

/-- How the map and the epoll set describe channel `c`, named `i`, when the map may
have another channel under the descriptor of a new one. -/
inductive Tracks (p : EPollPoller ι) (i : ι) (c : Channel) : Prop
  | absent : c.index = kNew → p.interest c.fd = none → Tracks p i c
  | added : c.index = kAdded → p.channels c.fd = some i →
      p.interest c.fd = some ⟨c.events, i⟩ → Tracks p i c
  | deleted : c.index = kDeleted → p.channels c.fd = some i → p.interest c.fd = none →
      Tracks p i c

/-- The map without what it has under the descriptor of a new channel. -/
def clears (p : EPollPoller ι) (c : Channel) : EPollPoller ι :=
  if c.index = kNew then { p with channels := assign p.channels c.fd none } else p

theorem Agrees.tracks {p : EPollPoller ι} {i : ι} {c : Channel} (h : p.Agrees i c) :
    p.Tracks i c := by
  cases h with
  | absent new _ empty => exact .absent new empty
  | added added known there => exact .added added known there
  | deleted deleted known empty => exact .deleted deleted known empty

theorem Tracks.agrees {p : EPollPoller ι} {i : ι} {c : Channel} (h : p.Tracks i c) :
    (p.clears c).Agrees i c := by
  cases h with
  | absent new empty =>
    rw [clears, if_pos new]
    exact .absent new (assign_same _ _ _) empty
  | added added known there =>
    rw [clears, if_neg (by rw [added]; decide)]
    exact .added added known there
  | deleted deleted known empty =>
    rw [clears, if_neg (by rw [deleted]; decide)]
    exact .deleted deleted known empty

/-- An entry under the channel's descriptor is the channel's own. -/
theorem Tracks.listed {p : EPollPoller ι} {i : ι} {c : Channel} {event : EpollEvent ι}
    (h : p.Tracks i c) (here : p.interest c.fd = some event) : event.ptr = i := by
  cases h with
  | absent _ empty | deleted _ _ empty =>
    rw [empty] at here
    cases here
  | added _ _ there =>
    rw [there] at here
    cases here
    rfl

theorem Tracks.frame {p q : EPollPoller ι} {i : ι} {c : Channel} {fd : Nat} (h : p.Tracks i c)
    (frame : Frame p q fd) (ne : c.fd ≠ fd) : q.Tracks i c := by
  have channels := frame.channels c.fd ne
  have interest := frame.interest c.fd ne
  cases h with
  | absent new empty => exact .absent new (interest.trans empty)
  | added added known there => exact .added added (channels.trans known) (interest.trans there)
  | deleted deleted known empty =>
    exact .deleted deleted (channels.trans known) (interest.trans empty)

theorem assign_assign {α β : Type} [DecidableEq α] (f : α → β) (i : α) (b b' : β) :
    assign (assign f i b) i b' = assign f i b' := by
  funext j
  unfold assign
  split <;> rfl

/-- The poller does not look at the map before it writes there. -/
theorem clears_call (p : EPollPoller ι) (i : ι) {c : Channel} {call : PollerCall}
    (fd : call.channel.fd = c.fd) (index : call.channel.index = c.index) :
    (p.clears c).call i call = p.call i call := by
  unfold clears
  split
  · rename_i new
    rw [← fd]
    rw [← index] at new
    cases call with
    | updateChannel d =>
      have new : d.index = kNew := new
      simp only [call, updateChannel, PollerCall.channel, new, true_or, if_true, assign_assign]
    | removeChannel d => simp only [call, removeChannel, PollerCall.channel, assign_assign]
  · rfl

theorem removeChannel_channel {p q : EPollPoller ι} {i : ι} {c c' : Channel}
    (h : p.removeChannel i c = .ok (q, c')) : c' = c.remove := by
  unfold EPollPoller.removeChannel at h
  dsimp only at h
  split at h
  · obtain ⟨_, _, result⟩ := bind_ok_iff.mp h
    cases result
    rfl
  · cases h
    rfl

/-- A deletion does not look at the interest. -/
theorem removeChannel_events (p : EPollPoller ι) (i : ι) (c : Channel) (events : Mask) :
    p.call i (.removeChannel { c with events := events }) = p.call i (.removeChannel c) := by
  unfold call EPollPoller.removeChannel update epollCtl
  dsimp only
  split
  · cases p.interest c.fd <;> rfl
  · rfl

theorem Agrees.like {p : EPollPoller ι} {i : ι} {c d : Channel} (h : p.Agrees i c)
    (fd : d.fd = c.fd) (index : d.index = c.index) :
    p.Agrees i { d with events := c.events } := by
  cases h with
  | absent new known empty => exact .absent (index.trans new) (fd ▸ known) (fd ▸ empty)
  | added added known there => exact .added (index.trans added) (fd ▸ known) (fd ▸ there)
  | deleted deleted known empty =>
    exact .deleted (index.trans deleted) (fd ▸ known) (fd ▸ empty)

/-- Whatever the new interest, the call finds the descriptor where the index says
it is. -/
theorem Tracks.call {p : EPollPoller ι} {i : ι} {c : Channel} {call : PollerCall}
    (h : p.Tracks i c) (fd : call.channel.fd = c.fd) (index : call.channel.index = c.index) :
    ∃ q, p.call i call = .ok q ∧ q.Tracks i call.leaves ∧ Frame p q c.fd := by
  have frame {q : EPollPoller ι} (moved : Frame (p.clears c) q c.fd) : Frame p q c.fd := by
    unfold clears at moved
    split at moved
    · refine ⟨fun other apart => ?_, moved.interest, moved.failures⟩
      rw [moved.channels other apart]
      exact assign_other _ _ apart
    · exact moved
  rw [← p.clears_call i fd index]
  cases call with
  | updateChannel d =>
    obtain ⟨q, c', ok, _, after, moved⟩ := (h.agrees.like fd index).updateChannel d.events
    obtain rfl := updateChannel_channel ok
    exact ⟨q, map_ok_iff.mpr ⟨_, ok, rfl⟩, after.tracks, frame (fd ▸ moved)⟩
  | removeChannel d =>
    obtain ⟨q, c', ok, same, after, moved⟩ := (h.agrees.like fd index).removeChannel
    have ran : (p.clears c).call i (.removeChannel { d with events := c.events }) = .ok q :=
      map_ok_iff.mpr ⟨_, ok, rfl⟩
    rw [removeChannel_events] at ran
    obtain rfl := removeChannel_channel ok
    refine ⟨q, ran, ?_, frame (fd ▸ moved)⟩
    cases after with
    | absent _ _ empty => exact .absent rfl empty
    | added added _ _ => cases added
    | deleted deleted _ _ => cases deleted

/-- The same for calls that follow one another. -/
theorem Tracks.calls {p : EPollPoller ι} {i : ι} {c : Channel} {calls : List PollerCall}
    (h : p.Tracks i c) (chain : PollerCall.Chain c calls) :
    ∃ q, p.calls i calls = .ok q ∧ q.Tracks i (PollerCall.final c calls) ∧ Frame p q c.fd := by
  induction calls generalizing p c with
  | nil => exact ⟨p, rfl, h, fun _ _ => rfl, fun _ _ => rfl, rfl⟩
  | cons call calls ih =>
    obtain ⟨fd, index, chain⟩ := chain
    obtain ⟨q, first, after, frame⟩ := h.call fd index
    obtain ⟨r, rest, last, frame'⟩ := ih after chain
    rw [PollerCall.leaves_fd, fd] at frame'
    refine ⟨r, bind_ok_iff.mpr ⟨q, first, rest⟩, last, ?_⟩
    constructor
    · intro other apart
      rw [frame'.channels other apart, frame.channels other apart]
    · intro other apart
      rw [frame'.interest other apart, frame.interest other apart]
    · rw [frame'.failures, frame.failures]

end EPollPoller

/-! ## The ledger's descriptors -/

/-- A function of a connection makes its poller calls; the other steps leave the
connections that exist alone. -/
theorem ServerRun.step_doing {s t : ServerRun} {l : ServerAct} (h : s.step l = some t) :
    (s.doing l = none ∧ ∀ conn, conn < s.accepted → t.conn conn = s.conn conn) ∨
    ∃ d c, s.doing l = some d ∧ t.accepted = s.accepted ∧ t.conn = assign s.conn d.conn c ∧
      c.loop = (s.conn d.conn).loop ∧ PollerCall.Chain (s.conn d.conn).channel d.calls ∧
      c.channel = PollerCall.final (s.conn d.conn).channel d.calls := by
  cases hd : s.doing l with
  | none =>
    refine .inl ⟨rfl, fun conn early => ?_⟩
    cases step_becomes h conn with
    | same same => exact same
    | new _ _ next _ => omega
    | ran hl next _ hr =>
      subst hl
      simp only [doing, next, hr] at hd
      cases hd
  | some d =>
    obtain ⟨thread, answer, rest, c, rfl, next, hr, calls⟩ := PolledRun.doing_task hd
    obtain ⟨_, c', effects, same, performs⟩ := step_performs h next hr
    cases same
    exact .inr ⟨d, c, rfl, performs.accepted, performs.conn, result_loop hr,
      calls ▸ PolledRun.pollerCalls_chain hr, calls ▸ result_channel hr⟩

theorem PollerCall.final_fd {c : Channel} {calls : List PollerCall} (chain : Chain c calls) :
    (final c calls).fd = c.fd := by
  induction calls generalizing c with
  | nil => rfl
  | cons call calls ih =>
    obtain ⟨fd, _, chain⟩ := chain
    rw [final, ih chain, leaves_fd, fd]

namespace LedgerRun

/-- What the step does in a function of a connection. -/
def doing (s : LedgerRun) : LedgerAct → Option Doing
  | .owner (.server l) => s.owned.run.doing l
  | _ => none

/-- The Sockets that exist have their descriptors open, each its own. -/
structure Apart (s : LedgerRun) : Prop where
  held : ∀ item ∈ s.sockets, s.descriptors item.2 = .accepted
  apart : ∀ item ∈ s.sockets, ∀ other ∈ s.sockets, item.2 = other.2 → item = other

/-- Nothing of this rests on what was taken and closed before. -/
theorem Apart.kept {s : LedgerRun} (h : s.Apart) : ({ s with ledger := [] } : LedgerRun).Kept :=
  ⟨trivial, h.held, h.apart⟩

theorem closeAll_descriptors (s : LedgerRun) (fds : List Nat) (fd : Nat) :
    (fds.foldl close s).descriptors fd = if fd ∈ fds then .closed else s.descriptors fd := by
  induction fds generalizing s with
  | nil => rfl
  | cons first fds ih =>
    rw [List.foldl_cons, ih]
    by_cases later : fd ∈ fds
    · rw [if_pos later, if_pos (List.mem_cons_of_mem first later)]
    · by_cases here : fd = first
      · rw [if_neg later, if_pos (here ▸ List.mem_cons_self), here]
        exact assign_same _ _ _
      · rw [if_neg later, if_neg (by simp [here, later])]
        exact assign_other _ _ here

theorem sweep_descriptors (s : LedgerRun) (fd : Nat) : s.sweep.descriptors fd =
    if fd ∈ s.gone.map Prod.snd then .closed else s.descriptors fd :=
  closeAll_descriptors _ _ fd

theorem Apart.sweep {s : LedgerRun} (h : s.Apart) : s.sweep.Apart := by
  have kept := h.kept.sweep
  have sockets : ({ s with ledger := [] } : LedgerRun).sweep.sockets = s.sweep.sockets := by
    rw [(sweep_keeps _).1, s.sweep_keeps.1]
  constructor
  · intro item mem
    have open_ := kept.held item (sockets ▸ mem)
    rw [sweep_descriptors] at open_
    rwa [sweep_descriptors]
  · intro item mem other mem'
    exact kept.apart item (sockets ▸ mem) other (sockets ▸ mem')

theorem Apart.follow {s : LedgerRun} (h : s.Apart) (owned : OwnedRun) : (s.follow owned).Apart := by
  have same : ({ s with owned := owned } : LedgerRun).Apart := ⟨h.held, h.apart⟩
  exact same.sweep

theorem Apart.turn {s t : LedgerRun} {l : OwnerAct} (h : s.Apart) (turns : s.turn l = some t) :
    t.Apart := by
  obtain ⟨owned, _, rfl⟩ := Option.map_eq_some_iff.mp turns
  exact h.follow owned

theorem Apart.elsewhere {s : LedgerRun} (h : s.Apart) {fd : Nat} (descriptor : Descriptor)
    (foreign : s.descriptors fd ≠ .accepted) :
    ({ s with descriptors := assign s.descriptors fd descriptor } : LedgerRun).Apart :=
  ⟨(h.kept.elsewhere foreign).held, h.apart⟩

theorem Apart.step {s t : LedgerRun} {l : LedgerAct} (h : s.Apart) (hs : s.step l = some t) :
    t.Apart := by
  cases stepped hs with
  | @connect connfd _ _ free _ turns =>
    have next : ((s.take connfd.toNat).construct connfd.toNat).Apart :=
      ⟨(h.kept.connect free).held, (h.kept.connect free).apart⟩
    exact next.turn turns
  | @refuse connfd _ _ free _ turns =>
    have next : ((s.take connfd.toNat).close connfd.toNat).Apart :=
      ⟨(h.kept.refuse free).held, (h.kept.refuse free).apart⟩
    exact next.turn turns
  | lose free turns =>
    have next : (s.take 0).Apart := by
      have foreign : s.descriptors 0 ≠ .accepted := by rw [free]; exact Descriptor.noConfusion
      have open_ := h.elsewhere .accepted foreign
      exact ⟨open_.held, open_.apart⟩
    exact next.turn turns
  | fail _ turns | owner _ turns => exact h.turn turns
  | endLoop _ => exact h.follow _
  | opens closed => exact h.elsewhere _ (by rw [closed]; exact Descriptor.noConfusion)
  | closes other => exact h.elsewhere _ (by rw [other]; exact Descriptor.noConfusion)

/-! ### Sockets that come and go -/

theorem follow_owned (s : LedgerRun) (owned : OwnedRun) : (s.follow owned).owned = owned := by
  have closes (s : LedgerRun) (fds : List Nat) : (fds.foldl close s).owned = s.owned := by
    induction fds generalizing s with
    | nil => rfl
    | cons first fds ih => exact ih (s.close first)
  exact closes _ _

theorem follow_parts (s : LedgerRun) (owned : OwnedRun) {item : Nat × Nat}
    (mem : item ∈ s.sockets) :
    item ∈ (s.follow owned).sockets ∨ (s.follow owned).descriptors item.2 = .closed := by
  cases stays : owned.owned item.1 with
  | true =>
    left
    rw [follow, (sweep_keeps _).1]
    exact List.mem_filter.mpr ⟨mem, stays⟩
  | false =>
    right
    rw [follow, sweep_descriptors, if_pos]
    apply List.mem_map_of_mem
    exact List.mem_filter.mpr ⟨mem, by simp [stays]⟩

theorem follow_sockets {s : LedgerRun} {owned : OwnedRun} {item : Nat × Nat}
    (mem : item ∈ (s.follow owned).sockets) : item ∈ s.sockets := by
  rw [follow, (sweep_keeps _).1] at mem
  exact (List.mem_filter.mp mem).1

/-- A Socket goes on to exist, or its descriptor is closed. -/
theorem step_parts {s t : LedgerRun} {l : LedgerAct} (h : s.step l = some t) {item : Nat × Nat}
    (mem : item ∈ s.sockets) : item ∈ t.sockets ∨ t.descriptors item.2 = .closed := by
  cases stepped h with
  | connect _ _ _ turns =>
    obtain ⟨owned, _, rfl⟩ := Option.map_eq_some_iff.mp turns
    exact follow_parts _ _ (List.mem_append_left _ mem)
  | refuse _ _ _ turns | lose _ turns | fail _ turns | owner _ turns =>
    obtain ⟨owned, _, rfl⟩ := Option.map_eq_some_iff.mp turns
    exact follow_parts _ _ mem
  | endLoop _ => exact follow_parts _ _ mem
  | opens _ | closes _ => exact .inl mem

/-- A Socket was there before, or is the one of a new connection. -/
theorem step_sockets {s t : LedgerRun} {l : LedgerAct} (h : s.step l = some t) {item : Nat × Nat}
    (mem : item ∈ t.sockets) : item ∈ s.sockets ∨
      (s.descriptors item.2 = .closed ∧ item.1 < t.owned.run.accepted ∧
        (t.owned.run.conn item.1).channel = Channel.new item.2) := by
  cases stepped h with
  | connect _ free _ turns =>
    obtain ⟨owned, ran, rfl⟩ := Option.map_eq_some_iff.mp turns
    rcases mem_construct (follow_sockets mem) with old | rfl
    · exact .inl old
    · obtain ⟨_, ⟨none, _⟩ | ⟨act, same, _, ran⟩⟩ := OwnedRun.step_run ran
      · cases none
      · cases same
        obtain ⟨server, _, conn, _, accepted, _⟩ := ServerRun.step_accepts ran
        rw [follow_owned, conn, accepted]
        exact .inr ⟨free, Nat.lt_succ_self _, congrArg TcpConnection.channel (assign_same _ _ _)⟩
  | refuse _ _ _ turns | lose _ turns | fail _ turns | owner _ turns =>
    obtain ⟨owned, _, rfl⟩ := Option.map_eq_some_iff.mp turns
    have old := follow_sockets mem
    exact .inl old
  | endLoop _ => exact .inl (follow_sockets mem)
  | opens _ | closes _ => exact .inl mem

/-- A step of the server, or one that leaves the connections alone. -/
theorem step_acts {s t : LedgerRun} {l : LedgerAct} (h : s.step l = some t) :
    (s.doing l = none ∧ t.owned.run.conn = s.owned.run.conn ∧
      t.owned.run.accepted = s.owned.run.accepted) ∨
    ∃ act, s.doing l = s.owned.run.doing act ∧ s.owned.run.step act = some t.owned.run := by
  cases stepped h with
  | connect _ _ _ turns =>
    obtain ⟨owned, ran, rfl⟩ := Option.map_eq_some_iff.mp turns
    obtain ⟨_, ⟨none, _⟩ | ⟨act, same, _, ran⟩⟩ := OwnedRun.step_run ran
    · cases none
    · cases same
      rw [follow_owned]
      exact .inr ⟨_, rfl, ran⟩
  | refuse _ _ _ turns | lose _ turns | fail _ turns =>
    obtain ⟨owned, ran, rfl⟩ := Option.map_eq_some_iff.mp turns
    obtain ⟨_, ⟨_, same⟩ | ⟨act, none, _⟩⟩ := OwnedRun.step_run ran
    · rw [follow_owned, same]
      exact .inl ⟨rfl, rfl, rfl⟩
    · cases none
  | @owner l _ _ turns =>
    obtain ⟨owned, ran, rfl⟩ := Option.map_eq_some_iff.mp turns
    rw [follow_owned]
    obtain ⟨_, ⟨none, same⟩ | ⟨act, here, _, ran⟩⟩ := OwnedRun.step_run ran
    · rw [same]
      cases l with
      | server _ | poll _ _ _ => cases none
      | acceptFails | returns _ | copy _ _ | drop _ _ => exact .inl ⟨rfl, rfl, rfl⟩
    · refine .inr ⟨act, ?_, ran⟩
      cases l with
      | server _ | poll _ _ _ =>
        cases here
        rfl
      | acceptFails | returns _ | copy _ _ | drop _ _ => cases here
  | @endLoop loop owned ends =>
    rw [follow_owned]
    unfold OwnedRun.endLoop at ends
    split at ends
    · split at ends
      · cases ends
        exact .inl ⟨rfl, rfl, rfl⟩
      · cases ends
    · cases ends
  | opens _ | closes _ => exact .inl ⟨rfl, rfl, rfl⟩

end LedgerRun

/-! ## The epoll sets -/

structure EpollRun where
  ledger : LedgerRun
  /-- What the poller of each loop has of connections, by their descriptors. -/
  poller : Nat → EPollPoller Nat
  /-- A `LOG_FATAL` of the poller has ended the process. -/
  exited : Bool

/-- Closed descriptors leave the epoll set. -/
def EPollPoller.without {ι : Type} (p : EPollPoller ι) (descriptors : Nat → Descriptor) :
    EPollPoller ι :=
  { p with interest := fun fd => if descriptors fd = .closed then none else p.interest fd }

theorem EPollPoller.Tracks.without {ι : Type} {p : EPollPoller ι} {i : ι} {c : Channel}
    (h : p.Tracks i c) {descriptors : Nat → Descriptor} (open_ : descriptors c.fd ≠ .closed) :
    (p.without descriptors).Tracks i c := by
  have interest : (p.without descriptors).interest c.fd = p.interest c.fd := if_neg open_
  cases h with
  | absent new empty => exact .absent new (interest.trans empty)
  | added added known there => exact .added added known (interest.trans there)
  | deleted deleted known empty => exact .deleted deleted known (interest.trans empty)

/-- The call puts the channel's descriptor into the epoll set. -/
def PollerCall.adds : PollerCall → Bool
  | updateChannel c => c.index = kNew || c.index = kDeleted
  | removeChannel _ => false

namespace LedgerRun

/-- The connection whose memory the step uses. -/
def touched (s : LedgerRun) : LedgerAct → Option Nat
  | .owner (.server (.dispatch loop _)) =>
    (s.owned.run.frame loop).activeChannels.head?.map Prod.fst
  | l => (s.doing l).map Doing.conn

/-- The connection is not destroyed. -/
def lives (s : LedgerRun) (conn : Nat) : Bool := s.sockets.any fun item => item.1 == conn

end LedgerRun

namespace EpollRun

def run (s : EpollRun) : ServerRun := s.ledger.owned.run

/-- `epoll_wait` reports what is in the loop's epoll set. -/
def reports (s : EpollRun) : LedgerAct → Bool
  | .owner (.poll loop activeChannels _) => activeChannels.all fun (conn, _) =>
    ((s.poller loop).interest (s.run.conn conn).channel.fd).any fun event => event.ptr == conn
  | _ => true

/-- The poller calls of a function of a connection. No epoll set takes a
descriptor that is closed. -/
def pollerCalls (s : EpollRun) (d : Doing) : Except Exit (EPollPoller Nat) :=
  let c := s.run.conn d.conn
  if s.ledger.descriptors c.channel.fd = .closed ∧ d.calls.any PollerCall.adds then .error .fatal
  else (s.poller c.loop).calls d.conn d.calls

/-- A step of the server's connections with its poller calls. A function of a
connection that is destroyed finds in its memory what was there before. -/
def step (s : EpollRun) (l : LedgerAct) : Option EpollRun :=
  if !s.exited && s.reports l then
    (s.ledger.step l).map fun ledger =>
      match s.ledger.doing l with
      | some d =>
        match s.pollerCalls d with
        | .ok poller =>
          { s with
            ledger := ledger
            poller := fun loop =>
              (assign s.poller (s.run.conn d.conn).loop poller loop).without ledger.descriptors }
        | .error _ => { s with exited := true }
      | none =>
        { s with
          ledger := ledger
          poller := fun loop => (s.poller loop).without ledger.descriptors }
  else none

structure Start (s : EpollRun) : Prop where
  ledger : s.ledger.Start
  poller : ∀ loop, s.poller loop = .new
  exited : s.exited = false

def machine : Machine EpollRun LedgerAct := ⟨Start, step⟩

/-- The step does not use a connection that is destroyed. -/
def UsesLiving (s : EpollRun) (l : LedgerAct) : Prop :=
  ∀ conn ∈ s.ledger.touched l, s.ledger.lives conn = true

instance (s : EpollRun) (l : LedgerAct) : Decidable (s.UsesLiving l) :=
  inferInstanceAs (Decidable (∀ conn ∈ s.ledger.touched l, s.ledger.lives conn = true))

/-- The epoll set of each loop holds the registered channels of the connections
that exist on the loop, under their descriptors and with their interest. -/
def Exact (s : EpollRun) : Prop := ∀ loop fd event, (s.poller loop).interest fd = some event ↔
  (event.ptr, fd) ∈ s.ledger.sockets ∧ (s.run.conn event.ptr).loop = loop ∧
    (s.run.conn event.ptr).channel.index = kAdded ∧
    (s.run.conn event.ptr).channel.events = event.events

/-- The pollers have the channels of some Sockets' connections and no others. -/
structure Lists (sockets : List (Nat × Nat)) (run : ServerRun)
    (poller : Nat → EPollPoller Nat) : Prop where
  named : ∀ item ∈ sockets, item.1 < run.accepted ∧ (run.conn item.1).channel.fd = item.2
  tracks : ∀ item ∈ sockets,
    (poller (run.conn item.1).loop).Tracks item.1 (run.conn item.1).channel
  listed : ∀ loop fd event, (poller loop).interest fd = some event →
    (event.ptr, fd) ∈ sockets ∧ (run.conn event.ptr).loop = loop
  failures : ∀ loop, (poller loop).failures = 0

/-- No function of the connections runs. -/
theorem Lists.rests {sockets : List (Nat × Nat)} {run next : ServerRun}
    {poller : Nat → EPollPoller Nat} (h : Lists sockets run poller)
    (grows : run.accepted ≤ next.accepted)
    (same : ∀ conn, conn < run.accepted → next.conn conn = run.conn conn) :
    Lists sockets next poller := by
  constructor
  · intro item mem
    obtain ⟨early, fd⟩ := h.named item mem
    rw [same _ early]
    exact ⟨Nat.lt_of_lt_of_le early grows, fd⟩
  · intro item mem
    rw [same _ (h.named item mem).1]
    exact h.tracks item mem
  · intro loop fd event here
    obtain ⟨mem, on⟩ := h.listed loop fd event here
    rw [same _ (h.named _ mem).1]
    exact ⟨mem, on⟩
  · exact h.failures

/-- A function of a connection makes its calls, and none of them fails. -/
theorem Lists.calls {sockets : List (Nat × Nat)} {run next : ServerRun}
    {poller : Nat → EPollPoller Nat} (h : Lists sockets run poller)
    (apart : ∀ item ∈ sockets, ∀ other ∈ sockets, item.2 = other.2 → item = other)
    {conn fd : Nat} (mem : (conn, fd) ∈ sockets) {calls : List PollerCall} {c : TcpConnection}
    (chain : PollerCall.Chain (run.conn conn).channel calls)
    (accepted : next.accepted = run.accepted) (becomes : next.conn = assign run.conn conn c)
    (loop : c.loop = (run.conn conn).loop)
    (channel : c.channel = PollerCall.final (run.conn conn).channel calls) :
    ∃ p, (poller (run.conn conn).loop).calls conn calls = .ok p ∧
      Lists sockets next (assign poller (run.conn conn).loop p) := by
  obtain ⟨p, ok, after, frame⟩ := (h.tracks _ mem).calls chain
  have own : (run.conn conn).channel.fd = fd := (h.named _ mem).2
  have own' : c.channel.fd = fd := by rw [channel, PollerCall.final_fd chain, own]
  have loops (k : Nat) : (next.conn k).loop = (run.conn k).loop := by
    rw [becomes, assign]
    split
    · rename_i here
      rw [here, loop]
    · rfl
  have elsewhere {item : Nat × Nat} (mem' : item ∈ sockets) (other : item.1 ≠ conn) :
      item.2 ≠ (run.conn conn).channel.fd := by
    intro same
    apply other
    rw [own] at same
    rw [apart item mem' _ mem same]
  refine ⟨p, ok, ?_, ?_, ?_, ?_⟩
  · intro item mem'
    obtain ⟨early, at_⟩ := h.named item mem'
    rw [accepted, becomes, assign]
    split
    · rename_i here
      rw [here, own] at at_
      exact ⟨early, own'.trans at_⟩
    · exact ⟨early, at_⟩
  · intro item mem'
    rw [loops]
    by_cases here : item.1 = conn
    · rw [here, becomes, assign_same, assign_same, channel]
      exact after
    · rw [becomes, assign_other _ _ here]
      have was := h.tracks item mem'
      have away := elsewhere mem' here
      rw [← (h.named item mem').2] at away
      by_cases same : (run.conn item.1).loop = (run.conn conn).loop
      · rw [same] at was ⊢
        rw [assign_same]
        exact was.frame frame away
      · rwa [assign_other _ _ same]
  · intro loop' k event here
    rw [loops]
    by_cases same : loop' = (run.conn conn).loop
    · subst same
      rw [assign_same] at here
      by_cases at_ : k = (run.conn conn).channel.fd
      · have ptr := after.listed (by rw [PollerCall.final_fd chain, ← at_]; exact here)
        rw [at_, ptr, own]
        exact ⟨mem, rfl⟩
      · rw [frame.interest k at_] at here
        exact h.listed _ k event here
    · rw [assign_other _ _ same] at here
      exact h.listed loop' k event here
  · intro loop'
    rw [assign]
    split
    · rw [frame.failures]
      exact h.failures _
    · exact h.failures loop'

/-- What is destroyed leaves the epoll sets, and a new connection finds none of it. -/
theorem Lists.without {s t : LedgerRun} {l : LedgerAct} {poller : Nat → EPollPoller Nat}
    (h : Lists s.sockets t.owned.run poller) (apart : s.Apart) (hs : s.step l = some t) :
    Lists t.sockets t.owned.run fun loop => (poller loop).without t.descriptors := by
  have entry {loop fd : Nat} {event : EpollEvent Nat}
      (here : ((poller loop).without t.descriptors).interest fd = some event) :
      t.descriptors fd ≠ .closed ∧ (poller loop).interest fd = some event := by
    simp only [EPollPoller.without] at here
    split at here
    · cases here
    · rename_i open_
      exact ⟨open_, here⟩
  constructor
  · intro item mem
    rcases LedgerRun.step_sockets hs mem with old | ⟨_, early, channel⟩
    · exact h.named item old
    · exact ⟨early, by rw [channel]; rfl⟩
  · intro item mem
    have open_ := (apart.step hs).held item mem
    rcases LedgerRun.step_sockets hs mem with old | ⟨free, _, channel⟩
    · exact (h.tracks item old).without (by rw [(h.named item old).2, open_]; decide)
    · rw [channel]
      apply EPollPoller.Tracks.absent rfl
      cases there : ((poller (t.owned.run.conn item.1).loop).without t.descriptors).interest item.2
        with
      | none => exact there
      | some event =>
        have was := (h.listed _ _ _ (entry there).2).1
        have held := apart.held _ was
        rw [free] at held
        cases held
  · intro loop fd event here
    obtain ⟨open_, here⟩ := entry here
    obtain ⟨mem, on⟩ := h.listed loop fd event here
    exact ⟨(LedgerRun.step_parts hs mem).resolve_right open_, on⟩
  · exact h.failures

structure Kept (s : EpollRun) : Prop where
  apart : s.ledger.Apart
  lists : Lists s.ledger.sockets s.run s.poller
  exited : s.exited = false

theorem Start.kept {s : EpollRun} (h : s.Start) : s.Kept := by
  have kept := LedgerRun.start_kept h.ledger
  have none (item : Nat × Nat) : item ∉ s.ledger.sockets := by
    rw [h.ledger.sockets]
    exact List.not_mem_nil
  refine ⟨⟨kept.held, kept.apart⟩, ⟨?_, ?_, ?_, ?_⟩, h.exited⟩
  · intro item mem
    exact absurd mem (none item)
  · intro item mem
    exact absurd mem (none item)
  · intro loop fd event here
    rw [h.poller] at here
    cases here
  · intro loop
    rw [h.poller]
    rfl

theorem lives_iff {s : LedgerRun} {conn : Nat} :
    s.lives conn = true ↔ ∃ fd, (conn, fd) ∈ s.sockets := by
  rw [LedgerRun.lives, List.any_eq_true]
  constructor
  · rintro ⟨⟨k, fd⟩, mem, same⟩
    exact ⟨fd, beq_iff_eq.mp same ▸ mem⟩
  · rintro ⟨fd, mem⟩
    exact ⟨_, mem, beq_self_eq_true conn⟩

theorem touched_doing {s : LedgerRun} {l : LedgerAct} {d : Doing} (h : s.doing l = some d) :
    s.touched l = some d.conn := by
  unfold LedgerRun.touched
  split
  · cases h
  · rw [h]
    rfl

/-- A connection that is not destroyed has its descriptor open. -/
theorem Kept.pollerCalls {s : EpollRun} (kept : s.Kept) {d : Doing} {fd : Nat}
    (mem : (d.conn, fd) ∈ s.ledger.sockets) :
    s.pollerCalls d = (s.poller (s.run.conn d.conn).loop).calls d.conn d.calls := by
  have open_ : s.ledger.descriptors (s.run.conn d.conn).channel.fd ≠ .closed := by
    rw [(kept.lists.named _ mem).2, kept.apart.held _ mem]
    decide
  exact if_neg fun closed => open_ closed.1

theorem Kept.step {s t : EpollRun} {l : LedgerAct} (kept : s.Kept) (uses : s.UsesLiving l)
    (h : s.step l = some t) : t.Kept := by
  simp only [EpollRun.step] at h
  split at h
  · obtain ⟨ledger, hs, rfl⟩ := Option.map_eq_some_iff.mp h
    have apart := kept.apart.step hs
    rcases LedgerRun.step_acts hs with ⟨none, conn, accepted⟩ | ⟨act, doing, ran⟩
    · have lists : Lists s.ledger.sockets ledger.owned.run s.poller := by
        apply kept.lists.rests (Nat.le_of_eq accepted.symm)
        intro k _
        exact congrFun conn k
      rw [none]
      exact ⟨apart, lists.without kept.apart hs, kept.exited⟩
    rcases ServerRun.step_doing ran with
      ⟨none, same⟩ | ⟨d, c, hd, accepted, becomes, loop, chain, channel⟩
    · have grows : s.run.accepted ≤ ledger.owned.run.accepted := by
        rcases ServerRun.step_accepted ran with same | ⟨_, next⟩
        · exact Nat.le_of_eq same.symm
        · rw [next]
          exact Nat.le_succ _
      rw [doing.trans none]
      exact ⟨apart, (kept.lists.rests grows same).without kept.apart hs, kept.exited⟩
    · have lives := uses d.conn (touched_doing (doing.trans hd))
      obtain ⟨fd, mem⟩ := lives_iff.mp lives
      obtain ⟨p, ok, lists⟩ := kept.lists.calls kept.apart.apart mem chain accepted becomes loop
        channel
      have ran : s.pollerCalls d = .ok p := (kept.pollerCalls mem).trans ok
      simp only [doing.trans hd, ran]
      exact ⟨apart, lists.without kept.apart hs, kept.exited⟩
  · cases h

theorem Kept.exact {s : EpollRun} (kept : s.Kept) : s.Exact := by
  intro loop fd event
  constructor
  · intro here
    obtain ⟨mem, on⟩ := kept.lists.listed loop fd event here
    obtain ⟨_, at_⟩ := kept.lists.named _ mem
    have tracks := kept.lists.tracks _ mem
    rw [on] at tracks
    cases tracks with
    | absent _ empty | deleted _ _ empty =>
      rw [at_, here] at empty
      cases empty
    | added added _ there =>
      rw [at_, here] at there
      exact ⟨mem, on, added, congrArg EpollEvent.events (Option.some.inj there).symm⟩
  · rintro ⟨mem, rfl, added, events⟩
    obtain ⟨_, at_⟩ := kept.lists.named _ mem
    cases kept.lists.tracks _ mem with
    | absent new _ =>
      rw [new] at added
      cases added
    | deleted deleted _ _ =>
      rw [deleted] at added
      cases added
    | added _ _ there =>
      rw [at_, events] at there
      exact there

theorem reachable_kept {s : EpollRun} (h : machine.ReachableBy UsesLiving s) : s.Kept :=
  h.invariant (fun _ => Start.kept) fun _ _ _ kept uses hs => kept.step uses hs

/-- Whatever descriptors the kernel gives out again, as long as no step uses a
connection that is destroyed, no `epoll_ctl` call for a connection fails, and the
epoll sets have exactly the connections that exist and are registered. -/
theorem epoll_exact {s : EpollRun} (h : machine.ReachableBy UsesLiving s) :
    s.exited = false ∧ (∀ loop, (s.poller loop).failures = 0) ∧ s.Exact :=
  have kept := reachable_kept h
  ⟨kept.exited, kept.lists.failures, kept.exact⟩

/-- The process of `LedgerRun.newborn`. -/
def newborn : EpollRun := ⟨LedgerRun.newborn, fun _ => .new, false⟩

theorem newborn_start : newborn.Start := ⟨LedgerRun.newborn_start, fun _ => rfl, rfl⟩

/-- Descriptor 7 is given out again after its first connection was destroyed. -/
def reusing : List LedgerAct :=
  LedgerRun.accepting 7 ++ LedgerRun.closing.map .owner ++ LedgerRun.accepting 7 ++
    [.owner (.server (.task 0 ServerRun.eof)), .owner (.poll 1 [] false),
      .owner (.server (.dispatch 1 true)), .owner (.server (.runFunctor 1)),
      .owner (.server (.task 1 ServerRun.eof))]

theorem epoll_exact_reused : ∃ s, machine.exec newborn reusing = some s ∧
    s.ledger.sockets = [(1, 7)] ∧
    (s.poller 1).interest 7 = some ⟨kReadEvent, 1⟩ ∧ s.exited = false ∧
    (∀ loop, (s.poller loop).failures = 0) ∧ s.Exact := by
  have run : (machine.exec newborn reusing).map
      (fun s => (s.ledger.sockets, (s.poller 1).interest 7)) =
      some ([(1, 7)], some ⟨kReadEvent, 1⟩) := by decide +kernel
  obtain ⟨s, hs, found⟩ := Option.map_eq_some_iff.mp run
  obtain ⟨sockets, interest⟩ := Prod.mk.inj found
  have uses : machine.Steps UsesLiving newborn reusing := by decide +kernel
  exact ⟨s, hs, sockets, interest, epoll_exact (.of_steps (.start newborn_start) _ uses hs)⟩

end EpollRun
end Kenmuduo
