import Kenmuduo.EPollPoller
import Kenmuduo.TcpConnection

/-!
# The poller calls of a connection

The calls of `updateChannel` and `removeChannel` that each function of a
connection makes, with the channel as it is then. They account for all that
the functions do to the channel.
-/

namespace Kenmuduo

inductive PollerCall
  | updateChannel (c : Channel)
  | removeChannel (c : Channel)
  deriving DecidableEq, Repr

namespace PollerCall

/-- The channel after the call. -/
def leaves : PollerCall → Channel
  | updateChannel c => c.update
  | removeChannel c => c.remove

/-- The channel after some calls. -/
def final (c : Channel) : List PollerCall → Channel
  | [] => c
  | call :: calls => final call.leaves calls

/-- The channel at the call. -/
def channel : PollerCall → Channel
  | updateChannel c | removeChannel c => c

/-- Between the calls only the interest of the channel changes. -/
def Chain (c : Channel) : List PollerCall → Prop
  | [] => True
  | call :: calls => call.channel.fd = c.fd ∧ call.channel.index = c.index ∧
      Chain call.leaves calls

@[simp] theorem leaves_fd (call : PollerCall) : call.leaves.fd = call.channel.fd := by
  cases call with
  | updateChannel c =>
    simp only [leaves, channel, Channel.update]
    split
    · rfl
    · split <;> rfl
  | removeChannel c => rfl

end PollerCall

/-- The poller after the call. -/
def EPollPoller.call {ι : Type} (p : EPollPoller ι) (i : ι) :
    PollerCall → Except Exit (EPollPoller ι)
  | .updateChannel c => (p.updateChannel i c).map Prod.fst
  | .removeChannel c => (p.removeChannel i c).map Prod.fst

def EPollPoller.calls {ι : Type} (p : EPollPoller ι) (i : ι) :
    List PollerCall → Except Exit (EPollPoller ι)
  | [] => .ok p
  | c :: cs => do
    let p ← p.call i c
    p.calls i cs

/-! ## What a poller has of a channel -/

namespace EPollPoller

variable {ι : Type}

/-- Nothing in the poller points to the channel named `i`. -/
structure Absent (p : EPollPoller ι) (i : ι) : Prop where
  channels : ∀ fd, p.channels fd ≠ some i
  interest : ∀ fd ev, p.interest fd = some ev → ev.ptr ≠ i

/-- What points to channel `c`, named `i`, is where its descriptor and its index
say. -/
structure Entered (p : EPollPoller ι) (i : ι) (c : Channel) : Prop where
  index : c.index = kNew ∨ c.index = kAdded ∨ c.index = kDeleted
  channels : ∀ fd, p.channels fd = some i → fd = c.fd ∧ c.index ≠ kNew
  interest : ∀ fd ev, p.interest fd = some ev → ev.ptr = i → fd = c.fd ∧ c.index = kAdded

/-- What `q` has of the channels other than `i`, `p` has too. -/
structure Within (q p : EPollPoller ι) (i : ι) : Prop where
  channels : ∀ fd j, j ≠ i → q.channels fd = some j → p.channels fd = some j
  interest : ∀ fd ev, ev.ptr ≠ i → q.interest fd = some ev → p.interest fd = some ev

theorem Entered.absent {p : EPollPoller ι} {i : ι} {c : Channel} (h : p.Entered i c)
    (new : c.index = kNew) : p.Absent i := by
  constructor
  · intro fd here
    exact (h.channels fd here).2 new
  · intro fd ev here same
    have added := (h.interest fd ev here same).2
    rw [new] at added
    cases added

theorem Absent.entered {p : EPollPoller ι} {i : ι} (h : p.Absent i) {c : Channel}
    (new : c.index = kNew) : p.Entered i c :=
  ⟨.inl new, fun fd here => absurd here (h.channels fd), fun fd ev here same =>
    absurd same (h.interest fd ev here)⟩

theorem Absent.within {p q : EPollPoller ι} {i j : ι} (h : p.Absent j) (within : q.Within p i)
    (other : j ≠ i) : q.Absent j :=
  ⟨fun fd here => h.channels fd (within.channels fd j other here), fun fd ev here same =>
    h.interest fd ev (within.interest fd ev (same ▸ other) here) same⟩

theorem Entered.within {p q : EPollPoller ι} {i j : ι} {c : Channel} (h : p.Entered j c)
    (within : q.Within p i) (other : j ≠ i) : q.Entered j c :=
  ⟨h.index, fun fd here => h.channels fd (within.channels fd j other here), fun fd ev here same =>
    h.interest fd ev (within.interest fd ev (same ▸ other) here) same⟩

theorem Within.refl (p : EPollPoller ι) (i : ι) : p.Within p i :=
  ⟨fun _ _ _ h => h, fun _ _ _ h => h⟩

theorem Within.trans {p q r : EPollPoller ι} {i : ι} (h : r.Within q i) (h' : q.Within p i) :
    r.Within p i :=
  ⟨fun fd j other here => h'.channels fd j other (h.channels fd j other here),
    fun fd ev other here => h'.interest fd ev other (h.interest fd ev other here)⟩

/-- What an `epoll_ctl` on channel `c` changes. -/
theorem update_cases {p q : EPollPoller ι} {op : CtlOp} {i : ι} {c : Channel}
    (h : p.update op i c = .ok q) :
    q.channels = p.channels ∧
    (q.interest = assign p.interest c.fd (if op = .del then none else some ⟨c.events, i⟩) ∨
      (op = .del ∧ p.interest c.fd = none ∧ q.interest = p.interest)) := by
  unfold update epollCtl at h
  cases op <;> cases hi : p.interest c.fd <;> simp [hi] at h <;> subst h <;> simp

theorem assign_cases {β : Type} {f : Nat → Option β} {k m : Nat} {b : Option β} {x : β}
    (h : assign f k b m = some x) : (m = k ∧ b = some x) ∨ (m ≠ k ∧ f m = some x) := by
  unfold assign at h
  split at h
  · rename_i same
    exact .inl ⟨same, h⟩
  · rename_i other
    exact .inr ⟨other, h⟩

/-- The poller adds the channel's descriptor to the epoll set, or changes what is there. -/
theorem Entered.set {p q : EPollPoller ι} {i : ι} {c d : Channel} (h : p.Entered i c)
    (fd : d.fd = c.fd) (added : d.index = kAdded)
    (channels : q.channels = p.channels ∨ q.channels = assign p.channels d.fd (some i))
    (interest : q.interest = assign p.interest d.fd (some ⟨d.events, i⟩)) :
    q.Entered i d ∧ q.Within p i := by
  have present : d.index ≠ kNew := by
    rw [added]
    decide
  refine ⟨⟨.inr (.inl added), fun f here => ⟨?_, present⟩, fun f ev here same => ⟨?_, added⟩⟩,
    fun f j other here => ?_, fun f ev other here => ?_⟩
  · rcases channels with kept | new
    · rw [kept] at here
      exact (h.channels f here).1.trans fd.symm
    · rw [new] at here
      obtain ⟨at_, _⟩ | ⟨_, old⟩ := assign_cases here
      · exact at_
      · exact (h.channels f old).1.trans fd.symm
  · rw [interest] at here
    obtain ⟨at_, _⟩ | ⟨_, old⟩ := assign_cases here
    · exact at_
    · exact (h.interest f ev old same).1.trans fd.symm
  · rcases channels with kept | new
    · rwa [kept] at here
    · rw [new] at here
      obtain ⟨_, mine⟩ | ⟨_, old⟩ := assign_cases here
      · exact absurd (Option.some.inj mine).symm other
      · exact old
  · rw [interest] at here
    obtain ⟨_, mine⟩ | ⟨_, old⟩ := assign_cases here
    · exact absurd (congrArg EpollEvent.ptr (Option.some.inj mine)).symm other
    · exact old

/-- The poller takes the channel's descriptor from the epoll set. -/
theorem Entered.unset {p q : EPollPoller ι} {i : ι} {c d : Channel} (h : p.Entered i c)
    (fd : d.fd = c.fd) (index : d.index = kNew ∨ d.index = kDeleted)
    (channels : (d.index ≠ kNew ∧ q.channels = p.channels) ∨
      q.channels = assign p.channels d.fd none)
    (interest : q.interest = assign p.interest d.fd none ∨
      (q.interest = p.interest ∧ ∀ ev, p.interest d.fd = some ev → ev.ptr ≠ i)) :
    q.Entered i d ∧ q.Within p i := by
  have gone : ∀ f ev, q.interest f = some ev → ev.ptr ≠ i := by
    intro f ev here same
    rcases interest with taken | ⟨kept, none⟩
    · rw [taken] at here
      obtain ⟨_, none⟩ | ⟨away, old⟩ := assign_cases here
      · cases none
      · exact away ((h.interest f ev old same).1.trans fd.symm)
    · rw [kept] at here
      have at_ := (h.interest f ev here same).1.trans fd.symm
      exact none ev (at_ ▸ here) same
  refine ⟨⟨index.elim .inl fun deleted => .inr (.inr deleted), fun f here => ?_,
    fun f ev here same => absurd same (gone f ev here)⟩, fun f j other here => ?_,
    fun f ev other here => ?_⟩
  · rcases channels with ⟨present, kept⟩ | taken
    · rw [kept] at here
      exact ⟨(h.channels f here).1.trans fd.symm, present⟩
    · rw [taken] at here
      obtain ⟨_, none⟩ | ⟨away, old⟩ := assign_cases here
      · cases none
      · exact absurd ((h.channels f old).1.trans fd.symm) away
  · rcases channels with ⟨_, kept⟩ | taken
    · rwa [kept] at here
    · rw [taken] at here
      obtain ⟨_, none⟩ | ⟨_, old⟩ := assign_cases here
      · cases none
      · exact old
  · rcases interest with taken | ⟨kept, _⟩
    · rw [taken] at here
      obtain ⟨_, none⟩ | ⟨_, old⟩ := assign_cases here
      · cases none
      · exact old
    · rwa [kept] at here

theorem Entered.updateChannel {p q : EPollPoller ι} {i : ι} {c d d' : Channel} (h : p.Entered i c)
    (fd : d.fd = c.fd) (index : d.index = c.index) (ok : p.updateChannel i d = .ok (q, d')) :
    q.Entered i d.update ∧ q.Within p i := by
  unfold EPollPoller.updateChannel at ok
  unfold Channel.update
  split at ok
  · rename_i absent
    obtain ⟨r, added, result⟩ := bind_ok_iff.mp ok
    cases result
    rw [if_pos absent]
    obtain ⟨channels, interest | ⟨op, _⟩⟩ := update_cases added
    case inr => cases op
    refine h.set fd rfl ?_ ?_
    · rw [channels]
      split
      · exact .inr rfl
      · exact .inl rfl
    · rw [interest]
      split <;> rfl
  · rename_i here
    rw [if_neg here]
    split at ok
    · rename_i none
      obtain ⟨r, deleted, result⟩ := bind_ok_iff.mp ok
      cases result
      rw [if_pos none]
      obtain ⟨channels, interest⟩ := update_cases deleted
      have present : kDeleted ≠ kNew := by decide
      refine h.unset fd (.inr rfl) (.inl ⟨present, channels⟩) ?_
      rcases interest with taken | ⟨_, empty, kept⟩
      · exact .inl taken
      · refine .inr ⟨kept, fun ev some => ?_⟩
        rw [empty] at some
        cases some
    · rename_i some
      obtain ⟨r, modified, result⟩ := bind_ok_iff.mp ok
      cases result
      rw [if_neg some]
      obtain ⟨channels, interest | ⟨op, _⟩⟩ := update_cases modified
      case inr => cases op
      refine h.set fd ?_ (.inl channels) interest
      rw [index] at here ⊢
      rcases h.index with new | added | deleted
      · exact absurd (.inl new) here
      · exact added
      · exact absurd (.inr deleted) here

theorem Entered.removeChannel {p q : EPollPoller ι} {i : ι} {c d d' : Channel} (h : p.Entered i c)
    (fd : d.fd = c.fd) (index : d.index = c.index) (ok : p.removeChannel i d = .ok (q, d')) :
    q.Entered i d.remove ∧ q.Within p i := by
  unfold EPollPoller.removeChannel at ok
  dsimp only at ok
  split at ok
  · obtain ⟨r, deleted, result⟩ := bind_ok_iff.mp ok
    cases result
    obtain ⟨channels, interest⟩ := update_cases deleted
    refine h.unset (d := d.remove) fd (.inl rfl) (.inr channels) ?_
    rcases interest with taken | ⟨_, empty, kept⟩
    · exact .inl taken
    · refine .inr ⟨kept, fun ev some => ?_⟩
      rw [show p.interest d.remove.fd = none from empty] at some
      cases some
  · rename_i absent
    cases ok
    refine h.unset (d := d.remove) fd (.inl rfl) (.inr rfl) (.inr ⟨rfl, fun ev here same => ?_⟩)
    exact absent (index.trans (h.interest _ ev here same).2)

/-- Calls that follow one another leave the poller with the last channel. -/
theorem Entered.calls {p q : EPollPoller ι} {i : ι} {c : Channel} {calls : List PollerCall}
    (h : p.Entered i c) (chain : PollerCall.Chain c calls) (ok : p.calls i calls = .ok q) :
    q.Entered i (PollerCall.final c calls) ∧ q.Within p i := by
  induction calls generalizing p c with
  | nil =>
    cases ok
    exact ⟨h, .refl _ i⟩
  | cons call calls ih =>
    obtain ⟨fd, index, chain⟩ := chain
    obtain ⟨r, hr, ok⟩ := bind_ok_iff.mp ok
    have first : r.Entered i call.leaves ∧ r.Within p i := by
      cases call with
      | updateChannel d =>
        obtain ⟨⟨_, d'⟩, updated, rfl⟩ := map_ok_iff.mp hr
        exact h.updateChannel fd index updated
      | removeChannel d =>
        obtain ⟨⟨_, d'⟩, removed, rfl⟩ := map_ok_iff.mp hr
        exact h.removeChannel fd index removed
    obtain ⟨entered, within⟩ := ih first.1 chain ok
    exact ⟨entered, within.trans first.2⟩

end EPollPoller

namespace TcpConnection

def connectEstablishedCalls (c : TcpConnection) : List PollerCall :=
  [.updateChannel c.channel.tie.enableReading]

def connectionDestroyedCalls (c : TcpConnection) : List PollerCall :=
  if c.state = .kConnected then
    [.updateChannel c.channel.disableAll, .removeChannel c.channel.disableAll.update]
  else [.removeChannel c.channel]

def handleCloseCalls (c : TcpConnection) : List PollerCall :=
  [.updateChannel c.channel.disableWriting]

def handleReadCalls (c : TcpConnection) (r : ReadResult) : List PollerCall :=
  match c.inputBuffer.readFd r 0 with
  | .ok read => if read.n = 0 then c.handleCloseCalls else []
  | .error _ => []

def handleWriteCalls (c : TcpConnection) (w : WriteResult) : List PollerCall :=
  if c.channel.isWriting then
    match c.outputBuffer.writeFd w 0 with
    | .ok write =>
      if 0 < write.n ∧ (c.outputBuffer.retrieve write.n.toNat).readableBytes = 0 then
        [.updateChannel c.channel.disableWriting]
      else []
    | .error _ => []
  else []

def sendInLoopCalls (c : TcpConnection) (data : Message) (w : WriteResult) : List PollerCall :=
  if c.state = .kDisconnected then []
  else
    let d := c.directWrite data w
    if !d.faultError && 0 < d.remaining then
      if !c.channel.isWriting then [.updateChannel c.channel.enableReading] else []
    else []

theorem connectEstablished_channel {c c' : TcpConnection} {effects : List Effect}
    (h : c.connectEstablished = .ok (c', effects)) :
    c'.channel = PollerCall.final c.channel c.connectEstablishedCalls := by
  rw [(connectEstablished_ok h).1]
  rfl

theorem connectionDestroyed_channel {c c' : TcpConnection} {effects : List Effect}
    (h : c.connectionDestroyed = .ok (c', effects)) :
    c'.channel = PollerCall.final c.channel c.connectionDestroyedCalls := by
  unfold connectionDestroyedCalls
  obtain ⟨up, rfl, _⟩ | ⟨gone, rfl, _⟩ := connectionDestroyed_ok h
  · rw [if_pos up]
    rfl
  · rw [if_neg gone]
    rfl

theorem handleClose_channel {c c' : TcpConnection} {effects : List Effect}
    (h : c.handleClose = .ok (c', effects)) :
    c'.channel = PollerCall.final c.channel c.handleCloseCalls := by
  rw [(handleClose_ok h).1]
  rfl

theorem handleRead_channel {c c' : TcpConnection} {r : ReadResult} {effects : List Effect}
    (h : c.handleRead r = .ok (c', effects)) :
    c'.channel = PollerCall.final c.channel (c.handleReadCalls r) := by
  simp only [handleRead, bind_ok_iff] at h
  obtain ⟨read, hread, h⟩ := h
  simp only [handleReadCalls, hread]
  split at h
  · rename_i some
    obtain ⟨message, _, result⟩ := bind_ok_iff.mp h
    cases result
    rw [if_neg (by omega)]
    rfl
  · split at h
    · rename_i none
      rw [if_pos none]
      rw [(handleClose_ok h).1]
      rfl
    · rename_i failed
      cases h
      rw [if_neg failed]
      rfl

/-- A read that is not the end of the stream leaves the poller alone. -/
theorem handleReadCalls_open {c c' : TcpConnection} {r : ReadResult} {effects : List Effect}
    (h : c.handleRead r = .ok (c', effects))
    (open_ : effects ≠ [.connectionCallback false, .closeCallback]) : c.handleReadCalls r = [] := by
  simp only [handleRead, bind_ok_iff] at h
  obtain ⟨read, hread, h⟩ := h
  simp only [handleReadCalls, hread]
  refine if_neg fun none => open_ ?_
  rw [if_neg (by omega), if_pos none] at h
  exact (handleClose_ok h).2

theorem handleWrite_channel {c c' : TcpConnection} {w : WriteResult} {effects : List Effect}
    (h : c.handleWrite w = .ok (c', effects)) :
    c'.channel = PollerCall.final c.channel (c.handleWriteCalls w) := by
  unfold handleWrite at h
  unfold handleWriteCalls
  split at h
  · rename_i writing
    obtain ⟨write, hwrite, h⟩ := bind_ok_iff.mp h
    simp only [writing, if_true, hwrite]
    split at h
    · rename_i some
      dsimp only at h
      split at h
      · rename_i drained
        cases h
        rw [if_pos ⟨some, drained⟩]
        rfl
      · rename_i rest
        cases h
        rw [if_neg fun both => rest both.2]
        rfl
    · rename_i none
      cases h
      rw [if_neg fun both => none both.1]
      rfl
  · rename_i idle
    cases h
    rw [if_neg idle]
    rfl

theorem sendInLoop_channel {c c' : TcpConnection} {data : Message} {w : WriteResult}
    {effects : List Effect} (h : c.sendInLoop data w = .ok (c', effects)) :
    c'.channel = PollerCall.final c.channel (c.sendInLoopCalls data w) := by
  unfold sendInLoop at h
  unfold sendInLoopCalls
  split at h
  · rename_i gone
    cases h
    rw [if_pos gone]
    rfl
  · rename_i here
    rw [if_neg here]
    dsimp only at h ⊢
    split at h
    · rename_i rest
      obtain ⟨buffer, _, result⟩ := bind_ok_iff.mp h
      cases result
      rw [if_pos rest]
      dsimp only
      split <;> rfl
    · rename_i quiet
      cases h
      rw [if_neg quiet]
      rfl

/-! ## Each call finds the channel as the last one left it -/

theorem connectEstablished_chain (c : TcpConnection) :
    PollerCall.Chain c.channel c.connectEstablishedCalls := ⟨rfl, rfl, trivial⟩

theorem connectionDestroyed_chain (c : TcpConnection) :
    PollerCall.Chain c.channel c.connectionDestroyedCalls := by
  unfold connectionDestroyedCalls
  split
  · exact ⟨rfl, rfl, rfl, rfl, trivial⟩
  · exact ⟨rfl, rfl, trivial⟩

theorem handleClose_chain (c : TcpConnection) :
    PollerCall.Chain c.channel c.handleCloseCalls := ⟨rfl, rfl, trivial⟩

theorem handleRead_chain (c : TcpConnection) (r : ReadResult) :
    PollerCall.Chain c.channel (c.handleReadCalls r) := by
  unfold handleReadCalls
  split
  · split
    · exact c.handleClose_chain
    · trivial
  · trivial

theorem handleWrite_chain (c : TcpConnection) (w : WriteResult) :
    PollerCall.Chain c.channel (c.handleWriteCalls w) := by
  unfold handleWriteCalls
  split
  · split
    · split
      · exact ⟨rfl, rfl, trivial⟩
      · trivial
    · trivial
  · trivial

theorem sendInLoop_chain (c : TcpConnection) (data : Message) (w : WriteResult) :
    PollerCall.Chain c.channel (c.sendInLoopCalls data w) := by
  unfold sendInLoopCalls
  split
  · trivial
  · dsimp only
    split
    · split
      · exact ⟨rfl, rfl, trivial⟩
      · trivial
    · trivial

end TcpConnection
end Kenmuduo
