import Kenmuduo.LoopQueue
import Kenmuduo.RoundLog

/-!
# The functors of a server's loops

Each loop of a server polls, visits its channels and takes the functors that were
queued with it, in rounds. Whatever thread queues a functor, and whatever it binds, the
loop takes it in its turn, once, with one more poll at most.
-/

namespace Kenmuduo
open Transition

/-- What a loop was handed and what it has taken, each with the number of polls the
loop had begun by then. -/
structure QueueClock where
  polls : Nat
  queued : List (Nat × Posted)
  taken : List (Nat × Posted)

namespace QueueRun

/-- A poll begins when a batch is done. -/
def tick (loop : Nat) (q : QueueRun) (l : QueueAct) (r : QueueRun) (c : QueueClock) :
    QueueClock where
  polls :=
    if (q.run.frame loop).collects = false ∧ (r.run.frame loop).collects = true then c.polls + 1
    else c.polls
  queued := c.queued ++
    ((r.pendingFunctors loop).drop (q.pendingFunctors loop).length).map (c.polls, ·)
  taken := c.taken ++ (q.takes loop l).map (c.polls, ·)

/-- With a clock for one loop, which is in its first poll. -/
def clocked (loop : Nat) : Machine (QueueRun × QueueClock) QueueAct :=
  machine.watched ⟨1, [], []⟩ (tick loop)

/-- The rounds of one loop of the server with its clock. -/
structure Rounds (loop : Nat) (p : QueueRun × QueueClock) (r : RoundLog Posted) : Prop where
  log : r.log.log = p.2.queued.map Prod.snd
  executed : r.log.executed = p.2.taken.map Prod.snd
  batch : r.log.batch = p.1.functors loop
  pending : r.log.pending = p.1.pendingFunctors loop
  rounds : r.rounds = p.2.polls
  collects : r.collects = (p.1.run.frame loop).collects
  born : r.born = p.2.queued.map Prod.fst
  began : r.began = p.2.taken.map Prod.fst

section
variable {q u : QueueRun} {c : QueueClock} {l : QueueAct} {loop : Nat} {r : RoundLog Posted}

theorem tick_polls (same : (u.run.frame loop).collects = (q.run.frame loop).collects) :
    (tick loop q l u c).polls = c.polls := by
  apply if_neg
  rw [same]
  exact fun begun => Bool.noConfusion (begun.1.symm.trans begun.2)

theorem tick_queued {more : List Posted}
    (queue : u.pendingFunctors loop = q.pendingFunctors loop ++ more) :
    (tick loop q l u c).queued = c.queued ++ more.map (c.polls, ·) := by
  simp only [tick, queue, List.drop_left]

theorem tick_taken {taken : List Posted} (takes : q.takes loop l = taken) :
    (tick loop q l u c).taken = c.taken ++ taken.map (c.polls, ·) := by
  simp only [tick, takes]

theorem tick_unqueued (queue : u.pendingFunctors loop = q.pendingFunctors loop) :
    (tick loop q l u c).queued = c.queued := by
  have none : u.pendingFunctors loop = q.pendingFunctors loop ++ [] := by
    rw [queue, List.append_nil]
  rw [tick_queued none, List.map_nil, List.append_nil]

theorem tick_untaken (takes : q.takes loop l = []) : (tick loop q l u c).taken = c.taken := by
  rw [tick_taken takes, List.map_nil, List.append_nil]

theorem Rounds.queues (h : Rounds loop (q, c) r) (same : q.SameTurn u loop l) {more : List Posted}
    (queue : u.pendingFunctors loop = q.pendingFunctors loop ++ more) :
    ∃ v, RoundLog.machine.exec r (more.map .push) = some v ∧
      Rounds loop (u, tick loop q l u c) v := by
  obtain ⟨v, pushed, log, executed, batch, pending, rounds, collects, born, began⟩ := r.pushes more
  refine ⟨v, pushed, ?_⟩
  constructor
  · rw [tick_queued queue, log, h.log, List.map_append, List.map_map]
    exact congrArg _ (List.map_id more).symm
  · rw [tick_untaken same.takes, executed]
    exact h.executed
  · rw [same.functors, batch]
    exact h.batch
  · rw [queue, pending, h.pending]
  · rw [tick_polls same.collects, rounds]
    exact h.rounds
  · rw [same.collects, collects]
    exact h.collects
  · rw [tick_queued queue, born, h.born, h.rounds, List.map_append, List.map_map]
    rfl
  · rw [tick_untaken same.takes, began]
    exact h.began

/-- The swap takes the whole queue into the batch. -/
theorem Rounds.swaps (h : Rounds loop (q, c) r) (drained : r.log.batch = [])
    (after : (u.run.frame loop).collects = false)
    (batch : u.functors loop = q.pendingFunctors loop) (empty : u.pendingFunctors loop = [])
    (takes : q.takes loop l = []) : Rounds loop (u, tick loop q l u c) r.cut := by
  have unqueued : (tick loop q l u c).queued = c.queued := by
    simp only [tick, empty, List.drop_nil, List.map_nil, List.append_nil]
  have polls : (tick loop q l u c).polls = c.polls := by
    apply if_neg
    rw [after]
    exact fun begun => Bool.noConfusion begun.2
  constructor
  · rw [unqueued]
    exact h.log
  · rw [tick_untaken takes]
    exact h.executed
  · rw [batch, ← h.pending]
    exact r.log.cut_batch drained
  · rw [empty]
    exact r.log.cut_pending
  · rw [polls]
    exact h.rounds
  · rw [after]
    rfl
  · rw [unqueued]
    exact h.born
  · rw [tick_untaken takes]
    exact h.began

theorem Rounds.takes (h : Rounds loop (q, c) r) {entry : Posted} {rest : List Posted}
    (before : q.functors loop = entry :: rest) (after : u.functors loop = rest)
    (same : (u.run.frame loop).collects = (q.run.frame loop).collects)
    (queue : u.pendingFunctors loop = q.pendingFunctors loop) (takes : q.takes loop l = [entry]) :
    ∃ v, r.run = some v ∧ Rounds loop (u, tick loop q l u c) v := by
  obtain ⟨b, ran, log, mark, pending, left, executed⟩ := r.log.run_cons (h.batch.trans before)
  refine ⟨{ r with log := b, began := r.began ++ [r.rounds] }, ?_, ?_⟩
  · rw [RoundLog.run, ran, Option.map_some]
  · constructor
    · rw [tick_unqueued queue, log]
      exact h.log
    · rw [tick_taken takes, executed, h.executed, List.map_append]
      rfl
    · rw [after]
      exact left
    · rw [queue, pending]
      exact h.pending
    · rw [tick_polls same]
      exact h.rounds
    · rw [same]
      exact h.collects
    · rw [tick_unqueued queue]
      exact h.born
    · rw [tick_taken takes, List.map_append, ← h.began, ← h.rounds]
      rfl

theorem Rounds.polls (h : Rounds loop (q, c) r) (same : u.functors loop = q.functors loop)
    (before : (q.run.frame loop).collects = false) (after : (u.run.frame loop).collects = true)
    (queue : u.pendingFunctors loop = q.pendingFunctors loop)
    (takes : q.takes loop l = []) : Rounds loop (u, tick loop q l u c) r.enter := by
  constructor
  · rw [tick_unqueued queue]
    exact h.log
  · rw [tick_untaken takes]
    exact h.executed
  · rw [same]
    exact h.batch
  · rw [queue]
    exact h.pending
  · simp only [tick, before, after, and_self, if_true, RoundLog.enter, h.rounds]
  · rw [after]
    rfl
  · rw [tick_unqueued queue]
    exact h.born
  · rw [tick_untaken takes]
    exact h.began

end

/-- A loop of the server is a log consumed in rounds. -/
theorem refines_roundLog (loop : Nat) :
    Simulation (clocked loop) RoundLog.machine fun p r => p.1.Served ∧ Rounds loop p r where
  start p hp := by
    obtain ⟨start, clock⟩ := hp
    refine ⟨⟨.empty, 1, true, [], []⟩, ⟨rfl, rfl, rfl⟩, start_served start, ?_⟩
    constructor
    · rw [clock]
      rfl
    · rw [clock]
      rfl
    · rw [start.functors]
      rfl
    · rw [start.pendingFunctors]
      rfl
    · rw [clock]
    · rw [start.run.frame]
      rfl
    · rw [clock]
      rfl
    · rw [clock]
      rfl
  step p l v r hs inv := by
    obtain ⟨served, rounds⟩ := inv
    obtain ⟨hs, clock⟩ := Machine.watched_step hs
    obtain ⟨u, _⟩ := v
    dsimp only at clock
    subst clock
    have turn := step_turn served hs
    have next := served.step turn
    cases turn loop with
    | queues same queue _ =>
      obtain ⟨v, pushed, becomes⟩ := rounds.queues same queue
      exact ⟨_, v, pushed, next, becomes⟩
    | swaps collects after batch empty _ takes =>
      have drained : r.log.batch = [] := rounds.batch.trans (served.batch loop collects)
      refine ⟨[.cut], r.cut, ?_, next, rounds.swaps drained (by rw [after]; rfl) batch empty takes⟩
      simp only [Machine.exec, RoundLog.machine, r.log.batch_nil_iff.mp drained, if_true,
        Option.bind_some]
    | takes before after _ off still same takes =>
      obtain ⟨v, ran, becomes⟩ :=
        rounds.takes before after (still.trans off.symm) same.pending takes
      refine ⟨[.run], v, ?_, next, becomes⟩
      simp only [Machine.exec, RoundLog.machine, ran, Option.bind_some]
    | polls before after frame polling same takes =>
      have drained : r.log.batch = [] := rounds.batch.trans before
      have off : (p.1.run.frame loop).collects = false := by
        rw [frame]
        rfl
      have collects : r.collects = false := rounds.collects.trans off
      refine ⟨[.enter], r.enter, ?_, next, rounds.polls (after.trans before.symm) off
        (by rw [polling]; rfl) same.pending takes⟩
      simp only [Machine.exec, RoundLog.machine, r.log.batch_nil_iff.mp drained, collects,
        and_self, if_true, Option.bind_some]

/-- Thread 2 sends nothing, so that the io loop queues a write-complete functor behind
one of the user's, and takes both in its next round. -/
def completing : List QueueAct :=
  (ServerRun.closing.take 8).map .server ++
    [.server (.send 2 0 emptyMessage), .server (.task 2 ServerRun.eof),
      .server (.poll 1 []), .server (.dispatch 1 true), .server (.runFunctor 1),
      .queueInLoop 2 1 (.user 0), .server (.task 1 ServerRun.eof), .server (.runFunctor 1),
      .server (.poll 1 []), .server (.dispatch 1 true), .runFunctor 1]

end QueueRun
end Kenmuduo
