import Kenmuduo.FunctorQueue
import Kenmuduo.TcpConnection

/-!
# Sending from another thread

`send` binds `buf.c_str()` and `buf.size()`, not the string: until `sendInLoop`
has returned, the bytes stay in memory that belongs to the caller. Strings and
the blocks that hold their characters are modelled next to the loop, so that
what `sendInLoop` gets is what it finds at that address whenever it reads.
-/

namespace Kenmuduo
open Transition

/-! ## Strings and their memory -/

structure StdString where
  data : Nat
  size : Nat
  deriving DecidableEq, Repr

/-- Blocks of memory by address, `none` when not allocated, and strings by
name. -/
structure Memory where
  heap : Nat → Option (List UInt8)
  strings : Nat → Option StdString

inductive StringAct
  | construct (name data : Nat) (bytes : List UInt8)
  -- any change in place, and any change that moves the characters to a new block
  | overwrite (name : Nat) (bytes : List UInt8)
  | reallocate (name data : Nat) (bytes : List UInt8)
  | destroy (name : Nat)
  deriving DecidableEq, Repr

namespace Memory

/-- Characters of the block at an address, when all of them are allocated. -/
def readAt (m : Memory) (data offset count : Nat) : Option (List UInt8) :=
  match m.heap data with
  | some cells =>
    if offset + count ≤ cells.length then some ((cells.drop offset).take count) else none
  | none => none

def read (m : Memory) (data len : Nat) : Option (List UInt8) := m.readAt data 0 len

theorem readAt_of_read {m : Memory} {data len offset count : Nat} {bytes : List UInt8}
    (h : m.read data len = some bytes) (within : offset + count ≤ len) :
    m.readAt data offset count = some ((bytes.drop offset).take count) := by
  unfold read readAt at h
  unfold readAt
  cases block : m.heap data with
  | none => simp [block] at h
  | some cells =>
    simp only [block, Nat.zero_add, List.drop_zero, Option.ite_none_right_eq_some,
      Option.some.injEq] at h
    obtain ⟨fits, rfl⟩ := h
    have room : offset + count ≤ cells.length := by omega
    have inside : count ≤ len - offset := by omega
    simp only [room, if_true, List.drop_take, List.take_take, Nat.min_eq_left inside]

def setBlock (m : Memory) (data : Nat) (cells : Option (List UInt8)) : Memory :=
  { m with heap := fun a => if a = data then cells else m.heap a }

def setString (m : Memory) (name : Nat) (str : Option StdString) : Memory :=
  { m with strings := fun n => if n = name then str else m.strings n }

def allocate (m : Memory) (name data : Nat) (bytes : List UInt8) : Option Memory :=
  if (m.heap data).isNone then
    some ((m.setBlock data (some (bytes ++ [0]))).setString name (some ⟨data, bytes.length⟩))
  else none

def act (m : Memory) : StringAct → Option Memory
  | .construct name data bytes =>
    if (m.strings name).isNone then m.allocate name data bytes else none
  | .overwrite name bytes =>
    match m.strings name with
    | some str =>
      match m.heap str.data with
      | some cells =>
        if bytes.length < cells.length then
          some ((m.setBlock str.data (some (bytes ++ 0 :: cells.drop (bytes.length + 1)))).setString
            name (some ⟨str.data, bytes.length⟩))
        else none
      | none => none
    | none => none
  | .reallocate name data bytes =>
    match m.strings name with
    | some str => (m.allocate name data bytes).map fun m => m.setBlock str.data none
    | none => none
  | .destroy name =>
    match m.strings name with
    | some str => some ((m.setBlock str.data none).setString name none)
    | none => none

end Memory

/-! ## The connection, its loop and its callers -/

/-- `passed` is what the string held when `send` was called; the code does not
have it. -/
inductive SendFunctor
  | sendInLoop (data len : Nat) (passed : List UInt8)
  | other
  deriving DecidableEq, Repr

def SendFunctor.isSend : SendFunctor → Bool
  | sendInLoop .. => true
  | other => false

def SendFunctor.passed : SendFunctor → Option (Option (List UInt8))
  | sendInLoop _ _ passed => some (some passed)
  | other => none

def SendFunctor.given (m : Memory) : SendFunctor → Option (Option (List UInt8))
  | sendInLoop data len _ => some (m.read data len)
  | other => none

/-- A read that `sendInLoop` makes while it runs, for `::write` or for
`append`. -/
structure Reading where
  functor : SendFunctor
  offset : Nat
  count : Nat
  bytes : Option (List UInt8)
  deriving DecidableEq, Repr

/-- The bytes are those of the message, as far as the message goes. -/
def Reading.Whole (r : Reading) : Prop :=
  match r.functor with
  | .sendInLoop _ len passed => r.offset + r.count ≤ len →
    r.bytes = some ((passed.drop r.offset).take r.count)
  | .other => True

structure Callers where
  loop : LoopRun SendFunctor
  memory : Memory
  state : StateE
  bound : Nat → Option SendFunctor
  /-- What was at the address when a queued `sendInLoop` was called; `none` for
  bytes that are not there any more. -/
  received : List (Option (List UInt8))
  reads : List Reading

inductive CallerAct
  | string (act : StringAct)
  | setState (state : StateE)
  | send (thread name : Nat)
  | post (thread : Nat)
  | loop (l : LoopAct SendFunctor)
  /-- The `sendInLoop` that runs reads from the memory it points to. -/
  | read (offset count : Nat)

namespace Callers

/-- A step of the loop; a functor that starts is given what is in the memory. -/
def loopStep (s : Callers) (l : LoopAct SendFunctor) : Option Callers :=
  (s.loop.step l).map fun loop =>
    { s with
      loop := loop
      received := s.received ++
        (loop.executed.drop s.loop.executed.length).filterMap fun e =>
          e.2.functor.given s.memory }

def step (s : Callers) : CallerAct → Option Callers
  | .string act => (s.memory.act act).map fun memory => { s with memory := memory }
  | .setState state => some { s with state := state }
  | .send thread name =>
    if s.state = .kConnected then
      -- the loop's thread passes the string on directly
      if s.loop.loop.isInLoopThread thread then some s
      else
        match s.memory.strings name with
        | some str =>
          match s.memory.read str.data str.size, s.bound thread with
          | some bytes, none =>
            some { s with bound := fun t =>
              if t = thread then some (.sendInLoop str.data str.size bytes) else s.bound t }
          | _, _ => none
        | none => none
    else some s
  | .post thread =>
    match s.bound thread with
    | some functor =>
      ({ s with bound := fun t => if t = thread then none else s.bound t } : Callers).loopStep
        (.runInLoop thread functor)
    | none => none
  | .loop l => if l.cb.all fun cb => !cb.isSend then s.loopStep l else none
  | .read offset count =>
    match s.loop.current with
    | some (.sendInLoop data len passed) =>
      let reading := ⟨.sendInLoop data len passed, offset, count, s.memory.readAt data offset count⟩
      some { s with reads := s.reads ++ [reading] }
    | _ => none

structure Start (s : Callers) : Prop where
  loop : s.loop.Created
  bound : ∀ thread, s.bound thread = none
  received : s.received = []
  reads : s.reads = []

def machine : Machine Callers CallerAct := ⟨Start, step⟩

/-- What `sendInLoop` is given is, in the order of the queue, what the callers
had passed, and stays so while it runs; and what it reads are bytes of it. -/
structure Captured (s : Callers) : Prop where
  received : s.received = s.loop.executed.filterMap (fun e => e.2.functor.passed)
  queue : s.received <+: s.loop.pushed.filterMap (fun q => q.functor.passed)
  running : ∀ functor, s.loop.current = some functor → functor.given s.memory = functor.passed
  reads : ∀ r ∈ s.reads, r.Whole

/-- A functor that is bound or queued and has not returned. -/
def Outstanding (s : Callers) (functor : SendFunctor) : Prop :=
  (∃ thread, s.bound thread = some functor) ∨
  (∃ q ∈ s.loop.loop.pendingFunctors, q.functor = functor) ∨
  (∃ q ∈ s.loop.rest, q.functor = functor) ∨
  s.loop.current = some functor

/-- No thread changes or frees bytes that an outstanding functor points to. -/
def LeavesAlone (s : Callers) : CallerAct → Prop
  | .string act => ∀ m, s.memory.act act = some m → ∀ functor, s.Outstanding functor →
    functor.given m = functor.given s.memory
  | _ => True

structure Inv (s : Callers) : Prop where
  loop : LoopRun.machine.Reachable s.loop
  intact : ∀ functor, s.Outstanding functor → functor.given s.memory = functor.passed
  received : s.received = s.loop.executed.filterMap (fun e => e.2.functor.passed)
  reads : ∀ r ∈ s.reads, r.Whole

theorem Start.inv {s : Callers} (h : s.Start) : s.Inv := by
  obtain ⟨threadId, created⟩ := h.loop
  refine ⟨.start h.loop, ?_, ?_, ?_⟩
  · rintro functor (⟨thread, hb⟩ | ⟨q, hq, _⟩ | ⟨q, hq, _⟩ | runs)
    · simp [h.bound] at hb
    · simp [created, EventLoop.new] at hq
    · simp [created, LoopRun.rest] at hq
    · simp [created, LoopRun.current] at runs
  · simp [h.received, created]
  · simp [h.reads]

theorem Inv.captured {s : Callers} (h : s.Inv) : s.Captured := by
  have queue := (LoopRun.executed_in_order h.loop).filterMap fun q => q.functor.passed
  rw [List.filterMap_map, Function.comp_def, ← h.received] at queue
  exact ⟨h.received, queue, fun functor runs => h.intact functor (.inr (.inr (.inr runs))), h.reads⟩

/-- A step of the loop adds what it pushes to what is outstanding, no more. -/
theorem outstanding_step {s : Callers} {loop : LoopRun SendFunctor} {l : LoopAct SendFunctor}
    {functor : SendFunctor} (h : s.loop.step l = some loop)
    (out : ({ s with loop := loop } : Callers).Outstanding functor) :
    s.Outstanding functor ∨ l.cb = some functor := by
  have runs (now : loop.current = some functor) : s.Outstanding functor := by
    rcases LoopRun.step_current h with idle | ⟨same, _⟩ | ⟨first, starts, runs⟩
    · rw [now] at idle
      cases idle
    · exact .inr (.inr (.inr (same ▸ now)))
    · rw [now, Option.some.injEq] at runs
      refine .inr (.inr (.inl ⟨first, ?_, runs.symm⟩))
      rw [starts.rest]
      exact List.mem_cons_self
  rcases LoopRun.step_queue h with same | ⟨new, hcb, pushes⟩ | swaps | ⟨first, starts⟩
  · rcases out with held | queued | left | now
    · exact .inl (.inl held)
    · exact .inl (.inr (.inl (same.pending ▸ queued)))
    · exact .inl (.inr (.inr (.inl (same.rest ▸ left))))
    · exact .inl (runs now)
  · rcases out with held | ⟨q, queued, is⟩ | left | now
    · exact .inl (.inl held)
    · rw [pushes.pending, List.mem_append, List.mem_singleton] at queued
      rcases queued with before | rfl
      · exact .inl (.inr (.inl ⟨q, before, is⟩))
      · exact .inr (is ▸ hcb)
    · exact .inl (.inr (.inr (.inl (pushes.rest ▸ left))))
    · exact .inl (runs now)
  · rcases out with held | ⟨q, queued, _⟩ | left | now
    · exact .inl (.inl held)
    · simp [swaps.pending] at queued
    · exact .inl (.inr (.inl (swaps.rest ▸ left)))
    · exact .inl (runs now)
  · rcases out with held | queued | ⟨q, left, is⟩ | now
    · exact .inl (.inl held)
    · exact .inl (.inr (.inl (starts.pending ▸ queued)))
    · refine .inl (.inr (.inr (.inl ⟨q, ?_, is⟩)))
      rw [starts.rest]
      exact List.mem_cons_of_mem _ left
    · exact .inl (runs now)

theorem loopStep_inv {s t : Callers} {l : LoopAct SendFunctor} (inv : s.Inv)
    (new : ∀ cb, l.cb = some cb → cb.given s.memory = cb.passed) (h : s.loopStep l = some t) :
    t.Inv := by
  obtain ⟨loop, hl, rfl⟩ := Option.map_eq_some_iff.mp h
  refine ⟨.next l inv.loop hl, ?_, ?_, inv.reads⟩
  · intro functor out
    rcases outstanding_step hl out with before | pushed
    · exact inv.intact functor before
    · exact new functor pushed
  · rcases LoopRun.step_queue hl with same | ⟨functor, _, pushes⟩ | swaps | ⟨functor, starts⟩
    · simp [same.executed, inv.received]
    · simp [pushes.executed, inv.received]
    · simp [swaps.executed, inv.received]
    · have now := inv.intact functor.functor
        (.inr (.inr (.inl ⟨functor, by rw [starts.rest]; exact List.mem_cons_self, rfl⟩)))
      simp only [starts.executed, List.drop_left, List.filterMap_append, List.filterMap_cons,
        List.filterMap_nil, now, inv.received]

/-- While its functor runs, `sendInLoop` finds what was passed. -/
theorem read_inv {s t : Callers} {offset count : Nat} (inv : s.Inv)
    (h : s.step (.read offset count) = some t) : t.Inv := by
  simp only [step] at h
  split at h
  · rename_i data len passed runs
    cases h
    refine ⟨inv.loop, inv.intact, inv.received, ?_⟩
    intro r mem
    rcases List.mem_append.mp mem with before | now
    · exact inv.reads r before
    · rw [List.mem_singleton.mp now]
      intro within
      have intact := inv.intact _ (.inr (.inr (.inr runs)))
      simp only [SendFunctor.given, SendFunctor.passed, Option.some.injEq] at intact
      exact Memory.readAt_of_read intact within
  · cases h

theorem send_inv {s t : Callers} {thread name : Nat} (inv : s.Inv)
    (h : s.step (.send thread name) = some t) : t.Inv := by
  simp only [step] at h
  split at h
  · split at h
    · cases h
      exact inv
    · split at h
      · rename_i str _
        split at h
        · rename_i bytes hr _
          cases h
          refine ⟨inv.loop, ?_, inv.received, inv.reads⟩
          rintro functor (⟨other, hb⟩ | queued)
          · simp only at hb
            split at hb
            · cases hb
              simp [SendFunctor.given, SendFunctor.passed, hr]
            · exact inv.intact functor (.inl ⟨other, hb⟩)
          · exact inv.intact functor (.inr queued)
        · cases h
      · cases h
  · cases h
    exact inv

theorem post_inv {s t : Callers} {thread : Nat} (inv : s.Inv)
    (h : s.step (.post thread) = some t) : t.Inv := by
  simp only [step] at h
  split at h
  · rename_i functor hb
    have returned : Inv { s with bound := fun t => if t = thread then none else s.bound t } := by
      refine ⟨inv.loop, ?_, inv.received, inv.reads⟩
      rintro cb (⟨u, hu⟩ | queued)
      · simp only at hu
        split at hu
        · cases hu
        · exact inv.intact cb (.inl ⟨u, hu⟩)
      · exact inv.intact cb (.inr queued)
    refine loopStep_inv returned ?_ h
    intro cb hcb
    cases hcb
    exact inv.intact functor (.inl ⟨thread, hb⟩)
  · cases h

theorem step_inv {s t : Callers} {l : CallerAct} (inv : s.Inv) (alone : s.LeavesAlone l)
    (h : s.step l = some t) : t.Inv := by
  cases l with
  | string act =>
    obtain ⟨memory, hm, rfl⟩ := Option.map_eq_some_iff.mp h
    refine ⟨inv.loop, ?_, inv.received, inv.reads⟩
    intro functor out
    rw [alone memory hm functor out]
    exact inv.intact functor out
  | setState state =>
    cases h
    exact ⟨inv.loop, inv.intact, inv.received, inv.reads⟩
  | send thread name => exact send_inv inv h
  | post thread => exact post_inv inv h
  | read offset count => exact read_inv inv h
  | loop l =>
    simp only [step, Option.ite_none_right_eq_some] at h
    obtain ⟨harmless, h⟩ := h
    refine loopStep_inv inv ?_ h
    intro cb hcb
    rw [hcb] at harmless
    cases cb with
    | sendInLoop data len passed => simp [SendFunctor.isSend] at harmless
    | other => rfl

/-- As long as no thread changes or frees bytes that an outstanding functor
points to, `sendInLoop` gets whole messages as they were passed, in the order of
the queue. -/
theorem send_captures {s : Callers} (h : machine.ReachableBy LeavesAlone s) : s.Captured :=
  (h.invariant (fun _ => Start.inv) fun _ _ _ inv alone step => step_inv inv alone step).captured

def newcomer : Callers where
  loop := ⟨EventLoop.new 1, .outside, fun _ => .none, [], [], 0⟩
  memory :=
    ⟨fun a => if a = 4096 then some [104, 105, 0] else none,
      fun n => if n = 0 then some ⟨4096, 2⟩ else none⟩
  state := .kConnected
  bound := fun _ => none
  received := []
  reads := []

theorem newcomer_start : newcomer.Start := ⟨⟨1, rfl⟩, fun _ => rfl, rfl, rfl⟩

/-- Thread 2 sends the string and makes some more steps before the loop gets to
the functor; others are made while `sendInLoop` runs. -/
def greeting (afterwards meanwhile : List CallerAct) : List CallerAct :=
  [.loop .enter, .loop .advance, .loop .advance, .send 2 0, .post 2, .loop (.test 2),
    .loop (.wakeup 2)] ++ afterwards ++
  [.loop (.poll [.wakeup]), .loop .advance, .loop .advance, .loop .advance, .loop .advance,
    .loop .advance, .read 0 1] ++ meanwhile ++ [.read 1 1]

theorem send_captures_greeting :
    ∃ s, machine.exec newcomer (greeting [] []) = some s ∧ s.received = [some [104, 105]] ∧
      s.reads.map Reading.bytes = [some [104], some [105]] ∧ s.Captured := by
  have run : (machine.exec newcomer (greeting [] [])).map
      (fun s => (s.received, s.reads.map Reading.bytes)) =
      some ([some [104, 105]], [some [104], some [105]]) := by
    decide
  obtain ⟨s, hs, after⟩ := Option.map_eq_some_iff.mp run
  simp only [Prod.mk.injEq] at after
  obtain ⟨received, reads⟩ := after
  have alone : machine.Steps LeavesAlone newcomer (greeting [] []) := by
    refine .of_forall (fun s l hl => ?_) newcomer
    simp only [greeting, List.append_nil, List.cons_append, List.nil_append, List.mem_cons,
      List.not_mem_nil, or_false] at hl
    cases l with
    | string act => simp at hl
    | setState | send | post | loop | read => trivial
  exact ⟨s, hs, received, reads,
    send_captures (.of_steps (.start newcomer_start) _ alone hs)⟩

/-- The caller overwrites its string after `send` has returned: before the
functor runs, or while `sendInLoop` reads it. -/
theorem send_overwritten :
    (∃ s, machine.Reachable s ∧ s.received = [some [98, 121]] ∧ ¬ s.Captured) ∧
    (∃ s, machine.Reachable s ∧ s.received = [some [104, 105]] ∧
      s.reads.map Reading.bytes = [some [104], some [121]] ∧ ¬ s.Captured) := by
  constructor
  · have run : (machine.exec newcomer (greeting [.string (.overwrite 0 [98, 121])] [])).map
        (fun s => (s.received, s.loop.pushed)) =
        some ([some [98, 121]], [⟨0, .sendInLoop 4096 2 [104, 105]⟩]) := by
      decide
    obtain ⟨s, hs, after⟩ := Option.map_eq_some_iff.mp run
    simp only [Prod.mk.injEq] at after
    obtain ⟨received, pushed⟩ := after
    refine ⟨s, machine.exec_reachable (.start newcomer_start) _ hs, received, ?_⟩
    intro captured
    have queue := captured.queue
    rw [received, pushed] at queue
    exact absurd queue (by decide)
  · have run : (machine.exec newcomer (greeting [] [.string (.overwrite 0 [98, 121])])).map
        (fun s => (s.received, s.reads)) =
        some ([some [104, 105]], [⟨.sendInLoop 4096 2 [104, 105], 0, 1, some [104]⟩,
          ⟨.sendInLoop 4096 2 [104, 105], 1, 1, some [121]⟩]) := by
      decide
    obtain ⟨s, hs, after⟩ := Option.map_eq_some_iff.mp run
    simp only [Prod.mk.injEq] at after
    obtain ⟨received, reads⟩ := after
    have reachable := machine.exec_reachable (.start newcomer_start) _ hs
    refine ⟨s, reachable, received, by rw [reads]; rfl, ?_⟩
    intro captured
    have torn := captured.reads ⟨.sendInLoop 4096 2 [104, 105], 1, 1, some [121]⟩ (by simp [reads])
    exact absurd (torn (by decide)) (by decide)

end Callers
end Kenmuduo
