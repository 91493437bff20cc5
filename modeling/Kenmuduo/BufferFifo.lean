import Kenmuduo.Buffer

/-!
# The buffer as a byte queue

Abstractly a `Buffer` is the queue of the bytes between its indices. Every
operation on a state within the index invariant has the queue's effect, and
no access of a vector element fails; the only way out is `vector::resize`
asked for more than `max_size()`.
-/

namespace Kenmuduo

inductive BufferOp
  | append (data : Pointer UInt8) (len : Nat)
  | retrieve (len : Nat)
  | retrieveAll
  | retrieveAllAsString
  | ensureWritableBytes (len : Nat)

/-- The length an operation needs room for. -/
def BufferOp.room : BufferOp → Nat
  | append _ len | ensureWritableBytes len => len
  | retrieve _ | retrieveAll | retrieveAllAsString => 0

/-- The reference queue and the string an operation returns, if any. -/
def fifoStep (q : List UInt8) : BufferOp → List UInt8 × Option (List UInt8)
  | .append data len => (q ++ data.cells len, none)
  | .retrieve len => (q.drop (min len q.length), none)
  | .retrieveAll => ([], none)
  | .retrieveAllAsString => ([], some q)
  | .ensureWritableBytes _ => (q, none)

def fifoRun (q : List UInt8) : List BufferOp → List UInt8 × List (Option (List UInt8))
  | [] => (q, [])
  | op :: ops =>
    let (q', out) := fifoStep q op
    let (q'', outs) := fifoRun q' ops
    (q'', out :: outs)

namespace Buffer

def step (b : Buffer) : BufferOp → Except Fault (Buffer × Option (List UInt8))
  | .append data len => (b.append data len).map fun b' => (b', none)
  | .retrieve len => .ok (b.retrieve len, none)
  | .retrieveAll => .ok (b.retrieveAll, none)
  | .retrieveAllAsString => b.retrieveAllAsString.map fun (s, b') => (b', some s)
  | .ensureWritableBytes len => (b.ensureWritableBytes len).map fun b' => (b', none)

def run (b : Buffer) : List BufferOp → Except Fault (Buffer × List (Option (List UInt8)))
  | [] => .ok (b, [])
  | op :: ops => do
    let (b', out) ← b.step op
    let (b'', outs) ← b'.run ops
    return (b'', out :: outs)

/-- The operation asks `vector::resize` for more than `max_size()`. -/
def Exceeds (b : Buffer) (op : BufferOp) : Prop :=
  b.step op = .error .lengthError ∧ vectorMax < b.writerIndex + op.room

theorem Inv.step {b : Buffer} (h : b.Inv) {op : BufferOp} (hlen : op.room ≤ vectorMax) :
    (∃ b' out, b.step op = .ok (b', out) ∧ b'.Inv ∧ fifoStep b.readable op = (b'.readable, out) ∧
      ∀ len, op = .ensureWritableBytes len → len ≤ b'.writableBytes) ∨ b.Exceeds op := by
  cases op with
  | append data len =>
    have hlen : len ≤ vectorMax := hlen
    rcases h.append data hlen with ⟨b', hb, inv, same, _⟩ | ⟨he, hbig⟩
    · exact .inl ⟨b', none, by simp [Buffer.step, hb], inv, by simp [fifoStep, same],
        fun _ h => by cases h⟩
    · exact .inr ⟨by simp [Buffer.step, he], hbig⟩
  | retrieve len =>
    obtain ⟨inv, same⟩ := h.retrieve len
    refine .inl ⟨b.retrieve len, none, rfl, inv, ?_, fun _ h => by cases h⟩
    simp only [fifoStep, same, Prod.mk.injEq, and_true]
    rcases Nat.le_total len b.readable.length with hl | hl
    · rw [Nat.min_eq_left hl]
    · rw [Nat.min_eq_right hl, List.drop_length, List.drop_eq_nil_of_le hl]
  | retrieveAll =>
    exact .inl ⟨b.retrieveAll, none, rfl, h.retrieveAll, by simp [fifoStep], fun _ h => by cases h⟩
  | retrieveAllAsString =>
    exact .inl ⟨b.retrieveAll, some b.readable,
      by simp [Buffer.step, h.retrieveAllAsString], h.retrieveAll,
      by simp [fifoStep], fun _ h => by cases h⟩
  | ensureWritableBytes len =>
    have hlen : len ≤ vectorMax := hlen
    rcases h.ensureWritableBytes hlen with ⟨b', hb, inv, same, room, _⟩ | ⟨he, hbig⟩
    · refine .inl ⟨b', none, by simp [Buffer.step, hb], inv, by simp [fifoStep, same],
        fun n hn => ?_⟩
      cases hn
      exact room
    · exact .inr ⟨by simp [Buffer.step, he], hbig⟩

theorem Inv.run {b : Buffer} (h : b.Inv) (ops : List BufferOp)
    (hlen : ∀ op ∈ ops, op.room ≤ vectorMax) :
    (∃ b' outs, b.run ops = .ok (b', outs) ∧ b'.Inv ∧ fifoRun b.readable ops = (b'.readable, outs) ∧
      ∀ before len, ops = before ++ [.ensureWritableBytes len] → len ≤ b'.writableBytes) ∨
    (∃ before op after b' outs, ops = before ++ op :: after ∧ b.run before = .ok (b', outs) ∧
      b'.Inv ∧ b'.Exceeds op) := by
  induction ops generalizing b with
  | nil => exact .inl ⟨b, [], rfl, h, rfl, fun before len hl => by simp at hl⟩
  | cons op ops ih =>
    rcases h.step (hlen op List.mem_cons_self) with ⟨b₁, out, hb, inv, same, room⟩ | big
    · rcases ih inv fun o ho => hlen o (List.mem_cons_of_mem op ho) with
        ⟨b₂, outs, hr, inv₂, same₂, room₂⟩ | ⟨before, o, after, b₂, outs, rfl, hr, inv₂, big⟩
      · refine .inl ⟨b₂, out :: outs,
          by simp [Buffer.run, hb, hr],
          inv₂, by simp [fifoRun, same, same₂], ?_⟩
        intro before len hl
        cases before with
        | nil =>
          simp only [List.nil_append, List.cons.injEq] at hl
          obtain ⟨rfl, rfl⟩ := hl
          simp only [Buffer.run, Except.ok.injEq, Prod.mk.injEq] at hr
          exact hr.1 ▸ room len rfl
        | cons o before =>
          simp only [List.cons_append, List.cons.injEq] at hl
          exact room₂ before len hl.2
      · exact .inr ⟨op :: before, o, after, b₂, out :: outs, rfl,
          by simp [Buffer.run, hb, hr], inv₂, big⟩
    · exact .inr ⟨[], op, ops, b, [], rfl, rfl, h, big⟩

/-- `2 ^ 62` bytes. -/
abbrev roomMax : Nat := 4611686018427387904

/-- Any sequence of operations on a new buffer, asking for room for up to
`2 ^ 62` bytes at a time, has the effect and the returned strings of the
reference queue, unless it reaches an operation that needs a vector of `2 ^ 63`
bytes or more. No access outside the vector occurs on the way. -/
theorem refines_fifo (ops : List BufferOp) (hlen : ∀ op ∈ ops, op.room ≤ roomMax) :
    (∃ b outs, new.run ops = .ok (b, outs) ∧ b.Inv ∧ fifoRun [] ops = (b.readable, outs) ∧
      ∀ before len, ops = before ++ [.ensureWritableBytes len] → len ≤ b.writableBytes) ∨
    (∃ before op after b outs, ops = before ++ op :: after ∧ new.run before = .ok (b, outs) ∧
      b.Inv ∧ b.Exceeds op) := by
  have := new_inv.run ops fun op ho => Nat.le_trans (hlen op ho) (by decide)
  rwa [new_readable] at this

/-- Three bytes are appended and handed out as a string. -/
theorem refines_fifo_handed_out :
    ∃ b, new.run [.append (fun i => i.toUInt8) 3, .retrieveAllAsString] =
      .ok (b, [none, some [0, 1, 2]]) ∧ b.Inv ∧ b.readable = [] := by
  rcases refines_fifo [.append (fun i => i.toUInt8) 3, .retrieveAllAsString]
      (by simp [BufferOp.room, roomMax]) with
    ⟨b, outs, hr, inv, same, _⟩ | ⟨before, op, after, b, outs, hs, hr, inv, _, big⟩
  · have parts := Prod.mk.inj same
    have hb : [] = b.readable := parts.1
    have ho : [none, some [0, 1, 2]] = outs := Eq.trans (by decide) parts.2
    exact ⟨b, ho ▸ hr, inv, hb.symm⟩
  · exfalso
    obtain ⟨_, _, hi, hb⟩ := inv.bounds
    cases before with
    | nil =>
      simp only [List.nil_append, List.cons.injEq] at hs
      simp only [Buffer.run, Except.ok.injEq, Prod.mk.injEq] at hr
      rw [← hr.1, ← hs.1] at big
      exact absurd big (by decide)
    | cons o before =>
      cases before with
      | nil =>
        simp only [List.cons_append, List.nil_append, List.cons.injEq] at hs
        rw [← hs.2.1] at big
        exact absurd big (by show ¬ 9223372036854775807 < b.writerIndex + 0; omega)
      | cons _ before => simp at hs

end Buffer
end Kenmuduo
