import Kenmuduo.BufferGrowth

/-!
# Bytes that stay behind

Two buffers with the same contents go through the same calls. What is in the
vectors outside of the contents differs: old messages, and the bytes that
moving and resetting leave behind. `retrieve` takes no more than there is, but
`retrieveAsString` builds its string before it calls `retrieve`.
-/

namespace Kenmuduo
open Transition
namespace Buffer

/-- Nothing is returned: the call cannot be made, or the vector cannot grow. -/
def Ends (b : Buffer) (op : BufferCall) : Prop :=
  op.possible b = false ∨ b.call op = .error .lengthError

/-- Both buffers return the same string, the bytes that leave the contents. -/
def HandsOut (p : Buffer × Buffer) (op : BufferCall) : Prop :=
  p.1.Ends op ∨ p.2.Ends op ∨
    ∃ a b out, p.1.call op = .ok (a, out) ∧ p.2.call op = .ok (b, out) ∧
      ∀ s ∈ out, p.1.readable = s ++ a.readable ∧ p.2.readable = s ++ b.readable

/-- `retrieveAsString` is asked for no more than there is. -/
def AsksWithin (p : Buffer × Buffer) (op : BufferCall) : Prop := op.overlong p.1 = false

instance (p : Buffer × Buffer) (op : BufferCall) : Decidable (AsksWithin p op) :=
  inferInstanceAs (Decidable (op.overlong p.1 = false))

/-- Within the index invariant, with the same contents. -/
structure Twins (p : Buffer × Buffer) : Prop where
  left : p.1.Inv
  right : p.2.Inv
  same : p.1.readable = p.2.readable

def twinStep (p : Buffer × Buffer) (op : BufferCall) : Option (Buffer × Buffer) :=
  match p.1.advance op, p.2.advance op with
  | some a, some b => some (a, b)
  | _, _ => none

def twins : Machine (Buffer × Buffer) BufferCall := ⟨Twins, twinStep⟩

theorem twinStep_steps {p q : Buffer × Buffer} {op : BufferCall} (h : twinStep p op = some q) :
    p.1.advance op = some q.1 ∧ p.2.advance op = some q.2 := by
  unfold twinStep at h
  split at h
  · rename_i ha hb
    cases h
    exact ⟨ha, hb⟩
  · cases h

theorem Twins.overlong {p : Buffer × Buffer} (h : Twins p) (op : BufferCall) :
    op.overlong p.2 = op.overlong p.1 := by
  cases op with
  | retrieveAsString len =>
    simp only [BufferCall.overlong, ← h.left.readable_length, ← h.right.readable_length, h.same]
  | _ => rfl

/-- The string that a call is to return is what the contents lose. -/
theorem BufferCall.effect_string {q : List UInt8} {op : BufferCall} {s : List UInt8}
    (h : s ∈ (op.effect q).2) : q = s ++ (op.effect q).1 := by
  cases op with
  | retrieveAsString len =>
    cases h
    exact (List.take_append_drop len q).symm
  | retrieveAllAsString =>
    cases h
    exact (List.append_nil q).symm
  | _ => cases h

/-- A call that asks for no more than there is leaves twins. -/
theorem Twins.step {p q : Buffer × Buffer} {op : BufferCall} (h : Twins p)
    (within : AsksWithin p op) (step : twinStep p op = some q) : Twins q := by
  obtain ⟨ha, hb⟩ := twinStep_steps step
  obtain ⟨possible₁, out₁, hc₁⟩ := advance_call ha
  obtain ⟨possible₂, out₂, hc₂⟩ := advance_call hb
  obtain ⟨a, left, inv₁, same₁, _⟩ | throws := h.left.call possible₁ within
  · cases left.symm.trans hc₁
    obtain ⟨b, right, inv₂, same₂, _⟩ | throws :=
      h.right.call possible₂ ((h.overlong op).trans within)
    · cases right.symm.trans hc₂
      refine ⟨inv₁, inv₂, ?_⟩
      rw [same₁, same₂, h.same]
    · cases throws.symm.trans hc₂
  · cases throws.symm.trans hc₁

/-- A string that is too long is built, or read from beyond the vector. -/
theorem not_ends_of_overlong {b : Buffer} {op : BufferCall} (beyond : op.overlong b = true) :
    ¬ b.Ends op := by
  cases op with
  | retrieveAsString len =>
    rintro (impossible | throws)
    · cases impossible
    · simp only [Buffer.call, Buffer.retrieveAsString] at throws
      cases hs : b.buffer.slice b.readerIndex len with
      | none =>
        rw [hs] at throws
        cases throws
      | some s =>
        rw [hs] at throws
        cases throws
  | _ => cases beyond

theorem Inv.call_within {b : Buffer} (h : b.Inv) {op : BufferCall} (going : ¬ b.Ends op)
    (within : op.overlong b = false) :
    ∃ b', b.call op = .ok (b', (op.effect b.readable).2) ∧
      b'.readable = (op.effect b.readable).1 := by
  have possible : op.possible b = true := Bool.of_not_eq_false fun no => going (.inl no)
  obtain ⟨b', hb, _, same, _⟩ | throws := h.call possible within
  · exact ⟨b', hb, same⟩
  · exact absurd (.inr throws) going

theorem Twins.handsOut_iff {p : Buffer × Buffer} (h : Twins p) (op : BufferCall) :
    HandsOut p op ↔ AsksWithin p op := by
  constructor
  · intro hands
    apply Bool.eq_false_iff.mpr
    intro beyond
    obtain ends | ends | ⟨a, b, out, ha, _, exactly⟩ := hands
    · exact not_ends_of_overlong beyond ends
    · exact not_ends_of_overlong ((h.overlong op).trans beyond) ends
    · obtain ⟨_, _, _, s, rfl, longer⟩ := h.left.call_overlong beyond ha
      have whole := congrArg List.length (exactly s rfl).1
      rw [List.length_append] at whole
      omega
  · intro within
    by_cases first : p.1.Ends op
    · exact .inl first
    by_cases second : p.2.Ends op
    · exact .inr (.inl second)
    right
    right
    obtain ⟨a, ha, left⟩ := h.left.call_within first within
    obtain ⟨b, hb, right⟩ := h.right.call_within second ((h.overlong op).trans within)
    rw [← h.same] at hb right
    refine ⟨a, b, _, ha, hb, fun s string => ?_⟩
    constructor
    · rw [left]
      exact BufferCall.effect_string string
    · rw [right, ← h.same]
      exact BufferCall.effect_string string

/-- All strings that a run of two twins returns are the same, and the bytes
that leave the contents, exactly when no `retrieveAsString` of it asks for more
than there is. -/
theorem hands_out_iff {p : Buffer × Buffer} (h : Twins p) (ops : List BufferCall) :
    twins.Tries HandsOut p ops ↔ twins.Tries AsksWithin p ops := by
  refine tries_iff_tries (I := Twins) ?_ ?_ h ops
  · exact fun p op twins => twins.handsOut_iff op
  · exact fun p op q twins step within => twins.step within step

theorem exec_inv {b : Buffer} {ops : List BufferCall} (h : machine.exec new ops = some b) :
    b.Inv :=
  machine.exec_keeps (fun _ _ _ inv step => (inv.advance step).1) new_inv ops h

theorem returned_of_toOption {r : Except Fault (Buffer × Option (List UInt8))} {s : List UInt8}
    (h : r.toOption.bind Prod.snd = some s) : ∃ b, r = .ok (b, some s) := by
  cases r with
  | error _ => cases h
  | ok result => exact ⟨result.1, congrArg (fun out => Except.ok (result.1, out)) h⟩

/-- Two bytes in a new buffer. -/
def greeted : List BufferCall := [.append (Pointer.ofList [104, 105] 0) 2]

/-- The same in a buffer that four other bytes have been through. -/
def reused : List BufferCall :=
  [.append (Pointer.ofList [107, 101, 121, 115] 0) 4, .retrieveAll] ++ greeted

/-- All that is there is asked for, in two parts. -/
theorem hands_out_parts : ∃ a b, machine.exec new reused = some a ∧
    machine.exec new greeted = some b ∧
    twins.Tries HandsOut (a, b) [.retrieveAsString 1, .retrieveAsString 1] := by
  have run : ((machine.exec new reused).bind fun a => (machine.exec new greeted).map fun b =>
      (decide (a.readable = b.readable),
        decide (twins.Tries AsksWithin (a, b) [.retrieveAsString 1, .retrieveAsString 1]))) =
      some (true, true) := by
    decide +kernel
  obtain ⟨a, ha, run⟩ := Option.bind_eq_some_iff.mp run
  obtain ⟨b, hb, found⟩ := Option.map_eq_some_iff.mp run
  simp only [Prod.mk.injEq, decide_eq_true_eq] at found
  exact ⟨a, b, ha, hb, (hands_out_iff ⟨exec_inv ha, exec_inv hb, found.1⟩ _).mpr found.2⟩

/-- Asked for three bytes, the one hands out an old byte and the other a zero. -/
theorem not_hands_out_overlong : ∃ a b a' b', machine.exec new reused = some a ∧
    machine.exec new greeted = some b ∧ Twins (a, b) ∧
    a.call (.retrieveAsString 3) = .ok (a', some [104, 105, 121]) ∧
    b.call (.retrieveAsString 3) = .ok (b', some [104, 105, 0]) ∧
    ¬ twins.Tries HandsOut (a, b) [.retrieveAsString 3] := by
  have run : ((machine.exec new reused).bind fun a => (machine.exec new greeted).map fun b =>
      (decide (a.readable = b.readable), (a.call (.retrieveAsString 3)).toOption.bind Prod.snd,
        (b.call (.retrieveAsString 3)).toOption.bind Prod.snd)) =
      some (true, some [104, 105, 121], some [104, 105, 0]) := by
    decide +kernel
  obtain ⟨a, ha, run⟩ := Option.bind_eq_some_iff.mp run
  obtain ⟨b, hb, found⟩ := Option.map_eq_some_iff.mp run
  simp only [Prod.mk.injEq, decide_eq_true_eq] at found
  obtain ⟨same, left, right⟩ := found
  obtain ⟨a', left⟩ := returned_of_toOption left
  obtain ⟨b', right⟩ := returned_of_toOption right
  refine ⟨a, b, a', b', ha, hb, ⟨exec_inv ha, exec_inv hb, same⟩, left, right, ?_⟩
  intro hands
  obtain ends | ends | ⟨_, _, out, first, second, _⟩ := hands.1
  · obtain impossible | throws := ends
    · cases impossible
    · cases throws.symm.trans left
  · obtain impossible | throws := ends
    · cases impossible
    · cases throws.symm.trans right
  · cases first.symm.trans left
    cases second.symm.trans right

end Buffer
end Kenmuduo
