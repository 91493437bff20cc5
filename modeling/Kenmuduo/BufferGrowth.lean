import Kenmuduo.ScatterRead
import Kenmuduo.Transition

/-!
# How far a buffer grows

Runs of the operations a connection and its user call on a buffer. The vector
never shrinks. `makeSpace` grows it behind the contents, with the consumed
space in front carried along, but only when that space is smaller than what
is to be added; so the vector stays below twice what the buffer held at most.
-/

namespace Kenmuduo
open Transition

inductive BufferCall
  | append (data : Pointer UInt8) (len : Nat)
  | retrieve (len : Nat)
  | retrieveAll
  | retrieveAsString (len : Nat)
  | retrieveAllAsString
  /-- `readv` delivers the bytes. -/
  | readFd (bytes : List UInt8)

/-- No object is larger than `PTRDIFF_MAX`, and `readv` stores no more than it
is offered. -/
def BufferCall.possible (b : Buffer) : BufferCall → Bool
  | append _ len => len ≤ vectorMax
  | readFd bytes => bytes.length ≤ b.offered
  | retrieve _ | retrieveAll | retrieveAsString _ | retrieveAllAsString => true

/-- The contents after the call, and the string that it is to return. -/
def BufferCall.effect (q : List UInt8) : BufferCall → List UInt8 × Option (List UInt8)
  | append data len => (q ++ data.cells len, none)
  | retrieve len => (q.drop len, none)
  | retrieveAll => ([], none)
  | retrieveAsString len => (q.drop len, some (q.take len))
  | retrieveAllAsString => ([], some q)
  | readFd bytes => (q ++ bytes, none)

/-- `retrieveAsString` asks for more than there is. -/
def BufferCall.overlong (b : Buffer) : BufferCall → Bool
  | retrieveAsString len => b.readableBytes < len
  | _ => false

namespace Buffer

def call (b : Buffer) : BufferCall → Except Fault (Buffer × Option (List UInt8))
  | .append data len => (b.append data len).map fun b' => (b', none)
  | .retrieve len => .ok (b.retrieve len, none)
  | .retrieveAll => .ok (b.retrieveAll, none)
  | .retrieveAsString len => (b.retrieveAsString len).map fun (s, b') => (b', some s)
  | .retrieveAllAsString => b.retrieveAllAsString.map fun (s, b') => (b', some s)
  | .readFd bytes => (b.readFd (.delivered bytes) 0).map fun r => (r.buf, none)

/-! ## What a call does -/

/-- The vector is as large as before, or smaller than twice the contents. -/
def Grows (b b' : Buffer) : Prop :=
  b'.buffer.size = b.buffer.size ∨ b'.buffer.size < 2 * b'.readableBytes + 8

theorem Inv.grows {b b' : Buffer} (h : b.Inv) (inv : b'.Inv) {len : Nat}
    (holds : b'.readable.length = b.readable.length + len)
    (size : b'.buffer.size = b.buffer.size ∨ b'.buffer.size = b.writerIndex + len ∧
      b.buffer.size - b.writerIndex + b.readerIndex < len + 8) : b.Grows b' := by
  rw [inv.readable_length, h.readable_length, h.readableBytes_eq] at holds
  obtain ⟨_, ho, hi, _⟩ := h.bounds
  obtain same | ⟨grown, tight⟩ := size
  · exact .inl same
  · right
    omega

theorem retrieve_size (b : Buffer) (len : Nat) : (b.retrieve len).buffer = b.buffer := by
  unfold Buffer.retrieve
  split <;> rfl

theorem Inv.retrieveAsString {b : Buffer} (h : b.Inv) {len : Nat} (most : len ≤ b.readableBytes) :
    b.retrieveAsString len = .ok (b.readable.take len, b.retrieve len) := by
  have hr := h.readableBytes_eq
  obtain ⟨_, ho, hi, _⟩ := h.bounds
  have inside : b.readerIndex + len ≤ b.buffer.size := by omega
  have shorter : min len (b.writerIndex - b.readerIndex) = len := by omega
  simp only [Buffer.retrieveAsString, Storage.slice_inside _ inside, orFault_some, ok_bind, pure_ok,
    readable, List.take_take, shorter]

/-- A call that asks for no more than there is has the effect it is to have,
or throws. -/
theorem Inv.call {b : Buffer} (h : b.Inv) {op : BufferCall} (possible : op.possible b = true)
    (within : op.overlong b = false) :
    (∃ b', b.call op = .ok (b', (op.effect b.readable).2) ∧ b'.Inv ∧
      b'.readable = (op.effect b.readable).1 ∧ b.Grows b') ∨
    b.call op = .error .lengthError := by
  cases op with
  | append data len =>
    have hlen : len ≤ vectorMax := of_decide_eq_true possible
    obtain ⟨b', hb, inv, same, size⟩ | ⟨throws, _⟩ := h.append data hlen
    · left
      refine ⟨b', ?_, inv, same, h.grows inv ?_ size⟩
      · rw [Buffer.call, hb]
        rfl
      · rw [same, List.length_append, Pointer.cells_length]
    · right
      rw [Buffer.call, throws]
      rfl
  | retrieve len =>
    obtain ⟨inv, same⟩ := h.retrieve len
    exact .inl ⟨b.retrieve len, rfl, inv, same, .inl (by rw [retrieve_size])⟩
  | retrieveAll => exact .inl ⟨b.retrieveAll, rfl, h.retrieveAll, retrieveAll_readable b, .inl rfl⟩
  | retrieveAsString len =>
    have most : len ≤ b.readableBytes := Nat.le_of_not_lt (of_decide_eq_false within)
    obtain ⟨inv, same⟩ := h.retrieve len
    left
    refine ⟨b.retrieve len, ?_, inv, same, .inl (by rw [retrieve_size])⟩
    rw [Buffer.call, h.retrieveAsString most]
    rfl
  | retrieveAllAsString =>
    left
    refine ⟨b.retrieveAll, ?_, h.retrieveAll, retrieveAll_readable b, .inl rfl⟩
    rw [Buffer.call, h.retrieveAllAsString]
    rfl
  | readFd bytes =>
    have fits : bytes.length ≤ b.offered := of_decide_eq_true possible
    obtain ⟨r, hr, received⟩ | ⟨throws, _⟩ := h.readFd fits 0
    · left
      refine ⟨r.buf, ?_, received.inv, received.readable,
        h.grows received.inv ?_ received.size⟩
      · rw [Buffer.call, hr]
        rfl
      · rw [received.readable, List.length_append]
    · right
      rw [Buffer.call, throws]
      rfl

/-- A string that is too long is read past the contents. -/
theorem Inv.call_overlong {b b' : Buffer} (h : b.Inv) {op : BufferCall}
    {out : Option (List UInt8)} (beyond : op.overlong b = true) (hb : b.call op = .ok (b', out)) :
    b'.Inv ∧ b'.readable = [] ∧ b'.buffer = b.buffer ∧
      ∃ s, out = some s ∧ b.readable.length < s.length := by
  cases op with
  | retrieveAsString len =>
    have more : b.readableBytes < len := of_decide_eq_true beyond
    obtain ⟨⟨s, r⟩, hs, result⟩ := map_ok_iff.mp hb
    cases result
    obtain ⟨result, slice, ended⟩ := bind_ok_iff.mp hs
    cases ended
    obtain ⟨inv, same⟩ := h.retrieve len
    refine ⟨inv, ?_, retrieve_size b len, s, rfl, ?_⟩
    · rw [same, List.drop_eq_nil_of_le]
      rw [h.readable_length]
      omega
    · unfold Storage.slice at slice
      split at slice
      · rename_i inside
        cases slice
        have hsize : b.buffer.cells.length = b.buffer.size := rfl
        rw [h.readable_length, List.length_take, List.length_drop, hsize]
        omega
      · cases slice
  | _ => cases beyond

/-! ## Runs -/

def advance (b : Buffer) (op : BufferCall) : Option Buffer :=
  if op.possible b then
    match b.call op with
    | .ok (b', _) => some b'
    | .error _ => none
  else none

def machine : Machine Buffer BufferCall := ⟨fun b => b = new, advance⟩

/-- A buffer with the largest value `readableBytes()` has had. -/
def peaking : Machine (Buffer × Nat) BufferCall :=
  machine.watched 0 fun _ _ b peak => max peak b.readableBytes

theorem advance_call {b b' : Buffer} {op : BufferCall} (h : b.advance op = some b') :
    op.possible b = true ∧ ∃ out, b.call op = .ok (b', out) := by
  unfold advance at h
  split at h
  · rename_i possible
    split at h
    · rename_i out hb
      cases h
      exact ⟨possible, out, hb⟩
    · cases h
  · cases h

theorem Inv.advance {b b' : Buffer} (h : b.Inv) {op : BufferCall} (hb : b.advance op = some b') :
    b'.Inv ∧ b.Grows b' := by
  obtain ⟨possible, out, hc⟩ := advance_call hb
  cases within : op.overlong b with
  | false =>
    obtain ⟨r, hr, inv, _, grows⟩ | throws := h.call possible within
    · cases hr.symm.trans hc
      exact ⟨inv, grows⟩
    · cases throws.symm.trans hc
  | true =>
    obtain ⟨inv, _, same, _⟩ := h.call_overlong within hc
    exact ⟨inv, .inl (by rw [same])⟩

theorem new_size : new.buffer.size = 1032 := List.length_replicate

/-- However long a buffer is used, its vector has at most twice as many bytes,
and 8 more, as the buffer held at most, or the 1032 it began with. -/
theorem size_le_peak {p : Buffer × Nat} (h : peaking.Reachable p) :
    p.1.buffer.size ≤ max (kCheapPrepend + kInitialSize) (2 * p.2 + 8) := by
  have inv : p.1.Inv ∧ p.1.buffer.size ≤ max 1032 (2 * p.2 + 8) := by
    refine h.invariant (I := fun p => p.1.Inv ∧ p.1.buffer.size ≤ max 1032 (2 * p.2 + 8)) ?_ ?_
    · intro p start
      rw [start.1]
      refine ⟨new_inv, ?_⟩
      rw [new_size]
      exact Nat.le_max_left _ _
    · intro p op q inv step
      obtain ⟨hb, raised⟩ := Machine.watched_step step
      obtain ⟨inv', grows⟩ := inv.1.advance hb
      have bound := inv.2
      refine ⟨inv', ?_⟩
      have raised : q.2 = max p.2 q.1.readableBytes := raised
      obtain same | less := grows
      · omega
      · omega
  exact inv.2

/-- A byte is appended and another comes in before the first is taken: 2 bytes
were the most. -/
theorem size_le_peak_two : ∃ b : Buffer,
    peaking.exec (new, 0) [.append (fun _ => 7) 1, .readFd [8], .retrieve 1, .retrieveAllAsString] =
      some (b, 2) ∧ b.buffer.size ≤ 1032 := by
  have run : (peaking.exec (new, 0)
      [.append (fun _ => 7) 1, .readFd [8], .retrieve 1, .retrieveAllAsString]).map Prod.snd =
        some 2 := by
    decide +kernel
  obtain ⟨⟨b, peak⟩, hb, rfl⟩ := Option.map_eq_some_iff.mp run
  refine ⟨b, hb, ?_⟩
  have start : peaking.Reachable (new, 0) := .start ⟨rfl, rfl⟩
  exact size_le_peak (peaking.exec_reachable start _ hb)

end Buffer
end Kenmuduo
