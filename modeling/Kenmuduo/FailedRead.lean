import Kenmuduo.TcpConnection

/-!
# A failed read

`readFd` keeps the result of `readv` in a `size_t`, so its test for a negative
result never succeeds: `-1` is taken for `2 ^ 64 - 1` bytes. The rest of them
is appended from `extrabuff`, and no state of the buffer makes that harmless.
What `append` finds depends on the room that was left: from 8 bytes on, its
request wraps and shrinks the vector below the writer index; with less, the
request itself wraps, the contents are moved and the copy runs off the end.
-/

namespace Kenmuduo
namespace Buffer

/-- What is asked of a failed read. -/
def FailedReadAtomic (b : Buffer) (errno saveErrno : Nat) : Prop :=
  ∃ r, b.readFd (.failed errno) saveErrno = .ok r ∧ r.n = -1 ∧ r.saveErrno = errno ∧
    r.buf.buffer.size = b.buffer.size ∧ r.buf.readerIndex = b.readerIndex ∧
    r.buf.writerIndex = b.writerIndex ∧ r.buf.readable = b.readable ∧ r.extraRead ≤ extrabuffSize

/-- Asked for 8 or more below `2 ^ 64`, the request wraps in `resize` only: a
full vector shrinks below the writer index. -/
theorem Inv.makeSpace_shrinks {b : Buffer} (h : b.Inv) (full : b.writerIndex = b.buffer.size)
    {writable : Nat} (much : 8 ≤ writable) (hw : writable + 8 ≤ b.buffer.size) :
    ∃ b', b.makeSpace (18446744073709551615 - writable) = .ok b' ∧
      b'.buffer.size < b'.writerIndex := by
  obtain ⟨hp, ho, hi, hs⟩ := h.bounds
  have none : b.writableBytes = 0 := by rw [h.writableBytes_eq, full, Nat.sub_self]
  have grows : sizeAdd b.writableBytes b.prependableBytes <
      sizeAdd (18446744073709551615 - writable) kCheapPrepend := by
    simp only [none, prependableBytes, sizeAdd, sizeMod, kCheapPrepend]
    omega
  have wrapped : sizeAdd b.writerIndex (18446744073709551615 - writable) =
      b.buffer.size - 1 - writable := by
    simp only [sizeAdd, sizeMod]
    omega
  have fits : b.buffer.size - 1 - writable ≤ vectorMax := by
    show _ ≤ 9223372036854775807
    omega
  obtain ⟨shrunk, hg, cells⟩ := b.buffer.resize_inside 0 fits
  have size : shrunk.size = b.buffer.size - 1 - writable := by
    simp only [Storage.size, cells, List.length_append, List.length_take,
      List.length_replicate] at *
    omega
  refine ⟨{ b with buffer := shrunk }, ?_, by simp only [size]; omega⟩
  simp only [Buffer.makeSpace, grows, if_true, wrapped, hg, orFault_some, ok_bind, pure_ok]

/-- Asked for 7 or less below `2 ^ 64`, the request wraps in the test for
room: the contents move and the vector keeps its size. -/
theorem Inv.makeSpace_moves {b : Buffer} (h : b.Inv) (full : b.writerIndex = b.buffer.size)
    {writable : Nat} (little : writable < 8) :
    ∃ b', b.makeSpace (18446744073709551615 - writable) = .ok b' ∧
      b'.buffer.size = b.buffer.size := by
  have hr := h.readableBytes_eq
  obtain ⟨hp, ho, hi, hs⟩ := h.bounds
  have none : b.writableBytes = 0 := by rw [h.writableBytes_eq, full, Nat.sub_self]
  have room : ¬ sizeAdd b.writableBytes b.prependableBytes <
      sizeAdd (18446744073709551615 - writable) kCheapPrepend := by
    simp only [none, prependableBytes, sizeAdd, sizeMod, kCheapPrepend]
    omega
  obtain ⟨moved, hm, cells⟩ := b.buffer.copyWithin_cells kCheapPrepend b.readerIndex
    b.readableBytes hp (by omega)
  refine ⟨⟨moved, kCheapPrepend, sizeAdd kCheapPrepend b.readableBytes⟩, ?_, ?_⟩
  · simp only [Buffer.makeSpace, room, if_false, hm, orFault_some, ok_bind, pure_ok]
  · simp only [Storage.size, cells, List.length_append, List.length_take, List.length_drop,
      kCheapPrepend] at *
    omega

/-- A full buffer cannot take nearly `2 ^ 64` more bytes: asked for room, it
ends up with less than it would need. -/
theorem Inv.append_wrapped {b : Buffer} (h : b.Inv) (full : b.writerIndex = b.buffer.size)
    (data : Pointer UInt8) {writable : Nat} (hw : writable + 8 ≤ b.buffer.size) :
    b.append data (18446744073709551615 - writable) = .error .outOfBounds := by
  obtain ⟨hp, ho, hi, hs⟩ := h.bounds
  have short : b.writableBytes < 18446744073709551615 - writable := by
    rw [h.writableBytes_eq]
    omega
  have wants : ∃ b', b.makeSpace (18446744073709551615 - writable) = .ok b' ∧
      b'.buffer.size < b'.writerIndex + (18446744073709551615 - writable) := by
    by_cases much : 8 ≤ writable
    · obtain ⟨b', hb, less⟩ := h.makeSpace_shrinks full much hw
      exact ⟨b', hb, by omega⟩
    · obtain ⟨b', hb, same⟩ := h.makeSpace_moves full (Nat.lt_of_not_le much)
      exact ⟨b', hb, by omega⟩
  obtain ⟨b', hb, less⟩ := wants
  have outside := b'.buffer.copyFrom_outside b'.writerIndex data _ less (by omega)
  simp only [Buffer.append, Buffer.ensureWritableBytes, short, if_true, hb, ok_bind, outside,
    orFault_none, error_bind]

theorem Inv.readFd_failed {b : Buffer} (h : b.Inv) (errno saveErrno : Nat) :
    b.readFd (.failed errno) saveErrno = .error .outOfBounds := by
  have hw := h.writableBytes_eq
  obtain ⟨hp, ho, hi, hs⟩ := h.bounds
  have beyond : ¬ 18446744073709551615 < b.writableBytes := by omega
  have extra : sizeSub 18446744073709551615 b.writableBytes =
      18446744073709551615 - b.writableBytes := sizeSub_eq (by omega) (by omega)
  have full : Inv { b with writerIndex := b.buffer.size } := ⟨hp, Nat.le_trans ho hi, Nat.le_refl _⟩
  have outside := full.append_wrapped rfl (Pointer.ofList ([].drop b.writableBytes) 0)
    (show b.writableBytes + 8 ≤ b.buffer.size by omega)
  simp only [Buffer.readFd, readv, sizeMod, List.length_nil, Nat.zero_min, Storage.copyFrom,
    orFault_some, ok_bind, Nat.reduceSub, Nat.not_lt_zero, if_false, beyond, extra, outside,
    error_bind]

theorem not_failedReadAtomic {b : Buffer} (h : b.Inv) (errno saveErrno : Nat) :
    ¬ b.FailedReadAtomic errno saveErrno := by
  rintro ⟨r, hr, _⟩
  rw [h.readFd_failed] at hr
  cases hr

end Buffer

namespace TcpConnection

/-- What is asked of `handleRead` when its read fails. -/
def ReadErrorHandled (c : TcpConnection) (errno : Nat) : Prop :=
  ∃ c', c.handleRead (.failed errno) = .ok (c', [.handleError]) ∧ c'.inputBuffer = c.inputBuffer

theorem not_readErrorHandled {c : TcpConnection} (h : c.inputBuffer.Inv) (errno : Nat) :
    ¬ c.ReadErrorHandled errno := by
  rintro ⟨c', hr, _⟩
  simp only [handleRead, h.readFd_failed, error_bind, reduceCtorEq] at hr

/-- No failed read is atomic, and none takes `handleRead` to its error
branch, whatever the state of the input buffer and the error. -/
theorem failed_read_never_atomic {c : TcpConnection} (h : c.inputBuffer.Inv)
    (errno saveErrno : Nat) :
    ¬ c.inputBuffer.FailedReadAtomic errno saveErrno ∧ ¬ c.ReadErrorHandled errno :=
  ⟨Buffer.not_failedReadAtomic h errno saveErrno, not_readErrorHandled h errno⟩

/-- A reset by the peer, read on a new connection. -/
theorem failed_read_never_atomic_reset :
    ¬ (TcpConnection.new 0 "conn" 7).inputBuffer.FailedReadAtomic ECONNRESET 0 ∧
    ¬ (TcpConnection.new 0 "conn" 7).ReadErrorHandled ECONNRESET :=
  failed_read_never_atomic (c := TcpConnection.new 0 "conn" 7) Buffer.new_inv ECONNRESET 0

/-- The same read runs out of the vector. -/
theorem failed_read_out_of_bounds :
    Buffer.new.readFd (.failed ECONNRESET) 0 = .error .outOfBounds ∧
    ¬ Buffer.new.FailedReadAtomic ECONNRESET 0 :=
  ⟨Buffer.new_inv.readFd_failed ECONNRESET 0, Buffer.not_failedReadAtomic Buffer.new_inv _ _⟩

end TcpConnection
end Kenmuduo
