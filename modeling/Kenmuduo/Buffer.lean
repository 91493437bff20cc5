import Kenmuduo.Storage

/-!
# Buffer

Buffer.h and Buffer.cc. Indices and lengths are `size_t`: naturals whose
additions and subtractions wrap modulo `2 ^ 64`. The `std::vector<char>` is a
`Storage`, so each access the code makes through `begin()` is checked, and
`resize` beyond `max_size()` is the `std::length_error` it throws.
-/

namespace Kenmuduo

/-! ## size_t -/

/-- The number of values of a `size_t`, `2 ^ 64`. -/
abbrev sizeMod : Nat := 18446744073709551616

def sizeAdd (a b : Nat) : Nat := (a + b) % sizeMod

def sizeSub (a b : Nat) : Nat := (a + (sizeMod - b % sizeMod)) % sizeMod

/-- A `size_t` returned as `ssize_t`. -/
def toSsize (n : Nat) : Int := if n < 9223372036854775808 then n else (n : Int) - sizeMod

theorem sizeAdd_eq {a b : Nat} (h : a + b < 18446744073709551616) : sizeAdd a b = a + b := by
  rw [sizeAdd, Nat.mod_eq_of_lt h]

theorem sizeSub_eq {a b : Nat} (hb : b ≤ a) (ha : a < 18446744073709551616) :
    sizeSub a b = a - b := by
  simp only [sizeSub, sizeMod]
  omega

theorem toSsize_eq {n : Nat} (h : n < 9223372036854775808) : toSsize n = n := by
  simp [toSsize, h]

/-! ## Results of the environment -/

/-- How a step leaves the program's defined behaviour: an access outside a
vector, an exception of `vector::resize`, a call of an empty `std::function`. -/
inductive Fault
  | outOfBounds
  | lengthError
  | badFunctionCall
  deriving DecidableEq, Repr

/-- `::write`: the number of bytes the kernel took, or `errno`. -/
inductive WriteResult
  | accepted (k : Nat)
  | failed (errno : Nat)
  deriving DecidableEq, Repr

/-- `::readv`: the bytes it stored, or `errno`. -/
inductive ReadResult
  | delivered (bytes : List UInt8)
  | failed (errno : Nat)
  deriving DecidableEq, Repr

/-! ## The class -/

/-- `std::vector<char>::max_size()`. -/
abbrev vectorMax : Nat := 9223372036854775807

abbrev kCheapPrepend : Nat := 8
abbrev kInitialSize : Nat := 1024

/-- `sizeof(extrabuff)` in `readFd`. -/
abbrev extrabuffSize : Nat := 65535

structure Buffer where
  buffer : Storage UInt8 vectorMax
  readerIndex : Nat
  writerIndex : Nat
  deriving DecidableEq, Repr

namespace Buffer

/-- The constructor; it ignores its `initialSize`. -/
def new : Buffer :=
  ⟨⟨List.replicate (kCheapPrepend + kInitialSize) 0, by rw [List.length_replicate]; decide⟩,
    kCheapPrepend, kCheapPrepend⟩

def readableBytes (b : Buffer) : Nat := sizeSub b.writerIndex b.readerIndex

def writableBytes (b : Buffer) : Nat := sizeSub b.buffer.size b.writerIndex

def prependableBytes (b : Buffer) : Nat := b.readerIndex

def retrieveAll (b : Buffer) : Buffer :=
  { b with readerIndex := kCheapPrepend, writerIndex := kCheapPrepend }

def retrieve (b : Buffer) (len : Nat) : Buffer :=
  if len < b.readableBytes then { b with readerIndex := sizeAdd b.readerIndex len }
  else b.retrieveAll

/-- `std::string(peek(), len)` is read before `retrieve` clamps `len`. -/
def retrieveAsString (b : Buffer) (len : Nat) : Except Fault (List UInt8 × Buffer) := do
  let result ← orFault .outOfBounds (b.buffer.slice b.readerIndex len)
  return (result, b.retrieve len)

def retrieveAllAsString (b : Buffer) : Except Fault (List UInt8 × Buffer) :=
  b.retrieveAsString b.readableBytes

def makeSpace (b : Buffer) (len : Nat) : Except Fault Buffer :=
  if sizeAdd b.writableBytes b.prependableBytes < sizeAdd len kCheapPrepend then do
    let grown ← orFault .lengthError (b.buffer.resize (sizeAdd b.writerIndex len) 0)
    return { b with buffer := grown }
  else do
    let readable := b.readableBytes
    let moved ← orFault .outOfBounds (b.buffer.copyWithin kCheapPrepend b.readerIndex readable)
    return ⟨moved, kCheapPrepend, sizeAdd kCheapPrepend readable⟩

def ensureWritableBytes (b : Buffer) (len : Nat) : Except Fault Buffer :=
  if b.writableBytes < len then b.makeSpace len else .ok b

def append (b : Buffer) (data : Pointer UInt8) (len : Nat) : Except Fault Buffer := do
  let b ← b.ensureWritableBytes len
  let filled ← orFault .outOfBounds (b.buffer.copyFrom b.writerIndex data len)
  return { b with buffer := filled, writerIndex := sizeAdd b.writerIndex len }

/-- What `readFd` leaves behind: its result, `*saveErrno`, the buffer, and how
many bytes it copied out of `extrabuff`. -/
structure ReadFd where
  n : Int
  saveErrno : Nat
  buf : Buffer
  extraRead : Nat
  deriving DecidableEq, Repr

/-- The bytes `readv` stored and its result converted to `size_t`. -/
def readv : ReadResult → List UInt8 × Nat
  | .delivered bytes => (bytes, bytes.length)
  | .failed _ => ([], sizeMod - 1)

/-- The bytes `readFd` offers `readv` room for, over the one or two entries
of `vec`. -/
def offered (b : Buffer) : Nat :=
  if b.writableBytes < extrabuffSize then b.writableBytes + extrabuffSize else b.writableBytes

/-- `n` is a `size_t`, so the test `n < 0` is written on a natural. -/
def readFd (b : Buffer) (r : ReadResult) (saveErrno : Nat) : Except Fault ReadFd := do
  let writable := b.writableBytes
  let (bytes, n) := readv r
  let filled ← orFault .outOfBounds
    (b.buffer.copyFrom b.writerIndex (Pointer.ofList bytes 0) (min bytes.length writable))
  let extrabuff := Pointer.ofList (bytes.drop writable) 0
  let b := { b with buffer := filled }
  if n < 0 then
    match r with
    | .failed errno => return ⟨toSsize n, errno, b, 0⟩
    | .delivered _ => return ⟨toSsize n, saveErrno, b, 0⟩
  else if n < writable then
    return ⟨toSsize n, saveErrno, { b with writerIndex := sizeAdd b.writerIndex n }, 0⟩
  else do
    let extra := sizeSub n writable
    let b ← { b with writerIndex := b.buffer.size }.append extrabuff extra
    return ⟨toSsize n, saveErrno, b, extra⟩

/-- What `writeFd` leaves behind: its result, `*saveErrno` and the bytes the
kernel took. -/
structure WriteFd where
  n : Int
  saveErrno : Nat
  accepted : List UInt8
  deriving DecidableEq, Repr

def writeFd (b : Buffer) (w : WriteResult) (saveErrno : Nat) : Except Fault WriteFd := do
  let bytes ← orFault .outOfBounds (b.buffer.slice b.readerIndex b.readableBytes)
  match w with
  | .accepted k => return ⟨k, saveErrno, bytes.take k⟩
  | .failed errno => return ⟨-1, errno, []⟩

/-- The result of `readFd` is `readv`'s, through a `size_t`. -/
theorem readFd_n {b : Buffer} {r : ReadResult} {saveErrno : Nat} {read : ReadFd}
    (h : b.readFd r saveErrno = .ok read) : read.n = toSsize (readv r).2 := by
  simp only [readFd, bind_ok_iff] at h
  obtain ⟨filled, _, h⟩ := h
  split at h
  · cases r <;> cases h <;> rfl
  · split at h
    · cases h
      rfl
    · obtain ⟨b', _, h⟩ := bind_ok_iff.mp h
      cases h
      rfl

/-! ## The index invariant -/

structure Inv (b : Buffer) : Prop where
  prepend : kCheapPrepend ≤ b.readerIndex
  order : b.readerIndex ≤ b.writerIndex
  inside : b.writerIndex ≤ b.buffer.size

/-- The bytes in `[readerIndex, writerIndex)`. -/
def readable (b : Buffer) : List UInt8 :=
  (b.buffer.cells.drop b.readerIndex).take (b.writerIndex - b.readerIndex)

theorem new_inv : new.Inv := by
  constructor <;> simp [new, Storage.size]

@[simp] theorem new_readable : new.readable = [] := by simp [new, readable]

/-- The order of the indices, with the constants written out for `omega`. -/
theorem Inv.bounds {b : Buffer} (h : b.Inv) :
    8 ≤ b.readerIndex ∧ b.readerIndex ≤ b.writerIndex ∧ b.writerIndex ≤ b.buffer.size ∧
    b.buffer.size ≤ 9223372036854775807 :=
  ⟨h.prepend, h.order, h.inside, b.buffer.size_le⟩

theorem Inv.readableBytes_eq {b : Buffer} (h : b.Inv) :
    b.readableBytes = b.writerIndex - b.readerIndex := by
  obtain ⟨_, ho, hi, hs⟩ := h.bounds
  exact sizeSub_eq ho (by omega)

theorem Inv.writableBytes_eq {b : Buffer} (h : b.Inv) :
    b.writableBytes = b.buffer.size - b.writerIndex := by
  obtain ⟨_, _, hi, hs⟩ := h.bounds
  exact sizeSub_eq hi (by omega)

theorem Inv.readable_length {b : Buffer} (h : b.Inv) : b.readable.length = b.readableBytes := by
  obtain ⟨_, _, hi, _⟩ := h.bounds
  rw [h.readableBytes_eq]
  simp only [readable, List.length_take, List.length_drop, Storage.size] at *
  omega

theorem Inv.readableBytes_zero {b : Buffer} (h : b.Inv) :
    b.readableBytes = 0 ↔ b.readable = [] := by
  rw [← h.readable_length, List.length_eq_zero_iff]

theorem Inv.retrieveAll {b : Buffer} (h : b.Inv) : b.retrieveAll.Inv := by
  obtain ⟨hp, ho, hi, _⟩ := h.bounds
  exact ⟨Nat.le_refl _, Nat.le_refl _, show 8 ≤ b.buffer.size by omega⟩

@[simp] theorem retrieveAll_readable (b : Buffer) : b.retrieveAll.readable = [] := by
  simp [Buffer.retrieveAll, readable]

theorem Inv.retrieve {b : Buffer} (h : b.Inv) (len : Nat) :
    (b.retrieve len).Inv ∧ (b.retrieve len).readable = b.readable.drop len := by
  have hr := h.readableBytes_eq
  obtain ⟨hp, ho, hi, hs⟩ := h.bounds
  unfold Buffer.retrieve
  split
  · rename_i part
    rw [sizeAdd_eq (by omega)]
    refine ⟨⟨show 8 ≤ b.readerIndex + len by omega,
      show b.readerIndex + len ≤ b.writerIndex by omega, hi⟩, ?_⟩
    simp only [readable, List.drop_take, List.drop_drop]
    congr 1
    omega
  · rename_i whole
    refine ⟨h.retrieveAll, ?_⟩
    rw [retrieveAll_readable, List.drop_eq_nil_of_le]
    rw [h.readable_length]
    omega

/-- The string handed out holds the whole readable contents. -/
theorem Inv.retrieveAllAsString {b : Buffer} (h : b.Inv) :
    b.retrieveAllAsString = .ok (b.readable, b.retrieveAll) := by
  have hr := h.readableBytes_eq
  obtain ⟨_, ho, hi, _⟩ := h.bounds
  have inside : b.readerIndex + b.readableBytes ≤ b.buffer.size := by omega
  simp only [Buffer.retrieveAllAsString, retrieveAsString, Storage.slice_inside _ inside,
    orFault_some, ok_bind, pure_ok, Buffer.retrieve, Nat.lt_irrefl, ↓reduceIte]
  simp only [readable, hr]

/-- `writeFd` hands the kernel a prefix of the readable bytes. -/
theorem Inv.writeFd {b : Buffer} (h : b.Inv) (w : WriteResult) (saveErrno : Nat) :
    b.writeFd w saveErrno = .ok (match w with
      | .accepted k => ⟨k, saveErrno, b.readable.take k⟩
      | .failed errno => ⟨-1, errno, []⟩) := by
  have hr := h.readableBytes_eq
  obtain ⟨_, ho, hi, _⟩ := h.bounds
  have inside : b.readerIndex + b.readableBytes ≤ b.buffer.size := by omega
  have taken : (b.buffer.cells.drop b.readerIndex).take b.readableBytes = b.readable := by
    rw [hr, Buffer.readable]
  simp only [Buffer.writeFd, Storage.slice_inside _ inside, orFault_some, ok_bind, taken]
  cases w <;> rfl

/-! ## Room for more -/

/-- There is too little room even behind moved contents: the vector grows, up
to `max_size()`. -/
theorem Inv.makeSpace_grows {b : Buffer} (h : b.Inv) {len : Nat} (hlen : len ≤ vectorMax)
    (tight : b.buffer.size - b.writerIndex + b.readerIndex < len + 8) :
    (∃ b', b.makeSpace len = .ok b' ∧ b'.Inv ∧ b'.readable = b.readable ∧
      len ≤ b'.writableBytes ∧ b'.buffer.size = b.writerIndex + len) ∨
    (b.makeSpace len = .error .lengthError ∧ vectorMax < b.writerIndex + len) := by
  have hw := h.writableBytes_eq
  obtain ⟨hp, ho, hi, hs⟩ := h.bounds
  have hlen' : len ≤ 9223372036854775807 := hlen
  unfold Buffer.makeSpace
  rw [prependableBytes, sizeAdd_eq (a := b.writableBytes) (by omega),
    sizeAdd_eq (a := len) (show len + 8 < _ by omega), sizeAdd_eq (a := b.writerIndex) (by omega),
    if_pos (show b.writableBytes + b.readerIndex < len + 8 by omega)]
  by_cases hfit : b.writerIndex + len ≤ vectorMax
  · obtain ⟨grown, hg, cells⟩ := b.buffer.resize_inside 0 hfit
    have hgsize : grown.size = b.writerIndex + len := by
      simp only [Storage.size, cells, List.length_append, List.length_take,
        List.length_replicate] at *
      omega
    have keep : grown.cells.take b.writerIndex = b.buffer.cells.take b.writerIndex := by
      rw [cells, List.take_append_of_le_length
        (by simp only [List.length_take, Storage.size] at *; omega),
        List.take_take, Nat.min_eq_left (by omega)]
    refine .inl ⟨{ b with buffer := grown },
      by simp [hg],
      ⟨hp, ho, by simp only [hgsize]; omega⟩, ?_, ?_, hgsize⟩
    · simp only [readable, List.take_drop]
      rw [show b.readerIndex + (b.writerIndex - b.readerIndex) = b.writerIndex by omega, keep]
    · have hfit' : b.writerIndex + len ≤ 9223372036854775807 := hfit
      simp only [writableBytes, hgsize]
      rw [sizeSub_eq (by omega) (by omega)]
      omega
  · have beyond : vectorMax < b.writerIndex + len := Nat.lt_of_not_le hfit
    refine .inr ⟨?_, beyond⟩
    rw [Storage.resize_beyond _ _ beyond]
    rfl

/-- The contents move to the front, over themselves. -/
theorem Inv.makeSpace_compacts {b : Buffer} (h : b.Inv) {len : Nat} (hlen : len ≤ vectorMax)
    (loose : len + 8 ≤ b.buffer.size - b.writerIndex + b.readerIndex) :
    ∃ b', b.makeSpace len = .ok b' ∧ b'.Inv ∧ b'.readable = b.readable ∧
      len ≤ b'.writableBytes ∧ b'.buffer.size = b.buffer.size := by
  have hw := h.writableBytes_eq
  have hr := h.readableBytes_eq
  obtain ⟨hp, ho, hi, hs⟩ := h.bounds
  have hlen' : len ≤ 9223372036854775807 := hlen
  unfold Buffer.makeSpace
  rw [prependableBytes, sizeAdd_eq (a := b.writableBytes) (by omega),
    sizeAdd_eq (a := len) (show len + 8 < _ by omega),
    if_neg (show ¬ b.writableBytes + b.readerIndex < len + 8 by omega)]
  obtain ⟨moved, hm, cells⟩ := b.buffer.copyWithin_cells kCheapPrepend b.readerIndex
    b.readableBytes hp (by omega)
  have hcells : b.buffer.cells.length = b.buffer.size := rfl
  have hmsize : moved.size = b.buffer.size := by
    simp only [Storage.size, cells, List.length_append, List.length_take, List.length_drop,
      kCheapPrepend]
    omega
  have hadd : sizeAdd kCheapPrepend b.readableBytes = 8 + b.readableBytes :=
    sizeAdd_eq (show 8 + _ < _ by omega)
  refine ⟨⟨moved, 8, 8 + b.readableBytes⟩,
    by simp [hm, hadd],
    ⟨Nat.le_refl _, Nat.le_add_right _ _, show 8 + b.readableBytes ≤ moved.size by omega⟩,
    ?_, ?_, hmsize⟩
  · have lead : (b.buffer.cells.take kCheapPrepend).length = 8 := by
      rw [List.length_take, hcells]
      exact Nat.min_eq_left (show 8 ≤ _ by omega)
    have whole : ((b.buffer.cells.drop b.readerIndex).take b.readableBytes).length =
        b.readableBytes := by
      rw [List.length_take, List.length_drop, hcells]
      omega
    simp only [readable, cells, List.append_assoc, Nat.add_sub_cancel_left]
    rw [List.drop_left' lead, List.take_left' whole, hr]
  · simp only [writableBytes, hmsize]
    rw [sizeSub_eq (by omega) (by omega)]
    omega

/-- `makeSpace` asked for more than there is: it grows the vector, moves the
contents to the front, or fails because the vector cannot grow that far. -/
theorem Inv.makeSpace {b : Buffer} (h : b.Inv) {len : Nat} (hlen : len ≤ vectorMax) :
    (∃ b', b.makeSpace len = .ok b' ∧ b'.Inv ∧ b'.readable = b.readable ∧
      len ≤ b'.writableBytes ∧
      (b'.buffer.size = b.buffer.size ∨ b'.buffer.size = b.writerIndex + len ∧
        b.buffer.size - b.writerIndex + b.readerIndex < len + 8)) ∨
    (b.makeSpace len = .error .lengthError ∧ vectorMax < b.writerIndex + len) := by
  by_cases tight : b.buffer.size - b.writerIndex + b.readerIndex < len + 8
  · obtain ⟨b', hb, inv, same, room, size⟩ | big := h.makeSpace_grows hlen tight
    · exact .inl ⟨b', hb, inv, same, room, .inr ⟨size, tight⟩⟩
    · exact .inr big
  · obtain ⟨b', hb, inv, same, room, size⟩ := h.makeSpace_compacts hlen (Nat.le_of_not_lt tight)
    exact .inl ⟨b', hb, inv, same, room, .inl size⟩

theorem Inv.ensureWritableBytes {b : Buffer} (h : b.Inv) {len : Nat} (hlen : len ≤ vectorMax) :
    (∃ b', b.ensureWritableBytes len = .ok b' ∧ b'.Inv ∧ b'.readable = b.readable ∧
      len ≤ b'.writableBytes ∧
      (b'.buffer.size = b.buffer.size ∨ b'.buffer.size = b.writerIndex + len ∧
        b.buffer.size - b.writerIndex + b.readerIndex < len + 8)) ∨
    (b.ensureWritableBytes len = .error .lengthError ∧ vectorMax < b.writerIndex + len) := by
  unfold Buffer.ensureWritableBytes
  split
  · exact h.makeSpace hlen
  · exact .inl ⟨b, rfl, h, rfl, by omega, .inl rfl⟩

/-- Bytes that fit behind the contents are written there. -/
theorem Inv.fill {b : Buffer} (h : b.Inv) (data : Pointer UInt8) {len : Nat}
    (room : len ≤ b.buffer.size - b.writerIndex) :
    ∃ filled, b.buffer.copyFrom b.writerIndex data len = some filled ∧
      filled.size = b.buffer.size ∧
      Inv { b with buffer := filled, writerIndex := b.writerIndex + len } ∧
      readable { b with buffer := filled, writerIndex := b.writerIndex + len } =
        b.readable ++ data.cells len := by
  obtain ⟨_, ho, hi, hs⟩ := h.bounds
  obtain ⟨filled, hf, cells⟩ := b.buffer.copyFrom_cells b.writerIndex data len (by omega)
  have hcells : b.buffer.cells.length = b.buffer.size := rfl
  have hfsize : filled.size = b.buffer.size := by
    simp only [Storage.size, cells, List.length_append, List.length_take, List.length_drop,
      Pointer.cells_length]
    omega
  refine ⟨filled, hf, hfsize, ⟨h.prepend, Nat.le_add_right_of_le ho, ?_⟩, ?_⟩
  · simp only [hfsize]
    omega
  · have lead : (b.buffer.cells.take b.writerIndex).length = b.writerIndex := by
      rw [List.length_take, hcells]
      exact Nat.min_eq_left hi
    simp only [readable, cells, List.append_assoc]
    rw [List.drop_append_of_le_length (by omega), List.drop_take, ← List.append_assoc,
      List.take_left' (by
        simp only [List.length_append, List.length_take, List.length_drop, hcells,
          Pointer.cells_length]
        omega)]

/-- Appending adds the bytes at the end, unless the vector would have to grow
beyond `max_size()`. -/
theorem Inv.append {b : Buffer} (h : b.Inv) (data : Pointer UInt8) {len : Nat}
    (hlen : len ≤ vectorMax) :
    (∃ b', b.append data len = .ok b' ∧ b'.Inv ∧ b'.readable = b.readable ++ data.cells len ∧
      (b'.buffer.size = b.buffer.size ∨ b'.buffer.size = b.writerIndex + len ∧
        b.buffer.size - b.writerIndex + b.readerIndex < len + 8)) ∨
    (b.append data len = .error .lengthError ∧ vectorMax < b.writerIndex + len) := by
  rcases h.ensureWritableBytes hlen with ⟨r, hr, inv, same, room, grown⟩ | ⟨he, hbig⟩
  · have hw := inv.writableBytes_eq
    obtain ⟨_, _, hi, hs⟩ := inv.bounds
    have fits : len ≤ r.buffer.size - r.writerIndex := by omega
    obtain ⟨filled, hf, size, inv', readable⟩ := inv.fill data fits
    have hadd : sizeAdd r.writerIndex len = r.writerIndex + len := sizeAdd_eq (by omega)
    refine .inl ⟨_, ?_, inv', ?_, ?_⟩
    · simp [Buffer.append, hr, hf, hadd]
    · rw [readable, same]
    · rw [← size] at grown
      exact grown
  · exact .inr ⟨by simp [Buffer.append, he], hbig⟩

end Buffer
end Kenmuduo
