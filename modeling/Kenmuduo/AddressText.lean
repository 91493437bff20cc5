import Kenmuduo.InetAddress
import Mathlib.Algebra.Group.Nat.Defs
import Mathlib.Data.List.Basic
import Mathlib.Data.List.TakeWhile

/-!
# Addresses from text

The constructor of InetAddress hands its text to `inet_addr`, which takes one to
four numbers with dots between them, each decimal, octal or hexadecimal. The text
that `toIp` writes is one of the texts it takes, and stands for the same address.
-/

namespace Kenmuduo

/-- The value of a character as a digit, as `strtoul` has it. -/
def digitValue (c : Char) : Option Nat :=
  if c.isDigit then some (c.toNat - 48)
  else if 97 ≤ c.toNat ∧ c.toNat ≤ 102 then some (c.toNat - 87)
  else if 65 ≤ c.toNat ∧ c.toNat ≤ 70 then some (c.toNat - 55)
  else none

/-- The digits of one base at the front of a text, and what is behind them. -/
def takeDigits (base : Nat) : Nat → List Char → Nat × List Char
  | value, [] => (value, [])
  | value, c :: text =>
    match digitValue c with
    | some d => if d < base then takeDigits base (base * value + d) text else (value, c :: text)
    | none => (value, c :: text)

/-- `strtoul` with base 0, of a text that begins with a decimal digit. -/
def strtoul : List Char → Nat × List Char
  | '0' :: x :: c :: text =>
    if (x = 'x' ∨ x = 'X') ∧ (digitValue c).isSome then takeDigits 16 0 (c :: text)
    else takeDigits 8 0 ('0' :: x :: c :: text)
  | '0' :: text => takeDigits 8 0 ('0' :: text)
  | text => takeDigits 10 0 text

def isSpace (c : Char) : Bool := c.toNat == 32 || (9 ≤ c.toNat && c.toNat ≤ 13)

/-- The numbers before the dots, which are bytes, and the last one. There can be
`more` dots. -/
def dotted (more : Nat) (text : List Char) : Option (List Nat × Nat) :=
  match text with
  | [] => none
  | c :: _ =>
    if c.isDigit then
      let (value, rest) := strtoul text
      if value ≤ 0xffffffff then
        match rest, more with
        | [], _ => some ([], value)
        | '.' :: text, more + 1 =>
          if value ≤ 0xff then (dotted more text).map fun (bytes, last) => (value :: bytes, last)
          else none
        | '.' :: _, 0 => none
        | c :: _, _ => if isSpace c then some ([], value) else none
      else none
    else none

/-- `inet_addr`, with the number of the address in host order. The last number takes
the bytes that the others leave. -/
def inetAddr (ip : String) : Option Nat :=
  -- c_str() ends at the first zero
  match dotted 3 (ip.toList.takeWhile fun c => c.toNat != 0) with
  | some (bytes, last) =>
    if last < 256 ^ (4 - bytes.length) then
      some (bytes.foldl (fun word byte => 256 * word + byte) 0 * 256 ^ (4 - bytes.length) + last)
    else none
  | none => none

abbrev INADDR_NONE : Nat := 0xffffffff

namespace InetAddress

/-- The constructor. -/
def ofText (port : UInt16) (ip : String) : InetAddress :=
  let word := (inetAddr ip).getD INADDR_NONE
  { a := UInt8.ofNat (word / 256 ^ 3)
    b := UInt8.ofNat (word / 256 ^ 2)
    c := UInt8.ofNat (word / 256)
    d := UInt8.ofNat word
    port := port }

end InetAddress

/-! ## Reading what was written -/

/-- What can stand behind a number. -/
def EndsNumber (rest : List Char) : Prop := rest = [] ∨ ∃ text, rest = '.' :: text

theorem takeDigits_ends {base value : Nat} {rest : List Char} (h : EndsNumber rest) :
    takeDigits base value rest = (value, rest) := by
  obtain rfl | ⟨text, rfl⟩ := h
  · rfl
  · rfl

/-- A decimal is read to its end. -/
theorem takeDigits_decimal (n : Nat) {rest : List Char} (h : EndsNumber rest) :
    takeDigits 10 0 (Nat.toDigits 10 n ++ rest) = (n, rest) := by
  have append (front : List Char) (digits : ∀ c ∈ front, c.isDigit = true) (value : Nat) :
      takeDigits 10 value (front ++ rest) = (Nat.ofDigitChars 10 front value, rest) := by
    induction front generalizing value with
    | nil => exact takeDigits_ends h
    | cons c front ih =>
      have digit := digits c List.mem_cons_self
      have small : c.toNat - 48 < 10 := by
        have bounds := Char.isDigit_iff_toNat.mp digit
        have nine : '9'.toNat = 57 := rfl
        omega
      rw [List.cons_append, takeDigits, digitValue, if_pos digit]
      simp only [small, if_true]
      rw [ih fun c mem => digits c (List.mem_cons_of_mem _ mem), Nat.ofDigitChars_cons]
      rfl
  rw [append _ fun c mem => Nat.isDigit_of_mem_toDigits (by decide) (by decide) mem,
    Nat.ofDigitChars_ten_toDigits]

/-- A decimal other than 0 does not begin with 0. -/
theorem toDigits_head {n : Nat} (h : 0 < n) :
    ∃ c text, Nat.toDigits 10 n = c :: text ∧ c ≠ '0' := by
  induction n using Nat.strongRecOn with
  | ind n ih =>
    rw [Nat.toDigits_eq_if (by decide)]
    by_cases small : n < 10
    · rw [if_pos small]
      refine ⟨_, [], rfl, ?_⟩
      rw [Ne, Nat.digitChar_eq_zero]
      omega
    · rw [if_neg small]
      obtain ⟨c, text, front, nonzero⟩ := ih (n / 10) (by omega) (by omega)
      exact ⟨c, text ++ [Nat.digitChar (n % 10)], by rw [front]; rfl, nonzero⟩

/-- `strtoul` reads a decimal, with the base it finds. -/
theorem strtoul_decimal (n : Nat) {rest : List Char} (h : EndsNumber rest) :
    strtoul (Nat.toDigits 10 n ++ rest) = (n, rest) := by
  by_cases zero : n = 0
  · subst zero
    obtain rfl | ⟨text, rfl⟩ := h
    · rfl
    · cases text with
      | nil => rfl
      | cons c text => rfl
  · obtain ⟨c, text, front, nonzero⟩ := toDigits_head (Nat.pos_of_ne_zero zero)
    have decimal := takeDigits_decimal n h
    rw [front, List.cons_append] at decimal ⊢
    unfold strtoul
    split
    · rename_i same
      exact absurd (List.cons.inj same).1 nonzero
    · rename_i same
      exact absurd (List.cons.inj same).1 nonzero
    · exact decimal

theorem toDigits_digits {n : Nat} {c : Char} (mem : c ∈ Nat.toDigits 10 n) : c.isDigit = true :=
  Nat.isDigit_of_mem_toDigits (by decide) (by decide) mem

/-- A text that begins with a decimal begins with a digit, and `strtoul` reads it. -/
theorem decimal_begins (n : Nat) {rest : List Char} (h : EndsNumber rest) :
    ∃ c text, Nat.toDigits 10 n ++ rest = c :: text ∧ c.isDigit = true ∧
      strtoul (c :: text) = (n, rest) := by
  have read := strtoul_decimal n h
  cases front : Nat.toDigits 10 n with
  | nil => exact absurd front Nat.toDigits_ne_nil
  | cons c text =>
    rw [front] at read
    refine ⟨c, text ++ rest, rfl, ?_, read⟩
    apply toDigits_digits (n := n)
    rw [front]
    exact List.mem_cons_self

theorem dotted_byte (more : Nat) {n : Nat} (fits : n ≤ 0xff) (text : List Char) :
    dotted (more + 1) (Nat.toDigits 10 n ++ '.' :: text) =
      (dotted more text).map fun (bytes, last) => (n :: bytes, last) := by
  obtain ⟨c, front, begins, digit, read⟩ := decimal_begins n (.inr ⟨text, rfl⟩)
  have word : n ≤ 0xffffffff := Nat.le_trans fits (by decide)
  rw [begins, dotted]
  simp only [digit, if_true, read, word, fits]

theorem dotted_last (more : Nat) {n : Nat} (fits : n ≤ 0xffffffff) :
    dotted more (Nat.toDigits 10 n) = some ([], n) := by
  obtain ⟨c, front, begins, digit, read⟩ := decimal_begins n (.inl rfl)
  rw [List.append_nil] at begins
  rw [begins, dotted.eq_def]
  simp only [digit, if_true, read, fits]

namespace InetAddress

theorem toIp_toList (addr : InetAddress) : addr.toIp.toList =
    Nat.toDigits 10 addr.a.toNat ++ '.' :: (Nat.toDigits 10 addr.b.toNat ++
      '.' :: (Nat.toDigits 10 addr.c.toNat ++ '.' :: Nat.toDigits 10 addr.d.toNat)) := by
  have dot : ".".toList = ['.'] := rfl
  simp only [toIp, String.toList_append, Nat.toString_eq_repr, Nat.toList_repr, dot,
    List.append_assoc, List.cons_append, List.nil_append]

/-- The text is of digits and dots. -/
theorem toIp_characters {addr : InetAddress} {c : Char} (mem : c ∈ addr.toIp.toList) :
    c.isDigit = true ∨ c = '.' := by
  rw [toIp_toList] at mem
  simp only [List.mem_append, List.mem_cons] at mem
  obtain digit | rfl | digit | rfl | digit | rfl | digit := mem
  · exact .inl (toDigits_digits digit)
  · exact .inr rfl
  · exact .inl (toDigits_digits digit)
  · exact .inr rfl
  · exact .inl (toDigits_digits digit)
  · exact .inr rfl
  · exact .inl (toDigits_digits digit)

/-- `inet_addr` takes what `inet_ntop` writes. -/
theorem inetAddr_toIp (addr : InetAddress) : inetAddr addr.toIp =
    some (256 ^ 3 * addr.a.toNat + 256 ^ 2 * addr.b.toNat + 256 * addr.c.toNat +
      addr.d.toNat) := by
  have whole : addr.toIp.toList.takeWhile (fun c => c.toNat != 0) = addr.toIp.toList := by
    rw [List.takeWhile_eq_self_iff]
    intro c mem
    rw [bne_iff_ne]
    obtain digit | rfl := toIp_characters mem
    · have bounds := Char.isDigit_iff_toNat.mp digit
      have zero : '0'.toNat = 48 := rfl
      omega
    · decide
  have a := addr.a.toNat_lt
  have b := addr.b.toNat_lt
  have c := addr.c.toNat_lt
  have d := addr.d.toNat_lt
  rw [inetAddr, whole, toIp_toList, dotted_byte _ (by omega), dotted_byte _ (by omega),
    dotted_byte _ (by omega), dotted_last _ (by omega)]
  have last : addr.d.toNat < 256 ^ 1 := d
  simp only [Option.map_some, List.foldl_cons, List.foldl_nil, List.length_cons, List.length_nil,
    Nat.zero_add, Nat.reduceAdd, Nat.reduceSub, last, if_true, Option.some.injEq]
  omega

theorem ofText_toIp (addr : InetAddress) : ofText addr.toPort addr.toIp = addr := by
  have a := addr.a.toNat_lt
  have b := addr.b.toNat_lt
  have c := addr.c.toNat_lt
  have d := addr.d.toNat_lt
  have octet (word : Nat) (x : UInt8) (h : word % 256 = x.toNat) : UInt8.ofNat word = x := by
    rw [← UInt8.toNat_inj, UInt8.toNat_ofNat']
    exact h
  rw [ofText, inetAddr_toIp, Option.getD_some, octet _ addr.a (by omega),
    octet _ addr.b (by omega), octet _ addr.c (by omega), octet _ addr.d (by omega)]
  rfl

theorem toIpPort_toList (addr : InetAddress) : addr.toIpPort.toList =
    addr.toIp.toList ++ ':' :: (toString addr.port.toNat).toList := by
  have colon : ":".toList = [':'] := rfl
  simp only [toIpPort, String.toList_append, colon, List.append_assoc, List.cons_append,
    List.nil_append]

/-- The address and the port can be told from the text. -/
theorem toIpPort_parts {addr other : InetAddress} (h : addr.toIpPort = other.toIpPort) :
    addr.toIp = other.toIp ∧ addr.toPort = other.toPort := by
  have text := congrArg String.toList h
  rw [toIpPort_toList, toIpPort_toList, List.append_cons_inj_of_notMem] at text
  · obtain ⟨ip, _, port⟩ := text
    exact ⟨String.toList_inj.mp ip, UInt16.toNat_inj.mp (decimal_injective port)⟩
  · intro colon
    cases toIp_characters colon with
    | inl digit => exact absurd digit (by decide)
    | inr dot => exact absurd dot (by decide)
  · intro colon
    rw [Nat.toString_eq_repr, Nat.toList_repr] at colon
    exact absurd (toDigits_digits colon) (by decide)

/-- The constructor gives an address back from the text and the port that the methods
give of it. Two addresses of one text are the same, and the text with its final zero
fits the 64 bytes it is written into. -/
theorem text_round_trip (addr : InetAddress) : ofText addr.toPort addr.toIp = addr ∧
    (∀ other : InetAddress, addr.toIpPort = other.toIpPort → addr = other) ∧
    addr.toIpPort.toList.length + 1 ≤ 64 := by
  refine ⟨addr.ofText_toIp, fun other same => ?_, ?_⟩
  · obtain ⟨ip, port⟩ := toIpPort_parts same
    rw [← addr.ofText_toIp, ip, port, other.ofText_toIp]
  · have length := addr.toIpPort_length
    omega

end InetAddress
end Kenmuduo
