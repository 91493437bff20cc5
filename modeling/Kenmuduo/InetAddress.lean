/-!
# InetAddress

InetAddress.h and InetAddress.cc: an IPv4 address and port and their text. The
text fits the 64 bytes it is written into.
-/

namespace Kenmuduo

/-- The bytes of `sin_addr` in their order, and `ntohs` of `sin_port`. -/
structure InetAddress where
  a : UInt8
  b : UInt8
  c : UInt8
  d : UInt8
  port : UInt16
  deriving DecidableEq, Repr

namespace InetAddress

/-- `inet_ntop` of `AF_INET`. -/
def toIp (addr : InetAddress) : String :=
  toString addr.a.toNat ++ "." ++ toString addr.b.toNat ++ "." ++ toString addr.c.toNat ++ "." ++
    toString addr.d.toNat

def toIpPort (addr : InetAddress) : String := addr.toIp ++ ":" ++ toString addr.port.toNat

def toPort (addr : InetAddress) : UInt16 := addr.port

end InetAddress

/-- A number below the power of 10 has at most `k + 1` digits. -/
theorem decimal_length {n : Nat} (k : Nat) (h : n < Nat.pow 10 (k + 1)) :
    (toString n).toList.length ≤ k + 1 := by
  rw [Nat.toString_eq_repr, Nat.toList_repr]
  exact (Nat.length_toDigits_le_iff (by decide) (Nat.succ_pos k)).mpr h

theorem decimal_injective {m n : Nat} (h : (toString m).toList = (toString n).toList) : m = n := by
  simp only [Nat.toString_eq_repr, Nat.toList_repr] at h
  have read := congrArg (fun digits => Nat.ofDigitChars 10 digits 0) h
  simpa using read

/-- A decimal number has no sign. -/
theorem decimal_unsigned (n : Nat) : '-' ∉ (toString n).toList := by
  rw [Nat.toString_eq_repr, Nat.toList_repr]
  intro sign
  have digit := Nat.isDigit_of_mem_toDigits (by decide) (by decide) sign
  exact absurd digit (by decide)

namespace InetAddress

theorem octet_length (x : UInt8) : (toString x.toNat).toList.length ≤ 3 :=
  decimal_length 2 (Nat.lt_of_lt_of_le x.toNat_lt (by decide))

theorem toIpPort_length (addr : InetAddress) : addr.toIpPort.toList.length ≤ 21 := by
  have ha := octet_length addr.a
  have hb := octet_length addr.b
  have hc := octet_length addr.c
  have hd := octet_length addr.d
  have hp : (toString addr.port.toNat).toList.length ≤ 5 :=
    decimal_length 4 (Nat.lt_of_lt_of_le addr.port.toNat_lt (by decide))
  simp only [toIpPort, toIp, String.toList_append, List.length_append] at *
  have dot : ".".toList.length = 1 := by decide
  have colon : ":".toList.length = 1 := by decide
  omega

end InetAddress
end Kenmuduo
