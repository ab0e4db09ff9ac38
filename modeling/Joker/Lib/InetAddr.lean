/-
Internet addresses and their text, as POSIX has them in `arpa/inet.h`.

An address is a 32-bit number, its first byte the most significant one.
`inet_ntop` writes the four bytes in decimal. `inet_addr` reads one to
four numbers with dots between, each in the notation of C: hexadecimal
after `0x`, octal after another `0`, decimal else. All but the last are
a byte each, and the last fills the bytes that are left. What is no such
text it answers with `INADDR_NONE`, which is an address too, that of the
limited broadcast.

What is written is read back (`inet_addr_inet_ntop`), so that no two
addresses are written alike.
-/
import Mathlib.Data.List.Basic

namespace Inet

/-- `in_addr_t`. -/
abbrev InAddr := UInt32

/-- What `inet_addr` returns of a text that is no address. -/
def INADDR_NONE : InAddr := 0xffffffff

-- ================================================================ reading

/-- The value of a digit, in whatever base. -/
def digit (c : UInt8) : Option Nat :=
  if '0'.toUInt8 ≤ c ∧ c ≤ '9'.toUInt8 then some (c.toNat - 48)
  else if 'a'.toUInt8 ≤ c ∧ c ≤ 'f'.toUInt8 then some (c.toNat - 87)
  else if 'A'.toUInt8 ≤ c ∧ c ≤ 'F'.toUInt8 then some (c.toNat - 55)
  else none

/-- One digit more. -/
def shift (base n : Nat) (c : UInt8) : Option Nat :=
  match digit c with
  | some d => if d < base then some (n * base + d) else none
  | none => none

/-- At least one digit, and no other characters. -/
def number (base : Nat) : List UInt8 → Option Nat
  | [] => none
  | c :: digits => (c :: digits).foldlM (shift base) 0

/-- A number in the notation of C. -/
def part : List UInt8 → Option Nat
  | [] => none
  | c :: rest =>
      if c ≠ '0'.toUInt8 then number 10 (c :: rest)
      else
        match rest with
        | x :: digits =>
            if x = 'x'.toUInt8 ∨ x = 'X'.toUInt8 then number 16 digits
            else number 8 (c :: x :: digits)
        | [] => number 8 [c]

/-- The parts of an address, put together. -/
def join : List Nat → Option InAddr
  | [a] => if a < 0x100000000 then some (UInt32.ofNat a) else none
  | [a, b] =>
      if a < 256 ∧ b < 0x1000000 then
        some (UInt32.ofNat (a * 0x1000000 + b))
      else none
  | [a, b, c] =>
      if a < 256 ∧ b < 256 ∧ c < 0x10000 then
        some (UInt32.ofNat (a * 0x1000000 + b * 0x10000 + c))
      else none
  | [a, b, c, d] =>
      if a < 256 ∧ b < 256 ∧ c < 256 ∧ d < 256 then
        some (UInt32.ofNat (a * 0x1000000 + b * 0x10000 + c * 0x100 + d))
      else none
  | _ => none

/-- The address a text stands for, if it is one. -/
def inet_aton (text : List UInt8) : Option InAddr :=
  ((text.splitOn '.'.toUInt8).mapM part).bind join

/-- `inet_addr`. -/
def inet_addr (text : List UInt8) : InAddr :=
  (inet_aton text).getD INADDR_NONE

-- ================================================================ writing

/-- A number in decimal. -/
def decimal (n : Nat) : List UInt8 := (Nat.toDigits 10 n).map Char.toUInt8

/-- The four bytes of an address. -/
def octets (a : InAddr) : List Nat :=
  [a.toNat / 0x1000000, a.toNat / 0x10000 % 256, a.toNat / 0x100 % 256,
    a.toNat % 256]

/-- `inet_ntop(AF_INET, ...)`. -/
def inet_ntop (a : InAddr) : List UInt8 :=
  ['.'.toUInt8].intercalate ((octets a).map decimal)

-- ============================================================= round trip

/-- A byte in decimal: read back, without a dot and without a zero byte. -/
theorem decimal_byte : ∀ n < 256, part (decimal n) = some n
    ∧ '.'.toUInt8 ∉ decimal n ∧ 0 ∉ decimal n := by
  decide +kernel

theorem octet_lt {a : InAddr} {n : Nat} (h : n ∈ octets a) : n < 256 := by
  have ha : a.toNat < 0x100000000 := a.toNat_lt
  simp only [octets, List.mem_cons, List.not_mem_nil, or_false] at h
  omega

theorem mapM_part_decimal {ns : List Nat} (h : ∀ n ∈ ns, n < 256) :
    (ns.map decimal).mapM part = some ns := by
  induction ns with
  | nil => rfl
  | cons n ns ih =>
      rw [List.forall_mem_cons] at h
      simp [(decimal_byte n h.1).1, ih h.2]

theorem join_octets (a : InAddr) : join (octets a) = some a := by
  have ha : a.toNat < 0x100000000 := a.toNat_lt
  simp only [octets, join]
  rw [if_pos (by omega)]
  congr 1
  apply UInt32.toNat_inj.mp
  rw [UInt32.toNat_ofNat']
  omega

theorem inet_addr_inet_ntop (a : InAddr) : inet_addr (inet_ntop a) = a := by
  have hbyte : ∀ n ∈ octets a, n < 256 := fun _ => octet_lt
  have hsplit : (inet_ntop a).splitOn '.'.toUInt8 = (octets a).map decimal := by
    apply List.splitOn_intercalate
    · rw [List.forall_mem_map]
      exact fun n hn => (decimal_byte n (hbyte n hn)).2.1
    · simp [octets]
  unfold inet_addr inet_aton
  rw [hsplit, mapM_part_decimal hbyte, Option.bind_some, join_octets]
  rfl

theorem inet_ntop_inj {a b : InAddr} :
    inet_ntop a = inet_ntop b ↔ a = b := by
  constructor
  · intro h
    rw [← inet_addr_inet_ntop a, h, inet_addr_inet_ntop]
  · rintro rfl
    rfl

/-- The text of an address has no zero byte: C reads all of it. -/
theorem zero_notMem_inet_ntop (a : InAddr) : 0 ∉ inet_ntop a := by
  have hbyte := fun n (hn : n ∈ octets a) => (decimal_byte n (octet_lt hn)).2.2
  simp only [octets, List.forall_mem_cons] at hbyte
  obtain ⟨h1, h2, h3, h4, -⟩ := hbyte
  have hdot : (0 : UInt8) ≠ '.'.toUInt8 := by decide
  simp only [inet_ntop, octets, List.map_cons, List.map_nil,
    List.intercalate_cons_cons, List.intercalate_singleton, List.mem_append,
    List.mem_singleton, h1, h2, h3, h4, hdot, or_self, not_false_eq_true]

theorem inet_ntop_ne_nil (a : InAddr) : inet_ntop a ≠ [] := by
  simp [inet_ntop, octets, List.intercalate_cons_cons]

end Inet
