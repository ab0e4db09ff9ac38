/-
MAC addresses as text (src/mac_address.cpp).

A `std::string_view` is its bytes; the characters compared with are
ASCII. `int` is 32 bits wide, and `char` may be signed or not: a byte
above 127 is outside every range `ParseHexChar` asks for either way.
`Parse` indexes a text it has found to be 17 bytes long, so the default
of `getD` is never read.
-/
import Joker.Model.Basic

namespace Joker

/-- `int` of a character. -/
def char_int (c : UInt8) : Int32 := c.toUInt32.toInt32

/-- The value of a hexadecimal digit, -1 of any other character. -/
def ParseHexChar (c : UInt8) : Int32 :=
  if c ≥ '0'.toUInt8 ∧ c ≤ '9'.toUInt8 then
    char_int c - char_int '0'.toUInt8
  else if c ≥ 'a'.toUInt8 ∧ c ≤ 'f'.toUInt8 then
    char_int c - char_int 'a'.toUInt8 + 10
  else if c ≥ 'A'.toUInt8 ∧ c ≤ 'F'.toUInt8 then
    char_int c - char_int 'A'.toUInt8 + 10
  else -1

/-- `static_cast<uint8_t>((h1 << 4) | h2)`. -/
def join_nibbles (h1 h2 : Int32) : UInt8 := ((h1 <<< 4) ||| h2).toUInt32.toUInt8

/-- `%02x` of a byte: two lowercase digits. -/
def format_02x (b : UInt8) : Bytes :=
  let digits := "0123456789abcdef".toList.map Char.toUInt8
  [digits.getD (b.toNat / 16) 0, digits.getD (b.toNat % 16) 0]

namespace MacAddress

/-- `bytes[i] = b`. -/
def set (m : MacAddress) (i : Nat) (b : UInt8) : MacAddress :=
  ⟨m.bytes.set i b, by rw [List.length_set, m.length_bytes]⟩

/-- The loop of `Parse` from group `i`, with `left` groups to go. -/
def parse_groups (text : Bytes) (sep : UInt8) :
    (left i : Nat) → MacAddress → Option MacAddress
  | 0, _, bytes => some bytes
  | left + 1, i, bytes =>
      let offset := i * 3
      if i < 6 - 1 ∧ text.getD (offset + 2) 0 ≠ sep then none
      else
        let h1 := ParseHexChar (text.getD offset 0)
        let h2 := ParseHexChar (text.getD (offset + 1) 0)
        if h1 = -1 ∨ h2 = -1 then none
        else parse_groups text sep left (i + 1)
          (bytes.set i (join_nibbles h1 h2))

/-- `Parse`, from text. -/
def Parse (text : Bytes) : Option MacAddress :=
  if text.length ≠ 17 then none
  else
    let sep := text.getD 2 0
    if sep ≠ ':'.toUInt8 ∧ sep ≠ '-'.toUInt8 then none
    else parse_groups text sep 6 0 zero

/-- `ToString`: six groups of two digits, joined by colons. -/
def ToString (m : MacAddress) : Bytes :=
  [':'.toUInt8].intercalate (m.bytes.map format_02x)

end MacAddress

end Joker
