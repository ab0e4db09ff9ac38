/-
What the application uses of Kotlin's strings and numbers, as on the JVM.

A string is a list of UTF-16 code units, so that every string a program
can hold is one, unpaired surrogates included. An `Int` is an integer in
the 32-bit range and a `Long` one in the 64-bit range; what an operation
of the source makes of them is wrapped to the range where it can leave
it.
-/
import Joker.Lib.Fields
import Mathlib.Data.List.Basic

namespace Joker

/-- A UTF-16 code unit. -/
abbrev KChar := UInt16

/-- `kotlin.String`. -/
abbrev KString := List KChar

/-- The code unit of a character of the source, all of them ASCII. -/
def unit (c : Char) : KChar := UInt16.ofNat c.toNat

/-- A string literal of the source. -/
def literal (s : String) : KString := s.toList.map unit

-- ============================================================ characters

/-- The zeros of the decimal digits of the basic multilingual plane:
ASCII, Arabic-Indic and so on up to the fullwidth ones. -/
def digit_zeros : List Nat :=
  [0x0030, 0x0660, 0x06F0, 0x07C0, 0x0966, 0x09E6, 0x0A66, 0x0AE6, 0x0B66,
    0x0BE6, 0x0C66, 0x0CE6, 0x0D66, 0x0DE6, 0x0E50, 0x0ED0, 0x0F20, 0x1040,
    0x1090, 0x17E0, 0x1810, 0x1946, 0x19D0, 0x1A80, 0x1A90, 0x1B50, 0x1BB0,
    0x1C40, 0x1C50, 0xA620, 0xA8D0, 0xA900, 0xA9D0, 0xA9F0, 0xAA50, 0xABF0,
    0xFF10]

/-- `Character.digit(c, 10)`. -/
def digitOf (c : KChar) : Option Nat :=
  (digit_zeros.find? fun nought => nought ≤ c.toNat ∧ c.toNat < nought + 10).map
    fun nought => c.toNat - nought

/-- `Char.isWhitespace()`: white space or a space separator. -/
def isWhitespace (c : KChar) : Bool :=
  (0x0009 ≤ c ∧ c ≤ 0x000D) ∨ (0x001C ≤ c ∧ c ≤ 0x0020) ∨ c = 0x00A0
    ∨ c = 0x1680 ∨ (0x2000 ≤ c ∧ c ≤ 0x200A) ∨ c = 0x2028 ∨ c = 0x2029
    ∨ c = 0x202F ∨ c = 0x205F ∨ c = 0x3000

-- =============================================================== strings

namespace KString

/-- `startsWith(prefix)`. -/
def startsWith (s beginning : KString) : Bool := beginning.isPrefixOf s

/-- `split(delimiter, limit = limit)` by one character, for a limit of at
least one: the last field is what is left. -/
def split (s : KString) (delimiter : KChar) (limit : Nat) : List KString :=
  Fields.split delimiter (limit - 1) s

/-- What follows the first occurrence of the delimiter. -/
def afterFirst (delimiter : KString) : KString → Option KString
  | [] => if delimiter = [] then some [] else none
  | c :: cs =>
      if delimiter.isPrefixOf (c :: cs) then
        some ((c :: cs).drop delimiter.length)
      else afterFirst delimiter cs

/-- `substringAfter(delimiter)`: the string itself where it does not
occur. -/
def substringAfter (s delimiter : KString) : KString :=
  (afterFirst delimiter s).getD s

/-- `trim()`. -/
def trim (s : KString) : KString :=
  ((s.dropWhile isWhitespace).reverse.dropWhile isWhitespace).reverse

end KString

-- =============================================================== numbers

/-- The value of an `Int` operation. -/
def wrap32 (n : Int) : Int := n.bmod 4294967296

/-- The number digits denote, if they are digits. -/
def digitsValue (s : KString) : Option Nat :=
  s.foldlM (fun value c => (digitOf c).map (10 * value + ·)) 0

/-- The number a string denotes, which may begin with a sign. -/
def parseNumber : KString → Option Int
  | [] => none
  | c :: cs =>
      if c < unit '0' then
        if cs = [] then none
        else if c = unit '-' then (digitsValue cs).map fun n : Nat => -(n : Int)
        else if c = unit '+' then (digitsValue cs).map fun n : Nat => (n : Int)
        else none
      else (digitsValue (c :: cs)).map fun n : Nat => (n : Int)

/-- `toIntOrNull()`. -/
def toIntOrNull (s : KString) : Option Int :=
  (parseNumber s).filter fun n => -2147483648 ≤ n ∧ n ≤ 2147483647

/-- `toLongOrNull()`. -/
def toLongOrNull (s : KString) : Option Int :=
  (parseNumber s).filter fun n =>
    -9223372036854775808 ≤ n ∧ n ≤ 9223372036854775807

/-- A number in a string template. -/
def numberToString (n : Int) : KString :=
  let digits := (Nat.toDigits 10 n.natAbs).map unit
  if n < 0 then unit '-' :: digits else digits

end Joker
