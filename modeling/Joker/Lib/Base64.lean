/-
Base64: three bytes are four sextets, and what is missing of the last
three is padded.

The alphabet is a parameter: `letter` writes a sextet, `sextet` reads a
letter, and all the round trip asks of them is that they match and that
the padding is no letter (`Alphabet`).
-/
import Mathlib.Data.List.Basic

namespace Base64

/-- Letters for the sextets, and a padding that is none of them. -/
structure Alphabet (α : Type*) where
  letter : Nat → α
  pad : α
  sextet : α → Option Nat
  sextet_letter : ∀ n < 64, sextet (letter n) = some n
  sextet_pad : sextet pad = none

variable {α : Type*} [DecidableEq α] (A : Alphabet α)

def encode : List UInt8 → List α
  | [] => []
  | [a] => [A.letter (a.toNat / 4), A.letter (a.toNat % 4 * 16), A.pad, A.pad]
  | [a, b] =>
      [A.letter (a.toNat / 4), A.letter (a.toNat % 4 * 16 + b.toNat / 16),
        A.letter (b.toNat % 16 * 4), A.pad]
  | a :: b :: c :: rest =>
      A.letter (a.toNat / 4) :: A.letter (a.toNat % 4 * 16 + b.toNat / 16)
        :: A.letter (b.toNat % 16 * 4 + c.toNat / 64)
        :: A.letter (c.toNat % 64) :: encode rest

/-- What is not four letters at a time, or has padding elsewhere than at
the end, is no code. -/
def decode : List α → Option (List UInt8)
  | [] => some []
  | w :: x :: y :: z :: rest =>
      match A.sextet w, A.sextet x, A.sextet y, A.sextet z with
      | some w, some x, some y, some z =>
          (decode rest).map fun bs =>
            UInt8.ofNat (w * 4 + x / 16) :: UInt8.ofNat (x % 16 * 16 + y / 4)
              :: UInt8.ofNat (y % 4 * 64 + z) :: bs
      | some w, some x, some y, none =>
          if z = A.pad ∧ rest = [] then
            some [UInt8.ofNat (w * 4 + x / 16),
              UInt8.ofNat (x % 16 * 16 + y / 4)]
          else none
      | some w, some x, none, none =>
          if y = A.pad ∧ z = A.pad ∧ rest = [] then
            some [UInt8.ofNat (w * 4 + x / 16)]
          else none
      | _, _, _, _ => none
  | _ => none

/-- A byte is its two parts. -/
theorem ofNat_toNat {b : UInt8} {n : Nat} (h : n = b.toNat) :
    UInt8.ofNat n = b := by
  rw [h, UInt8.ofNat_toNat]

theorem decode_encode (bs : List UInt8) : decode A (encode A bs) = some bs := by
  fun_induction encode A bs with
  | case1 => rfl
  | case2 a =>
      have ha := a.toNat_lt
      rw [decode, A.sextet_letter _ (by omega), A.sextet_letter _ (by omega),
        A.sextet_pad]
      dsimp only
      rw [if_pos ⟨rfl, rfl, rfl⟩, ofNat_toNat (b := a) (by omega)]
  | case3 a b =>
      have ha := a.toNat_lt
      have hb := b.toNat_lt
      rw [decode, A.sextet_letter _ (by omega), A.sextet_letter _ (by omega),
        A.sextet_letter _ (by omega), A.sextet_pad]
      dsimp only
      rw [if_pos ⟨rfl, rfl⟩, ofNat_toNat (b := a) (by omega),
        ofNat_toNat (b := b) (by omega)]
  | case4 a b c rest ih =>
      have ha := a.toNat_lt
      have hb := b.toNat_lt
      have hc := c.toNat_lt
      rw [decode, A.sextet_letter _ (by omega), A.sextet_letter _ (by omega),
        A.sextet_letter _ (by omega), A.sextet_letter _ (by omega), ih]
      dsimp only [Option.map_some]
      rw [ofNat_toNat (b := a) (by omega), ofNat_toNat (b := b) (by omega),
        ofNat_toNat (b := c) (by omega)]

end Base64
