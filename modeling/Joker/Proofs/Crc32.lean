/-
The packet id is a CRC.

The specification is bit-serial: a register with feedback, fed the bits of
the message, each byte from its least significant bit on
(`crc32_bitwise`). The source takes a byte a step and looks eight bits of
feedback up in a table. A step of the register is linear, so the eight
steps of a byte are those of its low eight bits, which the table holds,
added to the rest shifted down (`crc_byte_toBitVec`).
-/
import Joker.Lib.Lfsr
import Joker.Model.Crc32

namespace Joker

open Lfsr

-- ===================================================== the specification

/-- The bits of a byte, least significant first. -/
def byte_bits (b : UInt8) : List Bool :=
  (List.range 8).map fun i => b.toBitVec.getLsbD i

/-- One bit of a reflected CRC with polynomial `0xEDB88320`. -/
def crc_bit (crc : UInt32) (bit : Bool) : UInt32 :=
  if (crc.toBitVec.getLsbD 0 ^^ bit) = true then (crc >>> 1) ^^^ 0xEDB88320
  else crc >>> 1

/-- CRC-32/ISO-HDLC, bit by bit. -/
def crc32_bitwise (data : Bytes) : UInt32 :=
  (data.flatMap byte_bits).foldl crc_bit 0xFFFFFFFF ^^^ 0xFFFFFFFF

/-- The feedback of the register. -/
def poly : BitVec 32 := 0xEDB88320#32

-- ========================================================== the register

theorem byte_bits_length (b : UInt8) : (byte_bits b).length = 8 := by
  simp [byte_bits]

theorem byte_bits_getD (b : UInt8) (i : Nat) :
    (byte_bits b).getD i false = b.toBitVec.getLsbD i := by
  unfold byte_bits
  by_cases hi : i < 8
  · simp [hi]
  · simp [hi, BitVec.getLsbD_of_ge b.toBitVec i (Nat.not_lt.mp hi)]

/-- The lowest bit of a word. -/
theorem and_one_eq_one_iff (c : UInt32) :
    c &&& 1 = 1 ↔ c.toBitVec.getLsbD 0 = true := by
  rw [← UInt32.toBitVec_inj, UInt32.toBitVec_and]
  show c.toBitVec &&& 1#32 = 1#32 ↔ _
  rw [BitVec.and_one_eq_setWidth_ofBool_getLsbD]
  cases c.toBitVec.getLsbD 0 <;> decide

/-- The bit-serial step feeds its bit. -/
theorem crc_bit_toBitVec (crc : UInt32) (bit : Bool) :
    (crc_bit crc bit).toBitVec
      = step poly (crc.toBitVec ^^^ (BitVec.ofBool bit).setWidth 32) := by
  have hlow : (crc.toBitVec ^^^ (BitVec.ofBool bit).setWidth 32).getLsbD 0
      = (crc.toBitVec.getLsbD 0 ^^ bit) := by
    simp
  have hshift : (crc.toBitVec ^^^ (BitVec.ofBool bit).setWidth 32) >>> 1
      = crc.toBitVec >>> 1 := by
    cases bit <;> simp [BitVec.ushiftRight_xor_distrib]
  unfold crc_bit step
  rw [hlow, hshift, BitVec.xor_comm]
  cases crc.toBitVec.getLsbD 0 ^^ bit <;> rfl

/-- A run of the bit-serial register. -/
theorem foldl_crc_bit_toBitVec (bs : List Bool) (crc : UInt32) :
    (bs.foldl crc_bit crc).toBitVec = feed poly crc.toBitVec bs := by
  induction bs generalizing crc with
  | nil => rfl
  | cons bit bs ih =>
      rw [List.foldl_cons, ih, crc_bit_toBitVec]
      rfl

-- ============================================================= the table

theorem table_bit_toBitVec (c : UInt32) :
    (table_bit c).toBitVec = step poly c.toBitVec := by
  unfold table_bit step
  by_cases h : c &&& 1 = 1
  · rw [if_pos h, if_pos ((and_one_eq_one_iff c).mp h)]
    rfl
  · rw [if_neg h, if_neg fun hbit => h ((and_one_eq_one_iff c).mpr hbit)]
    rfl

/-- An entry is eight steps. -/
theorem table_entry_toBitVec (i : UInt32) :
    (table_entry i).toBitVec = (step poly)^[8] i.toBitVec := by
  have hrepeat : ∀ n, (Nat.repeat table_bit n i).toBitVec
      = (step poly)^[n] i.toBitVec := by
    intro n
    induction n with
    | zero => rfl
    | succ n ih =>
        show (table_bit (Nat.repeat table_bit n i)).toBitVec = _
        rw [table_bit_toBitVec, ih, Function.iterate_succ_apply']
  exact hrepeat 8

theorem kTable_getD {i : UInt32} (hi : i.toNat < 256) :
    kTable.getD i.toNat 0 = table_entry i := by
  unfold kTable
  simp [hi]

/-- The mask of the source keeps the low eight bits. -/
theorem getLsbD_and_mask (c : BitVec 32) (i : Nat) :
    (c &&& 0xFF#32).getLsbD i = (decide (i < 8) && c.getLsbD i) := by
  have hmask : 0xFF#32 = BitVec.ofNat 32 (2 ^ 8 - 1) := rfl
  rw [hmask, BitVec.getLsbD_and, BitVec.getLsbD_ofNat,
    Nat.testBit_two_pow_sub_one, Bool.and_comm]
  by_cases hi : i < 32
  · simp [hi]
  · have hge : ¬ i < 8 := by omega
    simp [hi, hge]

/-- A byte of the source is eight bits fed to the register. -/
theorem crc_byte_toBitVec (crc : UInt32) (b : UInt8) :
    (crc_byte crc b).toBitVec = feed poly crc.toBitVec (byte_bits b) := by
  have hlen : (byte_bits b).length ≤ 32 := by
    rw [byte_bits_length]
    decide
  have hbits : ofBits 32 (byte_bits b) = b.toUInt32.toBitVec := by
    apply BitVec.eq_of_getLsbD_eq
    intro i hi
    rw [getLsbD_ofBits hlen, byte_bits_getD]
    simp [hi]
  have hshift : (crc.toBitVec ^^^ b.toUInt32.toBitVec) >>> 8
      = crc.toBitVec >>> 8 := by
    apply BitVec.eq_of_getLsbD_eq
    intro i _
    simp
  have hlow : ((crc ^^^ b.toUInt32) &&& 0xFF).toBitVec
      = low 8 (crc.toBitVec ^^^ b.toUInt32.toBitVec) := by
    apply BitVec.eq_of_getLsbD_eq
    intro i _
    rw [getLsbD_low, UInt32.toBitVec_and, UInt32.toBitVec_xor]
    exact getLsbD_and_mask _ i
  have hindex : ((crc ^^^ b.toUInt32) &&& 0xFF).toNat < 256 := by
    rw [UInt32.toNat_and]
    exact Nat.lt_succ_of_le Nat.and_le_right
  calc (crc_byte crc b).toBitVec
      = (step poly)^[8] (low 8 (crc.toBitVec ^^^ b.toUInt32.toBitVec))
          ^^^ (crc.toBitVec >>> 8) := by
        unfold crc_byte
        rw [kTable_getD hindex, UInt32.toBitVec_xor, table_entry_toBitVec, hlow]
        rfl
    _ = (step poly)^[8] (crc.toBitVec ^^^ b.toUInt32.toBitVec) := by
        rw [iterate_step_split poly 8 (_ ^^^ _), hshift]
    _ = feed poly crc.toBitVec (byte_bits b) := by
        rw [feed_eq poly _ hlen, byte_bits_length, hbits]

-- ============================================================ the message

/-- A message is its bits fed to the register. -/
theorem foldl_crc_byte_toBitVec (data : Bytes) (crc : UInt32) :
    (data.foldl crc_byte crc).toBitVec
      = feed poly crc.toBitVec (data.flatMap byte_bits) := by
  induction data generalizing crc with
  | nil => rfl
  | cons b data ih =>
      rw [List.foldl_cons, ih, crc_byte_toBitVec, List.flatMap_cons,
        feed_append]

/-- The table computes the bit-serial CRC. -/
theorem crc32_iso_hdlc_eq_bitwise (data : Bytes) :
    crc32_iso_hdlc data = crc32_bitwise data := by
  have hregister : data.foldl crc_byte 0xFFFFFFFF
      = (data.flatMap byte_bits).foldl crc_bit 0xFFFFFFFF := by
    apply UInt32.toBitVec_inj.mp
    rw [foldl_crc_byte_toBitVec, foldl_crc_bit_toBitVec]
  unfold crc32_iso_hdlc crc32_bitwise
  rw [hregister]

end Joker
