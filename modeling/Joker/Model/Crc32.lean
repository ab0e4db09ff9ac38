/-
The packet id (src/crc32.cpp, include/joker/crc32.hpp): CRC-32/ISO-HDLC
through a table of 256 entries, one step a byte.
-/
import Joker.Model.Basic

namespace Joker

/-- One bit of `build_table`. -/
def table_bit (c : UInt32) : UInt32 :=
  if c &&& 1 = 1 then (0xEDB88320 : UInt32) ^^^ (c >>> 1) else c >>> 1

/-- Entry `i` of `build_table`: eight bits. -/
def table_entry (i : UInt32) : UInt32 := Nat.repeat table_bit 8 i

/-- `kTable`. -/
def kTable : List UInt32 :=
  (List.range 256).map fun i => table_entry (UInt32.ofNat i)

/-- One byte of `crc32_iso_hdlc`. -/
def crc_byte (crc : UInt32) (b : UInt8) : UInt32 :=
  kTable.getD ((crc ^^^ b.toUInt32) &&& 0xFF).toNat 0 ^^^ (crc >>> 8)

/-- `crc32_iso_hdlc`. -/
def crc32_iso_hdlc (data : Bytes) : UInt32 :=
  data.foldl crc_byte 0xFFFFFFFF ^^^ 0xFFFFFFFF

/-- `joker_packet_id`. -/
def joker_packet_id (payload : Bytes) : PacketId := crc32_iso_hdlc payload

-- the check value of the CRC: "123456789"
example : crc32_iso_hdlc [0x31, 0x32, 0x33, 0x34, 0x35, 0x36, 0x37, 0x38, 0x39]
    = 0xCBF43926 := by decide +kernel

end Joker
