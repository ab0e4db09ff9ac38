/-
The packet header and its wire format (include/joker/header.hpp,
src/header.cpp): the encoder, the decoder and the structural check the
receive pipeline applies to a decoded header.

The decoder indexes its buffer only behind the size checks that guard
it; `getD … 0` is that indexing, its default never reached. `consumed`
is an out-parameter in the source, so it goes in and comes out here.
-/
import Joker.Model.Basic

namespace Joker

/-- `PacketType`, one byte on the wire. -/
inductive PacketType where
  | kUnicast
  | kAck
  | kForwarding
deriving DecidableEq

namespace PacketType

/-- `static_cast<uint8_t>(type)`. -/
def toByte : PacketType → UInt8
  | kUnicast => 0
  | kAck => 1
  | kForwarding => 2

/-- `static_cast<PacketType>(byte)`, for a byte already checked not to
exceed `kForwarding`. -/
def ofByte (b : UInt8) : PacketType :=
  if b = 0 then kUnicast else if b = 1 then kAck else kForwarding

end PacketType

/-- `JokerHeader`. The top candidate travels in the link-layer header
and is not listed. -/
structure JokerHeader where
  type : PacketType
  ttl : UInt8
  num_candidates : UInt8
  packet_id : PacketId
  final_destination : MacAddress
  other_candidates : List MacAddress
deriving DecidableEq

/-- Bytes the header takes on the wire. -/
def JokerHeader.WireSize (h : JokerHeader) : Nat :=
  13 + 6 * h.other_candidates.length

-- ============================================================ encoding

/-- Appends a 32-bit value, most significant byte first. -/
def put_u32_be (out : Bytes) (v : UInt32) : Bytes :=
  out ++ [((v >>> 24) &&& 0xff).toUInt8, ((v >>> 16) &&& 0xff).toUInt8,
    ((v >>> 8) &&& 0xff).toUInt8, (v &&& 0xff).toUInt8]

/-- Appends the header to `out`. The count byte is the list's size cast
to `uint8_t`, and the call always succeeds. -/
def serialize_header (header : JokerHeader) (out : Bytes) : Bool × Bytes :=
  let out := out ++ [header.type.toByte]
  let out := out ++ [header.ttl]
  let out := out ++ [UInt8.ofNat header.other_candidates.length]
  let out := put_u32_be out header.packet_id
  let out := out ++ header.final_destination.bytes
  let out := header.other_candidates.foldl (fun out c => out ++ c.bytes) out
  (true, out)

-- ============================================================ decoding

/-- Reads a 32-bit value, most significant byte first. -/
def get_u32_be (data : Bytes) (off : Nat) : Option UInt32 :=
  if off + 4 > data.length then none
  else some (((data.getD off 0).toUInt32 <<< 24)
    ||| ((data.getD (off + 1) 0).toUInt32 <<< 16)
    ||| ((data.getD (off + 2) 0).toUInt32 <<< 8)
    ||| (data.getD (off + 3) 0).toUInt32)

/-- `std::copy_n(data.begin() + off, 6, mac.begin())`. -/
def copy_mac (data : Bytes) (off : Nat) : MacAddress :=
  ⟨[data.getD off 0, data.getD (off + 1) 0, data.getD (off + 2) 0,
    data.getD (off + 3) 0, data.getD (off + 4) 0, data.getD (off + 5) 0], rfl⟩

/-- The read loop of `deserialize_header`: `n` addresses from offset
`off`, with the offset after them. -/
def read_candidates (data : Bytes) : Nat → Nat → List MacAddress × Nat
  | off, 0 => ([], off)
  | off, n + 1 =>
      let (rest, off') := read_candidates data (off + 6) n
      (copy_mac data off :: rest, off')

/-- Parses a header from the front of `data`. On success the second
component is the number of bytes read; on any malformed input it is
`consumed` as it came in. -/
def deserialize_header (data : Bytes) (consumed : Nat) :
    Option JokerHeader × Nat :=
  let kFixedSize := 1 + 1 + 1 + 4 + 6
  if data.length < kFixedSize then (none, consumed)
  else if data.getD 0 0 > PacketType.kForwarding.toByte then (none, consumed)
  else
    match get_u32_be data 3 with
    | none => (none, consumed)
    | some id =>
        let num_candidates := data.getD 2 0
        let off := kFixedSize
        let remaining := data.length - off
        let expected_candidate_bytes := num_candidates.toNat * 6
        if remaining < expected_candidate_bytes then (none, consumed)
        else
          let (cands, off) := read_candidates data off num_candidates.toNat
          (some {
            type := PacketType.ofByte (data.getD 0 0)
            ttl := data.getD 1 0
            num_candidates := num_candidates
            packet_id := id
            final_destination := copy_mac data 7
            other_candidates := cands }, off)

-- ========================================================== validation

/-- The duplicate scan of `validate_header`: is every address new to
`seen` when it is reached? -/
def all_new (seen : List MacAddress) : List MacAddress → Bool
  | [] => true
  | c :: cs => if c ∈ seen then false else all_new (c :: seen) cs

/-- Structural validation beyond parse success. -/
def validate_header (header : JokerHeader) (max_candidates : UInt8) : Bool :=
  if header.final_destination.IsBroadcast || header.final_destination.IsZero
  then false
  else if 1 + header.other_candidates.length > max_candidates.toNat then false
  else all_new [] header.other_candidates

end Joker
