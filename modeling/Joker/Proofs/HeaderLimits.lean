/-
Headers that do not fit their count byte.

The contract of `serialize_header` is to refuse a candidate list that
would overflow (include/joker/header.hpp: "Returns false if
other_candidates.size() would overflow"). The code never refuses: it
writes the list's size modulo 256 and then the whole list. What a
receiver decodes is the list cut to that count, and the candidates
beyond it are read as payload.
-/
import Joker.Proofs.Suppression

namespace Joker

-- ============================================ what is decoded instead

/-- The header as its count byte announces it: the list cut to its size
modulo 256. -/
def JokerHeader.truncated (h : JokerHeader) : JokerHeader :=
  { h with
    num_candidates := UInt8.ofNat h.other_candidates.length
    other_candidates :=
      h.other_candidates.take (h.other_candidates.length % 256) }

/-- The candidates the count byte leaves out. -/
def JokerHeader.surplus (h : JokerHeader) : List MacAddress :=
  h.other_candidates.drop (h.other_candidates.length % 256)

theorem truncated_length (h : JokerHeader) :
    h.truncated.other_candidates.length = h.other_candidates.length % 256 := by
  show (h.other_candidates.take _).length = _
  rw [List.length_take]
  omega

theorem truncated_count (h : JokerHeader) :
    h.truncated.num_candidates.toNat = h.truncated.other_candidates.length := by
  rw [truncated_length]
  exact UInt8.toNat_ofNat'

/-- The encoding of any header is that of the cut header, followed by the
candidates that were cut off. -/
theorem wire_truncated (h : JokerHeader) :
    wire h = wire h.truncated ++ h.surplus.flatMap MacAddress.bytes := by
  have hcount : UInt8.ofNat h.truncated.other_candidates.length
      = UInt8.ofNat h.other_candidates.length := by
    rw [← truncated_count]
    exact UInt8.ofNat_toNat
  have hlist : h.truncated.other_candidates ++ h.surplus
      = h.other_candidates := List.take_append_drop _ _
  unfold wire
  rw [hcount, ← hlist, List.flatMap_append]
  simp only [List.cons_append, List.append_assoc]
  rfl

/-- Whatever follows an encoded header, the cut header is decoded, and what
was cut off is at the front of the rest. -/
theorem deserialize_truncated (h : JokerHeader) (payload : Bytes)
    (consumed : Nat) :
    deserialize_header (wire h ++ payload) consumed
      = (some h.truncated, h.truncated.WireSize) := by
  rw [wire_truncated, List.append_assoc]
  exact deserialize_wire _ consumed (truncated_count h)

/-- Nothing is cut exactly from a list that fits the count byte. -/
theorem truncated_others_iff (h : JokerHeader) :
    h.truncated.other_candidates = h.other_candidates
      ↔ h.other_candidates.length ≤ 255 := by
  constructor
  · intro heq
    have hlen := congrArg List.length heq
    rw [truncated_length] at hlen
    omega
  · intro hle
    show h.other_candidates.take _ = _
    rw [Nat.mod_eq_of_lt (by omega), List.take_length]

-- ======================================================= the contract

/-- Two headers that say the same, up to the count field, which only the
decoder fills in. -/
structure SameFields (h h' : JokerHeader) : Prop where
  type : h.type = h'.type
  ttl : h.ttl = h'.ttl
  packet_id : h.packet_id = h'.packet_id
  final_destination : h.final_destination = h'.final_destination
  other_candidates : h.other_candidates = h'.other_candidates

/-- The contract of `serialize_header`: it refuses the header and leaves
`out` alone, or it appends bytes from which the header is decoded again,
whatever payload follows. -/
def RefusedOrDecoded (header : JokerHeader) (out : Bytes) : Prop :=
  serialize_header header out = (false, out)
    ∨ ∃ appended, serialize_header header out = (true, out ++ appended)
        ∧ ∀ payload consumed, ∃ h n,
            deserialize_header (appended ++ payload) consumed = (some h, n)
              ∧ SameFields h header

/-- The code never refuses, so where the contract is kept nothing was cut. -/
theorem RefusedOrDecoded.nothing_cut {header : JokerHeader} {out : Bytes}
    (h : RefusedOrDecoded header out) :
    header.truncated.other_candidates = header.other_candidates := by
  rcases h with h | ⟨appended, h, hdec⟩ <;> rw [serialize_header_eq] at h
  · cases h
  · have happ : wire header = appended := by simpa using h
    obtain ⟨decoded, n, hd, hsame⟩ := hdec [] 0
    rw [← happ, deserialize_truncated] at hd
    cases hd
    exact hsame.other_candidates

/-- The contract is kept exactly for the lists that fit the count byte: a
longer one is neither refused nor decoded in full. -/
theorem refused_or_decoded_iff (header : JokerHeader) (out : Bytes) :
    RefusedOrDecoded header out ↔ header.other_candidates.length ≤ 255 := by
  constructor
  · intro h
    exact (truncated_others_iff header).mp h.nothing_cut
  · intro hle
    refine Or.inr ⟨wire header, serialize_header_eq header out, ?_⟩
    intro payload consumed
    refine ⟨_, _, deserialize_truncated header payload consumed, ?_⟩
    exact ⟨rfl, rfl, rfl, rfl, (truncated_others_iff header).mpr hle⟩

/-- A header with as many distinct candidates as a byte has values. -/
def crowded_header : JokerHeader :=
  { sample_header 7 5 with
    other_candidates := (List.range 256).map fun i => station (UInt8.ofNat i) }

/-- It is encoded with a zero count, and decoded with no candidates at all:
all its 256 candidates end up in the payload. -/
theorem crowded_header_accepted :
    crowded_header.other_candidates.Nodup
      ∧ ¬ RefusedOrDecoded crowded_header [] := by
  have hlen : crowded_header.other_candidates.length = 256 := by
    show ((List.range 256).map _).length = 256
    rw [List.length_map, List.length_range]
  constructor
  · refine List.Nodup.map_on ?_ List.nodup_range
    intro i hi j hj hij
    have hb : UInt8.ofNat i = UInt8.ofNat j := by
      have hbytes := congrArg MacAddress.bytes hij
      simpa [station] using hbytes
    have hn := congrArg UInt8.toNat hb
    rw [UInt8.toNat_ofNat', UInt8.toNat_ofNat'] at hn
    have hi' := List.mem_range.mp hi
    have hj' := List.mem_range.mp hj
    omega
  · intro hkept
    have hcut := congrArg List.length hkept.nothing_cut
    rw [truncated_length, hlen] at hcut
    cases hcut

end Joker
