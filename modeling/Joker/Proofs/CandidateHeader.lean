/-
From a selection of candidates to the order they elect each other in.

The sender ranks its neighbours and lists all but the best of them in the
header; a receiver decodes the header, validates it, and finds its own
place in the list. The two agree: what is selected has distinct
addresses and fits the count byte, so the header survives the wire and
the validation, and the place of a candidate in the list, counted from
two, is the rank it was selected with.
-/
import Joker.Proofs.Callback
import Joker.Proofs.Candidate

namespace Joker

/-- A header that lists all but the first of some distinct candidates
gives each its place among them. -/
theorem local_priority_eq_place {header : JokerHeader}
    {cs : List MacAddress} (hnd : cs.Nodup)
    (hother : header.other_candidates = cs.tail) {i : Nat} {m : MacAddress}
    (hi : cs[i]? = some m) :
    local_priority header m = UInt8.ofNat (i + 1) := by
  cases cs with
  | nil => cases hi
  | cons best others =>
      rw [List.tail_cons] at hother
      obtain ⟨hbest, hnd⟩ := List.nodup_cons.mp hnd
      rw [← hother] at hbest hnd
      cases i with
      | zero =>
          injection hi with hm
          rw [← hm]
          exact local_priority_of_notMem hbest
      | succ i =>
          rw [List.getElem?_cons_succ, ← hother] at hi
          rw [local_priority_of_getElem? hnd hi, Nat.add_comm 2 i]

/-- A list of candidates as a selection returns it: of distinct addresses,
no longer than asked for, numbered from one. -/
structure Ranked (candidate_count : UInt8) (cs : List Candidate) : Prop where
  macs_nodup : (cs.map Candidate.mac).Nodup
  length_le : cs.length ≤ candidate_count.toNat
  priority : ∀ i c, cs[i]? = some c → c.priority.toNat = i + 1

theorem select_ranked {t : NeighborTable} (h : NeighborTable.Keyed t)
    (destination : MacAddress) (candidate_count : UInt8)
    (config : SelectionConfig) (now : TimePoint) :
    Ranked candidate_count
      (select_candidates destination t candidate_count config now) :=
  ⟨select_macs_nodup h, select_length_le, fun _ _ => select_priority⟩

/-- A header that lists a ranking without its first candidate gives each
candidate its priority in the ranking. -/
theorem Ranked.local_priority_eq {candidate_count : UInt8}
    {cs : List Candidate} (h : Ranked candidate_count cs)
    {header : JokerHeader}
    (hother : header.other_candidates = cs.tail.map Candidate.mac) {i : Nat}
    {c : Candidate} (hi : cs[i]? = some c) :
    local_priority header c.mac = c.priority := by
  rw [List.map_tail] at hother
  have hmac : (cs.map Candidate.mac)[i]? = some c.mac := by
    rw [List.getElem?_map, hi]
    rfl
  rw [local_priority_eq_place h.macs_nodup hother hmac, ← h.priority i c hi,
    UInt8.ofNat_toNat]

/-- Such a header fits the count byte. -/
theorem Ranked.others_lt {candidate_count : UInt8} {cs : List Candidate}
    (h : Ranked candidate_count cs) (hsome : cs ≠ []) {header : JokerHeader}
    (hother : header.other_candidates = cs.tail.map Candidate.mac) :
    1 + header.other_candidates.length ≤ candidate_count.toNat := by
  have hpos := List.length_pos_iff.mpr hsome
  have hlen := h.length_le
  rw [hother, List.length_map, List.length_tail]
  omega

/-- A header that lists a selection without its first candidate is decoded
as it was built, passes the validation of a receiver with the same
`candidate_count`, and gives every selected candidate the priority it was
selected with, which is its place. -/
theorem election_order_agrees (calls : List TableCall)
    (config : SelectionConfig) (candidate_count : UInt8) (now : TimePoint)
    (header : JokerHeader) (payload : Bytes) (consumed : Nat)
    (hzero : header.final_destination.IsZero = false)
    (hbroadcast : header.final_destination.IsBroadcast = false)
    (hsome : select_candidates header.final_destination
      (NeighborTable.after calls) candidate_count config now ≠ [])
    (hother : header.other_candidates
      = (select_candidates header.final_destination
          (NeighborTable.after calls) candidate_count config now).tail.map
            Candidate.mac) :
    ∃ decoded : JokerHeader,
      decoded = { header with
        num_candidates := UInt8.ofNat header.other_candidates.length }
      ∧ decoded.num_candidates.toNat = header.other_candidates.length
      ∧ deserialize_header ((serialize_header header []).2 ++ payload) consumed
        = (some decoded, header.WireSize)
      ∧ validate_header decoded candidate_count = true
      ∧ ∀ i c, (select_candidates header.final_destination
          (NeighborTable.after calls) candidate_count config now)[i]? = some c →
        local_priority decoded c.mac = c.priority
          ∧ c.priority.toNat = i + 1 := by
  have hranked := select_ranked (NeighborTable.keyed_after calls)
    header.final_destination candidate_count config now
  have hfit := hranked.others_lt hsome hother
  have hmax := candidate_count.toNat_lt
  have hnum : (UInt8.ofNat header.other_candidates.length).toNat
      = header.other_candidates.length := Nat.mod_eq_of_lt (by omega)
  refine ⟨_, rfl, hnum, ?_, ?_, fun i c hi => ⟨?_, hranked.priority i c hi⟩⟩
  · -- the encoder writes the length of the list, whatever the count says
    rw [serialize_header_eq, List.nil_append]
    exact deserialize_eq_some_iff_encodes.mpr
      ⟨encodes_wire header payload (by omega), rfl⟩
  · refine (validate_header_iff _ _).mpr ⟨hbroadcast, hzero, hfit, ?_⟩
    show header.other_candidates.Nodup
    rw [hother]
    exact hranked.macs_nodup.sublist ((List.tail_sublist _).map _)
  · exact hranked.local_priority_eq hother hi

/-- A header for the two originators, of which the first is the link-layer
destination; its own count is not what is sent. -/
def two_candidates_header : JokerHeader where
  type := .kUnicast
  ttl := 5
  num_candidates := 0
  packet_id := 7
  final_destination := ⟨[2, 0, 0, 0, 0, 9], rfl⟩
  other_candidates := [second_originator]

/-- Both originators find their rank in what they decode. -/
theorem election_order_agrees_two :
    ∃ decoded, deserialize_header
        ((serialize_header two_candidates_header []).2 ++ [0x68, 0x69]) 0
      = (some decoded, 19)
      ∧ validate_header decoded 2 = true
      ∧ local_priority decoded first_originator = 1
      ∧ local_priority decoded second_originator = 2 := by
  obtain ⟨decoded, -, -, hparse, hvalid, hprio⟩ := election_order_agrees
    (two_ogms.map (DiscoveryEvent.call {})) {} 2 (milliseconds 5000)
    two_candidates_header [0x68, 0x69] 0 (by decide) (by decide)
    (by decide +kernel) (by decide +kernel)
  obtain ⟨c, d, hcs, hc, hd, hcp, hdp⟩ :
      ∃ c d, select_candidates two_candidates_header.final_destination
          (NeighborTable.after (two_ogms.map (DiscoveryEvent.call {}))) 2 {}
          (milliseconds 5000) = [c, d]
        ∧ c.mac = first_originator ∧ d.mac = second_originator
        ∧ c.priority = 1 ∧ d.priority = 2 :=
    ⟨⟨first_originator, 250, 1⟩, ⟨second_originator, 250, 2⟩,
      by decide +kernel, rfl, rfl, rfl, rfl⟩
  rw [hcs] at hprio
  refine ⟨decoded, hparse, hvalid, ?_, ?_⟩
  · rw [← hc, (hprio 0 c rfl).1, hcp]
  · rw [← hd, (hprio 1 d rfl).1, hdp]

end Joker
