/-
What the user of a phone gets to see.

The receive callback decides from the parsed header alone whether a
payload is dispatched, after the core has made a decision of its own.
On a frame addressed to the phone the two agree as long as the candidate
list is valid, which the callback does not check; and the callback also
dispatches broadcasts, which the core never delivers
(`ui_dispatch_iff`).
-/
import Joker.Model.Jni
import Joker.Proofs.Callback

namespace Joker

open VectorHeap

variable {H : WheelHeap ForwardCallback}

namespace JokerInstance

-- ======================================================= the spec lemma

/-- The payload the callback dispatches, if any. -/
def shows (s : JokerInstance H) (frame : Bytes) : Option Bytes :=
  match deserialize_header frame 0 with
  | (none, _) => none
  | (some hdr, consumed) =>
      if s.node.dedup.Contains hdr.packet_id then none
      else if hdr.type = .kUnicast ∧ frame.length > consumed
          ∧ (hdr.final_destination = s.mac
            ∨ hdr.final_destination.IsBroadcast = true) then
        some (frame.drop consumed)
      else none

/-- The core sees every frame, and the callback adds what it shows. -/
theorem receive_callback_eq (s : JokerInstance H) (frame : Bytes)
    (is_cand : Bool) (now : TimePoint) :
    s.receive_callback frame is_cand now
      = { s with
          node := process_received_frame frame s.mac is_cand s.config now s.node
          ui := s.ui ++ (s.shows frame).toList } := by
  unfold receive_callback shows
  rcases deserialize_header frame 0 with ⟨_ | hdr, consumed⟩
  · dsimp only [Option.toList_none]
    rw [List.append_nil]
    rfl
  · dsimp only
    split
    · rw [Option.toList_none, List.append_nil]
      rfl
    · by_cases hcond : hdr.type = .kUnicast ∧ frame.length > consumed
          ∧ (hdr.final_destination = s.mac
            ∨ hdr.final_destination.IsBroadcast = true)
      · rw [if_pos hcond]
        exact if_pos hcond
      · rw [if_neg hcond, Option.toList_none, List.append_nil]
        exact if_neg hcond

/-- Exactly what is shown: the rest of a data packet that is addressed to
the phone or to all and whose id is new, if there is a rest. -/
theorem shows_eq_some_iff {s : JokerInstance H} {frame payload : Bytes} :
    s.shows frame = some payload
      ↔ payload ≠ [] ∧ ∃ hdr consumed,
        deserialize_header frame 0 = (some hdr, consumed)
        ∧ payload = frame.drop consumed ∧ hdr.type = .kUnicast
        ∧ s.node.dedup.Contains hdr.packet_id = false
        ∧ (hdr.final_destination = s.mac
          ∨ hdr.final_destination.IsBroadcast = true) := by
  unfold shows
  rcases hp : deserialize_header frame 0 with ⟨_ | hdr, consumed⟩
  · refine iff_of_false (fun h => by cases h) ?_
    intro hall
    obtain ⟨-, hdr, consumed', heq, -⟩ := hall
    cases heq
  · dsimp only
    constructor
    · intro h
      split at h
      · cases h
      · next hfresh =>
        split at h
        · next hcond =>
          obtain ⟨ht, hlen, hdest⟩ := hcond
          injection h with h
          subst h
          refine ⟨?_, hdr, consumed, rfl, rfl, ht, by simpa using hfresh,
            hdest⟩
          exact List.ne_nil_of_length_pos (by
            rw [List.length_drop]
            omega)
        · cases h
    · intro hall
      obtain ⟨hne, hdr', consumed', heq, rfl, ht, hfresh, hdest⟩ := hall
      injection heq with hhdr hconsumed
      injection hhdr with hhdr
      subst hhdr hconsumed
      have hlen : frame.length > consumed := by
        have hpos := List.length_pos_of_ne_nil hne
        rw [List.length_drop] at hpos
        omega
      rw [hfresh, if_neg Bool.false_ne_true, if_pos ⟨ht, hlen, hdest⟩]

-- ========================================================= the agreement

/-- The core delivers a data packet addressed to the phone whose header
is valid and whose id is new. -/
theorem delivered_iff (s : JokerInstance H) (frame : Bytes) (is_cand : Bool)
    (now : TimePoint) :
    (s.receive_callback frame is_cand now).node.metrics.GetCounter
        .packets_delivered_lucky_or_direct
      ≠ s.node.metrics.GetCounter .packets_delivered_lucky_or_direct
      ↔ ∃ hdr consumed, DataFrame s.config frame hdr consumed
        ∧ hdr.final_destination = s.mac
        ∧ s.node.dedup.Contains hdr.packet_id = false := by
  rw [receive_callback_eq]
  dsimp only
  rw [GetCounter_process_ne_iff, Verdict.delivered_iff]
  constructor
  · intro h
    obtain ⟨hdr, hv⟩ := h
    obtain ⟨⟨consumed, hf⟩, hrest⟩ := verdict_eq_delivered_iff.mp hv
    exact ⟨hdr, consumed, hf, hrest⟩
  · intro h
    obtain ⟨hdr, consumed, hf, hrest⟩ := h
    exact ⟨hdr, verdict_eq_delivered_iff.mpr ⟨⟨consumed, hf⟩, hrest⟩⟩

/-- On a frame that is valid if it is addressed to the phone, the user
sees a payload exactly when the core delivered the frame, or when it is
a broadcast whose id is new, and there is a payload. A frame that does
not parse and a frame whose id is in the cache are never shown. -/
theorem ui_dispatch_iff (s : JokerInstance H) (frame : Bytes)
    (is_cand : Bool) (now : TimePoint)
    (hvalid : ∀ hdr consumed,
      deserialize_header frame 0 = (some hdr, consumed) →
      hdr.type = .kUnicast → hdr.final_destination = s.mac →
      validate_header hdr s.config.candidate_count = true) :
    (∀ payload, (s.receive_callback frame is_cand now).ui = s.ui ++ [payload]
      ↔ payload ≠ [] ∧ ∃ hdr consumed,
        deserialize_header frame 0 = (some hdr, consumed)
        ∧ payload = frame.drop consumed
        ∧ ((s.receive_callback frame is_cand now).node.metrics.GetCounter
              .packets_delivered_lucky_or_direct
            ≠ s.node.metrics.GetCounter .packets_delivered_lucky_or_direct
          ∨ hdr.type = .kUnicast ∧ hdr.final_destination.IsBroadcast = true
            ∧ s.node.dedup.Contains hdr.packet_id = false))
    ∧ ((deserialize_header frame 0).1 = none →
      (s.receive_callback frame is_cand now).ui = s.ui)
    ∧ (∀ hdr consumed, deserialize_header frame 0 = (some hdr, consumed) →
      s.node.dedup.Contains hdr.packet_id = true →
      (s.receive_callback frame is_cand now).ui = s.ui) := by
  have hui : (s.receive_callback frame is_cand now).ui
      = s.ui ++ (s.shows frame).toList := by
    rw [receive_callback_eq]
  refine ⟨fun payload => ?_, fun hnone => ?_, fun hdr consumed hp hin => ?_⟩
  · have hshow : (s.receive_callback frame is_cand now).ui
        = s.ui ++ [payload] ↔ s.shows frame = some payload := by
      rw [hui, List.append_cancel_left_eq]
      cases s.shows frame <;> simp
    rw [hshow, shows_eq_some_iff, delivered_iff]
    refine and_congr_right fun _ => ?_
    constructor
    · intro h
      obtain ⟨hdr, consumed, hp, hpay, ht, hfresh, hdest | hdest⟩ := h
      · exact ⟨hdr, consumed, hp, hpay, Or.inl ⟨hdr, consumed,
          ⟨hp, hvalid hdr consumed hp ht hdest, ht⟩, hdest, hfresh⟩⟩
      · exact ⟨hdr, consumed, hp, hpay, Or.inr ⟨ht, hdest, hfresh⟩⟩
    · intro h
      obtain ⟨hdr, consumed, hp, hpay, hdel | ⟨ht, hdest, hfresh⟩⟩ := h
      · obtain ⟨hdr', consumed', hf, hdest, hfresh⟩ := hdel
        injection hp.symm.trans hf.parses with hhdr _
        injection hhdr with hhdr
        subst hhdr
        exact ⟨hdr, consumed, hp, hpay, hf.unicast, hfresh, Or.inl hdest⟩
      · exact ⟨hdr, consumed, hp, hpay, ht, hfresh, Or.inr hdest⟩
  · have hshow : s.shows frame = none := by
      unfold shows
      rcases hp : deserialize_header frame 0 with ⟨_ | hdr, consumed⟩
      · rfl
      · rw [hp] at hnone
        cases hnone
    rw [hui, hshow]
    exact List.append_nil _
  · have hshow : s.shows frame = none := by
      unfold shows
      rw [hp]
      exact if_pos hin
    rw [hui, hshow]
    exact List.append_nil _

/-- A data packet with the given destination and no other candidates. -/
def plain_header (destination : MacAddress) : JokerHeader where
  type := .kUnicast
  ttl := 32
  num_candidates := 0
  packet_id := 7
  final_destination := destination
  other_candidates := []

/-- A packet for the group owner is shown to its user. -/
theorem ui_dispatch_iff_delivered :
    ((create (sortedHeap _) .GO).receive_callback
      (wire (plain_header NodeName.GO.mac) ++ [0x68]) true 0).ui
      = [] ++ [[0x68]] := by
  refine ((ui_dispatch_iff (create (sortedHeap _) .GO)
    (wire (plain_header NodeName.GO.mac) ++ [0x68]) true 0 ?_).1 [0x68]).mpr
      ⟨by decide, plain_header NodeName.GO.mac, 13, by decide, by decide,
        Or.inl (by decide)⟩
  intro hdr consumed hp _ _
  have hdr_eq :
      (some hdr, consumed) = (some (plain_header NodeName.GO.mac), 13) :=
    hp.symm.trans (deserialize_wire [0x68] 0 rfl)
  injection hdr_eq with hhdr _
  injection hhdr with hhdr
  rw [hhdr]
  decide

/-- A broadcast is shown although the core counts its header as invalid
and delivers nothing. -/
theorem broadcast_shown_undelivered :
    ((create (sortedHeap _) .GO).receive_callback
        (wire (plain_header MacAddress.broadcast) ++ [0x68]) true 0).ui
      = [[0x68]]
    ∧ validate_header (plain_header MacAddress.broadcast) 2 = false
    ∧ ((create (sortedHeap _) .GO).receive_callback
        (wire (plain_header MacAddress.broadcast) ++ [0x68]) true 0
      ).node.metrics.GetCounter .packets_delivered_lucky_or_direct = 0 := by
  decide

end JokerInstance

end Joker
