/-
What one run of the expiry callback can do, said once.

`transmission` is what a retained frame becomes on the air, `Expiry.of`
the branch the callback ends in; `send_frame_eq` and `on_expiry_eq` give
the state after the callback as one record in terms of the two, and no
later proof unfolds the callback.

On a data packet the callback is a one-byte edit: the frame is parsed,
its TTL decremented, re-encoded and joined with its tail, and because
the encoder inverts the decoder all of that amounts to writing offset 1
(`DataFrame.transmission_eq`). The edited frame is again a data packet,
with the TTL one less (`DataFrame.set_ttl`).

How long a receiver waits depends on its place in the list of other
candidates alone (`local_priority_of_getElem?`).
-/
import Joker.Proofs.Header
import Joker.Proofs.Pipeline

namespace Joker

variable {H : WheelHeap ForwardCallback}

-- ==================================================== the spec lemmas

/-- What the callback transmits for a retained frame, if anything. -/
def transmission (frame : Bytes) : Option Bytes :=
  if frame = [] then none
  else
    match deserialize_header frame 0 with
    | (some hdr, consumed) =>
        if hdr.ttl > 1 then
          some ((serialize_header { hdr with ttl := hdr.ttl - 1 } []).2
            ++ frame.drop consumed)
        else none
    | (none, _) => some frame

/-- The branch the callback ends in, given the entry it took. -/
def Expiry.of (packet_id : PacketId) : Option PendingForward → Expiry
  | none => .no_entry packet_id
  | some e =>
      if e.frame = [] then .empty_frame packet_id e
      else
        match deserialize_header e.frame 0 with
        | (some hdr, _) =>
            if hdr.ttl > 1 then .forwarded packet_id e
            else .ttl_expired packet_id e
        | (none, _) => .unparsable packet_id e

/-- The adapter after the callback took `it`. -/
def NicAdapter.sendFor (nic : NicAdapter) (packet_id : PacketId)
    (it : Option PendingForward) : NicAdapter :=
  match it with
  | none => nic
  | some e =>
      match transmission e.frame with
      | none => nic
      | some data => nic.TransmitBroadcast data (some (packet_id, e))

/-- The counters the branch moves. -/
def Expiry.counters : Expiry → List Counter
  | .no_entry _ => []
  | .empty_frame _ _ => []
  | .forwarded _ _ => [.timer_forwards]
  | .ttl_expired _ _ => [.ttl_expired]
  | .unparsable _ _ => [.timer_forwards]

/-- The state after what follows the critical section. -/
theorem send_frame_eq (packet_id : PacketId) (it : Option PendingForward)
    (s : TimerNode H) :
    send_frame packet_id it s
      = { neighbors := s.neighbors
          dedup := s.dedup
          coordinator := s.coordinator.record (Expiry.of packet_id it)
          nic := s.nic.sendFor packet_id it
          metrics := (Expiry.of packet_id it).counters.foldl
            Metrics.Increment s.metrics } := by
  unfold send_frame NicAdapter.sendFor Expiry.of transmission
  cases it with
  | none => rfl
  | some e =>
      dsimp only
      by_cases he : e.frame = []
      · rw [if_pos he, if_pos he, if_pos he]
        rfl
      · rw [if_neg he, if_neg he, if_neg he]
        rcases hp : deserialize_header e.frame 0 with ⟨_ | hdr, n⟩
        · rfl
        · dsimp only
          by_cases ht : hdr.ttl > 1
          · rw [if_pos ht, if_pos ht, if_pos ht]
            rfl
          · rw [if_neg ht, if_neg ht, if_neg ht]
            rfl

/-- What the adapter has transmitted after a callback. -/
theorem mem_sendFor_iff {nic : NicAdapter} {p : PacketId}
    {it : Option PendingForward} {tx : TransmittedFrame} :
    tx ∈ (nic.sendFor p it).transmitted ↔ tx ∈ nic.transmitted
      ∨ ∃ e data, it = some e ∧ transmission e.frame = some data
        ∧ tx = ⟨MacAddress.broadcast, data, true, some (p, e)⟩ := by
  unfold NicAdapter.sendFor
  cases it with
  | none => simp
  | some e =>
      dsimp only
      cases hdata : transmission e.frame with
      | none => simp [hdata]
      | some data => simp [NicAdapter.TransmitBroadcast, hdata]

/-- Erasing a key that is not there changes nothing. -/
theorem erase_of_lookup_none {α β : Type} [DecidableEq α]
    {m : UnorderedMap α β} {a : α} (h : m.lookup a = none) :
    m.erase a = m := by
  apply AList.ext
  show m.entries.kerase a = m.entries
  exact List.kerase_of_notMem_keys (AList.lookup_eq_none.mp h)

/-- A map after erasing a key. -/
theorem lookup_erase_eq {α β : Type} [DecidableEq α] (m : UnorderedMap α β)
    (q p : α) : (m.erase q).lookup p = if p = q then none else m.lookup p := by
  split
  · next h =>
    rw [h]
    exact AList.lookup_erase _ _
  · next h => exact AList.lookup_erase_ne h

/-- What an erasure leaves. -/
theorem lookup_erase_some_iff {α β : Type} [DecidableEq α]
    {m : UnorderedMap α β} {q p : α} {v : β} :
    (m.erase q).lookup p = some v ↔ p ≠ q ∧ m.lookup p = some v := by
  rw [lookup_erase_eq]
  split
  · next h => simp [h]
  · next h => simp [h]

/-- The critical section, as one record. -/
theorem take_pending_eq (c : TimerCoordinator H) (p : PacketId) :
    c.take_pending p
      = (c.pending.lookup p, { c with pending := c.pending.erase p }) := by
  unfold TimerCoordinator.take_pending
  cases h : c.pending.lookup p with
  | some it => rfl
  | none =>
      dsimp only
      rw [erase_of_lookup_none h]

/-- The state after a whole run of the callback. -/
theorem on_expiry_eq (cb : ForwardCallback) (s : TimerNode H) :
    on_expiry cb s
      = let it := s.coordinator.pending.lookup cb.packet_id
        { neighbors := s.neighbors
          dedup := s.dedup
          coordinator :=
            { pending := s.coordinator.pending.erase cb.packet_id
              wheel := s.coordinator.wheel
              expiries :=
                s.coordinator.expiries ++ [Expiry.of cb.packet_id it] }
          nic := s.nic.sendFor cb.packet_id it
          metrics := (Expiry.of cb.packet_id it).counters.foldl
            Metrics.Increment s.metrics } := by
  unfold on_expiry
  rw [take_pending_eq]
  exact send_frame_eq _ _ _

-- ================================================ the place in a list

/-- An address that is not listed is the top candidate's. -/
theorem local_priority_of_notMem {header : JokerHeader} {m : MacAddress}
    (h : m ∉ header.other_candidates) : local_priority header m = 1 := by
  have hnone : header.other_candidates.findIdx? (· = m) = none := by
    rw [List.findIdx?_eq_none_iff]
    intro c hc
    rw [decide_eq_false_iff_not]
    rintro rfl
    exact h hc
  unfold local_priority
  rw [hnone]

/-- An address listed once waits by its place in the list. -/
theorem local_priority_of_getElem? {header : JokerHeader} {m : MacAddress}
    {i : Nat} (hnd : header.other_candidates.Nodup)
    (hi : header.other_candidates[i]? = some m) :
    local_priority header m = UInt8.ofNat (2 + i) := by
  unfold local_priority
  rw [findIdx?_eq_of_nodup hnd hi]

-- ======================================== transmitting a data packet

/-- Writing the TTL of an encoding writes its second byte. -/
theorem wire_set_ttl (h : JokerHeader) (payload : Bytes) (v : UInt8) :
    (wire h ++ payload).set 1 v = wire { h with ttl := v } ++ payload := rfl

/-- Of a data packet with TTL above 1 the callback edits one byte. -/
theorem DataFrame.transmission_eq {config : Config} {frame : Bytes}
    {h : JokerHeader} {n : Nat} (hf : DataFrame config frame h n) :
    transmission frame
      = if h.ttl > 1 then some (frame.set 1 (h.ttl - 1)) else none := by
  obtain ⟨hn, hnum, payload, hdata⟩ :=
    deserialize_header_eq_some_iff.mp hf.parses
  have hne : frame ≠ [] := by
    rw [hdata]
    exact List.cons_ne_nil _ _
  have hdrop : frame.drop n = payload := by
    rw [hdata, hn, ← wire_length]
    exact List.drop_left
  unfold transmission
  rw [if_neg hne, hf.parses]
  dsimp only
  rw [serialize_header_eq, hdrop, List.nil_append, hdata, wire_set_ttl]

/-- A TTL that passes the callback's test. -/
theorem ttl_gt_one_iff {ttl : UInt8} : ttl > 1 ↔ 2 ≤ ttl := by
  rw [gt_iff_lt, UInt8.lt_iff_toNat_lt, UInt8.le_iff_toNat_le]
  exact Iff.rfl

/-- It is decremented without wrapping around. -/
theorem ttl_sub_one_toNat {ttl : UInt8} (h : 2 ≤ ttl) :
    (ttl - 1).toNat = ttl.toNat - 1 :=
  UInt8.toNat_sub_of_le _ _ (UInt8.le_of_lt (ttl_gt_one_iff.mpr h))

/-- A data packet with TTL at least 2 is transmitted. -/
theorem DataFrame.transmission_some {config : Config} {frame : Bytes}
    {h : JokerHeader} {n : Nat} (hf : DataFrame config frame h n)
    (httl : 2 ≤ h.ttl) :
    transmission frame = some (frame.set 1 (h.ttl - 1)) := by
  rw [hf.transmission_eq, if_pos (ttl_gt_one_iff.mpr httl)]

/-- The edited frame is a data packet with the new TTL and nothing else
changed. -/
theorem DataFrame.set_ttl {config : Config} {frame : Bytes}
    {h : JokerHeader} {n : Nat} (hf : DataFrame config frame h n)
    (v : UInt8) : DataFrame config (frame.set 1 v) { h with ttl := v } n := by
  obtain ⟨hn, hnum, payload, hdata⟩ :=
    deserialize_header_eq_some_iff.mp hf.parses
  refine ⟨deserialize_header_eq_some_iff.mpr ⟨hn, hnum, payload, ?_⟩, ?_, ?_⟩
  · rw [hdata, wire_set_ttl]
  · exact hf.valid
  · exact hf.unicast

/-- The callback ends a data packet by transmitting it or, at TTL 1, by
dropping it. -/
theorem DataFrame.expiry_eq {config : Config} {h : JokerHeader} {n : Nat}
    {e : PendingForward} (hf : DataFrame config e.frame h n)
    (p : PacketId) :
    Expiry.of p (some e)
      = if h.ttl > 1 then .forwarded p e else .ttl_expired p e := by
  obtain ⟨-, -, payload, hdata⟩ :=
    deserialize_header_eq_some_iff.mp hf.parses
  have hne : e.frame ≠ [] := by
    rw [hdata]
    exact List.cons_ne_nil _ _
  unfold Expiry.of
  dsimp only
  rw [if_neg hne, hf.parses]

end Joker
