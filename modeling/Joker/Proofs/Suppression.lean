/-
Does overhearing a retransmission stop a pending forward?

At the coordinator it does: once `HandleOverheardForward` has dropped an
entry, its timer is cancelled and no continuation transmits it
(`suppressed_of_overheard`). Through the receive pipeline it depends on
what is checked before the hook is reached. Step 6 counts a copy of an
id in the duplicate cache as a duplicate and stops; the node recorded
the id when it took the packet on, so the copy reaches the hook only if
the cache has dropped the id since, and only if the adapter did not flag
the copy as addressed to this node (`suppressed_iff`).
-/
import Joker.Proofs.NodeRuns

namespace Joker

open Transition VectorHeap

variable {H : WheelHeap ForwardCallback}

/-- The forward `e` of packet `p` is called off: nothing is pending for
the packet, the forward's timer is cancelled or out of the wheel, and no
continuation of the run has transmitted it. -/
structure Suppressed (local_mac : MacAddress) (config : Config)
    (p : PacketId) (e : PendingForward) (s : TimerNode H) : Prop where
  not_pending : s.coordinator.pending.lookup p = none
  cancelled : ∀ t ∈ s.coordinator.wheel.timers, t.id = e.timer_id →
    t.cancelled = true
  never_sent : ∀ es, ∀ tx ∈
    (exec (TimerNode.step local_mac config) s es).nic.transmitted,
    tx.retained ≠ some (p, e)

/-- What the overhearing hook drops is called off. -/
theorem suppressed_of_overheard {s : TimerNode H} {p : PacketId}
    {e : PendingForward} (hc : Coherent s.coordinator)
    (hids : FreshIds s.coordinator.wheel.next_id
      (forwardIds s.coordinator s.nic []))
    (he : s.coordinator.pending.lookup p = some e)
    (local_mac : MacAddress) (config : Config) {s' : TimerNode H}
    (hcoord : s'.coordinator = s.coordinator.HandleOverheardForward p)
    (hnic : s'.nic = s.nic) : Suppressed local_mac config p e s' := by
  refine ⟨?_, ?_, ?_⟩
  · rw [hcoord, overheard_pending]
    exact AList.lookup_erase _ _
  · intro t ht hid
    rw [hcoord, overheard_timers hc he] at ht
    obtain ⟨u, -, rfl⟩ := List.mem_map.mp ht
    by_cases hu : u.id = e.timer_id
    · rw [if_pos hu]
    · rw [if_neg hu] at hid
      exact absurd hid hu
  · intro es
    have hgone := overheard_gone he hids
    rw [← hcoord, ← hnic] at hgone
    exact retained_ne_of_not_sent (TimerNode.gone_not_sent hgone es)

/-- While an entry is pending its forward is not called off. -/
theorem not_suppressed_of_pending {s : TimerNode H} {p : PacketId}
    {e e' : PendingForward} {local_mac : MacAddress} {config : Config}
    (h : s.coordinator.pending.lookup p = some e') :
    ¬ Suppressed local_mac config p e s := by
  intro hs
  rw [hs.not_pending] at h
  cases h

/-- A copy of the packet, heard while a forward of it is pending, calls
the forward off exactly when the duplicate cache no longer contains the
id and the copy is not flagged as addressed to this node. -/
theorem suppressed_iff (local_mac : MacAddress) (config : Config)
    (capacity : Nat) (ttl : TimePoint) (es : List NodeEvent) {p : PacketId}
    {e : PendingForward} {frame : Bytes} {header : JokerHeader}
    {consumed : Nat} (now : TimePoint) (is_candidate : Bool)
    (he : (TimerNode.run H local_mac config capacity ttl es
      ).coordinator.pending.lookup p = some e)
    (hf : DataFrame config frame header consumed)
    (hid : header.packet_id = p) (httl : 1 ≤ header.ttl)
    (hdest : header.final_destination ≠ local_mac) :
    Suppressed local_mac config p e
        ((TimerNode.run H local_mac config capacity ttl es).step local_mac
          config (.receive now frame is_candidate))
      ↔ (TimerNode.run H local_mac config capacity ttl es).dedup.Contains p
          = false ∧ is_candidate = false := by
  have hc := TimerNode.run_coherent (H := H) local_mac config capacity ttl es
  have hids := TimerNode.run_freshIds (H := H) local_mac config capacity ttl es
  generalize TimerNode.run H local_mac config capacity ttl es = s at *
  have h0 : header.ttl ≠ 0 := by
    intro h
    rw [h] at httl
    exact absurd httl (by decide)
  rw [TimerNode.step_receive, hf.verdict_eq]
  unfold dataVerdict
  rw [if_neg hdest, if_neg h0, hid]
  cases hd : s.dedup.Contains p with
  | true =>
      refine iff_of_false (not_suppressed_of_pending he) ?_
      intro hall
      obtain ⟨h, -⟩ := hall
      cases h
  | false =>
      cases is_candidate with
      | true =>
          refine iff_of_false ?_ ?_
          · refine not_suppressed_of_pending
              ((lookup_accept _ _ _ _ _ _ _).trans (if_pos hid.symm))
          · intro hall
            obtain ⟨-, h⟩ := hall
            cases h
      | false =>
          refine iff_of_true ?_ ⟨rfl, rfl⟩
          refine suppressed_of_overheard hc hids he _ _ ?_ rfl
          show s.coordinator.HandleOverheardForward header.packet_id = _
          rw [hid]

-- ==================================================== a run of each kind

/-- Address number `n` of a small network. -/
def station (n : UInt8) : MacAddress := ⟨[2, 0, 0, 0, 0, n], rfl⟩

/-- A data packet for station 9, with station 1 as backup candidate. -/
def sample_header (packet_id : PacketId) (ttl : UInt8) : JokerHeader where
  type := .kUnicast
  ttl := ttl
  num_candidates := 1
  packet_id := packet_id
  final_destination := station 9
  other_candidates := [station 1]

/-- Its frame, with a payload of two bytes. -/
def sample_frame (packet_id : PacketId) (ttl : UInt8) : Bytes :=
  wire (sample_header packet_id ttl) ++ [0x68, 0x69]

theorem sample_dataFrame (packet_id : PacketId) (ttl : UInt8) :
    DataFrame {} (sample_frame packet_id ttl) (sample_header packet_id ttl)
      19 :=
  ⟨deserialize_wire _ _ rfl, rfl, rfl⟩

/-- A cache of one entry that another packet has emptied: the overheard
copy of packet 7 calls its forward off. -/
theorem suppressed_iff_evicted :
    Suppressed (station 1) {} 7 ⟨1, sample_frame 7 5⟩
      ((TimerNode.run (sortedHeap _) (station 1) {} 1 0
        [.receive 0 (sample_frame 7 5) true,
          .receive 1 (sample_frame 8 5) true]).step (station 1) {}
        (.receive 2 (sample_frame 7 4) false)) :=
  (suppressed_iff (station 1) {} 1 0 _ 2 false (by decide)
    (sample_dataFrame 7 4) (by decide) (by decide)
    (by decide)).mpr ⟨by decide, rfl⟩

/-- A cache that still holds the id: station 1 takes packet 7 on at 0 ms
as second candidate, overhears the relayed copy at 10 ms, and transmits
its own copy at 50 ms all the same. -/
theorem overheard_copy_not_suppressing :
    ∃ (es : List NodeEvent) (p : PacketId) (e : PendingForward)
      (frame : Bytes) (header : JokerHeader) (consumed : Nat)
      (now : TimePoint) (is_candidate : Bool),
      (TimerNode.run (sortedHeap _) (station 1) {} 1000 120000000000 es
        ).coordinator.pending.lookup p = some e
      ∧ DataFrame {} frame header consumed ∧ header.packet_id = p
      ∧ 1 ≤ header.ttl ∧ header.final_destination ≠ station 1
      ∧ ¬ Suppressed (station 1) {} p e
        ((TimerNode.run (sortedHeap _) (station 1) {} 1000 120000000000 es
          ).step (station 1) {} (.receive now frame is_candidate)) := by
  refine ⟨[.receive 0 (sample_frame 7 5) true], 7, ⟨1, sample_frame 7 5⟩,
    sample_frame 7 4, sample_header 7 4, 19, 10000000, false, by decide,
    sample_dataFrame 7 4, by decide, by decide, by decide, ?_⟩
  intro h
  exact h.never_sent [.tick 50000000]
    ⟨MacAddress.broadcast, sample_frame 7 4, true,
      some (7, ⟨1, sample_frame 7 5⟩)⟩ (by decide) rfl

end Joker
