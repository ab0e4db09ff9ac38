/-
What a node transmits is what it was handed.

A retained frame is never written between the call that accepts it and
the callback that takes it, so whatever holds of an entry at acceptance
holds of it in `pending_`, on the air, and in the log of callbacks
(`Entries`). At acceptance the frame has just been parsed and validated
as a data packet with TTL at least 1: so every callback that finds an
entry ends by forwarding it or by dropping it at TTL 1, and what is
forwarded is the received frame with one byte changed
(`forwarded_frames`).
-/
import Joker.Proofs.Suppression
import Mathlib.Data.List.Induction

namespace Joker

open Transition VectorHeap

variable {H : WheelHeap ForwardCallback}

-- ========================================================== the invariant

/-- `P` holds of every entry that is pending, was transmitted, or was
taken by a callback that has ended; and a transmission is what the
callback makes of its entry. -/
structure Entries (P : PacketId → PendingForward → Prop)
    (c : TimerCoordinator H) (nic : NicAdapter) : Prop where
  pending : ∀ p e, c.pending.lookup p = some e → P p e
  sent : ∀ tx ∈ nic.transmitted, ∃ p e data, P p e
    ∧ transmission e.frame = some data
    ∧ tx = ⟨MacAddress.broadcast, data, true, some (p, e)⟩
  logged : ∀ x ∈ c.expiries, ∃ p it, x = Expiry.of p it
    ∧ ∀ e, it = some e → P p e

theorem Entries.start {P : PacketId → PendingForward → Prop} :
    Entries P ({} : TimerCoordinator H) {} :=
  ⟨fun _ _ h => (by cases h), fun _ h => absurd h List.not_mem_nil,
    fun _ h => absurd h List.not_mem_nil⟩

theorem Entries.mono {P Q : PacketId → PendingForward → Prop}
    {c : TimerCoordinator H} {nic : NicAdapter} (h : Entries P c nic)
    (hPQ : ∀ p e, P p e → Q p e) : Entries Q c nic := by
  refine ⟨fun p e he => hPQ p e (h.pending p e he), ?_, ?_⟩
  · intro tx htx
    obtain ⟨p, e, data, hP, hdata, heq⟩ := h.sent tx htx
    exact ⟨p, e, data, hPQ p e hP, hdata, heq⟩
  · intro x hx
    obtain ⟨p, it, heq, hP⟩ := h.logged x hx
    exact ⟨p, it, heq, fun e he => hPQ p e (hP e he)⟩

/-- A tick moves entries and makes none. -/
theorem Entries.tick {P : PacketId → PendingForward → Prop}
    {s : TimerNode H} (h : Entries P s.coordinator s.nic)
    (now : TimePoint) :
    Entries P (TimerNode.Tick now s).coordinator
      (TimerNode.Tick now s).nic := by
  refine TimerNode.tick_invariant
    (fun s => Entries P s.coordinator s.nic) ?_ ?_ h
  · intro s t w _ _ h
    exact ⟨h.pending, h.sent, h.logged⟩
  · intro s t w _ _ h
    have heq := on_expiry_eq t.callback (s.withWheel w)
    rw [heq]
    refine ⟨?_, ?_, ?_⟩
    · intro p e he
      exact h.pending p e (lookup_erase_some_iff.mp he).2
    · intro tx htx
      rcases mem_sendFor_iff.mp htx with htx | ⟨e, data, he, hdata, rfl⟩
      · exact h.sent tx htx
      · exact ⟨_, e, data, h.pending _ e he, hdata, rfl⟩
    · intro x hx
      rcases List.mem_append.mp hx with hx | hx
      · exact h.logged x hx
      · exact ⟨_, _, List.mem_singleton.mp hx, fun e he =>
          h.pending _ e he⟩

/-- An event makes an entry only by accepting a packet. -/
theorem Entries.step {P : PacketId → PendingForward → Prop}
    {s : TimerNode H} {local_mac : MacAddress} {config : Config}
    {ev : NodeEvent} (h : Entries P s.coordinator s.nic)
    (haccept : ∀ now frame header consumed, ev = .receive now frame true →
      verdict frame local_mac true config s.dedup
        = .candidate header consumed →
      P header.packet_id ⟨s.coordinator.wheel.next_id, frame⟩) :
    Entries P (s.step local_mac config ev).coordinator
      (s.step local_mac config ev).nic := by
  refine TimerNode.step_invariant (Entries P) ?_ ?_ ?_ h
  · intro now frame header consumed hev hv
    refine ⟨?_, h.sent, h.logged⟩
    intro p e he
    rw [lookup_accept] at he
    split at he
    · next hp =>
      injection he with he
      subst hp he
      exact haccept now frame header consumed hev hv
    · exact h.pending p e he
  · intro now frame header _ _
    refine ⟨?_, h.sent, ?_⟩
    · intro p e he
      exact h.pending p e (lookup_overheard_some_iff.mp he).2
    · have hlog : (s.coordinator.HandleOverheardForward
          header.packet_id).expiries = s.coordinator.expiries := by
        unfold TimerCoordinator.HandleOverheardForward
        cases s.coordinator.pending.lookup header.packet_id <;> rfl
      rw [hlog]
      exact h.logged
  · intro now _
    exact h.tick now

-- ========================================================== whole runs

/-- The entry's frame was received as a data packet for another node,
flagged as addressed to this one. -/
def ReceivedEntry (local_mac : MacAddress) (config : Config)
    (es : List NodeEvent) (p : PacketId) (e : PendingForward) : Prop :=
  ∃ now header consumed, NodeEvent.receive now e.frame true ∈ es
    ∧ DataFrame config e.frame header consumed ∧ header.packet_id = p
    ∧ header.final_destination ≠ local_mac ∧ header.ttl ≠ 0

/-- Every entry of a run was received in it. -/
theorem run_entries (local_mac : MacAddress) (config : Config)
    (capacity : Nat) (ttl : TimePoint) (es : List NodeEvent) :
    Entries (ReceivedEntry local_mac config es)
      (TimerNode.run H local_mac config capacity ttl es).coordinator
      (TimerNode.run H local_mac config capacity ttl es).nic := by
  induction es using List.reverseRecOn with
  | nil => exact Entries.start
  | append_singleton es ev ih =>
      unfold TimerNode.run at ih ⊢
      rw [exec_concat]
      refine Entries.step (ih.mono ?_) ?_
      · rintro p e ⟨now, header, consumed, hmem, hrest⟩
        exact ⟨now, header, consumed, List.mem_append_left _ hmem, hrest⟩
      · rintro now frame header consumed rfl hv
        obtain ⟨hf, hdest, httl, -, -⟩ := verdict_eq_candidate_iff.mp hv
        exact ⟨now, header, consumed,
          List.mem_append_right _ List.mem_cons_self, hf, rfl, hdest, httl⟩

/-- A frame a node forwards: a received frame with the TTL byte, at
least 2, decremented; the header and the payload read back from it are
the received ones, TTL apart. -/
structure ForwardOf (config : Config) (frame data : Bytes)
    (header : JokerHeader) (consumed : Nat) : Prop where
  received : DataFrame config frame header consumed
  ttl : 2 ≤ header.ttl
  ttl_byte : frame[1]? = some header.ttl
  edited : data = frame.set 1 (header.ttl - 1)
  reparsed : DataFrame config data { header with ttl := header.ttl - 1 }
    consumed
  payload : data.drop consumed = frame.drop consumed

/-- What the callback makes of a data packet is a forward of it. -/
theorem DataFrame.forwardOf {config : Config} {frame data : Bytes}
    {header : JokerHeader} {consumed : Nat}
    (hf : DataFrame config frame header consumed)
    (hdata : transmission frame = some data) :
    ForwardOf config frame data header consumed := by
  rw [hf.transmission_eq] at hdata
  split at hdata
  · next httl =>
    injection hdata with hdata
    subst hdata
    obtain ⟨hn, -, payload, hwire⟩ :=
      deserialize_header_eq_some_iff.mp hf.parses
    refine ⟨hf, ttl_gt_one_iff.mp httl, ?_, rfl, hf.set_ttl _, ?_⟩
    · rw [hwire]
      rfl
    · rw [List.drop_set_of_lt]
      rw [hn]
      unfold JokerHeader.WireSize
      omega
  · cases hdata

/-- Forwarding changes only the TTL byte, and a callback neither meets a
frame that does not parse nor an entry whose frame is empty: it forwards
its entry, drops it at TTL 1, or has no entry to act on. No entry that is
pending has an empty frame. -/
theorem forwarded_frames (H : WheelHeap ForwardCallback)
    (local_mac : MacAddress) (config : Config) (capacity : Nat)
    (ttl : TimePoint) (es : List NodeEvent) :
    (∀ tx ∈ (TimerNode.run H local_mac config capacity ttl es
      ).nic.transmitted, ∃ now frame header consumed,
        NodeEvent.receive now frame true ∈ es
        ∧ ForwardOf config frame tx.data header consumed)
    ∧ (∀ x ∈ (TimerNode.run H local_mac config capacity ttl es
      ).coordinator.expiries,
        (∃ p, x = .no_entry p) ∨ (∃ p e, x = .forwarded p e)
          ∨ ∃ p e, x = .ttl_expired p e)
    ∧ ∀ p e, (TimerNode.run H local_mac config capacity ttl es
      ).coordinator.pending.lookup p = some e → e.frame ≠ [] := by
  have hrun := run_entries (H := H) local_mac config capacity ttl es
  refine ⟨?_, ?_, ?_⟩
  · intro tx htx
    obtain ⟨p, e, data, ⟨now, header, consumed, hmem, hf, -⟩, hdata, rfl⟩ :=
      hrun.sent tx htx
    exact ⟨now, e.frame, header, consumed, hmem, hf.forwardOf hdata⟩
  · intro x hx
    obtain ⟨p, it, rfl, hP⟩ := hrun.logged x hx
    cases it with
    | none => exact Or.inl ⟨p, rfl⟩
    | some e =>
        obtain ⟨now, header, consumed, -, hf, -⟩ := hP e rfl
        rw [hf.expiry_eq]
        split
        · exact Or.inr (Or.inl ⟨p, e, rfl⟩)
        · exact Or.inr (Or.inr ⟨p, e, rfl⟩)
  · intro p e he hempty
    obtain ⟨now, header, consumed, -, hf, -⟩ := hrun.pending p e he
    have hparses := hf.parses
    rw [hempty] at hparses
    cases hparses

/-- A callback with nothing to act on: with a cache of one entry packet 7
is taken on twice, its first timer takes the second entry, and its
second timer finds none. -/
theorem orphaned_timer_skips :
    Expiry.no_entry 7 ∈ (TimerNode.run (sortedHeap _) (station 1) {} 1 0
      [.receive 0 (sample_frame 7 5) true,
        .receive 1 (sample_frame 8 5) true,
        .receive 2 (sample_frame 7 5) true,
        .tick 100000000]).coordinator.expiries := by
  decide

end Joker
