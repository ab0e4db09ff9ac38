/-
What a copy that may hop no further leaves behind.

A copy with TTL zero is dropped before anything is recorded. A copy with
TTL one is not: the pipeline drops below one and the expiry callback at
one, so such a copy goes the whole way, its id is recorded, and when its
timer expires it is dropped. A later copy with TTL left is then a
duplicate. So a dying copy leaves no trace exactly when its TTL is zero,
or its id is in the cache already, or the cache holds nothing and there is
nothing to suppress (`dying_copy_iff`).
-/
import Joker.Proofs.DedupCache
import Joker.Proofs.Suppression

namespace Joker

open Transition VectorHeap

variable {H : WheelHeap ForwardCallback}

-- ============================================================ same core

/-- The nodes have the same cache, coordinator and adapter: everything an
event reads. -/
structure SameCore (s t : TimerNode H) : Prop where
  dedup : t.dedup = s.dedup
  coordinator : t.coordinator = s.coordinator
  nic : t.nic = s.nic

theorem SameCore.on_expiry {s t : TimerNode H} (h : SameCore s t)
    (cb : ForwardCallback) : SameCore (on_expiry cb s) (on_expiry cb t) := by
  rw [on_expiry_eq, on_expiry_eq]
  constructor
  · exact h.dedup
  · dsimp only
    rw [h.coordinator]
  · dsimp only
    rw [h.coordinator, h.nic]

theorem SameCore.tick {s t : TimerNode H} (h : SameCore s t)
    (now : TimePoint) :
    SameCore (TimerNode.Tick now s) (TimerNode.Tick now t) := by
  unfold TimerNode.Tick
  rw [h.coordinator]
  refine tickLoop_related _ _ (R := SameCore) ?_ ?_ ?_ _ s t h
  · intro s t h
    rw [h.coordinator]
  · intro s t w h
    exact ⟨h.dedup, by rw [h.coordinator], h.nic⟩
  · intro s t cb h
    exact h.on_expiry cb

/-- An event on both sides. -/
theorem SameCore.step {s t : TimerNode H} (h : SameCore s t)
    (local_mac : MacAddress) (config : Config) (ev : NodeEvent) :
    SameCore (s.step local_mac config ev) (t.step local_mac config ev) := by
  cases ev with
  | receive now frame is_candidate =>
      rw [TimerNode.step_receive, TimerNode.step_receive, h.dedup]
      refine ⟨rfl, ?_, h.nic⟩
      dsimp only
      rw [h.coordinator]
  | tick now => exact h.tick now
  | own_send now packet_id =>
      exact ⟨congrArg (fun d => d.Insert packet_id now) h.dedup,
        h.coordinator, h.nic⟩
  | evict now =>
      exact ⟨congrArg (fun d => d.EvictExpired now) h.dedup, h.coordinator,
        h.nic⟩

/-- A run on both sides. -/
theorem SameCore.exec {s t : TimerNode H} (h : SameCore s t)
    (local_mac : MacAddress) (config : Config) (es : List NodeEvent) :
    SameCore (exec (TimerNode.step local_mac config) s es)
      (exec (TimerNode.step local_mac config) t es) := by
  induction es generalizing s t with
  | nil => exact h
  | cons ev es ih => exact ih (h.step local_mac config ev)

-- ======================================================== the property

/-- Between the two states of a node nothing was recorded and nothing
became pending; and whatever comes later is taken on, suppressed and
transmitted in the second as in the first. -/
structure NoTrace (local_mac : MacAddress) (config : Config)
    (s s' : TimerNode H) : Prop where
  dedup : s'.dedup = s.dedup
  pending : s'.coordinator.pending = s.coordinator.pending
  later : ∀ es, SameCore (exec (TimerNode.step local_mac config) s es)
    (exec (TimerNode.step local_mac config) s' es)

theorem SameCore.noTrace {s s' : TimerNode H} (h : SameCore s s')
    (local_mac : MacAddress) (config : Config) :
    NoTrace local_mac config s s' :=
  ⟨h.dedup, congrArg TimerCoordinator.pending h.coordinator,
    h.exec local_mac config⟩

-- ================================================== what is left behind

/-- An id that is recorded is found. -/
theorem Insert_ne_self {c : DedupCache} (hc : c.capacity ≠ 0) {p : PacketId}
    (hp : c.Contains p = false) (now : TimePoint) : c.Insert p now ≠ c := by
  intro heq
  have hself := DedupCache.contains_Insert_self (Nat.pos_of_ne_zero hc) p now
  rw [heq, hp] at hself
  cases hself

theorem Insert_of_capacity_zero {c : DedupCache} (hc : c.capacity = 0)
    (p : PacketId) (now : TimePoint) : c.Insert p now = c := by
  unfold DedupCache.Insert
  rw [if_pos hc]

/-- Taking a packet on makes a new pending entry. -/
theorem accept_pending_ne {c : TimerCoordinator H} (hc : Coherent c)
    (header : JokerHeader) (frame : Bytes) (local_mac : MacAddress)
    (config : Config) (now : TimePoint) :
    (c.accept header frame local_mac config now).pending ≠ c.pending := by
  intro heq
  have hnew := lookup_accept c header frame local_mac config now
    header.packet_id
  rw [if_pos rfl, heq] at hnew
  -- an entry that was pending has an older timer
  obtain ⟨T, hT⟩ := hc.live _ _ hnew
  exact Nat.lt_irrefl _ (hc.lt _ hT)

/-- Suppression leaves alone exactly the packets nothing is pending for. -/
theorem overheard_pending_eq_iff {c : TimerCoordinator H} {p : PacketId} :
    (c.HandleOverheardForward p).pending = c.pending
      ↔ c.pending.lookup p = none := by
  rw [overheard_pending]
  constructor
  · intro heq
    rw [← heq]
    exact AList.lookup_erase _ _
  · exact erase_of_lookup_none

/-- A copy for another node, received in any state of a run, leaves no
trace exactly if its TTL is zero, or its id is in the cache, or the cache
can hold nothing, the copy is overheard and nothing is pending for its id.
So a copy with TTL one is treated as one that has hops left. -/
theorem dying_copy_iff (local_mac : MacAddress) (config : Config)
    (capacity : Nat) (ttl : TimePoint) (es : List NodeEvent) {frame : Bytes}
    {header : JokerHeader} {consumed : Nat} (now : TimePoint)
    (is_candidate : Bool) (hf : DataFrame config frame header consumed)
    (hdest : header.final_destination ≠ local_mac) :
    NoTrace local_mac config
        (TimerNode.run H local_mac config capacity ttl es)
        ((TimerNode.run H local_mac config capacity ttl es).step local_mac
          config (.receive now frame is_candidate))
      ↔ header.ttl = 0
        ∨ (TimerNode.run H local_mac config capacity ttl es).dedup.Contains
          header.packet_id = true
        ∨ ((TimerNode.run H local_mac config capacity ttl es).dedup.capacity
            = 0
          ∧ is_candidate = false
          ∧ (TimerNode.run H local_mac config capacity ttl es
            ).coordinator.pending.lookup header.packet_id = none) := by
  have hc := TimerNode.run_coherent (H := H) local_mac config capacity ttl es
  generalize TimerNode.run H local_mac config capacity ttl es = s at *
  rw [TimerNode.step_receive, hf.verdict_eq]
  unfold dataVerdict
  rw [if_neg hdest]
  by_cases h0 : header.ttl = 0
  · rw [if_pos h0]
    refine iff_of_true ?_ (Or.inl h0)
    apply SameCore.noTrace
    exact ⟨rfl, rfl, rfl⟩
  · rw [if_neg h0]
    cases hd : s.dedup.Contains header.packet_id with
    | true =>
        refine iff_of_true ?_ (Or.inr (Or.inl rfl))
        apply SameCore.noTrace
        exact ⟨rfl, rfl, rfl⟩
    | false =>
        cases is_candidate with
        | true =>
            refine iff_of_false (fun h => ?_) (by simp [h0])
            exact accept_pending_ne hc header frame local_mac config now
              h.pending
        | false =>
            simp only [h0, Bool.false_eq_true, if_false, false_or, true_and]
            constructor
            · intro h
              refine ⟨?_, overheard_pending_eq_iff.mp h.pending⟩
              by_contra hcap
              exact Insert_ne_self hcap hd now h.dedup
            · intro h
              obtain ⟨hcap, hnone⟩ := h
              apply SameCore.noTrace
              refine ⟨?_, ?_, rfl⟩
              · exact Insert_of_capacity_zero hcap _ now
              · show s.coordinator.HandleOverheardForward _ = _
                unfold TimerCoordinator.HandleOverheardForward
                rw [hnone]

/-- A copy with TTL zero leaves no trace. -/
theorem dying_copy_iff_zero :
    NoTrace (station 1) {} (TimerNode.start (sortedHeap _) 1000 0)
      ((TimerNode.start (sortedHeap _) 1000 0).step (station 1) {}
        (.receive 0 (sample_frame 7 0) true)) :=
  (dying_copy_iff (station 1) {} 1000 0 [] 0 true (sample_dataFrame 7 0)
    (by decide)).mpr (Or.inl rfl)

/-- A copy with TTL one does: the live copy that comes after it, which
would be transmitted without it, is not. -/
theorem dying_copy_blocks_live_copy :
    ¬ NoTrace (station 1) {} (TimerNode.start (sortedHeap _) 1000 0)
      ((TimerNode.start (sortedHeap _) 1000 0).step (station 1) {}
        (.receive 0 (sample_frame 7 1) true))
    ∧ (exec (TimerNode.step (station 1) {})
        (TimerNode.start (sortedHeap _) 1000 0)
        [.receive 1 (sample_frame 7 5) true,
          .tick 60000000]).nic.transmitted.map TransmittedFrame.data
        = [sample_frame 7 4]
    ∧ (exec (TimerNode.step (station 1) {})
        (TimerNode.start (sortedHeap _) 1000 0)
        [.receive 0 (sample_frame 7 1) true,
          .receive 1 (sample_frame 7 5) true,
          .tick 60000000]).nic.transmitted = [] := by
  refine ⟨fun h => ?_, by decide +kernel, by decide +kernel⟩
  have hfound : ((TimerNode.start (sortedHeap _) 1000 0).step (station 1) {}
      (.receive 0 (sample_frame 7 1) true)).dedup.Contains 7 = true := by
    decide +kernel
  rw [h.dedup] at hfound
  cases hfound

end Joker
