/-
Do backup candidates take part in the election?

A candidate listed at index `i` should wait `twait_ms * (i + 1)` and then
forward, unless it hears another forward of the packet first. The two
places that decide membership do not agree: the list is searched by the
coordinator, which the pipeline reaches only for frames the adapter
flags, and the adapter flags the link-layer destination, the candidate
that is *not* listed. A listed candidate that merely overhears the frame
calls off what it might have pending and schedules nothing; one that is
handed the frame as a candidate does as it should, as long as the delay
in milliseconds fits the 32 bits it is computed in
(`backup_forward_iff`).

Between the schedule and the expiry the argument is an invariant
(`ForwardDue`): the entry is pending with its timer live, or it has been
transmitted. Nothing but a copy of the packet disturbs it, and a tick at
the expiry or later leaves only the second case.
-/
import Joker.Proofs.Suppression

namespace Joker

open Transition VectorHeap

variable {H : WheelHeap ForwardCallback}

-- ============================================================ the delay

/-- The delay of the candidate at index `i` of a list the validation
accepts: the product as 32 bits hold it. -/
theorem forward_delay_of_getElem? {config : Config} {header : JokerHeader}
    {i : Nat} {local_mac : MacAddress}
    (hv : validate_header header config.candidate_count = true)
    (hi : header.other_candidates[i]? = some local_mac) :
    forward_delay header local_mac config
      = milliseconds (config.twait_ms.toNat * (i + 1) % UInt32.size) := by
  obtain ⟨-, -, hlen, hnd⟩ := (validate_header_iff _ _).mp hv
  obtain ⟨hlt, -⟩ := List.getElem?_eq_some_iff.mp hi
  have hcount := config.candidate_count.toNat_lt
  have hprio : (local_priority header local_mac).toNat = 2 + i := by
    rw [local_priority_of_getElem? hnd hi]
    exact Nat.mod_eq_of_lt (by omega)
  have hsub : ((local_priority header local_mac).toUInt32 - 1).toNat
      = i + 1 := by
    rw [UInt32.toNat_sub_of_le]
    · rw [UInt8.toNat_toUInt32, hprio]
      show 2 + i - 1 = i + 1
      omega
    · rw [UInt32.le_iff_toNat_le, UInt8.toNat_toUInt32, hprio]
      show 1 ≤ 2 + i
      omega
  unfold forward_delay
  rw [UInt32.toNat_mul, hsub]

theorem milliseconds_inj {m n : Nat} (h : milliseconds m = milliseconds n) :
    m = n := by
  have hmul : (m : Int) * 1000000 = (n : Int) * 1000000 := h
  omega

-- ================================================ between timer and expiry

/-- The forward of entry `e` is on its way: pending with its timer live,
or transmitted. -/
def ForwardDue (p : PacketId) (e : PendingForward) (T : TimePoint)
    (data : Bytes) (c : TimerCoordinator H) (nic : NicAdapter) : Prop :=
  (c.pending.lookup p = some e ∧ Armed c.wheel p e.timer_id T)
    ∨ (⟨MacAddress.broadcast, data, true, some (p, e)⟩ : TransmittedFrame)
        ∈ nic.transmitted

/-- Does the event hand the node a frame with the packet id? -/
def NodeEvent.Carries (p : PacketId) : NodeEvent → Prop
  | .receive _ frame _ => ∃ header consumed,
      deserialize_header frame 0 = (some header, consumed)
        ∧ header.packet_id = p
  | _ => False

/-- A tick keeps a forward on its way. -/
theorem ForwardDue.tick {s : TimerNode H} {p : PacketId} {e : PendingForward}
    {T : TimePoint} {data : Bytes} (hdata : transmission e.frame = some data)
    (h : ForwardDue p e T data s.coordinator s.nic) (now : TimePoint) :
    ForwardDue p e T data (TimerNode.Tick now s).coordinator
      (TimerNode.Tick now s).nic := by
  refine TimerNode.tick_invariant
    (fun s => ForwardDue p e T data s.coordinator s.nic) ?_ ?_ h
  · rintro s t w hpop ht (⟨hlook, harm⟩ | hsent)
    · exact Or.inl ⟨hlook, harm.pop hpop (Or.inl ht)⟩
    · exact Or.inr hsent
  · intro s t w hpop _ h
    have heq := on_expiry_eq t.callback (s.withWheel w)
    rw [heq]
    rcases h with ⟨hlook, harm⟩ | hsent
    · by_cases hp : p = t.callback.packet_id
      · refine Or.inr ?_
        rw [hp] at hlook ⊢
        dsimp only [TimerNode.withWheel]
        rw [hlook]
        exact mem_sendFor_iff.mpr (Or.inr ⟨e, data, rfl, hdata, rfl⟩)
      · refine Or.inl ⟨(AList.lookup_erase_ne hp).trans hlook, ?_⟩
        refine harm.pop hpop (Or.inr fun hcb => hp ?_)
        rw [hcb]
    · exact Or.inr (mem_sendFor_iff.mpr (Or.inl hsent))

/-- An event that brings no copy of the packet keeps a forward on its
way. -/
theorem ForwardDue.step {s : TimerNode H} {p : PacketId} {e : PendingForward}
    {T : TimePoint} {data : Bytes} (hdata : transmission e.frame = some data)
    (hc : Coherent s.coordinator)
    (h : ForwardDue p e T data s.coordinator s.nic)
    (local_mac : MacAddress) (config : Config) {ev : NodeEvent}
    (hev : ¬ ev.Carries p) :
    ForwardDue p e T data (s.step local_mac config ev).coordinator
      (s.step local_mac config ev).nic := by
  refine TimerNode.step_invariant (ForwardDue p e T data) ?_ ?_ ?_ h
  · rintro now frame header consumed rfl hv
    have hf := (verdict_eq_candidate_iff.mp hv).1
    have hne : p ≠ header.packet_id := fun hp =>
      hev ⟨header, consumed, hf.parses, hp.symm⟩
    rcases h with ⟨hlook, harm⟩ | hsent
    · refine Or.inl ⟨?_, harm.accept header frame local_mac config now⟩
      rw [lookup_accept, if_neg hne]
      exact hlook
    · exact Or.inr hsent
  · rintro now frame header rfl hv
    obtain ⟨consumed, hf⟩ := (verdict_eq_overheard_iff.mp hv).1
    have hne : p ≠ header.packet_id := fun hp =>
      hev ⟨header, consumed, hf.parses, hp.symm⟩
    rcases h with ⟨hlook, harm⟩ | hsent
    · refine Or.inl ⟨?_, harm.overheard hc hne⟩
      rw [overheard_pending, lookup_erase_eq, if_neg hne]
      exact hlook
    · exact Or.inr hsent
  · intro now _
    exact ForwardDue.tick hdata h now

/-- A forward on its way is transmitted by the first tick at its expiry
or later, if no copy of the packet comes in before. -/
theorem ForwardDue.transmitted {s : TimerNode H} {p : PacketId}
    {e : PendingForward} {T : TimePoint} {data : Bytes}
    (hdata : transmission e.frame = some data) (hc : Coherent s.coordinator)
    (h : ForwardDue p e T data s.coordinator s.nic)
    (local_mac : MacAddress) (config : Config) {es : List NodeEvent}
    (hes : ∀ ev ∈ es, ¬ ev.Carries p) {now : TimePoint} (hnow : T ≤ now) :
    (⟨MacAddress.broadcast, data, true, some (p, e)⟩ : TransmittedFrame)
      ∈ (exec (TimerNode.step local_mac config) s
          (es ++ [.tick now])).nic.transmitted := by
  have hrun : ∀ es, (∀ ev ∈ es, ¬ NodeEvent.Carries p ev) → ∀ s : TimerNode H,
      Coherent s.coordinator → ForwardDue p e T data s.coordinator s.nic →
      ForwardDue p e T data
        (exec (TimerNode.step local_mac config) s es).coordinator
        (exec (TimerNode.step local_mac config) s es).nic := by
    intro es
    induction es with
    | nil => intro _ s _ h; exact h
    | cons ev es ih =>
        intro hes s hc h
        refine ih (fun ev hev => hes ev (List.mem_cons_of_mem _ hev)) _
          (TimerNode.step_coherent hc local_mac config ev) ?_
        exact h.step hdata hc local_mac config (hes ev List.mem_cons_self)
  rw [exec_concat]
  rcases (hrun es hes s hc h).tick hdata now with ⟨-, harm⟩ | hsent
  · have hlate := TimerNode.tick_complete now _ _ harm
    exact absurd hnow (not_le.mpr hlate)
  · exact hsent

-- ========================================================= the election

/-- The node takes part as backup: the frame is pending with a live
timer set for `T`, and in every continuation without a copy of the
packet a tick at `T` or later has transmitted it, TTL decremented. -/
def BackupForward (local_mac : MacAddress) (config : Config)
    (header : JokerHeader) (frame : Bytes) (T : TimePoint)
    (s : TimerNode H) : Prop :=
  ∃ e, s.coordinator.pending.lookup header.packet_id = some e
    ∧ e.frame = frame
    ∧ Armed s.coordinator.wheel header.packet_id e.timer_id T
    ∧ ∀ es tick_at, (∀ ev ∈ es, ¬ NodeEvent.Carries header.packet_id ev) →
      T ≤ tick_at →
      (⟨MacAddress.broadcast, frame.set 1 (header.ttl - 1), true,
        some (header.packet_id, e)⟩ : TransmittedFrame)
        ∈ (exec (TimerNode.step local_mac config) s
            (es ++ [.tick tick_at])).nic.transmitted

/-- A candidate that is handed the frame takes part exactly when the delay
fits 32 bits. -/
theorem backup_forward_of_accept {c : TimerCoordinator H} {s : TimerNode H}
    {local_mac : MacAddress} {config : Config} {frame : Bytes}
    {header : JokerHeader} {consumed i : Nat} {now : TimePoint}
    (hc : Coherent s.coordinator)
    (hcoord : s.coordinator = c.accept header frame local_mac config now)
    (hf : DataFrame config frame header consumed) (httl : 2 ≤ header.ttl)
    (hi : header.other_candidates[i]? = some local_mac) :
    BackupForward local_mac config header frame
        (now + milliseconds (config.twait_ms.toNat * (i + 1))) s
      ↔ config.twait_ms.toNat * (i + 1) < UInt32.size := by
  have hdelay := forward_delay_of_getElem? hf.valid hi
  have harm := armed_accept c header frame local_mac config now
  have hlook := lookup_accept c header frame local_mac config now
    header.packet_id
  rw [if_pos rfl] at hlook
  rw [← hcoord, hdelay] at harm
  rw [← hcoord] at hlook
  constructor
  · intro hall
    obtain ⟨e, he, -, harm', -⟩ := hall
    rw [hlook] at he
    injection he with he
    subst he
    have heq := hc.eq_of_id harm harm' rfl
    injection heq with _ hT
    have hms := milliseconds_inj (Int.add_left_cancel hT)
    rw [← hms]
    exact Nat.mod_lt _ (by decide)
  · intro hfit
    rw [Nat.mod_eq_of_lt hfit] at harm
    refine ⟨_, hlook, rfl, harm, ?_⟩
    intro es tick_at hes hT
    exact ForwardDue.transmitted (hf.transmission_some httl) hc
      (Or.inl ⟨hlook, harm⟩) local_mac config hes hT

/-- A listed candidate takes part, after `twait_ms * (i + 1)`, exactly
when the adapter flags the frame and the delay fits 32 bits. -/
theorem backup_forward_iff (local_mac : MacAddress) (config : Config)
    (capacity : Nat) (ttl : TimePoint) (es : List NodeEvent) {frame : Bytes}
    {header : JokerHeader} {consumed i : Nat} (now : TimePoint)
    (is_candidate : Bool) (hf : DataFrame config frame header consumed)
    (httl : 2 ≤ header.ttl)
    (hfresh : (TimerNode.run H local_mac config capacity ttl es
      ).dedup.Contains header.packet_id = false)
    (hdest : header.final_destination ≠ local_mac)
    (hi : header.other_candidates[i]? = some local_mac) :
    BackupForward local_mac config header frame
        (now + milliseconds (config.twait_ms.toNat * (i + 1)))
        ((TimerNode.run H local_mac config capacity ttl es).step local_mac
          config (.receive now frame is_candidate))
      ↔ is_candidate = true
        ∧ config.twait_ms.toNat * (i + 1) < UInt32.size := by
  have hc := TimerNode.step_coherent
    (TimerNode.run_coherent (H := H) local_mac config capacity ttl es)
    local_mac config (.receive now frame is_candidate)
  generalize TimerNode.run H local_mac config capacity ttl es = s at *
  have h0 : header.ttl ≠ 0 := by
    intro h
    rw [h] at httl
    exact absurd httl (by decide)
  have hstep : s.step local_mac config (.receive now frame is_candidate)
      = _ := TimerNode.step_receive local_mac config s now frame is_candidate
  rw [hf.verdict_eq] at hstep
  unfold dataVerdict at hstep
  rw [if_neg hdest, if_neg h0, hfresh] at hstep
  cases is_candidate with
  | false =>
      refine iff_of_false ?_ fun h => Bool.false_ne_true h.1
      intro hall
      obtain ⟨e, hlook, -⟩ := hall
      have hcoord : (s.step local_mac config (.receive now frame false)
          ).coordinator
            = s.coordinator.HandleOverheardForward header.packet_id := by
        rw [hstep]
        rfl
      rw [hcoord, overheard_pending, AList.lookup_erase] at hlook
      cases hlook
  | true =>
      have hcoord : (s.step local_mac config (.receive now frame true)
          ).coordinator = s.coordinator.accept header frame local_mac config
            now := by
        rw [hstep]
        rfl
      rw [backup_forward_of_accept hc hcoord hf httl hi]
      exact (and_iff_right rfl).symm

/-- Station 1, first in the list of packet 7 and flagged as a candidate,
takes part after 50 ms. -/
theorem backup_forward_iff_flagged :
    BackupForward (station 1) {} (sample_header 7 5) (sample_frame 7 5)
      (3 + milliseconds (50 * (0 + 1)))
      ((TimerNode.run (sortedHeap _) (station 1) {} 1000 120000000000
        [.receive 0 (sample_frame 8 5) true]).step (station 1) {}
        (.receive 3 (sample_frame 7 5) true)) :=
  (backup_forward_iff (station 1) {} 1000 120000000000 _ 3 true
    (sample_dataFrame 7 5) (by decide) (by decide) (by decide)
    rfl).mpr ⟨rfl, by decide⟩

/-- Station 1, first in the list of packet 7 and not flagged, since the
link-layer destination is the top candidate: nothing is pending. -/
theorem overheard_backup_not_pending :
    ∃ (frame : Bytes) (header : JokerHeader) (consumed i : Nat)
      (now : TimePoint),
      DataFrame {} frame header consumed ∧ 2 ≤ header.ttl
      ∧ (TimerNode.run (sortedHeap _) (station 1) {} 1000 120000000000 []
        ).dedup.Contains header.packet_id = false
      ∧ header.final_destination ≠ station 1
      ∧ header.other_candidates[i]? = some (station 1)
      ∧ ¬ BackupForward (station 1) {} header frame
        (now + milliseconds (50 * (i + 1)))
        ((TimerNode.run (sortedHeap _) (station 1) {} 1000 120000000000 []
          ).step (station 1) {} (.receive now frame false)) := by
  refine ⟨sample_frame 7 5, sample_header 7 5, 19, 0, 0,
    sample_dataFrame 7 5, by decide, by decide, by decide, rfl,
    ?_⟩
  intro h
  obtain ⟨e, hlook, -⟩ := h
  have hnone : ((TimerNode.run (sortedHeap _) (station 1) {} 1000
      120000000000 []).step (station 1) {}
      (.receive 0 (sample_frame 7 5) false)).coordinator.pending.lookup 7
      = none := by decide
  cases hnone.symm.trans hlook

end Joker
