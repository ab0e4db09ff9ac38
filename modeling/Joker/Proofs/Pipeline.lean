/-
What one call of the receive pipeline can do, said once.

`verdict` names the exit `process_received_frame` takes, as a function
of what the exit depends on: the frame, the flag, and whether the cache
contains its id. `process_received_frame_carryOut` says what a call does
at each exit under any coordination scheme; `process_received_frame_eq`
then gives the state after a call at a timer-mode node as one record in
terms of the verdict — which id is recorded in the cache, which counters
move, what the coordinator is told — and every later proof reads its
field of that record and the verdict lemmas, and never unfolds the
pipeline.
-/
import Joker.Model.Forwarding

namespace Joker

-- ============================================================ the exits

/-- The exit a call of the pipeline takes. -/
inductive Verdict where
  /-- No header could be parsed. -/
  | malformed
  /-- The header failed `validate_header`. -/
  | invalid
  | ack (header : JokerHeader) (consumed : Nat)
  | forwarding (header : JokerHeader) (consumed : Nat)
  /-- Lucky long or direct delivery to this node. -/
  | delivered (header : JokerHeader)
  /-- TTL zero, for another node. -/
  | ttl_zero
  /-- The id is in the duplicate cache. -/
  | duplicate
  /-- A fresh packet for others, not addressed to this node. -/
  | overheard (header : JokerHeader)
  /-- A fresh packet handed to the coordinator. -/
  | candidate (header : JokerHeader) (consumed : Nat)

/-- The exit taken on a data packet that parsed and validated. -/
def dataVerdict (header : JokerHeader) (consumed : Nat)
    (local_mac : MacAddress) (is_candidate : Bool) (dedup : DedupCache) :
    Verdict :=
  if header.final_destination = local_mac then
    if dedup.Contains header.packet_id then .duplicate else .delivered header
  else if header.ttl = 0 then .ttl_zero
  else if dedup.Contains header.packet_id then .duplicate
  else if is_candidate then .candidate header consumed
  else .overheard header

/-- The exit taken on a frame. -/
def verdict (raw_frame : Bytes) (local_mac : MacAddress)
    (is_candidate : Bool) (config : Config) (dedup : DedupCache) : Verdict :=
  match deserialize_header raw_frame 0 with
  | (none, _) => .malformed
  | (some header, consumed) =>
      if validate_header header config.candidate_count then
        match header.type with
        | .kAck => .ack header consumed
        | .kForwarding => .forwarding header consumed
        | .kUnicast =>
            dataVerdict header consumed local_mac is_candidate dedup
      else .invalid

namespace Verdict

/-- The id the call records in the duplicate cache. -/
def recorded : Verdict → Option PacketId
  | delivered h => some h.packet_id
  | overheard h => some h.packet_id
  | candidate h _ => some h.packet_id
  | _ => none

/-- The counters the call moves, in order. -/
def counters : Verdict → List Counter
  | malformed => [.packets_received, .packets_dropped, .malformed_header]
  | invalid => [.packets_received, .packets_dropped, .invalid_header]
  | ack _ _ => [.packets_received]
  | forwarding _ _ => [.packets_received]
  | delivered _ => [.packets_received, .packets_delivered_lucky_or_direct]
  | ttl_zero => [.packets_received, .ttl_expired, .packets_dropped]
  | duplicate => [.packets_received, .duplicates]
  | overheard _ => [.packets_received, .overheard_packets_not_candidate]
  | candidate _ _ => [.packets_received, .candidate_packets_received]

/-- What a timer coordinator is told. -/
def instruct {H : WheelHeap ForwardCallback} (raw_frame : Bytes)
    (local_mac : MacAddress) (config : Config) (now : TimePoint)
    (c : TimerCoordinator H) : Verdict → TimerCoordinator H
  | overheard h => c.HandleOverheardForward h.packet_id
  | candidate h _ => c.accept h raw_frame local_mac config now
  | _ => c

end Verdict

/-- The cache after a call that records `p`, if anything. -/
def DedupCache.record (c : DedupCache) (p : Option PacketId)
    (now : TimePoint) : DedupCache :=
  match p with
  | some packet_id => c.Insert packet_id now
  | none => c

-- ======================================================= the spec lemma

/-- What the coordination scheme does at an exit. -/
def Verdict.carryOut {κ : Type} [Coordinator κ] (raw_frame : Bytes)
    (local_mac : MacAddress) (config : Config) (now : TimePoint)
    (s : JokerNode κ) : Verdict → JokerNode κ
  | ack h consumed =>
      { s with
        coordinator :=
          Coordinator.HandleAck h raw_frame consumed s.coordinator }
  | forwarding h consumed =>
      { s with
        coordinator := Coordinator.HandleForwardingMessage h raw_frame consumed
          s.coordinator }
  | overheard h =>
      match (Coordinator.asTimerCoordinator : Option (PacketId → κ → κ)) with
      | some HandleOverheardForward =>
          { s with
            coordinator := HandleOverheardForward h.packet_id s.coordinator }
      | none => s
  | candidate h consumed =>
      Coordinator.OnCandidateReceivedDataPacket h raw_frame consumed local_mac
        config now s
  | _ => s

/-- A call of the pipeline, whatever the coordination scheme. -/
theorem process_received_frame_carryOut {κ : Type} [Coordinator κ]
    (raw_frame : Bytes) (local_mac : MacAddress) (is_candidate : Bool)
    (config : Config) (now : TimePoint) (s : JokerNode κ) :
    process_received_frame raw_frame local_mac is_candidate config now s
      = let v := verdict raw_frame local_mac is_candidate config s.dedup
        v.carryOut raw_frame local_mac config now
          { s with
            dedup := s.dedup.record v.recorded now
            metrics := v.counters.foldl Metrics.Increment s.metrics } := by
  unfold process_received_frame verdict
  rcases hp : deserialize_header raw_frame 0 with ⟨_ | header, consumed⟩
  · rfl
  · dsimp only
    cases hv : validate_header header config.candidate_count with
    | false => rfl
    | true =>
        cases ht : header.type with
        | kAck => rfl
        | kForwarding => rfl
        | kUnicast =>
            simp only [Bool.not_true, Bool.false_eq_true, if_false, if_true,
              is_lucky_long_or_direct_delivery, decide_eq_true_eq, dataVerdict]
            by_cases hd : header.final_destination = local_mac
            · rw [if_pos hd, if_pos hd]
              cases hc : s.dedup.Contains header.packet_id <;> rfl
            · rw [if_neg hd, if_neg hd]
              by_cases h0 : header.ttl = 0
              · rw [if_pos h0, if_pos h0]
                rfl
              · rw [if_neg h0, if_neg h0]
                cases hc : s.dedup.Contains header.packet_id with
                | true => rfl
                | false => cases is_candidate <;> rfl

variable {H : WheelHeap ForwardCallback}

/-- The state after a call of the pipeline at a timer-mode node. -/
theorem process_received_frame_eq (raw_frame : Bytes)
    (local_mac : MacAddress) (is_candidate : Bool) (config : Config)
    (now : TimePoint) (s : TimerNode H) :
    process_received_frame raw_frame local_mac is_candidate config now s
      = let v := verdict raw_frame local_mac is_candidate config s.dedup
        { neighbors := s.neighbors
          dedup := s.dedup.record v.recorded now
          coordinator :=
            v.instruct raw_frame local_mac config now s.coordinator
          nic := s.nic
          metrics := v.counters.foldl Metrics.Increment s.metrics } := by
  rw [process_received_frame_carryOut]
  cases verdict raw_frame local_mac is_candidate config s.dedup <;> rfl

/-- A call moves each counter at most once. -/
theorem Verdict.counters_nodup (v : Verdict) : v.counters.Nodup := by
  cases v <;> simp [Verdict.counters]

/-- The delivery counter moves on delivery only. -/
theorem Verdict.delivered_iff (v : Verdict) :
    Counter.packets_delivered_lucky_or_direct ∈ v.counters
      ↔ ∃ header, v = .delivered header := by
  cases v <;> simp [Verdict.counters]

/-- Increments of distinct counters, read back. -/
theorem GetCounter_foldl (n : Counter) (cs : List Counter) :
    ∀ m : Metrics, cs.Nodup →
      (cs.foldl Metrics.Increment m).GetCounter n
        = if n ∈ cs then m.GetCounter n + 1 else m.GetCounter n := by
  induction cs with
  | nil => intro m _; rfl
  | cons c cs ih =>
      intro m hnd
      rw [List.nodup_cons] at hnd
      rw [List.foldl_cons, ih _ hnd.2]
      by_cases hc : n = c
      · subst hc
        rw [if_neg hnd.1, if_pos List.mem_cons_self,
          Metrics.GetCounter_Increment_self]
      · rw [Metrics.GetCounter_Increment_ne m hc]
        simp only [List.mem_cons, hc, false_or]

/-- The counters a call moves are those of its exit. -/
theorem GetCounter_process_ne_iff (raw_frame : Bytes)
    (local_mac : MacAddress) (is_candidate : Bool) (config : Config)
    (now : TimePoint) (s : TimerNode H) (n : Counter) :
    (process_received_frame raw_frame local_mac is_candidate config now s
      ).metrics.GetCounter n ≠ s.metrics.GetCounter n
    ↔ n ∈
      (verdict raw_frame local_mac is_candidate config s.dedup).counters := by
  rw [process_received_frame_eq]
  dsimp only
  generalize verdict raw_frame local_mac is_candidate config s.dedup = v
  rw [GetCounter_foldl n v.counters s.metrics v.counters_nodup]
  split
  · next h =>
    refine iff_of_true ?_ h
    intro heq
    simp at heq
  · next h => exact iff_of_false (fun hne => hne rfl) h

-- ========================================================== data packets

/-- The frame parses to the header, `consumed` bytes long, passes
validation and is a data packet. -/
structure DataFrame (config : Config) (frame : Bytes) (header : JokerHeader)
    (consumed : Nat) : Prop where
  parses : deserialize_header frame 0 = (some header, consumed)
  valid : validate_header header config.candidate_count = true
  unicast : header.type = .kUnicast

/-- A data packet takes one of the data exits. -/
theorem DataFrame.verdict_eq {config : Config} {frame : Bytes}
    {header : JokerHeader} {consumed : Nat}
    (hf : DataFrame config frame header consumed) (local_mac : MacAddress)
    (is_candidate : Bool) (dedup : DedupCache) :
    verdict frame local_mac is_candidate config dedup
      = dataVerdict header consumed local_mac is_candidate dedup := by
  unfold verdict
  rw [hf.parses]
  simp only [hf.valid, hf.unicast, if_true]

/-- Only a data packet reaches the data exits. -/
theorem dataFrame_of_verdict {frame : Bytes} {local_mac : MacAddress}
    {is_candidate : Bool} {config : Config} {dedup : DedupCache}
    (hr : (verdict frame local_mac is_candidate config dedup).recorded
      ≠ none) :
    ∃ header consumed, DataFrame config frame header consumed := by
  unfold verdict at hr
  rcases hp : deserialize_header frame 0 with ⟨_ | header, consumed⟩
  · rw [hp] at hr
    exact absurd rfl hr
  · rw [hp] at hr
    dsimp only at hr
    cases hv : validate_header header config.candidate_count with
    | false =>
        rw [hv] at hr
        exact absurd rfl hr
    | true =>
        cases ht : header.type with
        | kAck =>
            rw [hv, ht] at hr
            exact absurd rfl hr
        | kForwarding =>
            rw [hv, ht] at hr
            exact absurd rfl hr
        | kUnicast => exact ⟨header, consumed, hp, hv, ht⟩

/-- The exits that record an id are taken where the cache does not contain
it; address, TTL and flag decide which. -/
theorem dataVerdict_eq_iff {local_mac : MacAddress} {is_candidate : Bool}
    {dedup : DedupCache} {v : Verdict} (hr : v.recorded ≠ none)
    (h : JokerHeader) (n : Nat) :
    dataVerdict h n local_mac is_candidate dedup = v
      ↔ dedup.Contains h.packet_id = false
        ∧ (h.final_destination = local_mac ∧ v = .delivered h
          ∨ h.final_destination ≠ local_mac ∧ h.ttl ≠ 0
            ∧ (is_candidate = true ∧ v = .candidate h n
              ∨ is_candidate = false ∧ v = .overheard h)) := by
  unfold dataVerdict
  cases hc : dedup.Contains h.packet_id with
  | true =>
      refine iff_of_false (fun hv => hr ?_) (fun hall => by cases hall.1)
      rw [← hv]
      split
      · rfl
      · split <;> rfl
  | false =>
      by_cases hd : h.final_destination = local_mac
      · simp [hd, eq_comm]
      · by_cases h0 : h.ttl = 0
        · refine iff_of_false (fun hv => hr ?_) (by simp [hd, h0])
          rw [← hv, if_neg hd, if_pos h0]
          rfl
        · cases is_candidate <;> simp [hd, h0, eq_comm]

/-- What the pipeline records is the id of a data packet the cache does
not contain. -/
theorem recorded_eq_some {frame : Bytes} {local_mac : MacAddress}
    {is_candidate : Bool} {config : Config} {dedup : DedupCache}
    {p : PacketId}
    (hr : (verdict frame local_mac is_candidate config dedup).recorded
      = some p) :
    ∃ header consumed, DataFrame config frame header consumed
      ∧ header.packet_id = p ∧ dedup.Contains p = false := by
  obtain ⟨header, consumed, hf⟩ :=
    dataFrame_of_verdict (hr ▸ Option.some_ne_none p)
  refine ⟨header, consumed, hf, ?_⟩
  rw [hf.verdict_eq] at hr
  obtain ⟨hc, hexit⟩ := (dataVerdict_eq_iff
    (hr ▸ Option.some_ne_none p) header consumed).mp rfl
  have hp : header.packet_id = p := by
    rcases hexit with ⟨-, hv⟩ | ⟨-, -, ⟨-, hv⟩ | ⟨-, hv⟩⟩
      <;> rw [hv] at hr
      <;> exact Option.some.inj hr
  exact ⟨hp, hp ▸ hc⟩

variable {frame : Bytes} {local_mac : MacAddress} {is_candidate : Bool}
  {config : Config} {dedup : DedupCache} {header : JokerHeader}
  {consumed : Nat}

/-- An exit that records an id is taken on data packets only. -/
theorem verdict_eq_iff {v : Verdict} (hr : v.recorded ≠ none) :
    verdict frame local_mac is_candidate config dedup = v
      ↔ ∃ header consumed, DataFrame config frame header consumed
        ∧ dataVerdict header consumed local_mac is_candidate dedup = v := by
  constructor
  · intro hv
    obtain ⟨header, consumed, hf⟩ := dataFrame_of_verdict (hv ▸ hr)
    exact ⟨header, consumed, hf, (hf.verdict_eq _ _ _).symm.trans hv⟩
  · intro h
    obtain ⟨header, consumed, hf, hv⟩ := h
    exact (hf.verdict_eq _ _ _).trans hv

/-- Exactly when a frame is handed to the coordinator. -/
theorem verdict_eq_candidate_iff :
    verdict frame local_mac is_candidate config dedup
        = .candidate header consumed
      ↔ DataFrame config frame header consumed
        ∧ header.final_destination ≠ local_mac ∧ header.ttl ≠ 0
        ∧ dedup.Contains header.packet_id = false ∧ is_candidate = true := by
  have hr : (Verdict.candidate header consumed).recorded ≠ none :=
    Option.some_ne_none _
  rw [verdict_eq_iff hr]
  simp only [dataVerdict_eq_iff hr]
  constructor
  · rintro ⟨h, n, hf, hc, ⟨-, hv⟩ | ⟨hd, h0, ⟨hflag, hv⟩ | ⟨-, hv⟩⟩⟩
      <;> cases hv
    exact ⟨hf, hd, h0, hc, hflag⟩
  · rintro ⟨hf, hd, h0, hc, hflag⟩
    exact ⟨header, consumed, hf, hc, Or.inr ⟨hd, h0, Or.inl ⟨hflag, rfl⟩⟩⟩

/-- Exactly when a frame counts as overheard. -/
theorem verdict_eq_overheard_iff :
    verdict frame local_mac is_candidate config dedup = .overheard header
      ↔ (∃ consumed, DataFrame config frame header consumed)
        ∧ header.final_destination ≠ local_mac ∧ header.ttl ≠ 0
        ∧ dedup.Contains header.packet_id = false
        ∧ is_candidate = false := by
  have hr : (Verdict.overheard header).recorded ≠ none :=
    Option.some_ne_none _
  rw [verdict_eq_iff hr]
  simp only [dataVerdict_eq_iff hr]
  constructor
  · rintro ⟨h, n, hf, hc, ⟨-, hv⟩ | ⟨hd, h0, ⟨-, hv⟩ | ⟨hflag, hv⟩⟩⟩
      <;> cases hv
    exact ⟨⟨n, hf⟩, hd, h0, hc, hflag⟩
  · rintro ⟨⟨n, hf⟩, hd, h0, hc, hflag⟩
    exact ⟨header, n, hf, hc, Or.inr ⟨hd, h0, Or.inr ⟨hflag, rfl⟩⟩⟩

/-- Exactly when a frame is delivered. -/
theorem verdict_eq_delivered_iff :
    verdict frame local_mac is_candidate config dedup = .delivered header
      ↔ (∃ consumed, DataFrame config frame header consumed)
        ∧ header.final_destination = local_mac
        ∧ dedup.Contains header.packet_id = false := by
  have hr : (Verdict.delivered header).recorded ≠ none :=
    Option.some_ne_none _
  rw [verdict_eq_iff hr]
  simp only [dataVerdict_eq_iff hr]
  constructor
  · rintro ⟨h, n, hf, hc, ⟨hd, hv⟩ | ⟨-, -, ⟨-, hv⟩ | ⟨-, hv⟩⟩⟩
      <;> cases hv
    exact ⟨⟨n, hf⟩, hd, hc⟩
  · rintro ⟨⟨n, hf⟩, hd, hc⟩
    exact ⟨header, n, hf, hc, Or.inl ⟨hd, rfl⟩⟩

end Joker
