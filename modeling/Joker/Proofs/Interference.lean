/-
Frames a node rejects do not interfere with it.

Two runs of one node are compared, one with extra frames that the
pipeline rejects where they come in. Every exit that rejects a frame
leaves the cache, the coordinator and the adapter as they were and moves
counters of receiving and dropping only, so the two nodes agree on the
rest (`Agree`) after an extra frame as before it; and whatever else
happens reads nothing but that rest, so it keeps the agreement, a tick
turn by turn.
-/
import Joker.Proofs.Suppression

namespace Joker

open Transition VectorHeap

variable {H : WheelHeap ForwardCallback}

-- ====================================================== rejected frames

/-- The frame does not parse, fails validation, is an ACK or Forwarding
frame, is a data frame whose id is in the cache, or has TTL zero and
another destination. -/
def Rejected (frame : Bytes) (local_mac : MacAddress) (config : Config)
    (dedup : DedupCache) : Prop :=
  (deserialize_header frame 0).1 = none
    ∨ ∃ header ∈ (deserialize_header frame 0).1,
      validate_header header config.candidate_count = false
        ∨ header.type = .kAck ∨ header.type = .kForwarding
        ∨ (header.type = .kUnicast
          ∧ dedup.Contains header.packet_id = true)
        ∨ (header.ttl = 0 ∧ header.final_destination ≠ local_mac)

instance (frame : Bytes) (local_mac : MacAddress) (config : Config)
    (dedup : DedupCache) : Decidable (Rejected frame local_mac config dedup) :=
  inferInstanceAs (Decidable (_ ∨ _))

/-- Extra frames are put into a run, each rejected where it comes in. -/
inductive WithRejected (local_mac : MacAddress) (config : Config) :
    TimerNode H → List NodeEvent → List NodeEvent → Prop where
  | nil (s : TimerNode H) : WithRejected local_mac config s [] []
  /-- The next event of the run. -/
  | event {s : TimerNode H} {es es' : List NodeEvent} (ev : NodeEvent)
      (h : WithRejected local_mac config (s.step local_mac config ev) es es') :
      WithRejected local_mac config s (ev :: es) (ev :: es')
  /-- An extra frame, flagged or not. -/
  | extra {s : TimerNode H} {es es' : List NodeEvent} (now : TimePoint)
      (frame : Bytes) (is_candidate : Bool)
      (hrejected : Rejected frame local_mac config s.dedup)
      (h : WithRejected local_mac config
        (s.step local_mac config (.receive now frame is_candidate)) es es') :
      WithRejected local_mac config s es
        (.receive now frame is_candidate :: es')

/-- The counters of receiving and dropping frames. -/
def receive_and_drop : List Counter :=
  [.packets_received, .packets_dropped, .malformed_header, .invalid_header,
    .duplicates, .ttl_expired]

/-- The exits that reject: nothing is recorded, the coordinator is told
nothing, nothing is delivered, and only counters of receiving and
dropping move. -/
def Verdict.rejects : Verdict → Bool
  | malformed => true
  | invalid => true
  | ack _ _ => true
  | forwarding _ _ => true
  | ttl_zero => true
  | duplicate => true
  | _ => false

/-- A rejected frame takes one of them. -/
theorem Rejected.rejects {frame : Bytes} {local_mac : MacAddress}
    {config : Config} {dedup : DedupCache}
    (h : Rejected frame local_mac config dedup) (is_candidate : Bool) :
    (verdict frame local_mac is_candidate config dedup).rejects = true := by
  unfold Rejected at h
  unfold verdict
  rcases hp : deserialize_header frame 0 with ⟨_ | header, consumed⟩
  · rfl
  · simp only [hp, reduceCtorEq, Option.mem_def, Option.some.injEq,
      exists_eq_left', false_or] at h
    dsimp only
    cases hv : validate_header header config.candidate_count with
    | false => rfl
    | true =>
        rw [hv] at h
        cases ht : header.type with
        | kAck => rfl
        | kForwarding => rfl
        | kUnicast =>
            simp only [ht, Bool.true_eq_false, reduceCtorEq, true_and,
              false_or] at h
            unfold dataVerdict
            rw [if_pos rfl]
            rcases h with hdup | ⟨h0, hd⟩
            · simp only [hdup, if_true]
              split
              · rfl
              · split <;> rfl
            · rw [if_neg hd, if_pos h0]
              rfl

/-- What an exit that rejects does to the node. -/
theorem Verdict.rejects_spec {v : Verdict} (h : v.rejects = true)
    (frame : Bytes) (local_mac : MacAddress) (config : Config)
    (now : TimePoint) (c : TimerCoordinator H) :
    v.recorded = none ∧ v.instruct frame local_mac config now c = c
      ∧ (∀ n ∈ v.counters, n ∈ receive_and_drop)
      ∧ ∀ header, v ≠ .delivered header := by
  cases v <;> simp_all [Verdict.rejects, Verdict.recorded, Verdict.instruct,
    Verdict.counters, receive_and_drop]

-- ========================================================= the agreement

/-- The counters agree except in what is received and dropped. -/
def CountersAgree (m m' : Metrics) : Prop :=
  ∀ n, n ∉ receive_and_drop → m.GetCounter n = m'.GetCounter n

/-- The nodes agree except in what they count as received and dropped. -/
structure Agree (s t : TimerNode H) : Prop where
  neighbors : s.neighbors = t.neighbors
  dedup : s.dedup = t.dedup
  coordinator : s.coordinator = t.coordinator
  nic : s.nic = t.nic
  counters : CountersAgree s.metrics t.metrics

theorem Agree.refl (s : TimerNode H) : Agree s s :=
  ⟨rfl, rfl, rfl, rfl, fun _ _ => rfl⟩

/-- Counting on both sides keeps counters in agreement. -/
theorem CountersAgree.foldl {m m' : Metrics} (h : CountersAgree m m')
    (cs : List Counter) :
    CountersAgree (cs.foldl Metrics.Increment m)
      (cs.foldl Metrics.Increment m') := by
  induction cs generalizing m m' with
  | nil => exact h
  | cons c cs ih =>
      refine ih fun n hn => ?_
      by_cases hc : n = c
      · subst hc
        rw [Metrics.GetCounter_Increment_self,
          Metrics.GetCounter_Increment_self, h n hn]
      · rw [Metrics.GetCounter_Increment_ne m hc,
          Metrics.GetCounter_Increment_ne m' hc, h n hn]

/-- Counting a received or dropped frame on one side does, too. -/
theorem CountersAgree.foldl_right {m m' : Metrics} (h : CountersAgree m m')
    {cs : List Counter} (hcs : ∀ n ∈ cs, n ∈ receive_and_drop) :
    CountersAgree m (cs.foldl Metrics.Increment m') := by
  induction cs generalizing m' with
  | nil => exact h
  | cons c cs ih =>
      refine ih (fun n hn => ?_) fun n hn => hcs n (List.mem_cons_of_mem _ hn)
      have hne : n ≠ c := by
        rintro rfl
        exact hn (hcs n List.mem_cons_self)
      rw [Metrics.GetCounter_Increment_ne m' hne]
      exact h n hn

/-- A rejected frame on one side. -/
theorem Agree.extra {s t : TimerNode H} (h : Agree s t)
    {local_mac : MacAddress} {config : Config} {now : TimePoint}
    {frame : Bytes} {is_candidate : Bool}
    (hrejected : Rejected frame local_mac config t.dedup) :
    Agree s (t.step local_mac config (.receive now frame is_candidate)) := by
  obtain ⟨hrec, hinst, hcount, -⟩ := Verdict.rejects_spec
    (hrejected.rejects is_candidate) frame local_mac config now t.coordinator
  rw [TimerNode.step_receive]
  constructor
  · exact h.neighbors
  · dsimp only
    rw [hrec]
    exact h.dedup
  · exact h.coordinator.trans hinst.symm
  · exact h.nic
  · exact h.counters.foldl_right hcount

/-- A callback on both sides. -/
theorem Agree.on_expiry {s t : TimerNode H} (h : Agree s t)
    (cb : ForwardCallback) : Agree (on_expiry cb s) (on_expiry cb t) := by
  rw [on_expiry_eq, on_expiry_eq]
  constructor
  · exact h.neighbors
  · exact h.dedup
  · dsimp only
    rw [h.coordinator]
  · dsimp only
    rw [h.coordinator, h.nic]
  · dsimp only
    rw [h.coordinator]
    exact h.counters.foldl _

/-- A tick on both sides. -/
theorem Agree.tick {s t : TimerNode H} (h : Agree s t) (now : TimePoint) :
    Agree (TimerNode.Tick now s) (TimerNode.Tick now t) := by
  unfold TimerNode.Tick
  rw [h.coordinator]
  refine tickLoop_related _ _ (R := Agree) ?_ ?_ ?_ _ s t h
  · intro s t h
    rw [h.coordinator]
  · intro s t w h
    exact ⟨h.neighbors, h.dedup, by rw [h.coordinator], h.nic, h.counters⟩
  · intro s t cb h
    exact h.on_expiry cb

/-- An event on both sides. -/
theorem Agree.step {s t : TimerNode H} (h : Agree s t)
    (local_mac : MacAddress) (config : Config) (ev : NodeEvent) :
    Agree (s.step local_mac config ev) (t.step local_mac config ev) := by
  cases ev with
  | receive now frame is_candidate =>
      rw [TimerNode.step_receive, TimerNode.step_receive, h.dedup]
      dsimp only
      refine ⟨h.neighbors, rfl, ?_, h.nic, h.counters.foldl _⟩
      rw [h.coordinator]
  | tick now => exact h.tick now
  | own_send now packet_id =>
      refine ⟨h.neighbors, ?_, h.coordinator, h.nic, h.counters⟩
      exact congrArg (fun d => d.Insert packet_id now) h.dedup
  | evict now =>
      refine ⟨h.neighbors, ?_, h.coordinator, h.nic, h.counters⟩
      exact congrArg (fun d => d.EvictExpired now) h.dedup

-- ============================================================== the runs

/-- The frame an event delivers locally, if it does, with the clock
reading it is delivered at. -/
def delivery (local_mac : MacAddress) (config : Config) (s : TimerNode H) :
    NodeEvent → List (TimePoint × Bytes)
  | .receive now frame is_candidate =>
      match verdict frame local_mac is_candidate config s.dedup with
      | .delivered _ => [(now, frame)]
      | _ => []
  | _ => []

/-- What is delivered locally in a run. -/
def deliveries (local_mac : MacAddress) (config : Config) (s : TimerNode H)
    (es : List NodeEvent) : List (TimePoint × Bytes) :=
  outputs (TimerNode.step local_mac config) (delivery local_mac config) s es

/-- A rejected frame is not delivered. -/
theorem Rejected.delivery_eq {t : TimerNode H} {local_mac : MacAddress}
    {config : Config} {frame : Bytes}
    (hrejected : Rejected frame local_mac config t.dedup) (now : TimePoint)
    (is_candidate : Bool) :
    delivery local_mac config t (.receive now frame is_candidate) = [] := by
  have hrej := hrejected.rejects is_candidate
  unfold delivery
  dsimp only
  split
  · next header hv =>
    rw [hv] at hrej
    cases hrej
  · rfl

/-- Runs of agreeing nodes, one with extra frames, end in agreement and
deliver the same. -/
theorem WithRejected.agree {local_mac : MacAddress} {config : Config}
    {t : TimerNode H} {es es' : List NodeEvent}
    (h : WithRejected local_mac config t es es') :
    ∀ {s : TimerNode H}, Agree s t →
      Agree (exec (TimerNode.step local_mac config) s es)
          (exec (TimerNode.step local_mac config) t es')
        ∧ deliveries local_mac config s es
          = deliveries local_mac config t es' := by
  induction h with
  | nil t => exact fun hagree => ⟨hagree, rfl⟩
  | @event t es es' ev _ ih =>
      intro s hagree
      obtain ⟨hend, hdel⟩ := ih (hagree.step local_mac config ev)
      have hout : delivery local_mac config s ev
          = delivery local_mac config t ev := by
        unfold delivery
        rw [hagree.dedup]
      exact ⟨hend, congrArg₂ (· ++ ·) hout hdel⟩
  | @extra t es es' now frame is_candidate hrejected _ ih =>
      intro s hagree
      obtain ⟨hend, hdel⟩ := ih (hagree.extra hrejected)
      refine ⟨hend, hdel.trans ?_⟩
      unfold deliveries
      rw [outputs_cons, hrejected.delivery_eq, List.nil_append]

/-- A run with extra frames, each rejected where it comes in, transmits
and delivers what the run without them does, and ends with the same
cache, pending packets, timers and neighbours; only counters of receiving
and dropping differ. -/
theorem rejected_frames_do_not_interfere (local_mac : MacAddress)
    (config : Config) (s : TimerNode H) (es es' : List NodeEvent)
    (h : WithRejected local_mac config s es es') :
    (exec (TimerNode.step local_mac config) s es').nic
        = (exec (TimerNode.step local_mac config) s es).nic
    ∧ deliveries local_mac config s es' = deliveries local_mac config s es
    ∧ (exec (TimerNode.step local_mac config) s es').dedup
        = (exec (TimerNode.step local_mac config) s es).dedup
    ∧ (exec (TimerNode.step local_mac config) s es').coordinator.pending
        = (exec (TimerNode.step local_mac config) s es).coordinator.pending
    ∧ (exec (TimerNode.step local_mac config) s es').coordinator.wheel
        = (exec (TimerNode.step local_mac config) s es).coordinator.wheel
    ∧ (exec (TimerNode.step local_mac config) s es').neighbors
        = (exec (TimerNode.step local_mac config) s es).neighbors
    ∧ ∀ n, n ∉ [Counter.packets_received, .packets_dropped,
          .malformed_header, .invalid_header, .duplicates, .ttl_expired] →
        (exec (TimerNode.step local_mac config) s es').metrics.GetCounter n
          = (exec (TimerNode.step local_mac config) s es
            ).metrics.GetCounter n := by
  obtain ⟨hagree, hdel⟩ := h.agree (Agree.refl s)
  exact ⟨hagree.nic.symm, hdel.symm, hagree.dedup.symm,
    congrArg TimerCoordinator.pending hagree.coordinator.symm,
    congrArg TimerCoordinator.wheel hagree.coordinator.symm,
    hagree.neighbors.symm, fun n hn => (hagree.counters n hn).symm⟩

/-- Three frames of no use, around the packet that is taken on, leave its
forward as it was. -/
theorem rejected_frames_do_not_interfere_sample :
    (exec (TimerNode.step (station 1) {})
        (TimerNode.start (sortedHeap _) 1000 120000000000)
        [.receive 0 [0, 1] true, .receive 1 (sample_frame 7 0) true,
          .receive 2 (sample_frame 7 5) true,
          .receive 3 (sample_frame 7 5) true, .tick 60000000]).nic
      = (exec (TimerNode.step (station 1) {})
        (TimerNode.start (sortedHeap _) 1000 120000000000)
        [.receive 2 (sample_frame 7 5) true, .tick 60000000]).nic := by
  refine (rejected_frames_do_not_interfere (station 1) {} _ _ _ ?_).1
  apply WithRejected.extra _ _ _ (by decide)
  apply WithRejected.extra _ _ _ (by decide)
  apply WithRejected.event
  apply WithRejected.extra _ _ _ (by decide)
  apply WithRejected.event
  exact WithRejected.nil _

end Joker
