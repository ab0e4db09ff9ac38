/-
Where accepted packets go.

# Counting

Counters are read off two lists: the exits the pipeline took in the run
(`outcomes`) and the branches callbacks ended in (`expiries`). A counter
is the number of times it stands in either (`GetCounter_run`), so what
is left is about lists.

# Following a packet

As long as the cache keeps every id it holds, a packet is taken on when
nothing is pending for it, and so neither displaces an entry nor leaves a
timer behind: live timers and pending entries own each other (`Coherent`,
`Owned`), a callback always finds its entry, and an entry leaves by its
callback alone. The entries an overheard copy removes are counted too;
in such runs there are none, since the copy is a duplicate.
-/
import Joker.Proofs.DedupCache
import Joker.Proofs.RetainedFrames

namespace Joker

open Transition VectorHeap

variable {H : WheelHeap ForwardCallback}

-- ====================================================== what is counted

/-- The exit an event takes in the pipeline, if it is a frame. -/
def outcome (local_mac : MacAddress) (config : Config) (s : TimerNode H) :
    NodeEvent → List Verdict
  | .receive _ frame is_candidate =>
      [verdict frame local_mac is_candidate config s.dedup]
  | _ => []

/-- The packet whose pending entry `HandleOverheardForward` removes in an
event, if it does. -/
def removal (local_mac : MacAddress) (config : Config) (s : TimerNode H) :
    NodeEvent → List PacketId
  | .receive _ frame is_candidate =>
      match verdict frame local_mac is_candidate config s.dedup with
      | .overheard header =>
          if (s.coordinator.pending.lookup header.packet_id).isSome
          then [header.packet_id] else []
      | _ => []
  | _ => []

/-- The exits taken in a run, in order. -/
def outcomes (local_mac : MacAddress) (config : Config) (s : TimerNode H)
    (es : List NodeEvent) : List Verdict :=
  outputs (TimerNode.step local_mac config) (outcome local_mac config) s es

/-- The packets whose pending entry was removed in a run. -/
def removals (local_mac : MacAddress) (config : Config) (s : TimerNode H)
    (es : List NodeEvent) : List PacketId :=
  outputs (TimerNode.step local_mac config) (removal local_mac config) s es

/-- Was the frame handed to `HandleAck` or `HandleForwardingMessage`? -/
def Verdict.isDispatch : Verdict → Bool
  | ack _ _ => true
  | forwarding _ _ => true
  | _ => false

/-- Was the frame dropped for its TTL? -/
def Verdict.isTtlZero : Verdict → Bool
  | ttl_zero => true
  | _ => false

/-- Did the callback drop its frame for its TTL? -/
def Expiry.isTtlExpired : Expiry → Bool
  | .ttl_expired _ _ => true
  | _ => false

/-- The event leaves every id in the cache that is there. -/
def KeepsIds (local_mac : MacAddress) (config : Config) (s : TimerNode H)
    (ev : NodeEvent) : Prop :=
  ∀ p, s.dedup.Contains p = true →
    (s.step local_mac config ev).dedup.Contains p = true

-- ========================================================= the counters

/-- The counter stands at `k` and what callbacks added to it. -/
def Counted (n : Counter) (k : Nat) (s : TimerNode H) : Prop :=
  s.metrics.GetCounter n = UInt64.ofNat
    (k + s.coordinator.expiries.countP fun x => n ∈ x.counters)

theorem Expiry.counters_nodup (x : Expiry) : x.counters.Nodup := by
  cases x <;> simp [Expiry.counters]

/-- An instruction of the pipeline runs no callback. -/
theorem Verdict.instruct_expiries (v : Verdict) (frame : Bytes)
    (local_mac : MacAddress) (config : Config) (now : TimePoint)
    (c : TimerCoordinator H) :
    (v.instruct frame local_mac config now c).expiries = c.expiries := by
  cases v with
  | overheard header =>
      show (c.HandleOverheardForward header.packet_id).expiries = _
      unfold TimerCoordinator.HandleOverheardForward
      cases c.pending.lookup header.packet_id <;> rfl
  | _ => rfl

/-- A counter moves with the exits and the branches that name it. -/
theorem Counted.step {n : Counter} {k : Nat} {s : TimerNode H}
    (h : Counted n k s) (local_mac : MacAddress) (config : Config)
    (ev : NodeEvent) :
    Counted n (k + (outcome local_mac config s ev).countP
      fun v => n ∈ v.counters) (s.step local_mac config ev) := by
  cases ev with
  | receive now frame is_candidate =>
      rw [TimerNode.step_receive]
      unfold Counted outcome
      dsimp only
      rw [Verdict.instruct_expiries,
        GetCounter_foldl n _ _ (Verdict.counters_nodup _), h]
      by_cases hn : n ∈ (verdict frame local_mac is_candidate config
        s.dedup).counters
      · simp only [hn, if_true, List.countP_singleton, decide_true]
        rw [← UInt64.ofNat_one, ← UInt64.ofNat_add, Nat.add_right_comm]
      · simp [hn]
  | tick now =>
      refine TimerNode.tick_invariant (Counted n k) ?_ ?_ h
      · intro s' t w _ _ h
        exact h
      · intro s' t w _ _ h
        rw [on_expiry_eq]
        unfold Counted at h ⊢
        dsimp only [TimerNode.withWheel]
        rw [GetCounter_foldl n _ _ (Expiry.counters_nodup _), h,
          List.countP_append, ← Nat.add_assoc]
        split
        · next hn =>
          simp only [List.countP_singleton, hn, decide_true, if_true]
          rw [UInt64.ofNat_add _ 1, UInt64.ofNat_one]
        · next hn => simp [hn]
  | own_send now packet_id => exact h
  | evict now => exact h

variable (H) in
/-- Every counter is the number of exits and branches that name it. -/
theorem GetCounter_run (local_mac : MacAddress) (config : Config)
    (capacity : Nat) (ttl : TimePoint) (n : Counter) (es : List NodeEvent) :
    Counted n ((outcomes local_mac config
        (TimerNode.start H capacity ttl) es).countP fun v => n ∈ v.counters)
      (TimerNode.run H local_mac config capacity ttl es) := by
  induction es using List.reverseRecOn with
  | nil => rfl
  | append_singleton es ev ih =>
      unfold outcomes TimerNode.run at ih ⊢
      rw [outputs_concat, exec_concat, List.countP_append]
      exact ih.step local_mac config ev

-- ============================================================ the entries

/-- Every live timer is that of the entry pending for its packet. -/
def Owned (c : TimerCoordinator H) : Prop :=
  ∀ t ∈ c.wheel.timers, t.cancelled = false →
    ∃ e, c.pending.lookup t.callback.packet_id = some e ∧ e.timer_id = t.id

theorem Owned.accept {c : TimerCoordinator H} (h : Owned c)
    {header : JokerHeader} (hnone : c.pending.lookup header.packet_id = none)
    (frame : Bytes) (local_mac : MacAddress) (config : Config)
    (now : TimePoint) :
    Owned (c.accept header frame local_mac config now) := by
  intro t ht hlive
  rcases mem_accept_iff.mp ht with rfl | ht
  · exact ⟨_, (lookup_accept _ _ _ _ _ _ _).trans (if_pos rfl), rfl⟩
  · obtain ⟨e, he, hid⟩ := h t ht hlive
    refine ⟨e, ?_, hid⟩
    rw [lookup_accept, if_neg, he]
    intro hp
    rw [hp, hnone] at he
    cases he

theorem Owned.drop {c : TimerCoordinator H} (h : Owned c)
    {now : TimePoint} {t : TimerEntry ForwardCallback}
    {w : SimpleTimerWheel ForwardCallback H}
    (hpop : c.wheel.popExpired now = some (t, w)) :
    Owned { c with wheel := w } := by
  intro u hu hlive
  exact h u (SimpleTimerWheel.mem_of_popExpired hpop hu) hlive

theorem Owned.run {c : TimerCoordinator H} (h : Owned c) (hc : Coherent c)
    {now : TimePoint} {t : TimerEntry ForwardCallback}
    {w : SimpleTimerWheel ForwardCallback H}
    (hpop : c.wheel.popExpired now = some (t, w)) (ht : t.cancelled = false)
    (x : List Expiry) :
    Owned { pending := c.pending.erase t.callback.packet_id
            wheel := w
            expiries := x } := by
  intro u hu hlive
  have hperm := (SimpleTimerWheel.popExpired_some hpop).2.1
  obtain ⟨e, he, hid⟩ := h t (SimpleTimerWheel.popExpired_mem hpop) ht
  obtain ⟨e', he', hid'⟩ :=
    h u (SimpleTimerWheel.mem_of_popExpired hpop hu) hlive
  refine ⟨e', lookup_erase_some_iff.mpr ⟨fun hp => ?_, he'⟩, hid'⟩
  -- one packet has one entry, and one entry one timer
  rw [hp, he] at he'
  injection he' with he'
  have hnd := (hperm.map TimerEntry.id).nodup_iff.mp hc.nodup
  rw [List.map_cons, List.nodup_cons] at hnd
  apply hnd.1
  rw [← hid, he', hid']
  exact List.mem_map_of_mem hu

/-- Suppressing a packet that is not pending changes nothing. -/
theorem overheard_of_none {c : TimerCoordinator H} {q : PacketId}
    (h : c.pending.lookup q = none) : c.HandleOverheardForward q = c := by
  unfold TimerCoordinator.HandleOverheardForward
  rw [h]

-- ========================================================== the invariant

/-- The state of a run that keeps the ids in the cache: `taken` packets
were taken on, and each is pending, was forwarded, or was dropped. -/
structure Conserved (s : TimerNode H) (taken : Nat) : Prop where
  capacity : 0 < s.dedup.capacity
  coherent : Coherent s.coordinator
  owned : Owned s.coordinator
  recorded : ∀ p e, s.coordinator.pending.lookup p = some e →
    s.dedup.Contains p = true
  parses : ∀ p e, s.coordinator.pending.lookup p = some e →
    ∃ config header consumed, DataFrame config e.frame header consumed
  balance : taken
    = s.coordinator.expiries.countP (fun x => .timer_forwards ∈ x.counters)
      + s.coordinator.pending.entries.length
      + s.coordinator.expiries.countP Expiry.isTtlExpired

theorem Conserved.start {capacity : Nat} (hcap : 0 < capacity)
    (ttl : TimePoint) : Conserved (TimerNode.start H capacity ttl) 0 where
  capacity := hcap
  coherent := coherent_start
  owned _ ht := absurd ht List.not_mem_nil
  recorded _ _ h := by cases h
  parses _ _ h := by cases h
  balance := rfl

/-- Nothing is pending for a packet the cache does not know. -/
theorem Conserved.not_pending {s : TimerNode H} {taken : Nat}
    (h : Conserved s taken) {p : PacketId}
    (hnew : s.dedup.Contains p = false) :
    s.coordinator.pending.lookup p = none := by
  cases he : s.coordinator.pending.lookup p with
  | none => rfl
  | some e =>
      rw [h.recorded p e he] at hnew
      cases hnew

/-- A tick moves packets from pending to forwarded or dropped. -/
theorem Conserved.tick {s : TimerNode H} {taken : Nat}
    (h : Conserved s taken) (now : TimePoint) :
    Conserved (TimerNode.Tick now s) taken := by
  refine TimerNode.tick_invariant (Conserved · taken) ?_ ?_ h
  · intro s' t w hpop ht h
    exact { h with
      coherent := h.coherent.drop hpop ht
      owned := h.owned.drop hpop }
  · intro s' t w hpop ht h
    obtain ⟨e, he, hid⟩ :=
      h.owned t (SimpleTimerWheel.popExpired_mem hpop) ht
    obtain ⟨config, header, consumed, hf⟩ := h.parses _ e he
    rw [on_expiry_eq]
    refine ⟨h.capacity, h.coherent.run hpop _,
      h.owned.run h.coherent hpop ht _, fun p e' he' => ?_,
      fun p e' he' => ?_, ?_⟩
    · exact h.recorded p e' (lookup_erase_some_iff.mp he').2
    · exact h.parses p e' (lookup_erase_some_iff.mp he').2
    · have hlen := (entries_perm_of_lookup he).length_eq
      rw [List.length_cons] at hlen
      have hbalance := h.balance
      dsimp only [TimerNode.withWheel]
      rw [List.countP_append, List.countP_append, he, hf.expiry_eq]
      generalize t.callback.packet_id = p at hlen ⊢
      split
      · have hforward : [Expiry.forwarded p e].countP
            (fun x => .timer_forwards ∈ x.counters) = 1 := rfl
        have hkept : [Expiry.forwarded p e].countP Expiry.isTtlExpired = 0 :=
          rfl
        omega
      · have hforward : [Expiry.ttl_expired p e].countP
            (fun x => .timer_forwards ∈ x.counters) = 0 := rfl
        have hdropped : [Expiry.ttl_expired p e].countP Expiry.isTtlExpired
            = 1 := rfl
        omega

/-- A packet that is taken on. -/
theorem Conserved.candidate {s : TimerNode H} {taken : Nat}
    (h : Conserved s taken) {local_mac : MacAddress} {config : Config}
    {now : TimePoint} {frame : Bytes} {header : JokerHeader}
    {consumed : Nat} (hf : DataFrame config frame header consumed)
    (hnew : s.dedup.Contains header.packet_id = false)
    (hkeep : ∀ p, s.dedup.Contains p = true →
      (s.dedup.Insert header.packet_id now).Contains p = true)
    (metrics : Metrics) :
    Conserved { s with
      dedup := s.dedup.Insert header.packet_id now
      coordinator := s.coordinator.accept header frame local_mac config now
      metrics := metrics } (taken + 1) := by
  have hnone := h.not_pending hnew
  constructor
  · exact (DedupCache.Insert_capacity _ _ _).symm ▸ h.capacity
  · exact h.coherent.accept header frame local_mac config now
  · exact h.owned.accept hnone frame local_mac config now
  · intro p e he
    rw [lookup_accept] at he
    split at he
    · next hp =>
      rw [hp]
      exact DedupCache.contains_Insert_self h.capacity _ _
    · exact hkeep p (h.recorded p e he)
  · intro p e he
    rw [lookup_accept] at he
    split at he
    · injection he with he
      rw [← he]
      exact ⟨config, header, consumed, hf⟩
    · exact h.parses p e he
  · have hins : (s.coordinator.accept header frame local_mac config
        now).pending.entries.length
          = s.coordinator.pending.entries.length + 1 := by
      show (s.coordinator.pending.insert header.packet_id _).entries.length = _
      rw [AList.entries_insert_of_notMem (AList.lookup_eq_none.mp hnone)]
      rfl
    have hbalance := h.balance
    dsimp only
    rw [hins, show (s.coordinator.accept header frame local_mac config
      now).expiries = s.coordinator.expiries from rfl]
    omega

/-- An overheard packet is fresh, so it removes nothing. -/
theorem Conserved.removal_eq {s : TimerNode H} {taken : Nat}
    (h : Conserved s taken) (local_mac : MacAddress) (config : Config)
    (ev : NodeEvent) : removal local_mac config s ev = [] := by
  unfold removal
  split
  · next now frame is_candidate =>
    split
    · next header hv =>
      rw [h.not_pending (verdict_eq_overheard_iff.mp hv).2.2.2.1]
      rfl
    · rfl
  · rfl

/-- An event that keeps the ids in the cache. -/
theorem Conserved.step {s : TimerNode H} {taken : Nat}
    (h : Conserved s taken) {local_mac : MacAddress} {config : Config}
    {ev : NodeEvent} (hkeep : KeepsIds local_mac config s ev) :
    Conserved (s.step local_mac config ev)
      (taken + (outcome local_mac config s ev).countP
        fun v => .candidate_packets_received ∈ v.counters) := by
  unfold KeepsIds at hkeep
  cases ev with
  | tick now => exact h.tick now
  | own_send now packet_id =>
      exact { h with
        capacity := (DedupCache.Insert_capacity _ _ _).symm ▸ h.capacity
        recorded := fun p e he => hkeep p (h.recorded p e he) }
  | evict now =>
      exact { h with
        capacity := (DedupCache.EvictExpired_capacity _ _).symm ▸ h.capacity
        recorded := fun p e he => hkeep p (h.recorded p e he) }
  | receive now frame is_candidate =>
      unfold outcome
      rw [TimerNode.step_receive] at hkeep ⊢
      dsimp only at hkeep ⊢
      cases hv : verdict frame local_mac is_candidate config s.dedup with
      | candidate header consumed =>
          rw [hv] at hkeep
          obtain ⟨hf, -, -, hnew, -⟩ := verdict_eq_candidate_iff.mp hv
          exact h.candidate hf hnew hkeep _
      | overheard header =>
          rw [hv] at hkeep
          have hnone := h.not_pending (verdict_eq_overheard_iff.mp hv).2.2.2.1
          have hsame : Verdict.instruct frame local_mac config now
              s.coordinator (.overheard header) = s.coordinator :=
            overheard_of_none hnone
          rw [hsame]
          exact { h with
            capacity := (DedupCache.Insert_capacity _ _ _).symm ▸ h.capacity
            recorded := fun p e he => hkeep p (h.recorded p e he) }
      | delivered header =>
          rw [hv] at hkeep
          exact { h with
            capacity := (DedupCache.Insert_capacity _ _ _).symm ▸ h.capacity
            recorded := fun p e he => hkeep p (h.recorded p e he) }
      | _ => exact { h with }

/-- A run that keeps the ids in the cache. -/
theorem conserved_run {local_mac : MacAddress} {config : Config}
    {capacity : Nat} (hcap : 0 < capacity) (ttl : TimePoint)
    {es : List NodeEvent}
    (hkeep : Along (TimerNode.step local_mac config) (KeepsIds local_mac config)
      (TimerNode.start H capacity ttl) es) :
    Conserved (TimerNode.run H local_mac config capacity ttl es)
        ((outcomes local_mac config (TimerNode.start H capacity ttl) es).countP
          fun v => .candidate_packets_received ∈ v.counters)
      ∧ removals local_mac config (TimerNode.start H capacity ttl) es = [] := by
  induction es using List.reverseRecOn with
  | nil => exact ⟨Conserved.start hcap ttl, rfl⟩
  | append_singleton es ev ih =>
      obtain ⟨hes, hev⟩ := along_append.mp hkeep
      obtain ⟨hrun, hnone⟩ := ih hes
      unfold outcomes removals TimerNode.run at *
      rw [outputs_concat, outputs_concat, exec_concat, List.countP_append,
        hnone]
      exact ⟨hrun.step hev.1, hrun.removal_eq local_mac config ev⟩

/-- Pending entries and live timers, one to one. -/
theorem entries_and_timers {c : TimerCoordinator H} (hc : Coherent c)
    (h : Owned c) :
    (∀ p e, c.pending.lookup p = some e →
      ∃! t, t ∈ c.wheel.timers ∧ t.cancelled = false ∧ t.id = e.timer_id)
    ∧ ∀ t ∈ c.wheel.timers, t.cancelled = false →
      ∃! entry : PacketId × PendingForward,
        c.pending.lookup entry.1 = some entry.2
          ∧ entry.2.timer_id = t.id := by
  constructor
  · intro p e he
    obtain ⟨T, hT⟩ := hc.live p e he
    refine ⟨_, ⟨hT, rfl, rfl⟩, fun u hu => ?_⟩
    exact hc.eq_of_id hu.1 hT hu.2.2
  · intro t ht hlive
    obtain ⟨e, he, hid⟩ := h t ht hlive
    refine ⟨(t.callback.packet_id, e), ⟨he, hid⟩, fun entry hentry => ?_⟩
    obtain ⟨p', e'⟩ := entry
    obtain ⟨T, hT⟩ := hc.live p' e' hentry.1
    have heq := hc.eq_of_id hT ht hentry.2
    have hp : p' = t.callback.packet_id := by rw [← heq]
    have he' : e' = e := Option.some.inj (hentry.1.symm.trans (hp ▸ he))
    rw [hp, he']

-- ========================================================= the accounts

/-- Every exit is one of eight. -/
theorem length_outcomes (vs : List Verdict) :
    vs.countP (fun v => .packets_received ∈ v.counters)
      = vs.countP (fun v => .malformed_header ∈ v.counters)
        + vs.countP (fun v => .invalid_header ∈ v.counters)
        + vs.countP Verdict.isDispatch
        + vs.countP (fun v => .packets_delivered_lucky_or_direct ∈ v.counters)
        + vs.countP Verdict.isTtlZero
        + vs.countP (fun v => .duplicates ∈ v.counters)
        + vs.countP (fun v => .overheard_packets_not_candidate ∈ v.counters)
        + vs.countP (fun v => .candidate_packets_received ∈ v.counters) := by
  induction vs with
  | nil => rfl
  | cons v vs ih =>
      have hone : (if Counter.packets_received ∈ v.counters then 1 else 0)
          = (if Counter.malformed_header ∈ v.counters then 1 else 0)
            + (if Counter.invalid_header ∈ v.counters then 1 else 0)
            + (if v.isDispatch then 1 else 0)
            + (if Counter.packets_delivered_lucky_or_direct ∈ v.counters
              then 1 else 0)
            + (if v.isTtlZero then 1 else 0)
            + (if Counter.duplicates ∈ v.counters then 1 else 0)
            + (if Counter.overheard_packets_not_candidate ∈ v.counters
              then 1 else 0)
            + (if Counter.candidate_packets_received ∈ v.counters
              then 1 else 0) := by
        cases v <;> rfl
      simp only [List.countP_cons, decide_eq_true_eq]
      omega

/-- Callbacks move two counters. -/
theorem countP_expiries_eq_zero {n : Counter} (hf : n ≠ .timer_forwards)
    (ht : n ≠ .ttl_expired) (xs : List Expiry) :
    xs.countP (fun x => n ∈ x.counters) = 0 := by
  rw [List.countP_eq_zero]
  intro x _
  cases x <;> simp [Expiry.counters, hf, ht]

/-- The pipeline forwards nothing itself. -/
theorem countP_forwards_eq_zero (vs : List Verdict) :
    vs.countP (fun v => .timer_forwards ∈ v.counters) = 0 := by
  rw [List.countP_eq_zero]
  intro v _
  cases v <;> simp [Verdict.counters]

/-- In every run whose cache keeps the ids it holds, every packet taken on
is pending, was forwarded, was dropped for its TTL or was suppressed;
pending entries and live timers correspond one to one; and every frame
received took one of the exits. Counters are 64 bits wide. -/
theorem accepted_packets_conserved (H : WheelHeap ForwardCallback)
    (local_mac : MacAddress) (config : Config) (capacity : Nat)
    (ttl : TimePoint) (es : List NodeEvent) (hcap : 1 ≤ capacity)
    (hkeep : Along (TimerNode.step local_mac config)
      (KeepsIds local_mac config) (TimerNode.start H capacity ttl) es) :
    let s := TimerNode.run H local_mac config capacity ttl es
    let exits := outcomes local_mac config (TimerNode.start H capacity ttl) es
    s.metrics.GetCounter .candidate_packets_received
        = s.metrics.GetCounter .timer_forwards
          + UInt64.ofNat s.coordinator.pending.entries.length
          + UInt64.ofNat (s.coordinator.expiries.countP Expiry.isTtlExpired)
          + UInt64.ofNat (removals local_mac config
            (TimerNode.start H capacity ttl) es).length
    ∧ (∀ p e, s.coordinator.pending.lookup p = some e →
      ∃! t, t ∈ s.coordinator.wheel.timers ∧ t.cancelled = false
        ∧ t.id = e.timer_id)
    ∧ (∀ t ∈ s.coordinator.wheel.timers, t.cancelled = false →
      ∃! entry : PacketId × PendingForward,
        s.coordinator.pending.lookup entry.1 = some entry.2
          ∧ entry.2.timer_id = t.id)
    ∧ s.metrics.GetCounter .packets_received
        = s.metrics.GetCounter .malformed_header
          + s.metrics.GetCounter .invalid_header
          + UInt64.ofNat (exits.countP Verdict.isDispatch)
          + s.metrics.GetCounter .packets_delivered_lucky_or_direct
          + UInt64.ofNat (exits.countP Verdict.isTtlZero)
          + s.metrics.GetCounter .duplicates
          + s.metrics.GetCounter .overheard_packets_not_candidate
          + s.metrics.GetCounter .candidate_packets_received := by
  intro s exits
  obtain ⟨hrun, hnone⟩ := conserved_run hcap ttl hkeep
  obtain ⟨hentries, htimers⟩ := entries_and_timers hrun.coherent hrun.owned
  have hcount : ∀ n, n ≠ .timer_forwards → n ≠ .ttl_expired →
      s.metrics.GetCounter n
        = UInt64.ofNat (exits.countP fun v => n ∈ v.counters) := by
    intro n hf ht
    have h := GetCounter_run H local_mac config capacity ttl n es
    unfold Counted at h
    rw [countP_expiries_eq_zero hf ht, Nat.add_zero] at h
    exact h
  have hforwards : s.metrics.GetCounter .timer_forwards
      = UInt64.ofNat (s.coordinator.expiries.countP
        fun x => .timer_forwards ∈ x.counters) := by
    have h := GetCounter_run H local_mac config capacity ttl .timer_forwards es
    unfold Counted at h
    rw [countP_forwards_eq_zero, Nat.zero_add] at h
    exact h
  refine ⟨?_, hentries, htimers, ?_⟩
  · rw [hcount _ (by decide) (by decide), hforwards, hnone,
      ← UInt64.ofNat_add, ← UInt64.ofNat_add, ← UInt64.ofNat_add]
    exact congrArg UInt64.ofNat hrun.balance
  · simp only [hcount _ (by decide : Counter.packets_received ≠ _) (by decide),
      hcount _ (by decide : Counter.malformed_header ≠ _) (by decide),
      hcount _ (by decide : Counter.invalid_header ≠ _) (by decide),
      hcount _ (by decide : Counter.packets_delivered_lucky_or_direct ≠ _)
        (by decide),
      hcount _ (by decide : Counter.duplicates ≠ _) (by decide),
      hcount _ (by decide : Counter.overheard_packets_not_candidate ≠ _)
        (by decide),
      hcount _ (by decide : Counter.candidate_packets_received ≠ _) (by decide),
      ← UInt64.ofNat_add]
    exact congrArg UInt64.ofNat (length_outcomes exits)

/-- A packet is taken on and forwarded, and the accounts say so. -/
theorem accepted_packets_conserved_sample :
    let s := TimerNode.run (sortedHeap _) (station 1) {} 1000 120000000000
      [.receive 0 (sample_frame 7 5) true, .tick 60000000]
    s.metrics.GetCounter .candidate_packets_received = 1
      ∧ s.coordinator.pending.entries.length = 0
      ∧ s.metrics.GetCounter .timer_forwards = 1 := by
  have hkeep : Along (TimerNode.step (station 1) {})
      (KeepsIds (station 1) {})
      (TimerNode.start (sortedHeap _) 1000 120000000000)
      [.receive 0 (sample_frame 7 5) true, .tick 60000000] := by
    refine ⟨fun p hp => ?_, fun p hp => ?_, trivial⟩
    · cases hp
    · show (TimerNode.Tick 60000000 _).dedup.Contains p = true
      rw [TimerNode.tick_dedup]
      exact hp
  have hall := (accepted_packets_conserved (sortedHeap _) (station 1) {} 1000
    120000000000 _ (by decide) hkeep).1
  have hpending : (TimerNode.run (sortedHeap _) (station 1) {} 1000
      120000000000 [.receive 0 (sample_frame 7 5) true,
        .tick 60000000]).coordinator.pending.entries.length = 0 := by decide
  have hforwards : (TimerNode.run (sortedHeap _) (station 1) {} 1000
      120000000000 [.receive 0 (sample_frame 7 5) true,
        .tick 60000000]).metrics.GetCounter .timer_forwards = 1 := by decide
  refine ⟨?_, hpending, hforwards⟩
  refine hall.trans ?_
  rw [hpending, hforwards]
  decide

end Joker
