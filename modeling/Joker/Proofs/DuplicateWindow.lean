/-
How long a node remembers a packet.

The node records an id when it delivers, takes on or overhears a packet,
and when it sends one of its own; the other exits of the pipeline record
nothing and do not ask. The cache is a bounded recency log
(Proofs/DedupCache.lean), and along a run with a clock that never goes
back an id stays in it until `capacity` others have been recorded or a
sweep finds the recording older than the age limit
(`held_run`). A packet is accepted only when its id is not in the cache,
so that bounds when an id can be accepted again (`duplicate_window`).
-/
import Joker.Proofs.DedupCache
import Joker.Proofs.Suppression
import Mathlib.Data.Finset.Option

namespace Joker

open Transition DedupCache VectorHeap

variable {H : WheelHeap ForwardCallback}

-- ========================================================== what is recorded

/-- The clock reading of an event. -/
def NodeEvent.time : NodeEvent → TimePoint
  | .receive now _ _ => now
  | .tick now => now
  | .own_send now _ => now
  | .evict now => now

/-- The id of the packet the event delivers locally, hands to the
coordinator or counts as overheard. -/
def accepted_by (local_mac : MacAddress) (config : Config)
    (s : TimerNode H) : NodeEvent → Option PacketId
  | .receive _ frame is_candidate =>
      (verdict frame local_mac is_candidate config s.dedup).recorded
  | _ => none

/-- The id the event inserts into the cache. -/
def inserted_by (local_mac : MacAddress) (config : Config)
    (s : TimerNode H) : NodeEvent → Option PacketId
  | .own_send _ packet_id => some packet_id
  | ev => accepted_by local_mac config s ev

/-- The ids accepted along a run, in order. -/
def accepted (local_mac : MacAddress) (config : Config) :
    TimerNode H → List NodeEvent → List PacketId
  | _, [] => []
  | s, ev :: es =>
      (accepted_by local_mac config s ev).toList
        ++ accepted local_mac config (s.step local_mac config ev) es

/-- The ids inserted along a run. -/
def inserted (local_mac : MacAddress) (config : Config) :
    TimerNode H → List NodeEvent → Finset PacketId
  | _, [] => ∅
  | s, ev :: es =>
      (inserted_by local_mac config s ev).toFinset
        ∪ inserted local_mac config (s.step local_mac config ev) es

/-- A received frame is accepted when it moves one of the three
counters: delivered, handed over, overheard. -/
theorem accepted_by_iff_counters (local_mac : MacAddress) (config : Config)
    (s : TimerNode H) (now : TimePoint) (frame : Bytes)
    (is_candidate : Bool) :
    accepted_by local_mac config s (.receive now frame is_candidate) ≠ none
      ↔ ∃ n ∈ [Counter.packets_delivered_lucky_or_direct,
          .candidate_packets_received, .overheard_packets_not_candidate],
        (s.step local_mac config (.receive now frame is_candidate)
          ).metrics.GetCounter n ≠ s.metrics.GetCounter n := by
  have hcounters := GetCounter_process_ne_iff frame local_mac is_candidate
    config now s
  show (verdict frame local_mac is_candidate config s.dedup).recorded ≠ none
    ↔ ∃ n ∈ _, (process_received_frame frame local_mac is_candidate config now
      s).metrics.GetCounter n ≠ _
  simp only [hcounters]
  generalize verdict frame local_mac is_candidate config s.dedup = v
  cases v <;> simp [Verdict.recorded, Verdict.counters]

-- ======================================================== what is remembered

/-- The cache after an event. -/
theorem TimerNode.step_dedup (local_mac : MacAddress) (config : Config)
    (s : TimerNode H) (ev : NodeEvent) :
    (s.step local_mac config ev).dedup
      = match ev with
        | .evict now => s.dedup.EvictExpired now
        | ev => s.dedup.record (inserted_by local_mac config s ev) ev.time := by
  cases ev with
  | receive now frame is_candidate =>
      rw [TimerNode.step_receive]
      rfl
  | tick now => exact TimerNode.tick_dedup now s
  | own_send now packet_id => rfl
  | evict now => rfl

variable {capacity : Nat}

/-- The cache remembers `p`, last recorded at `t₀` or later, and whatever
was recorded after it is among `others`. -/
def Remembers (capacity : Nat) (s : TimerNode H) (p : PacketId)
    (t₀ : TimePoint) (others : Finset PacketId) : Prop :=
  ∃ r : Recency PacketId TimePoint capacity, Represents s.dedup r
    ∧ r.HeldSince p t₀ others

/-- Recording an id: `p` is remembered still, or pushed out by
`capacity` others. -/
theorem Remembers.record {s s' : TimerNode H} {p q : PacketId}
    {t₀ now : TimePoint} {others : Finset PacketId} (hc : 0 < capacity)
    (h : Remembers capacity s p t₀ others) (hnow : t₀ ≤ now)
    (hs : s'.dedup = s.dedup.Insert q now) :
    Remembers capacity s' p t₀ (insert q others)
      ∨ capacity ≤ ((insert q others).erase p).card := by
  obtain ⟨r, hr, hheld⟩ := h
  have hr' : Represents s'.dedup (r.touch hc q now) := by
    rw [hs]
    exact hr.insert hc q now
  by_cases hq : q = p
  · subst hq
    exact Or.inl ⟨_, hr', Recency.heldSince_touch_self hc r q hnow _⟩
  · rcases hheld.touch hc hq now with hheld | hfull
    · exact Or.inl ⟨_, hr', hheld⟩
    · exact Or.inr hfull

/-- Sweeping: `p` is remembered still, or its recording is too old. -/
theorem Remembers.evict {s s' : TimerNode H} {p : PacketId}
    {t₀ now : TimePoint} {others : Finset PacketId}
    (h : Remembers capacity s p t₀ others)
    (hs : s'.dedup = s.dedup.EvictExpired now) :
    Remembers capacity s' p t₀ others ∨ now - t₀ > s.dedup.ttl := by
  obtain ⟨r, hr, hheld⟩ := h
  rcases hheld.sweep fun t => decide (now - t > s.dedup.ttl) with hheld | hold
  · refine Or.inl ⟨_, ?_, hheld⟩
    rw [hs]
    exact hr.evict now
  · obtain ⟨t, ht, hstale⟩ := hold
    refine Or.inr (lt_of_lt_of_le (of_decide_eq_true hstale) ?_)
    exact Int.sub_le_sub_left ht now

/-- No event changes the age limit. -/
theorem TimerNode.step_ttl (local_mac : MacAddress) (config : Config)
    (s : TimerNode H) (ev : NodeEvent) :
    (s.step local_mac config ev).dedup.ttl = s.dedup.ttl := by
  rw [TimerNode.step_dedup]
  split
  · exact EvictExpired_ttl _ _
  · unfold DedupCache.record
    split
    · exact Insert_ttl _ _ _
    · rfl

/-- One event at or after `t₀`. -/
theorem Remembers.step {s : TimerNode H} {p : PacketId} {t₀ : TimePoint}
    {others : Finset PacketId} (hc : 0 < capacity)
    (h : Remembers capacity s p t₀ others) (local_mac : MacAddress)
    (config : Config) (ev : NodeEvent) (hev : t₀ ≤ ev.time) :
    Remembers capacity (s.step local_mac config ev) p t₀
        (others ∪ (inserted_by local_mac config s ev).toFinset)
      ∨ capacity ≤ ((others
          ∪ (inserted_by local_mac config s ev).toFinset).erase p).card
      ∨ ∃ now, ev = .evict now ∧ now - t₀ > s.dedup.ttl := by
  have hdedup := TimerNode.step_dedup local_mac config s ev
  by_cases hevict : ∃ now, ev = .evict now
  · obtain ⟨now, rfl⟩ := hevict
    have hnone : others ∪ (inserted_by local_mac config s
        (.evict now)).toFinset = others := Finset.union_empty others
    rw [hnone]
    rcases h.evict hdedup with h | hold
    · exact Or.inl h
    · exact Or.inr (Or.inr ⟨now, rfl, hold⟩)
  · have hrecord : (s.step local_mac config ev).dedup
        = s.dedup.record (inserted_by local_mac config s ev) ev.time := by
      rw [hdedup]
      split
      · next now => exact absurd ⟨now, rfl⟩ hevict
      · rfl
    cases hins : inserted_by local_mac config s ev with
    | none =>
        rw [hins] at hrecord
        obtain ⟨r, hr, hheld⟩ := h
        refine Or.inl ⟨r, ?_, ?_⟩
        · rw [hrecord]
          exact hr
        · rw [Option.toFinset_none, Finset.union_empty]
          exact hheld
    | some q =>
        rw [hins] at hrecord
        rw [Option.toFinset_some, Finset.union_comm, ← Finset.insert_eq]
        rcases h.record hc hev hrecord with h | hfull
        · exact Or.inl h
        · exact Or.inr (Or.inl hfull)

/-- Along a run at or after `t₀`, `p` is remembered until `capacity`
others have been recorded or a sweep finds `t₀` too old. -/
theorem held_run (local_mac : MacAddress) (config : Config)
    (hc : 0 < capacity) (p : PacketId) (t₀ : TimePoint) :
    ∀ (es : List NodeEvent) (s : TimerNode H) (others : Finset PacketId),
      Remembers capacity s p t₀ others → (∀ ev ∈ es, t₀ ≤ ev.time) →
      Remembers capacity (exec (TimerNode.step local_mac config) s es) p t₀
          (others ∪ inserted local_mac config s es)
        ∨ capacity ≤ ((others ∪ inserted local_mac config s es).erase p).card
        ∨ ∃ now, NodeEvent.evict now ∈ es ∧ now - t₀ > s.dedup.ttl := by
  intro es
  induction es with
  | nil =>
      intro s others h _
      refine Or.inl ?_
      show Remembers capacity s p t₀ (others ∪ ∅)
      rw [Finset.union_empty]
      exact h
  | cons ev es ih =>
      intro s others h htimes
      have hrest := fun ev' hev' => htimes ev' (List.mem_cons_of_mem ev hev')
      have hunion : others ∪ inserted local_mac config s (ev :: es)
          = (others ∪ (inserted_by local_mac config s ev).toFinset)
            ∪ inserted local_mac config (s.step local_mac config ev) es :=
        (Finset.union_assoc _ _ _).symm
      rw [hunion, exec_cons]
      rcases h.step hc local_mac config ev (htimes ev List.mem_cons_self) with
        h' | hfull | ⟨now, rfl, hold⟩
      · have hrun := ih _ _ h' hrest
        rw [TimerNode.step_ttl] at hrun
        rcases hrun with h'' | hfull | ⟨now, hmem, hold⟩
        · exact Or.inl h''
        · exact Or.inr (Or.inl hfull)
        · exact Or.inr (Or.inr ⟨now, List.mem_cons_of_mem _ hmem, hold⟩)
      · refine Or.inr (Or.inl (hfull.trans (Finset.card_le_card ?_)))
        exact Finset.erase_subset_erase p Finset.subset_union_left
      · exact Or.inr (Or.inr ⟨now, List.mem_cons_self, hold⟩)

-- ============================================================== the window

/-- The cache of a node represents a log, all through a run. -/
theorem TimerNode.run_represents (local_mac : MacAddress) (config : Config)
    (hc : 0 < capacity) (ttl : TimePoint) (es : List NodeEvent) :
    ∃ r : Recency PacketId TimePoint capacity, Represents
      (TimerNode.run H local_mac config capacity ttl es).dedup r := by
  refine exec_invariant (fun s : TimerNode H =>
    ∃ r : Recency PacketId TimePoint capacity, Represents s.dedup r)
    ?_ es ⟨_, represents_empty capacity ttl⟩
  rintro s ev ⟨r, hr⟩
  rw [TimerNode.step_dedup]
  split
  · exact ⟨_, hr.evict _⟩
  · unfold DedupCache.record
    split
    · exact ⟨_, hr.insert hc _ _⟩
    · exact ⟨r, hr⟩

/-- The age limit of a node is the one it started with. -/
theorem TimerNode.run_ttl (local_mac : MacAddress) (config : Config)
    (ttl : TimePoint) (es : List NodeEvent) :
    (TimerNode.run H local_mac config capacity ttl es).dedup.ttl = ttl :=
  exec_invariant (fun s : TimerNode H => s.dedup.ttl = ttl)
    (fun s ev h => (TimerNode.step_ttl local_mac config s ev).trans h) es rfl

/-- A run, continued after one of its events. -/
theorem TimerNode.run_after (local_mac : MacAddress) (config : Config)
    (ttl : TimePoint) (es : List NodeEvent) (ev : NodeEvent)
    (as : List NodeEvent) :
    TimerNode.run H local_mac config capacity ttl (es ++ ev :: as)
      = exec (TimerNode.step local_mac config)
        (TimerNode.run H local_mac config capacity ttl (es ++ [ev])) as := by
  unfold TimerNode.run
  rw [← exec_append, List.append_assoc]
  rfl

/-- Recording an id starts a memory of it. -/
theorem remembers_of_inserted {s : TimerNode H} {p : PacketId}
    (hc : 0 < capacity) {r : Recency PacketId TimePoint capacity}
    (hr : Represents s.dedup r) {local_mac : MacAddress} {config : Config}
    {ev : NodeEvent} (h : inserted_by local_mac config s ev = some p) :
    Remembers capacity (s.step local_mac config ev) p ev.time ∅ := by
  refine ⟨r.touch hc p ev.time, ?_,
    Recency.heldSince_touch_self hc r p (le_refl _) _⟩
  have hdedup := TimerNode.step_dedup local_mac config s ev
  cases ev with
  | evict now => cases h
  | _ =>
      rw [hdedup]
      dsimp only
      rw [h]
      exact hr.insert hc p _

/-- What is accepted is not in the cache. -/
theorem not_accepted_of_remembered {s : TimerNode H} {p : PacketId}
    {t₀ : TimePoint} {others : Finset PacketId}
    (h : Remembers capacity s p t₀ others) {local_mac : MacAddress}
    {config : Config} {ev : NodeEvent} :
    accepted_by local_mac config s ev ≠ some p := by
  intro hacc
  obtain ⟨r, hr, hheld⟩ := h
  cases ev with
  | receive now frame is_candidate =>
      obtain ⟨header, consumed, -, -, hfresh⟩ := recorded_eq_some hacc
      rw [(hr.contains_iff p).mpr hheld.mem] at hfresh
      cases hfresh
  | _ => cases hacc

/-- An id accepted along a run is accepted at some event of it. -/
theorem exists_of_accepted {local_mac : MacAddress} {config : Config}
    {p : PacketId} :
    ∀ (es : List NodeEvent) (s : TimerNode H),
      p ∈ accepted local_mac config s es →
      ∃ as ev bs, es = as ++ ev :: bs ∧ accepted_by local_mac config
        (exec (TimerNode.step local_mac config) s as) ev = some p := by
  intro es
  induction es with
  | nil => intro s h; exact absurd h List.not_mem_nil
  | cons ev es ih =>
      intro s h
      rcases List.mem_append.mp h with h | h
      · exact ⟨[], ev, es, rfl, Option.mem_toList.mp h⟩
      · obtain ⟨as, ev', bs, rfl, hacc⟩ := ih _ h
        exact ⟨ev :: as, ev', bs, rfl, hacc⟩

/-- The ids inserted by part of a run are among those of the whole. -/
theorem inserted_append_subset {local_mac : MacAddress} {config : Config} :
    ∀ (as bs : List NodeEvent) (s : TimerNode H),
      inserted local_mac config s as
        ⊆ inserted local_mac config s (as ++ bs) := by
  intro as
  induction as with
  | nil => intro bs s; exact Finset.empty_subset _
  | cons ev as ih =>
      intro bs s
      exact Finset.union_subset_union_right (ih bs _)

/-- Between the recording of an id and the next time a packet with the
id is accepted, `capacity` other ids have been recorded or a sweep has
found the recording older than the age limit; so while neither has
happened, no packet with the id is accepted. -/
theorem duplicate_window (local_mac : MacAddress) (config : Config)
    (ttl : TimePoint) (hc : 0 < capacity) {es₁ es₂ : List NodeEvent}
    {ev₀ : NodeEvent} {p : PacketId}
    (hclock : (es₁ ++ ev₀ :: es₂).Pairwise fun a b => a.time ≤ b.time)
    (hins : inserted_by local_mac config
      (TimerNode.run H local_mac config capacity ttl es₁) ev₀ = some p) :
    (∀ as ev₁ bs, es₂ = as ++ ev₁ :: bs →
      accepted_by local_mac config (TimerNode.run H local_mac config capacity
        ttl (es₁ ++ ev₀ :: as)) ev₁ = some p →
      capacity ≤ ((inserted local_mac config (TimerNode.run H local_mac config
          capacity ttl (es₁ ++ [ev₀])) as).erase p).card
        ∨ ∃ now, NodeEvent.evict now ∈ as ∧ now - ev₀.time > ttl)
    ∧ (((inserted local_mac config (TimerNode.run H local_mac config capacity
          ttl (es₁ ++ [ev₀])) es₂).erase p).card < capacity →
      (∀ now, NodeEvent.evict now ∈ es₂ → now - ev₀.time ≤ ttl) →
      p ∉ accepted local_mac config (TimerNode.run H local_mac config capacity
        ttl (es₁ ++ [ev₀])) es₂) := by
  obtain ⟨r, hr⟩ :=
    TimerNode.run_represents (H := H) local_mac config hc ttl es₁
  have hstart := remembers_of_inserted hc hr hins
  have hs₁ : TimerNode.run H local_mac config capacity ttl (es₁ ++ [ev₀])
      = (TimerNode.run H local_mac config capacity ttl es₁).step local_mac
        config ev₀ := exec_concat _ _ _ _
  have httl : (TimerNode.run H local_mac config capacity ttl
      (es₁ ++ [ev₀])).dedup.ttl = ttl :=
    TimerNode.run_ttl local_mac config ttl (es₁ ++ [ev₀])
  rw [← hs₁] at hstart
  have htimes : ∀ ev ∈ es₂, ev₀.time ≤ ev.time :=
    (List.pairwise_cons.mp (List.pairwise_append.mp hclock).2.1).1
  have hfirst : ∀ as ev₁ bs, es₂ = as ++ ev₁ :: bs →
      accepted_by local_mac config (TimerNode.run H local_mac config capacity
        ttl (es₁ ++ ev₀ :: as)) ev₁ = some p →
      capacity ≤ ((inserted local_mac config (TimerNode.run H local_mac config
          capacity ttl (es₁ ++ [ev₀])) as).erase p).card
        ∨ ∃ now, NodeEvent.evict now ∈ as ∧ now - ev₀.time > ttl := by
    intro as ev₁ bs hes hacc
    have hheld := held_run local_mac config hc p ev₀.time as _ ∅ hstart
      fun ev hev => htimes ev (hes ▸ List.mem_append_left _ hev)
    rw [Finset.empty_union, httl] at hheld
    rcases hheld with hrem | hdone
    · rw [TimerNode.run_after] at hacc
      exact absurd hacc (not_accepted_of_remembered hrem)
    · exact hdone
  refine ⟨hfirst, ?_⟩
  intro hroom hfresh hmem
  obtain ⟨as, ev₁, bs, rfl, hacc⟩ := exists_of_accepted es₂ _ hmem
  rw [← TimerNode.run_after] at hacc
  rcases hfirst as ev₁ bs rfl hacc with hfull | ⟨now, hev, hold⟩
  · refine absurd hroom (not_lt.mpr (hfull.trans (Finset.card_le_card ?_)))
    exact Finset.erase_subset_erase p (inserted_append_subset as _ _)
  · exact absurd hold (not_lt.mpr (hfresh now (List.mem_append_left _ hev)))

/-- A node with a cache of two entries sends packet 7 itself; after one
other packet and an early sweep an echo of it is not accepted. -/
theorem duplicate_window_own_send :
    7 ∉ accepted (station 1) {} (TimerNode.run (sortedHeap _) (station 1) {} 2
      1000 ([] ++ [.own_send 0 7]))
      [.receive 1 (sample_frame 8 5) true, .evict 900,
        .receive 901 (sample_frame 7 5) true] := by
  refine (duplicate_window (station 1) {} 1000 (by decide) (by decide)
    rfl).2 (by decide) ?_
  intro now hmem
  have hnow : now = 900 := by simpa using hmem
  rw [hnow]
  decide

end Joker
