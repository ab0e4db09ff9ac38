/-
Which candidates are selected, and in which order.

The comparator of the sort is the order of one key, link quality
downwards and then address upwards (`ranks_before_iff`), and addresses in
a table are distinct: so the sorted list depends on the neighbours that
are scored and not on the order they come in (`ranked_eq_of_perm`). What
`select_candidates` returns is a prefix of it, numbered from one
(`select_candidates_eq`).

In a run of discovery the neighbours scored at `now` are those whose last
message is at most `neighbor_expiry_ms` old, each scored from that
message, and sweeps change nothing (`discovered_candidates`).
-/
import Joker.Model.Candidate
import Joker.Proofs.Neighbor
import Mathlib.Data.List.Lex
import Mathlib.Data.Prod.Lex
import Mathlib.Algebra.Order.Ring.Unbundled.Rat

namespace Joker

open NeighborTable

-- ============================================================== the order

/-- What candidates are ordered by. -/
def rank (c : Candidate) : ℚᵒᵈ ×ₗ List Nat :=
  toLex (OrderDual.toDual c.lq, c.mac.bytes.map UInt8.toNat)

/-- An address is its byte values. -/
theorem mac_eq_of_toNat_eq {m n : MacAddress}
    (h : m.bytes.map UInt8.toNat = n.bytes.map UInt8.toNat) : m = n :=
  MacAddress.ext_bytes
    ((List.map_injective_iff.mpr fun _ _ heq => UInt8.toNat_inj.mp heq) h)

/-- The comparator compares ranks. -/
theorem ranks_before_iff (a b : Candidate) :
    ranks_before a b = true ↔ rank a < rank b := by
  unfold ranks_before rank
  rw [Prod.Lex.toLex_lt_toLex]
  by_cases hlq : a.lq = b.lq
  · simp only [hlq, ne_eq, not_true_eq_false, if_false, decide_eq_true_eq,
      lt_self_iff_false, false_or, true_and]
    exact Iff.rfl
  · simp only [ne_eq, hlq, not_false_eq_true, if_true, decide_eq_true_eq,
      OrderDual.toDual_lt_toDual, gt_iff_lt]
    refine ⟨Or.inl, fun h => h.resolve_right fun hall => hlq ?_⟩
    exact OrderDual.toDual_inj.mp hall.1

/-- The order `scored` is sorted in. -/
def ranks_le (a b : Candidate) : Prop := ranks_before b a = false

instance : DecidableRel ranks_le :=
  fun a b => inferInstanceAs (Decidable (ranks_before b a = false))

theorem ranks_le_iff (a b : Candidate) : ranks_le a b ↔ rank a ≤ rank b := by
  unfold ranks_le
  rw [← not_lt, ← ranks_before_iff, Bool.not_eq_true]

instance : Std.Total ranks_le :=
  ⟨fun a b => by
    rw [ranks_le_iff, ranks_le_iff]
    exact le_total _ _⟩

instance : IsTrans Candidate ranks_le :=
  ⟨fun a b c hab hbc => by
    rw [ranks_le_iff] at hab hbc ⊢
    exact le_trans hab hbc⟩

/-- Candidates of one rank have one address. -/
theorem mac_eq_of_ranks_le {a b : Candidate} (hab : ranks_le a b)
    (hba : ranks_le b a) : a.mac = b.mac := by
  rw [ranks_le_iff] at hab hba
  have heq : rank a = rank b := le_antisymm hab hba
  unfold rank at heq
  have hpair := Prod.mk.inj (toLex_inj.mp heq)
  exact mac_eq_of_toNat_eq hpair.2

/-- Candidates with distinct addresses have one ranking. -/
theorem ranked_eq_of_perm {l l' : List Candidate} (h : l.Perm l')
    (hnd : (l.map Candidate.mac).Nodup) :
    l.insertionSort ranks_le = l'.insertionSort ranks_le := by
  have hperm := (List.perm_insertionSort ranks_le l).trans
    (h.trans (List.perm_insertionSort ranks_le l').symm)
  have hsame : ∀ a b, a ∈ l.insertionSort ranks_le →
      b ∈ l'.insertionSort ranks_le → ranks_le a b → ranks_le b a → a = b := ?_
  · exact hperm.eq_of_pairwise hsame (List.pairwise_insertionSort ranks_le l)
      (List.pairwise_insertionSort ranks_le l')
  intro a b ha hb hab hba
  have hmem : ∀ {c}, c ∈ l'.insertionSort ranks_le → c ∈ l := fun hc =>
    h.mem_iff.mpr ((List.perm_insertionSort ranks_le l').mem_iff.mp hc)
  exact List.inj_on_of_nodup_map hnd
    ((List.perm_insertionSort ranks_le l).mem_iff.mp ha) (hmem hb)
    (mac_eq_of_ranks_le hab hba)

-- ============================================================ the selection

/-- The candidates scored at `now`. -/
def scored_at (t : NeighborTable) (config : SelectionConfig)
    (now : TimePoint) : List Candidate :=
  score_neighbors config (t.AllFresh now config.expiry)

/-- What is returned: the best of the scored, numbered from one. -/
theorem select_candidates_eq (destination : MacAddress) (t : NeighborTable)
    (candidate_count : UInt8) (config : SelectionConfig) (now : TimePoint) :
    select_candidates destination t candidate_count config now
      = (((scored_at t config now).insertionSort ranks_le).take
          candidate_count.toNat).mapIdx
        fun i c => { c with priority := UInt8.ofNat (i + 1) } := by
  unfold select_candidates
  dsimp only
  congr 1
  split
  · rfl
  · next h => exact (List.take_of_length_le (Nat.not_lt.mp h)).symm

/-- A scored candidate is that of a fresh neighbour with a route. -/
theorem mem_score_neighbors_iff (config : SelectionConfig)
    (fresh : List NeighborEntry) (c : Candidate) :
    c ∈ score_neighbors config fresh
      ↔ ∃ n ∈ fresh, n.reachable_to_dest = true ∧ score config n = c := by
  unfold score_neighbors
  rw [List.mem_filterMap]
  refine exists_congr fun n => and_congr_right fun _ => ?_
  cases n.reachable_to_dest <;> simp

/-- Scoring changes no address. -/
theorem score_neighbors_macs_sublist (config : SelectionConfig)
    (fresh : List NeighborEntry) :
    ((score_neighbors config fresh).map Candidate.mac).Sublist
      (fresh.map NeighborEntry.mac) := by
  induction fresh with
  | nil => exact List.Sublist.refl _
  | cons n fresh ih =>
      unfold score_neighbors at ih ⊢
      rw [List.filterMap_cons, List.map_cons]
      cases n.reachable_to_dest with
      | true => exact ih.cons_cons _
      | false => exact ih.cons _

/-- Scored candidates have distinct addresses. -/
theorem scored_macs_nodup {t : NeighborTable} (h : Keyed t)
    (config : SelectionConfig) (now : TimePoint) :
    ((scored_at t config now).map Candidate.mac).Nodup :=
  (allFresh_macs_nodup h now config.expiry).sublist
    (score_neighbors_macs_sublist config _)

variable {destination : MacAddress} {t : NeighborTable}
  {candidate_count : UInt8} {config : SelectionConfig} {now : TimePoint}

/-- The addresses selected, in order. -/
theorem select_macs_eq :
    (select_candidates destination t candidate_count config now).map
        Candidate.mac
      = (((scored_at t config now).insertionSort ranks_le).take
          candidate_count.toNat).map Candidate.mac := by
  rw [select_candidates_eq]
  refine List.ext_getElem? fun i => ?_
  rw [List.getElem?_map, List.getElem?_mapIdx, List.getElem?_map,
    Option.map_map]
  rfl

/-- Selected candidates have distinct addresses. -/
theorem select_macs_nodup (h : Keyed t) :
    ((select_candidates destination t candidate_count config now).map
      Candidate.mac).Nodup := by
  rw [select_macs_eq]
  have hperm := (List.perm_insertionSort ranks_le (scored_at t config now)).map
    Candidate.mac
  have hnd := hperm.nodup_iff.mpr (scored_macs_nodup h config now)
  exact hnd.sublist ((List.take_sublist _ _).map _)

/-- There are no more than asked for. -/
theorem select_length_le :
    (select_candidates destination t candidate_count config now).length
      ≤ candidate_count.toNat := by
  rw [select_candidates_eq, List.length_mapIdx]
  exact List.length_take_le _ _

/-- The candidate at index `i` has priority `i + 1`. -/
theorem select_priority {i : Nat} {c : Candidate}
    (hc : (select_candidates destination t candidate_count config now)[i]?
      = some c) : c.priority.toNat = i + 1 := by
  have hlen : i < candidate_count.toNat :=
    lt_of_lt_of_le (List.getElem?_eq_some_iff.mp hc).1 select_length_le
  rw [select_candidates_eq, List.getElem?_mapIdx,
    Option.map_eq_some_iff] at hc
  obtain ⟨c', -, rfl⟩ := hc
  have hmax := candidate_count.toNat_lt
  exact Nat.mod_eq_of_lt (by omega)

/-- A selected candidate has the address and quality of a scored one. -/
theorem scored_of_select {c : Candidate}
    (hc : c ∈ select_candidates destination t candidate_count config now) :
    ∃ c' ∈ scored_at t config now, c'.mac = c.mac ∧ c'.lq = c.lq := by
  rw [select_candidates_eq] at hc
  obtain ⟨i, hi, rfl⟩ := List.mem_mapIdx.mp hc
  have hmem := List.mem_of_mem_take (List.getElem_mem hi)
  exact ⟨_, (List.perm_insertionSort ranks_le _).mem_iff.mp hmem, rfl, rfl⟩

-- ====================================================== runs of discovery

/-- The fresh rows of a run of discovery depend on the messages alone. -/
theorem allFresh_perm_of_ogms (config : SelectionConfig)
    {es es' : List DiscoveryEvent} (hes : SweptBy now es)
    (hes' : SweptBy now es') (h : ogms es' = ogms es) :
    ((discovered config es).AllFresh now config.expiry).Perm
      ((discovered config es').AllFresh now config.expiry) := by
  have hnd := fun es => (allFresh_macs_nodup (keyed_discovered config es) now
    config.expiry).of_map _
  refine (List.perm_ext_iff_of_nodup (hnd es) (hnd es')).mpr fun e => ?_
  rw [mem_discovered_fresh_iff config hes, mem_discovered_fresh_iff config hes']
  unfold last_ogm
  rw [h]

/-- The link quality of a neighbour that reports `tq_reported` and is
received with `rx_power_dbm`: full local quality, no asymmetry and no hop
penalty. -/
def reported_lq (config : SelectionConfig) (tq_reported : UInt8)
    (rx_power_dbm : Rat) : Rat :=
  calculate_joker_lq (calculate_tq 255 tq_reported 1 1 config.tq_max)
    (distance_penalty
      (calculate_fade_margin rx_power_dbm config.sensitivity_dbm))
    config.tq_max

/-- In every run of `ogm_process` and sweeps: the neighbours scored at
`now` are the originators whose last message is at most
`neighbor_expiry_ms` old, each once and by the quality that message
reported and the power it was received with; only they are selected; and
runs with the same messages, however swept, select the same candidates. -/
theorem discovered_candidates (config : SelectionConfig) (now : TimePoint)
    (es : List DiscoveryEvent) (hes : ∀ t, .ExpireStale t ∈ es → t ≤ now) :
    (∀ c, c ∈ scored_at (discovered config es) config now
      ↔ ∃ t ogm rx_power_dbm,
        last_ogm c.mac es = some (t, ogm, rx_power_dbm)
          ∧ now - t ≤ milliseconds config.neighbor_expiry_ms.toNat
          ∧ c.lq = reported_lq config ogm.tq_reported rx_power_dbm
          ∧ c.priority = 0)
    ∧ ((scored_at (discovered config es) config now).map Candidate.mac).Nodup
    ∧ (∀ destination candidate_count,
        ∀ c ∈ select_candidates destination (discovered config es)
          candidate_count config now,
        ∃ t ogm rx_power_dbm, last_ogm c.mac es = some (t, ogm, rx_power_dbm)
          ∧ now - t ≤ milliseconds config.neighbor_expiry_ms.toNat
          ∧ c.lq = reported_lq config ogm.tq_reported rx_power_dbm)
    ∧ ∀ es', ogms es' = ogms es → (∀ t, .ExpireStale t ∈ es' → t ≤ now) →
        ∀ destination candidate_count,
        select_candidates destination (discovered config es') candidate_count
            config now
          = select_candidates destination (discovered config es)
            candidate_count config now := by
  have hkeyed := keyed_discovered config es
  have hscored : ∀ c, c ∈ scored_at (discovered config es) config now
      ↔ ∃ t ogm rx_power_dbm,
        last_ogm c.mac es = some (t, ogm, rx_power_dbm)
          ∧ now - t ≤ milliseconds config.neighbor_expiry_ms.toNat
          ∧ c.lq = reported_lq config ogm.tq_reported rx_power_dbm
          ∧ c.priority = 0 := by
    intro c
    unfold scored_at
    rw [mem_score_neighbors_iff]
    constructor
    · intro hall
      obtain ⟨n, hn, -, rfl⟩ := hall
      obtain ⟨t, ogm, rx, hlast, hage, heq⟩ :=
        (mem_discovered_fresh_iff config hes n).mp hn
      refine ⟨t, ogm, rx, hlast, hage, ?_, rfl⟩
      rw [heq]
      rfl
    · intro hall
      obtain ⟨t, ogm, rx, hlast, hage, hlq, hpriority⟩ := hall
      refine ⟨reported_row c.mac t ogm.tq_reported rx,
        (mem_discovered_fresh_iff config hes _).mpr
          ⟨t, ogm, rx, hlast, hage, rfl⟩, rfl, ?_⟩
      obtain ⟨mac, lq, priority⟩ := c
      obtain rfl : lq = _ := hlq
      obtain rfl : priority = 0 := hpriority
      rfl
  refine ⟨hscored, scored_macs_nodup hkeyed config now, ?_, ?_⟩
  · intro destination candidate_count c hc
    obtain ⟨c', hc', hmac, hlq⟩ := scored_of_select hc
    obtain ⟨t, ogm, rx, hlast, hage, heq, -⟩ := (hscored c').mp hc'
    exact ⟨t, ogm, rx, hmac ▸ hlast, hage, hlq.symm.trans heq⟩
  · intro es' h hes' destination candidate_count
    have hperm := (allFresh_perm_of_ogms config hes hes' h).filterMap
      fun n => if !n.reachable_to_dest then none else some (score config n)
    rw [select_candidates_eq, select_candidates_eq]
    unfold scored_at score_neighbors
    rw [ranked_eq_of_perm hperm (scored_macs_nodup hkeyed config now)]

/-- The addresses of two originators. -/
def first_originator : MacAddress := ⟨[2, 0, 0, 0, 1, 1], rfl⟩

def second_originator : MacAddress := ⟨[2, 0, 0, 0, 1, 2], rfl⟩

/-- One message each at clock readings zero and five seconds. -/
def two_ogms : List DiscoveryEvent :=
  [.ogm_process 0 (ogm_build first_originator 1 8) (-50),
    .ogm_process (milliseconds 5000) (ogm_build second_originator 1 8) (-50)]

/-- Seven seconds in, swept or not, the second originator alone is
selected. -/
theorem discovered_candidates_swept :
    select_candidates .zero (discovered {} two_ogms) 2 {} (milliseconds 7000)
      = select_candidates .zero
        (discovered {} (two_ogms ++ [.ExpireStale (milliseconds 6500)])) 2 {}
        (milliseconds 7000)
    ∧ (select_candidates .zero (discovered {} two_ogms) 2 {}
        (milliseconds 7000)).map Candidate.mac = [second_originator] := by
  have hes : ∀ t, DiscoveryEvent.ExpireStale t
      ∈ two_ogms ++ [.ExpireStale (milliseconds 6500)]
      → t ≤ milliseconds 7000 := by
    intro t ht
    simp only [two_ogms, List.cons_append, List.nil_append, List.mem_cons,
      reduceCtorEq, DiscoveryEvent.ExpireStale.injEq, List.not_mem_nil,
      or_false, false_or] at ht
    rw [ht]
    decide
  have hnone : ∀ t, DiscoveryEvent.ExpireStale t ∈ two_ogms
      → t ≤ milliseconds 7000 := by
    intro t ht
    exact hes t (List.mem_append_left _ ht)
  exact ⟨(discovered_candidates {} _ _ hes).2.2.2 two_ogms rfl hnone .zero 2,
    by decide +kernel⟩

end Joker
