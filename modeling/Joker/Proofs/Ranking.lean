/-
The ranking specification of candidate selection.

An eligible neighbour is a fresh one with a route. The eligible
neighbours of a table have one ranking, by link quality downwards and
then by address upwards (`ranking_exists`, `Ranking.unique`), and what
`select_candidates` returns is the beginning of it, numbered from one
(`select_eq_of_ranking`). Nothing about it depends on the order of the
table: eligibility is a matter of what a lookup finds.
-/
import Joker.Lib.Ranking
import Joker.Proofs.Candidate

namespace Joker

open NeighborTable

-- ===================================================== the specification

/-- A fresh neighbour with a route to the destination. -/
structure Eligible (t : NeighborTable) (config : SelectionConfig)
    (now : TimePoint) (n : NeighborEntry) : Prop where
  row : t.Lookup n.mac = some n
  fresh : n.IsStale now config.expiry = false
  reachable : n.reachable_to_dest = true

/-- The transmission quality of a neighbour. -/
def quality (config : SelectionConfig) (n : NeighborEntry) : UInt8 :=
  calculate_tq n.tq_local n.tq_recv n.f_asym n.hop_penalty config.tq_max

/-- What its distance costs a neighbour. -/
def penalty (config : SelectionConfig) (n : NeighborEntry) : UInt8 :=
  distance_penalty (calculate_fade_margin n.rx_power_dbm config.sensitivity_dbm)

/-- The link quality of a neighbour. -/
def link_quality (config : SelectionConfig) (n : NeighborEntry) : Rat :=
  calculate_joker_lq (quality config n) (penalty config n) config.tq_max

/-- Better link quality, or the same and a lower address. -/
def Outranks (config : SelectionConfig) (n m : NeighborEntry) : Prop :=
  link_quality config m < link_quality config n
    ∨ (link_quality config n = link_quality config m ∧ n.mac < m.mac)

/-- The neighbour as the candidate at index `i`. -/
def numbered (config : SelectionConfig) (i : Nat) (n : NeighborEntry) :
    Candidate :=
  ⟨n.mac, link_quality config n, UInt8.ofNat (i + 1)⟩

-- ============================================================== the order

variable {config : SelectionConfig}

theorem outranks_iff {n m : NeighborEntry} : Outranks config n m
    ↔ rank (score config n) < rank (score config m) := by
  rw [← ranks_before_iff]
  show _ ↔ (if link_quality config n ≠ link_quality config m then
    decide (link_quality config n > link_quality config m)
    else decide (n.mac < m.mac)) = true
  unfold Outranks
  by_cases hlq : link_quality config n = link_quality config m
  · simp [hlq]
  · simp [hlq]

instance : Std.Asymm (Outranks config) :=
  ⟨fun n m h h' => by
    rw [outranks_iff] at h h'
    exact lt_asymm h h'⟩

instance : Std.Total fun n m : NeighborEntry =>
    ranks_le (score config n) (score config m) :=
  ⟨fun n m => by
    rw [ranks_le_iff, ranks_le_iff]
    exact le_total _ _⟩

instance : IsTrans NeighborEntry fun n m =>
    ranks_le (score config n) (score config m) :=
  ⟨fun n m k h h' => by
    rw [ranks_le_iff] at h h' ⊢
    exact le_trans h h'⟩

/-- Who ranks at least as high and has another address ranks higher. -/
theorem outranks_of_le {n m : NeighborEntry}
    (h : ranks_le (score config n) (score config m)) (hne : n.mac ≠ m.mac) :
    Outranks config n m := by
  rw [outranks_iff]
  refine lt_of_le_of_ne ((ranks_le_iff _ _).mp h) fun heq => hne ?_
  exact mac_eq_of_ranks_le h ((ranks_le_iff _ _).mpr (le_of_eq heq.symm))

-- ============================================================ the ranking

variable {t : NeighborTable} {now : TimePoint} {ns : List NeighborEntry}

/-- The fresh neighbours with a route. -/
def routed (t : NeighborTable) (config : SelectionConfig) (now : TimePoint) :
    List NeighborEntry :=
  (t.AllFresh now config.expiry).filter NeighborEntry.reachable_to_dest

theorem mem_routed_iff (h : Keyed t) {n : NeighborEntry} :
    n ∈ routed t config now ↔ Eligible t config now n := by
  unfold routed
  rw [List.mem_filter, mem_allFresh_iff h]
  exact ⟨fun hn => ⟨hn.1.1, hn.1.2, hn.2⟩,
    fun hn => ⟨⟨hn.row, hn.fresh⟩, hn.reachable⟩⟩

theorem routed_macs_nodup (h : Keyed t) :
    ((routed t config now).map NeighborEntry.mac).Nodup :=
  (allFresh_macs_nodup h now config.expiry).sublist
    (List.filter_sublist.map _)

/-- They are what is scored. -/
theorem scored_at_eq :
    scored_at t config now = (routed t config now).map (score config) := by
  unfold scored_at score_neighbors routed
  induction t.AllFresh now config.expiry with
  | nil => rfl
  | cons n fresh ih => cases hn : n.reachable_to_dest <;> simpa [hn] using ih

/-- They have a ranking. -/
theorem ranking_exists (h : Keyed t) (config : SelectionConfig)
    (now : TimePoint) :
    ∃ ns, Ranking (Outranks config) (Eligible t config now) ns := by
  let le := fun n m : NeighborEntry =>
    ranks_le (score config n) (score config m)
  refine ⟨(routed t config now).insertionSort le, fun n => ?_, ?_⟩
  · rw [List.mem_insertionSort, mem_routed_iff h]
  · have hperm := (List.perm_insertionSort le (routed t config now)).map
      NeighborEntry.mac
    have hnd := List.pairwise_map.mp (hperm.nodup_iff.mpr (routed_macs_nodup h))
    exact ((List.pairwise_insertionSort le _).and hnd).imp
      fun hall => outranks_of_le hall.1 hall.2

/-- The scored candidates, sorted, are the ranking. -/
theorem sorted_eq_of_ranking (h : Keyed t)
    (hns : Ranking (Outranks config) (Eligible t config now) ns) :
    (scored_at t config now).insertionSort ranks_le
      = ns.map (score config) := by
  have hrouted : (routed t config now).Perm ns := by
    refine (List.perm_ext_iff_of_nodup ((routed_macs_nodup h).of_map _)
      hns.nodup).mpr fun n => ?_
    rw [mem_routed_iff h, hns.mem_iff]
  have hsorted : (ns.map (score config)).Pairwise ranks_le := by
    refine List.pairwise_map.mpr (hns.sorted.imp fun hnm => ?_)
    exact (ranks_le_iff _ _).mpr (le_of_lt (outranks_iff.mp hnm))
  rw [ranked_eq_of_perm (scored_at_eq ▸ hrouted.map (score config))
    (scored_macs_nodup h config now)]
  exact hsorted.insertionSort_eq

/-- What is selected is the beginning of the ranking, numbered. -/
theorem select_eq_of_ranking (h : Keyed t)
    (hns : Ranking (Outranks config) (Eligible t config now) ns)
    (destination : MacAddress) (candidate_count : UInt8) :
    select_candidates destination t candidate_count config now
      = (ns.take candidate_count.toNat).mapIdx (numbered config) := by
  rw [select_candidates_eq, sorted_eq_of_ranking h hns, ← List.map_take]
  refine List.ext_getElem? fun i => ?_
  rw [List.getElem?_mapIdx, List.getElem?_mapIdx, List.getElem?_map,
    Option.map_map]
  rfl

-- =========================================================== the selection

/-- Who is selected stands at the same index in the ranking. -/
theorem select_mac_at (h : Keyed t)
    (hns : Ranking (Outranks config) (Eligible t config now) ns)
    {destination : MacAddress} {candidate_count : UInt8} {i : Nat}
    {m : MacAddress} :
    ((select_candidates destination t candidate_count config now).map
        Candidate.mac)[i]? = some m
      ↔ i < candidate_count.toNat
        ∧ (ns.map NeighborEntry.mac)[i]? = some m := by
  rw [select_eq_of_ranking h hns, List.getElem?_map, List.getElem?_mapIdx,
    List.getElem?_take, List.getElem?_map]
  by_cases hi : i < candidate_count.toNat
  · rw [if_pos hi, Option.map_map]
    exact ⟨fun hm => ⟨hi, hm⟩, fun hm => hm.2⟩
  · simp [hi]

/-- The numbers run from one. -/
theorem select_priorities (h : Keyed t)
    (hns : Ranking (Outranks config) (Eligible t config now) ns)
    (destination : MacAddress) (candidate_count : UInt8) :
    (select_candidates destination t candidate_count config now).map
        (fun c => c.priority.toNat)
      = List.range' 1 (min candidate_count.toNat ns.length) := by
  rw [select_eq_of_ranking h hns]
  apply List.ext_getElem
  · simp
  · intro i hi hi'
    have hlen := candidate_count.toNat_lt
    simp only [List.length_range'] at hi'
    simp only [List.getElem_map, List.getElem_mapIdx, List.getElem_range',
      numbered, UInt8.toNat_ofNat']
    omega

/-- Equal rows give equal rankings, in whatever order a table holds them. -/
theorem eligible_of_perm {t' : NeighborTable}
    (h : t'.table.entries.Perm t.table.entries) :
    Eligible t' config now = Eligible t config now := by
  have hlook : ∀ m e, t'.Lookup m = some e ↔ t.Lookup m = some e := by
    intro m e
    rw [← mem_entries_iff, ← mem_entries_iff]
    exact h.mem_iff
  funext n
  exact propext ⟨fun hn => ⟨(hlook _ _).mp hn.row, hn.fresh, hn.reachable⟩,
    fun hn => ⟨(hlook _ _).mpr hn.row, hn.fresh, hn.reachable⟩⟩

theorem keyed_of_perm {t' : NeighborTable} (h : Keyed t)
    (hperm : t'.table.entries.Perm t.table.entries) : Keyed t' := by
  intro m e he
  apply h m e
  rw [← mem_entries_iff] at he ⊢
  exact hperm.mem_iff.mp he

/-- The eligible neighbours of a table have one ranking. What is selected
is the beginning of it, numbered from one; the addresses are distinct;
whoever is left out is ranked after whoever is selected; and a table with
the same rows in another order selects the same. -/
theorem selection_meets_ranking (calls : List TableCall)
    (config : SelectionConfig) (now : TimePoint) :
    ∃ ns, (∀ ns', Ranking (Outranks config)
        (Eligible (after calls) config now) ns' ↔ ns' = ns)
      ∧ ∀ (destination : MacAddress) (candidate_count : UInt8),
        select_candidates destination (after calls) candidate_count config now
          = (ns.take candidate_count.toNat).mapIdx (numbered config)
        ∧ ((select_candidates destination (after calls) candidate_count config
            now).map Candidate.mac).Nodup
        ∧ (select_candidates destination (after calls) candidate_count config
            now).map (fun c => c.priority.toNat)
          = List.range' 1 (min candidate_count.toNat ns.length)
        ∧ (∀ n m, Eligible (after calls) config now n → Outranks config n m →
            m ∈ ns.take candidate_count.toNat →
            n ∈ ns.take candidate_count.toNat)
        ∧ ∀ t', t'.table.entries.Perm (after calls).table.entries →
          select_candidates destination t' candidate_count config now
            = select_candidates destination (after calls) candidate_count
              config now := by
  have hkeyed := keyed_after calls
  obtain ⟨ns, hns⟩ := ranking_exists hkeyed config now
  refine ⟨ns, fun ns' => ⟨hns.unique, fun heq => heq ▸ hns⟩, ?_⟩
  intro destination candidate_count
  refine ⟨select_eq_of_ranking hkeyed hns destination candidate_count,
    select_macs_nodup hkeyed,
    select_priorities hkeyed hns destination candidate_count,
    fun n m hn hnm hm => hns.mem_take hn hm hnm, ?_⟩
  intro t' hperm
  have hns' : Ranking (Outranks config) (Eligible t' config now) ns := by
    rw [eligible_of_perm hperm]
    exact hns
  rw [select_eq_of_ranking (keyed_of_perm hkeyed hperm) hns',
    select_eq_of_ranking hkeyed hns]

end Joker
