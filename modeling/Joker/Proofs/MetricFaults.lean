/-
When is the metric pipeline total?

Two things can go wrong, and both in `calculate_tq`. It divides by
`tq_max` without the guard its sibling `calculate_joker_lq` has, and it
clamps to `tq_max`, sixteen bits, before it narrows to eight. The
evaluation of one neighbour is therefore decided by two inequalities
between its fields and `tq_max` (`rounded_tq_le_iff`), and the selection
is total exactly when every neighbour that is scored meets them
(`metrics_total_iff`). The link qualities themselves are in range
whatever the configuration (`select_lq_mem`).
-/
import Joker.Model.CheckedMetrics
import Joker.Proofs.Candidate
import Joker.Proofs.Metrics
import Joker.Proofs.Suppression

namespace Joker

-- ======================================================== the operations

theorem divide_of_ne {a b : Rat} (h : b ≠ 0) : divide a b = .ok (a / b) :=
  if_neg h

theorem narrow_of_le {z : Int} (h0 : 0 ≤ z) (h : z ≤ 255) :
    narrow z = .ok (UInt8.ofInt z) := if_pos ⟨h0, h⟩

theorem narrow_of_gt {z : Int} (h : 255 < z) : narrow z = .error .value_lost :=
  if_neg fun hle => absurd hle.2 (not_le.mpr h)

-- =================================================== transmission quality

/-- Rounding stays within a whole bound up to the half above it. -/
theorem lround_le_iff {q : Rat} (hq : 0 ≤ q) (n : Nat) :
    lround q ≤ n ↔ q < n + 1 / 2 := by
  unfold lround
  rw [if_pos hq, ← Int.lt_add_one_iff, Int.floor_lt]
  push_cast
  constructor <;> intro h <;> linarith

variable {tq_local tq_recv : UInt8} {f_asym hop_penalty : Rat}
  {tq_max : UInt16}

/-- The product that is rounded, with one division. -/
theorem scaled_tq_eq (hmax : tq_max ≠ 0) :
    scaled_tq tq_local tq_recv f_asym hop_penalty tq_max
      = (tq_local.toNat : Rat) * tq_recv.toNat * f_asym * hop_penalty
        / tq_max.toNat := by
  have hpos := toNat_pos_of_ne hmax
  unfold scaled_tq
  field_simp

/-- The rounded quality fits a byte when `tq_max` does, or when the product
of the factors is small enough not to be rounded above 255. -/
theorem rounded_tq_le_iff (hmax : tq_max ≠ 0) :
    rounded_tq tq_local tq_recv f_asym hop_penalty tq_max ≤ 255
      ↔ tq_max.toNat ≤ 255
        ∨ 2 * ((tq_local.toNat : Rat) * tq_recv.toNat * f_asym * hop_penalty)
          < 511 * tq_max.toNat := by
  by_cases hbyte : tq_max.toNat ≤ 255
  · have hle := rounded_tq_le tq_local tq_recv f_asym hop_penalty tq_max
    exact iff_of_true (by omega) (Or.inl hbyte)
  · have hpos := toNat_pos_of_ne hmax
    have hbig : (256 : Rat) ≤ tq_max.toNat := by
      exact_mod_cast Nat.not_le.mp hbyte
    have hround := lround_le_iff
      (le_clamp (q := scaled_tq tq_local tq_recv f_asym hop_penalty tq_max)
        (Nat.cast_nonneg tq_max.toNat)) 255
    -- the clamp is above the bound exactly where the product is
    have hclamp : clamp (scaled_tq tq_local tq_recv f_asym hop_penalty tq_max)
        0 tq_max.toNat < ((255 : Nat) : Rat) + 1 / 2
        ↔ scaled_tq tq_local tq_recv f_asym hop_penalty tq_max
          < ((255 : Nat) : Rat) + 1 / 2 := by
      push_cast
      unfold clamp
      split
      · constructor <;> intro _ <;> linarith
      · split
        · constructor <;> intro _ <;> linarith
        · exact Iff.rfl
    have hprod : scaled_tq tq_local tq_recv f_asym hop_penalty tq_max
          < ((255 : Nat) : Rat) + 1 / 2
        ↔ 2 * ((tq_local.toNat : Rat) * tq_recv.toNat * f_asym * hop_penalty)
          < 511 * tq_max.toNat := by
      rw [scaled_tq_eq hmax, div_lt_iff₀ hpos]
      push_cast
      constructor <;> intro h <;> linarith
    rw [or_iff_right hbyte, ← hprod, ← hclamp]
    exact hround

theorem calculate_tq_checked_zero :
    calculate_tq_checked tq_local tq_recv f_asym hop_penalty 0
      = .error .division_by_zero := rfl

/-- The checked quality, by the range of the rounded one. -/
theorem calculate_tq_checked_eq (hmax : tq_max ≠ 0) :
    calculate_tq_checked tq_local tq_recv f_asym hop_penalty tq_max
      = narrow (rounded_tq tq_local tq_recv f_asym hop_penalty tq_max) := by
  have hne : (tq_max.toNat : Rat) ≠ 0 := ne_of_gt (toNat_pos_of_ne hmax)
  unfold calculate_tq_checked
  rw [divide_of_ne hne, divide_of_ne hne]
  rfl

-- ============================================================ link quality

/-- The guard makes the link quality total. -/
theorem calculate_joker_lq_checked_eq (tq d : UInt8) (tq_max : UInt16) :
    calculate_joker_lq_checked tq d tq_max
      = .ok (calculate_joker_lq tq d tq_max) := by
  unfold calculate_joker_lq_checked calculate_joker_lq
  by_cases hmax : tq_max = 0
  · rw [if_pos hmax, if_pos hmax]
  · have hne : (tq_max.toNat : Rat) ≠ 0 := ne_of_gt (toNat_pos_of_ne hmax)
    rw [if_neg hmax, if_neg hmax]
    dsimp only
    rw [divide_of_ne hne]
    rfl

/-- A link quality is in range, whatever it is computed from. -/
theorem calculate_joker_lq_mem (tq d : UInt8) (tq_max : UInt16) :
    0 ≤ calculate_joker_lq tq d tq_max
      ∧ calculate_joker_lq tq d tq_max ≤ tq_max.toNat := by
  by_cases hmax : tq_max = 0
  · have hzero : calculate_joker_lq tq d tq_max = 0 := if_pos hmax
    rw [hzero]
    exact ⟨le_refl 0, Nat.cast_nonneg _⟩
  · rw [calculate_joker_lq_of_pos hmax]
    exact ⟨le_clamp (Nat.cast_nonneg _), clamp_le (Nat.cast_nonneg _)⟩

-- =============================================================== one row

/-- The neighbour is evaluated without a fault: there is something to
divide by, and the rounded quality fits a byte. -/
def Evaluable (config : SelectionConfig) (n : NeighborEntry) : Prop :=
  config.tq_max ≠ 0
    ∧ (config.tq_max.toNat ≤ 255
      ∨ 2 * ((n.tq_local.toNat : Rat) * n.tq_recv.toNat * n.f_asym
          * n.hop_penalty) < 511 * config.tq_max.toNat)

/-- An evaluable neighbour gets its score. -/
theorem score_checked_of_evaluable {config : SelectionConfig}
    {n : NeighborEntry} (h : Evaluable config n) :
    score_checked config n = .ok (score config n) := by
  have hround := (rounded_tq_le_iff h.1).mpr h.2
  have htq : calculate_tq_checked n.tq_local n.tq_recv n.f_asym n.hop_penalty
      config.tq_max = .ok (calculate_tq n.tq_local n.tq_recv n.f_asym
        n.hop_penalty config.tq_max) := by
    rw [calculate_tq_checked_eq h.1, calculate_tq_eq]
    exact narrow_of_le (rounded_tq_nonneg _ _ _ _ _) hround
  unfold score_checked
  rw [htq]
  show (calculate_joker_lq_checked _ _ _ >>= _) = _
  rw [calculate_joker_lq_checked_eq]
  rfl

/-- Any other is a fault. -/
theorem score_checked_of_not_evaluable {config : SelectionConfig}
    {n : NeighborEntry} (h : ¬ Evaluable config n) :
    ∃ fault, score_checked config n = .error fault := by
  by_cases hmax : config.tq_max = 0
  · refine ⟨.division_by_zero, ?_⟩
    unfold score_checked
    rw [hmax, calculate_tq_checked_zero]
    rfl
  · have hround : 255 < rounded_tq n.tq_local n.tq_recv n.f_asym n.hop_penalty
        config.tq_max := by
      rw [← not_le, rounded_tq_le_iff hmax]
      exact fun hrange => h ⟨hmax, hrange⟩
    refine ⟨.value_lost, ?_⟩
    unfold score_checked
    rw [calculate_tq_checked_eq hmax, narrow_of_gt hround]
    rfl

-- ========================================================= the selection

/-- The scoring loop is total exactly when every neighbour it evaluates
is, and then it collects their scores. -/
theorem score_neighbors_checked_eq_ok_iff (config : SelectionConfig)
    (fresh : List NeighborEntry) (cs : List Candidate) :
    score_neighbors_checked config fresh = .ok cs
      ↔ cs = score_neighbors config fresh
        ∧ ∀ n ∈ fresh, n.reachable_to_dest = true → Evaluable config n := by
  induction fresh generalizing cs with
  | nil =>
      constructor
      · intro h
        cases h
        exact ⟨rfl, by simp⟩
      · intro h
        rw [h.1]
        rfl
  | cons n fresh ih =>
      rw [score_neighbors_checked, List.forall_mem_cons]
      cases hreach : n.reachable_to_dest with
      | false =>
          have hskip : score_neighbors config (n :: fresh)
              = score_neighbors config fresh := by
            simp [score_neighbors, hreach]
          rw [hskip]
          simpa [hreach] using ih cs
      | true =>
          have hscore : score_neighbors config (n :: fresh)
              = score config n :: score_neighbors config fresh := by
            simp [score_neighbors, hreach]
          by_cases hn : Evaluable config n
          · rw [hscore, score_checked_of_evaluable hn]
            cases hrest : score_neighbors_checked config fresh with
            | error fault =>
                refine iff_of_false (fun h => by cases h) fun h => ?_
                have hok := (ih _).mpr ⟨rfl, h.2.2⟩
                rw [hrest] at hok
                cases hok
            | ok rest =>
                obtain ⟨rfl, hall⟩ := (ih rest).mp hrest
                refine ⟨fun h => ?_, fun h => ?_⟩
                · cases h
                  exact ⟨rfl, fun _ => hn, hall⟩
                · rw [h.1]
                  rfl
          · obtain ⟨fault, hfault⟩ := score_checked_of_not_evaluable hn
            rw [hfault]
            refine iff_of_false (fun h => by cases h) fun h => ?_
            exact hn (h.2.1 rfl)

/-- The checked selection is total exactly when the scoring is, and then
it selects what the unchecked one does. -/
theorem select_candidates_checked_eq_ok_iff (destination : MacAddress)
    (t : NeighborTable) (candidate_count : UInt8) (config : SelectionConfig)
    (now : TimePoint) :
    select_candidates_checked destination t candidate_count config now
        = .ok (select_candidates destination t candidate_count config now)
      ↔ ∀ n ∈ t.AllFresh now config.expiry, n.reachable_to_dest = true →
          Evaluable config n := by
  unfold select_candidates_checked
  dsimp only
  cases hscored : score_neighbors_checked config
      (t.AllFresh now config.expiry) with
  | error fault =>
      refine iff_of_false (fun h => by cases h) fun hall => ?_
      have hok := (score_neighbors_checked_eq_ok_iff config _ _).mpr ⟨rfl, hall⟩
      rw [hscored] at hok
      cases hok
  | ok scored =>
      obtain ⟨rfl, hall⟩ :=
        (score_neighbors_checked_eq_ok_iff config _ _).mp hscored
      exact iff_of_true rfl hall

/-- Every returned link quality is in range. -/
theorem select_lq_mem {destination : MacAddress} {t : NeighborTable}
    {candidate_count : UInt8} {config : SelectionConfig} {now : TimePoint}
    {c : Candidate}
    (hc : c ∈ select_candidates destination t candidate_count config now) :
    0 ≤ c.lq ∧ c.lq ≤ config.tq_max.toNat := by
  rw [select_candidates_eq] at hc
  obtain ⟨i, hi, rfl⟩ := List.mem_mapIdx.mp hc
  have hmem := List.mem_of_mem_take (List.getElem_mem hi)
  rw [(List.perm_insertionSort ranks_le _).mem_iff] at hmem
  obtain ⟨n, -, -, hn⟩ := (mem_score_neighbors_iff config _ _).mp hmem
  dsimp only
  rw [← hn]
  exact calculate_joker_lq_mem _ _ _

/-- The metric pipeline is total — no division by zero, no value lost, and
every returned link quality in `[0, tq_max]` — exactly when every fresh
neighbour with a route is evaluable: `tq_max` is not zero, and fits a
byte or exceeds two 511ths of the product of the neighbour's factors. -/
theorem metrics_total_iff (destination : MacAddress) (t : NeighborTable)
    (candidate_count : UInt8) (config : SelectionConfig) (now : TimePoint) :
    (select_candidates_checked destination t candidate_count config now
        = .ok (select_candidates destination t candidate_count config now)
      ∧ ∀ c ∈ select_candidates destination t candidate_count config now,
          0 ≤ c.lq ∧ c.lq ≤ config.tq_max.toNat)
      ↔ ∀ n ∈ t.AllFresh now config.expiry, n.reachable_to_dest = true →
          Evaluable config n := by
  rw [select_candidates_checked_eq_ok_iff]
  exact and_iff_left fun c hc => select_lq_mem hc

/-- One neighbour with a route, heard at time zero. -/
def one_neighbor (tq : UInt8) (f_asym : Rat) : NeighborTable where
  table := AList.singleton (station 1)
    { mac := station 1, last_seen := 0, tq_local := tq, tq_recv := tq
      f_asym := f_asym, reachable_to_dest := true }

/-- A `tq_max` of zero divides by zero; one of 256 lets an asymmetry factor
of two raise the quality to 256, which a byte does not hold. -/
theorem metrics_not_total :
    select_candidates_checked (station 9) (one_neighbor 200 1) 2
        { tq_max := 0 } 0 = .error .division_by_zero
      ∧ select_candidates_checked (station 9) (one_neighbor 255 2) 2
        { tq_max := 256 } 0 = .error .value_lost := by
  decide +kernel

end Joker
