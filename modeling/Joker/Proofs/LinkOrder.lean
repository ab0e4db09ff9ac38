/-
What moves a neighbour in the ranking.

The penalty takes at most five of `tq_max` shares of a neighbour's
transmission quality, so it cannot make up for a quality that is lower by
five (`outranks_of_quality`); between equal qualities it decides
(`outranks_of_penalty`). A neighbour all of whose metrics get better has
no more neighbours ahead of it than before, so it is selected no later
(`better_links_never_rank_worse`).
-/
import Joker.Proofs.Metrics
import Joker.Proofs.Ranking

namespace Joker

open NeighborTable

variable {config : SelectionConfig} {n m : NeighborEntry}

-- ===================================================== quality and penalty

theorem quality_le (config : SelectionConfig) (n : NeighborEntry) :
    (quality config n).toNat ≤ config.tq_max.toNat := calculate_tq_le

/-- Above the penalties the link quality is a share of the quality. -/
theorem link_quality_eq (hmax : 6 ≤ config.tq_max.toNat) :
    link_quality config n = ((quality config n).toNat : Rat)
      * ((config.tq_max.toNat : Rat) - (penalty config n).toNat)
      / config.tq_max.toNat := by
  have hd : (penalty config n).toNat ≤ 5 := distance_penalty_le _
  exact calculate_joker_lq_eq (by omega) (quality_le config n)

/-- Five more of quality outweigh every penalty. -/
theorem outranks_of_quality (hmax : 6 ≤ config.tq_max.toNat)
    (h : (quality config m).toNat + 5 ≤ (quality config n).toNat) :
    Outranks config n m := by
  left
  rw [link_quality_eq hmax, link_quality_eq hmax]
  have hM : (6 : Rat) ≤ config.tq_max.toNat := by exact_mod_cast hmax
  have hq :
      ((quality config m).toNat : Rat) + 5 ≤ (quality config n).toNat := by
    exact_mod_cast h
  have hn : ((quality config n).toNat : Rat) ≤ config.tq_max.toNat := by
    exact_mod_cast quality_le config n
  have hdn : ((penalty config n).toNat : Rat) ≤ 5 := by
    exact_mod_cast distance_penalty_le _
  have hdm : (1 : Rat) ≤ (penalty config m).toNat := by
    exact_mod_cast distance_penalty_pos _
  generalize (config.tq_max.toNat : Rat) = M at *
  generalize ((quality config n).toNat : Rat) = tn at *
  have hm0 : (0 : Rat) ≤ (quality config m).toNat := Nat.cast_nonneg _
  generalize ((quality config m).toNat : Rat) = tm at *
  -- at worst `n` pays five shares and `m` one
  have hnum : tm * (M - (penalty config m).toNat) ≤ tm * (M - 1) := by
    gcongr
  have hden : (tm + 5) * (M - 5) ≤ tn * (M - (penalty config n).toNat) := by
    apply mul_le_mul hq (by linarith) (by linarith) (by linarith)
  have hgap : tm * (M - 1) < (tm + 5) * (M - 5) := by
    -- the difference is `5 * M - 25 - 4 * tm`, and `tm` is at most `M - 5`
    have heq : (tm + 5) * (M - 5) - tm * (M - 1) = 5 * M - 25 - 4 * tm := by
      ring
    linarith
  exact div_lt_div_of_pos_right (by linarith) (by linarith)

/-- Between equal qualities the penalty decides. -/
theorem outranks_of_penalty (hmax : 6 ≤ config.tq_max.toNat)
    (h : quality config n = quality config m) (hpos : 0 < quality config n)
    (hd : penalty config n < penalty config m) : Outranks config n m := by
  left
  rw [link_quality_eq hmax, link_quality_eq hmax, h]
  rw [h] at hpos
  have hM : (0 : Rat) < config.tq_max.toNat := by
    exact_mod_cast (by omega : 0 < config.tq_max.toNat)
  have hq : (0 : Rat) < (quality config m).toNat := by
    exact_mod_cast UInt8.lt_iff_toNat_lt.mp hpos
  have hlt : ((penalty config n).toNat : Rat) < (penalty config m).toNat := by
    exact_mod_cast UInt8.lt_iff_toNat_lt.mp hd
  gcongr

-- ================================================================ selection

/-- Wherever the second is selected, the first is selected ahead of it. -/
def SelectedBefore (selected : List Candidate) (first second : MacAddress) :
    Prop :=
  ∀ j : Nat, (selected.map Candidate.mac)[j]? = some second →
    ∃ i < j, (selected.map Candidate.mac)[i]? = some first

variable {t : NeighborTable} {now : TimePoint}

/-- Eligible neighbours have their own addresses. -/
theorem Eligible.eq_of_mac (hn : Eligible t config now n)
    (hm : Eligible t config now m) (h : n.mac = m.mac) : n = m := by
  have hrow := hn.row
  rw [h, hm.row] at hrow
  exact (Option.some.inj hrow).symm

/-- Where an address stands in a ranking its neighbour stands. -/
theorem getElem?_of_mac {ns : List NeighborEntry}
    (hns : Ranking (Outranks config) (Eligible t config now) ns)
    (hn : Eligible t config now n) {i : Nat}
    (hi : (ns.map NeighborEntry.mac)[i]? = some n.mac) : ns[i]? = some n := by
  rw [List.getElem?_map, Option.map_eq_some_iff] at hi
  obtain ⟨m, hm, hmac⟩ := hi
  have helig := (hns.mem_iff m).mp (List.mem_of_getElem? hm)
  rw [hm, helig.eq_of_mac hn hmac]

/-- Who outranks another is selected before it. -/
theorem selectedBefore_of_outranks (h : Keyed t)
    (hn : Eligible t config now n) (hm : Eligible t config now m)
    (hnm : Outranks config n m) (destination : MacAddress)
    (candidate_count : UInt8) :
    SelectedBefore (select_candidates destination t candidate_count config now)
      n.mac m.mac := by
  obtain ⟨ns, hns⟩ := ranking_exists h config now
  intro j hj
  obtain ⟨hcount, hj⟩ := (select_mac_at h hns).mp hj
  have hjm := getElem?_of_mac hns hm hj
  obtain ⟨i, hi⟩ := List.mem_iff_getElem?.mp ((hns.mem_iff n).mpr hn)
  have hij := hns.index_lt hi hjm hnm
  refine ⟨i, hij, (select_mac_at h hns).mpr ⟨Nat.lt_trans hij hcount, ?_⟩⟩
  rw [List.getElem?_map, hi]
  rfl

/-- A quality higher by five puts a neighbour first; between equal
positive qualities the smaller penalty does; so where a neighbour of lower
quality is selected first, its quality is lower by at most four. And the
neighbour is selected if its place in the ranking is among the first
`candidate_count`. -/
theorem reliability_dominates (calls : List TableCall)
    (config : SelectionConfig) (hmax : 6 ≤ config.tq_max.toNat)
    (now : TimePoint) (n m : NeighborEntry)
    (hn : Eligible (after calls) config now n)
    (hm : Eligible (after calls) config now m)
    (destination : MacAddress) (candidate_count : UInt8) :
    ((quality config m).toNat + 5 ≤ (quality config n).toNat →
        Outranks config n m
          ∧ SelectedBefore (select_candidates destination (after calls)
            candidate_count config now) n.mac m.mac)
    ∧ (quality config n = quality config m → 0 < quality config n →
        penalty config n < penalty config m →
        Outranks config n m
          ∧ SelectedBefore (select_candidates destination (after calls)
            candidate_count config now) n.mac m.mac)
    ∧ (quality config m < quality config n → Outranks config m n →
        (quality config n).toNat ≤ (quality config m).toNat + 4)
    ∧ ∀ (ns : List NeighborEntry) (i : Nat),
        Ranking (Outranks config) (Eligible (after calls) config now) ns →
        ns[i]? = some n → i < candidate_count.toNat →
        n.mac ∈ (select_candidates destination (after calls) candidate_count
          config now).map Candidate.mac := by
  have hbefore : Outranks config n m → Outranks config n m
      ∧ SelectedBefore (select_candidates destination (after calls)
        candidate_count config now) n.mac m.mac := by
    intro hnm
    exact ⟨hnm, selectedBefore_of_outranks (keyed_after calls) hn hm hnm
      destination candidate_count⟩
  refine ⟨fun hq => hbefore (outranks_of_quality hmax hq),
    fun hq hpos hd => hbefore (outranks_of_penalty hmax hq hpos hd), ?_, ?_⟩
  · intro _ hmn
    by_contra hgap
    have hnm : Outranks config n m := outranks_of_quality hmax (by omega)
    exact Std.Asymm.asymm _ _ hnm hmn
  · intro ns i hns hi hcount
    refine List.mem_of_getElem? (i := i) ((select_mac_at (keyed_after calls)
      hns).mpr ⟨hcount, ?_⟩)
    rw [List.getElem?_map, hi]
    rfl

/-- A neighbour heard at time zero, with a route. -/
def heard (mac : MacAddress) (tq_recv : UInt8) (rx_power_dbm : Rat) :
    NeighborEntry where
  mac := mac
  last_seen := 0
  tq_local := 255
  tq_recv := tq_recv
  rx_power_dbm := rx_power_dbm
  reachable_to_dest := true

/-- A good link of large penalty, and one of lower quality by five and of
small penalty. -/
def good_link : NeighborEntry := heard second_originator 205 (-20)

def close_link : NeighborEntry := heard first_originator 200 (-70)

theorem good_link_eligible :
    Eligible (after [.Update good_link, .Update close_link]) {} 0 good_link :=
  ⟨rfl, rfl, rfl⟩

theorem close_link_eligible :
    Eligible (after [.Update good_link, .Update close_link]) {} 0 close_link :=
  ⟨rfl, rfl, rfl⟩

/-- The good link is ranked first. -/
theorem reliability_dominates_good_link :
    Outranks {} good_link close_link
      ∧ SelectedBefore (select_candidates .zero
        (after [.Update good_link, .Update close_link]) 2 {} 0)
        good_link.mac close_link.mac :=
  (reliability_dominates [.Update good_link, .Update close_link] {}
    (by decide) 0 good_link close_link good_link_eligible close_link_eligible
    .zero 2).1 (by decide +kernel)

-- ============================================================ better links

/-- The row is at least as good: the same neighbour, as old, as reachable
and as loud, and no metric is lower. -/
structure Improves (n n' : NeighborEntry) : Prop where
  mac : n'.mac = n.mac
  last_seen : n'.last_seen = n.last_seen
  reachable_to_dest : n'.reachable_to_dest = n.reachable_to_dest
  rx_power_dbm : n'.rx_power_dbm = n.rx_power_dbm
  tq_local : n.tq_local ≤ n'.tq_local
  tq_recv : n.tq_recv ≤ n'.tq_recv
  f_asym : n.f_asym ≤ n'.f_asym
  hop_penalty : n.hop_penalty ≤ n'.hop_penalty

variable {n' : NeighborEntry}

/-- A better row has no lower link quality. -/
theorem link_quality_mono (hmax : config.tq_max ≠ 0)
    (hn : Multipliers n.f_asym n.hop_penalty)
    (hn' : Multipliers n'.f_asym n'.hop_penalty) (h : Improves n n') :
    link_quality config n ≤ link_quality config n' := by
  have hpenalty : penalty config n' = penalty config n := by
    unfold penalty
    rw [h.rx_power_dbm]
  unfold link_quality
  rw [hpenalty]
  exact calculate_joker_lq_mono hmax
    (calculate_tq_mono hn hn' h.tq_local h.tq_recv h.f_asym h.hop_penalty)

/-- Whoever outranks the better row outranks the worse one. -/
theorem outranks_of_improves
    (hle : link_quality config n ≤ link_quality config n')
    (hmac : n'.mac = n.mac) (hm : Outranks config m n') :
    Outranks config m n := by
  rcases hm with hlt | ⟨heq, haddr⟩
  · exact Or.inl (lt_of_le_of_lt hle hlt)
  · rw [hmac] at haddr
    rcases lt_or_eq_of_le hle with hlt | hsame
    · exact Or.inl (heq ▸ hlt)
    · exact Or.inr ⟨heq.trans hsame.symm, haddr⟩

/-- In the table with the better row the others are as eligible. -/
theorem eligible_Update_iff (hmac : m.mac ≠ n'.mac) :
    Eligible (t.Update n') config now m ↔ Eligible t config now m := by
  have hlook : (t.Update n').Lookup m.mac = t.Lookup m.mac := by
    rw [lookup_Update, if_neg hmac]
  exact ⟨fun h => ⟨hlook ▸ h.row, h.fresh, h.reachable⟩,
    fun h => ⟨hlook.symm ▸ h.row, h.fresh, h.reachable⟩⟩

theorem eligible_Update_self (hn : Eligible t config now n)
    (h : Improves n n') : Eligible (t.Update n') config now n' where
  row := by rw [lookup_Update, if_pos rfl]
  fresh := by
    have hfresh := hn.fresh
    unfold NeighborEntry.IsStale at hfresh ⊢
    rw [h.last_seen]
    exact hfresh
  reachable := h.reachable_to_dest.trans hn.reachable

/-- A neighbour whose row gets better is selected no later. -/
theorem selected_no_later (hkeyed : Keyed t) (hn : Eligible t config now n)
    (h : Improves n n') (hle : link_quality config n ≤ link_quality config n')
    (destination : MacAddress) (candidate_count : UInt8) {i : Nat}
    (hi : ((select_candidates destination t candidate_count config now).map
      Candidate.mac)[i]? = some n.mac) :
    ∃ i' ≤ i, ((select_candidates destination (t.Update n') candidate_count
      config now).map Candidate.mac)[i']? = some n.mac := by
  have hkeyed' : Keyed (t.Update n') := hkeyed.call (.Update n')
  obtain ⟨ns, hns⟩ := ranking_exists hkeyed config now
  obtain ⟨ns', hns'⟩ := ranking_exists hkeyed' config now
  obtain ⟨hcount, hi⟩ := (select_mac_at hkeyed hns).mp hi
  have hself := eligible_Update_self hn h
  have hahead : ∀ m, Eligible (t.Update n') config now m →
      Outranks config m n' → Eligible t config now m ∧ Outranks config m n := by
    intro m hm hmn
    have hne : m.mac ≠ n'.mac := by
      intro hmac
      rw [hm.eq_of_mac hself hmac] at hmn
      exact Std.Asymm.asymm _ _ hmn hmn
    exact ⟨(eligible_Update_iff hne).mp hm, outranks_of_improves hle h.mac hmn⟩
  obtain ⟨i', hle', hi'⟩ :=
    hns.index_le hns' (getElem?_of_mac hns hn hi) hself hahead
  refine ⟨i', hle', (select_mac_at hkeyed' hns').mpr ⟨by omega, ?_⟩⟩
  rw [List.getElem?_map, hi', ← h.mac]
  rfl

/-- A better row has no lower link quality, and its neighbour is selected
if it was, with no worse priority. With multipliers that are shares, the
quality is what was rounded, and the metrics are in order. -/
theorem better_links_never_rank_worse (calls : List TableCall)
    (config : SelectionConfig) (hmax : 1 ≤ config.tq_max.toNat)
    (now : TimePoint) (n n' : NeighborEntry)
    (hn : Eligible (after calls) config now n)
    (hm : Multipliers n.f_asym n.hop_penalty)
    (hm' : Multipliers n'.f_asym n'.hop_penalty) (h : Improves n n') :
    link_quality config n ≤ link_quality config n'
    ∧ (∀ (destination : MacAddress) (candidate_count : UInt8),
        ∀ c ∈ select_candidates destination (after calls) candidate_count
          config now, c.mac = n.mac →
        ∃ c' ∈ select_candidates destination ((after calls).Update n')
          candidate_count config now,
          c'.mac = n.mac ∧ c'.priority ≤ c.priority)
    ∧ ∀ e : NeighborEntry, Multipliers e.f_asym e.hop_penalty →
        ((quality config e).toNat : Int) = rounded_tq e.tq_local e.tq_recv
          e.f_asym e.hop_penalty config.tq_max
        ∧ 0 ≤ link_quality config e
        ∧ link_quality config e ≤ ((quality config e).toNat : Rat)
        ∧ (quality config e).toNat ≤ config.tq_max.toNat := by
  have hne : config.tq_max ≠ 0 := by
    intro hzero
    rw [hzero] at hmax
    exact absurd hmax (by decide)
  have hle := link_quality_mono hne hm hm' h
  refine ⟨hle, ?_, fun e he => ⟨calculate_tq_toNat he,
    calculate_joker_lq_nonneg hne, calculate_joker_lq_le hne,
    quality_le config e⟩⟩
  intro destination candidate_count c hc hmac
  obtain ⟨i, hi⟩ := List.mem_iff_getElem?.mp hc
  have hat : ((select_candidates destination (after calls) candidate_count
      config now).map Candidate.mac)[i]? = some n.mac := by
    rw [List.getElem?_map, hi, ← hmac]
    rfl
  obtain ⟨i', hle', hi'⟩ := selected_no_later (keyed_after calls) hn h hle
    destination candidate_count hat
  rw [List.getElem?_map, Option.map_eq_some_iff] at hi'
  obtain ⟨c', hc', hmac'⟩ := hi'
  refine ⟨c', List.mem_of_getElem? hc', hmac', ?_⟩
  rw [UInt8.le_iff_toNat_le, select_priority hi, select_priority hc']
  omega

/-- The close link gets better, and stays selected. -/
theorem better_links_never_rank_worse_close_link :
    ∃ c' ∈ select_candidates .zero
      ((after [.Update good_link, .Update close_link]).Update
        (heard first_originator 255 (-70))) 2 {} 0,
      c'.mac = first_originator ∧ c'.priority ≤ 2 :=
  (better_links_never_rank_worse [.Update good_link, .Update close_link] {}
    (by decide) 0 close_link (heard first_originator 255 (-70))
    close_link_eligible ⟨by decide, by decide, by decide, by decide⟩
    ⟨by decide, by decide, by decide, by decide⟩
    ⟨rfl, rfl, rfl, rfl, by decide, by decide, by decide, by decide⟩).2.1
    .zero 2 ⟨first_originator, link_quality {} close_link, 2⟩
    (by decide +kernel) rfl

end Joker
