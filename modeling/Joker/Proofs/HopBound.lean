/-
Forwarding dies out.

A forward carries the TTL of its parent less one, and is sent only from
a TTL of at least 2 (`ttl_below`): so TTL bounds how deep a chain of
forwards can get, whatever is lost, reordered, or taken on again after
an eviction. How wide it can get does not depend on the caches either: a
transmission is handed at most once to each of the other `N - 1` nodes,
and each makes at most one forward of it. The count is then that of a
forest of bounded degree and depth.
-/
import Joker.Lib.Descent
import Joker.Proofs.NetworkRuns

namespace Joker

open Transition VectorHeap

variable {N : Nat} {H : WheelHeap ForwardCallback}

namespace Network

-- ============================================================= one forward

/-- The TTL of transmission `j` is `ttl`. -/
def CarriesTTL (net : Network N H) (j ttl : Nat) : Prop :=
  ∃ tx header consumed, net.air[j]? = some tx
    ∧ deserialize_header tx.frame.data 0 = (some header, consumed)
    ∧ header.ttl.toNat = ttl

/-- Transmission `j` has one TTL. -/
theorem CarriesTTL.unique {net : Network N H} {j t u : Nat}
    (ht : net.CarriesTTL j t) (hu : net.CarriesTTL j u) : t = u := by
  obtain ⟨tx, header, n, htx, hp, rfl⟩ := ht
  obtain ⟨tx', header', n', htx', hp', rfl⟩ := hu
  obtain rfl := Option.some.inj (htx.symm.trans htx')
  injection hp.symm.trans hp' with hheader _
  rw [Option.some.inj hheader]

/-- A forward comes later than its parent and carries its TTL less one,
which is at least 1. -/
theorem Accounted.forward_ttl {st : Stations N} {net : Network N H}
    (h : Accounted st net) {i j : Nat} (hpar : net.parentOf j = some i) :
    i < j ∧ ∃ t, net.CarriesTTL i (t + 1) ∧ net.CarriesTTL j t ∧ 1 ≤ t := by
  obtain ⟨tx, htx, hi⟩ := Option.bind_eq_some_iff.mp hpar
  rcases h.traced j tx htx with ⟨-, hnone⟩ | ⟨p, e, i', -, hi', hlt, ht, hdata⟩
  · rw [hnone] at hi
    cases hi
  · obtain rfl : i' = i := Option.some.inj (hi'.symm.trans hi)
    obtain ⟨txi, header, consumed, htxi, -, hframe, hf, -⟩ := ht.received
    have hfwd := hf.forwardOf hdata
    have httl : 2 ≤ header.ttl.toNat := UInt8.le_iff_toNat_le.mp hfwd.ttl
    have hsub := ttl_sub_one_toNat hfwd.ttl
    refine ⟨hlt, header.ttl.toNat - 1, ⟨txi, header, consumed, htxi, ?_, ?_⟩,
      ⟨tx, _, consumed, htx, hfwd.reparsed.parses, hsub⟩, by omega⟩
    · rw [hframe]
      exact hf.parses
    · omega

open Descent in
/-- `k` forwards down, the TTL is `k` less, and at least 1. -/
theorem Accounted.ttl_below {st : Stations N} {net : Network N H}
    (h : Accounted st net) {i j k t : Nat} (ht : net.CarriesTTL i t)
    (hbelow : Below net.parentOf i k j) :
    ∃ u, net.CarriesTTL j u ∧ u + k = t ∧ (k = 0 ∨ 1 ≤ u) := by
  induction hbelow with
  | root => exact ⟨t, ht, rfl, Or.inl rfl⟩
  | child hpar _ ih =>
      obtain ⟨u, hu, hsum, -⟩ := ih
      obtain ⟨-, v, hv, hv', hpos⟩ := h.forward_ttl hpar
      have huv := hu.unique hv
      exact ⟨v, hv', by omega, Or.inr hpos⟩

-- ============================================================ the counting

/-- The places on the air. -/
def places (net : Network N H) : Finset Nat := Finset.range net.air.length

/-- Parents are on the air. -/
theorem Accounted.parent_mem {st : Stations N} {net : Network N H}
    (h : Accounted st net) :
    ∀ j ∈ net.places, ∀ i, net.parentOf j = some i → i ∈ net.places := by
  intro j hj i hpar
  have hlt := (h.forward_ttl hpar).1
  exact Finset.mem_range.mpr (hlt.trans (Finset.mem_range.mp hj))

/-- A transmission has at most one child at each node but its sender. -/
theorem Accounted.children_le {st : Stations N} {net : Network N H}
    (h : Accounted st net) :
    ∀ i ∈ net.places, ∀ T ⊆ net.places,
      (∀ j ∈ T, net.parentOf j = some i) → T.card ≤ N - 1 := by
  intro i hi T hT hpar
  have hlt := Finset.mem_range.mp hi
  have hchild : ∀ j ∈ T, ∃ tx, net.air[j]? = some tx ∧ tx.parent = some i
      ∧ tx.sender ≠ net.air[i].sender := by
    intro j hj
    obtain ⟨tx, htx, hi⟩ := Option.bind_eq_some_iff.mp (hpar j hj)
    refine ⟨tx, htx, hi, ?_⟩
    rcases h.traced j tx htx with ⟨-, hnone⟩ | ⟨p, e, i', -, hi', -, ht, -⟩
    · rw [hnone] at hi
      cases hi
    · obtain rfl : i' = i := Option.some.inj (hi'.symm.trans hi)
      obtain ⟨txi, header, consumed, htxi, hne, -⟩ := ht.received
      obtain ⟨_, rfl⟩ := List.getElem?_eq_some_iff.mp htxi
      exact hne.symm
  -- children are told apart by their senders
  let others := (Finset.univ.erase net.air[i].sender).image some
  have hmaps : Set.MapsTo (fun j => net.air[j]?.map Transmission.sender)
      (T : Set Nat) (others : Set (Option (Fin N))) := by
    intro j hj
    obtain ⟨tx, htx, -, hne⟩ := hchild j hj
    refine Finset.mem_coe.mpr (Finset.mem_image.mpr ⟨tx.sender, ?_, ?_⟩)
    · exact Finset.mem_erase.mpr ⟨hne, Finset.mem_univ _⟩
    · dsimp only
      rw [htx]
      rfl
  have hinj : Set.InjOn (fun j => net.air[j]?.map Transmission.sender)
      (T : Set Nat) := by
    intro j hj k hk heq
    obtain ⟨a, ha, hai, -⟩ := hchild j hj
    obtain ⟨b, hb, hbi, -⟩ := hchild k hk
    dsimp only at heq
    rw [ha, hb] at heq
    exact h.child_unique ha hb (Option.some.inj heq) hai hbi
  calc T.card ≤ others.card := Finset.card_le_card_of_injOn _ hmaps hinj
    _ ≤ (Finset.univ.erase net.air[i].sender).card := Finset.card_image_le
    _ = N - 1 := by
        rw [Finset.card_erase_of_mem (Finset.mem_univ _), Finset.card_univ,
          Fintype.card_fin]

open Descent in
/-- In every run, of every network, with every pattern of losses, delays,
flags and evictions: what descends from a transmission with TTL `t`
through `k` forwards carries TTL `t - k`, at least 1; no forward carries
TTL 0; and at most `1 + (N - 1) + … + (N - 1) ^ (t - 1)` transmissions
descend from it. -/
theorem hop_bound (H : WheelHeap ForwardCallback) (st : Stations N)
    (es : List (NetEvent N)) {i t : Nat}
    (ht : (run H st es).CarriesTTL i t) :
    (∀ k j, Below (run H st es).parentOf i k j →
      (run H st es).CarriesTTL j (t - k) ∧ k ≤ t - 1
        ∧ (1 ≤ t → 1 ≤ t - k))
    ∧ (∀ j i', (run H st es).parentOf j = some i' →
      ∃ u, (run H st es).CarriesTTL j u ∧ 1 ≤ u)
    ∧ (1 ≤ t → (descendants (run H st es).parentOf (run H st es).places i).card
      ≤ ∑ k ∈ Finset.range t, (N - 1) ^ k) := by
  have h := run_accounted H st es
  have hdown : ∀ k j, Below (run H st es).parentOf i k j →
      (run H st es).CarriesTTL j (t - k) ∧ k ≤ t - 1
        ∧ (1 ≤ t → 1 ≤ t - k) := by
    intro k j hbelow
    obtain ⟨u, hu, hsum, hpos⟩ := h.ttl_below ht hbelow
    have hsub : t - k = u := by omega
    rw [hsub]
    exact ⟨hu, by omega, by omega⟩
  refine ⟨hdown, ?_, ?_⟩
  · intro j i' hpar
    obtain ⟨-, u, -, hu, hpos⟩ := h.forward_ttl hpar
    exact ⟨u, hu, hpos⟩
  · intro hpos
    refine card_descendants_le h.parent_mem h.children_le i ?_
    intro j _ k hbelow
    have hle := (hdown k j hbelow).2.1
    omega

/-- Three stations with default settings. -/
def three_stations : Stations 3 where
  mac n := station (UInt8.ofNat n)
  config _ := {}
  capacity _ := 1000
  ttl _ := 5000000000

/-- Station 0 broadcasts packet 7 with TTL 3, station 1 forwards it: the
forward carries TTL 2. -/
theorem hop_bound_one_hop :
    (run (sortedHeap _) three_stations
      [.originate 0 0 MacAddress.broadcast (sample_frame 7 3),
        .deliver 0 1 1 true, .tick 1 50000001]).CarriesTTL 1 2 :=
  ((hop_bound (sortedHeap _) three_stations
    [.originate 0 0 MacAddress.broadcast (sample_frame 7 3),
      .deliver 0 1 1 true, .tick 1 50000001]
    ⟨_, sample_header 7 3, 19, rfl, rfl, rfl⟩).1 1 1
      (.child rfl .root)).1

end Network

end Joker
