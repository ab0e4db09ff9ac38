/-
Descent in a forest given by parent pointers: how many vertices can lie
`k` steps below a root when no vertex has more than `d` children.
-/
import Mathlib.Algebra.BigOperators.Group.Finset.Basic
import Mathlib.Algebra.Order.BigOperators.Group.Finset
import Mathlib.Data.Finset.Card

namespace Descent

variable {V : Type*} (parent : V → Option V)

/-- `v` lies `k` steps below `root`. -/
inductive Below (root : V) : Nat → V → Prop where
  | root : Below root 0 root
  | child {u v : V} {k : Nat} (hparent : parent v = some u)
      (hu : Below root k u) : Below root (k + 1) v

open Classical in
/-- The vertices of `S` that lie `k` steps below the root. -/
noncomputable def level (parent : V → Option V) (S : Finset V) (root : V)
    (k : Nat) : Finset V :=
  S.filter fun v => Below parent root k v

open Classical in
/-- The vertices of `S` below the root, the root included. -/
noncomputable def descendants (parent : V → Option V) (S : Finset V)
    (root : V) : Finset V :=
  S.filter fun v => ∃ k, Below parent root k v

variable {parent} {S : Finset V} {d : Nat}

/-- A level has at most `d` times the vertices of the level above. -/
theorem card_level_succ_le
    (hclosed : ∀ v ∈ S, ∀ u, parent v = some u → u ∈ S)
    (hbranch : ∀ u ∈ S, ∀ T ⊆ S, (∀ v ∈ T, parent v = some u) → T.card ≤ d)
    (root : V) (k : Nat) :
    (level parent S root (k + 1)).card
      ≤ (level parent S root k).card * d := by
  classical
  have hsub : level parent S root (k + 1)
      ⊆ (level parent S root k).biUnion fun u =>
        S.filter fun v => parent v = some u := by
    intro v hv
    obtain ⟨hvS, hbelow⟩ := Finset.mem_filter.mp hv
    cases hbelow with
    | @child u _ _ hparent hu =>
        refine Finset.mem_biUnion.mpr ⟨u, ?_, ?_⟩
        · exact Finset.mem_filter.mpr ⟨hclosed v hvS _ hparent, hu⟩
        · exact Finset.mem_filter.mpr ⟨hvS, hparent⟩
  refine (Finset.card_le_card hsub).trans (Finset.card_biUnion_le_card_mul _ _ d
    fun u hu => ?_)
  exact hbranch u (Finset.mem_filter.mp hu).1 _ (Finset.filter_subset _ _)
    fun v hv => (Finset.mem_filter.mp hv).2

/-- Level `k` has at most `d ^ k` vertices. -/
theorem card_level_le
    (hclosed : ∀ v ∈ S, ∀ u, parent v = some u → u ∈ S)
    (hbranch : ∀ u ∈ S, ∀ T ⊆ S, (∀ v ∈ T, parent v = some u) → T.card ≤ d)
    (root : V) (k : Nat) : (level parent S root k).card ≤ d ^ k := by
  classical
  induction k with
  | zero =>
      rw [pow_zero]
      refine Finset.card_le_one.mpr fun v hv w hw => ?_
      have hv0 := (Finset.mem_filter.mp hv).2
      have hw0 := (Finset.mem_filter.mp hw).2
      cases hv0
      cases hw0
      rfl
  | succ k ih =>
      rw [pow_succ]
      exact (card_level_succ_le hclosed hbranch root k).trans
        (Nat.mul_le_mul_right d ih)

/-- If nothing lies `t` steps down or deeper, there are at most
`1 + d + … + d ^ (t - 1)` descendants. -/
theorem card_descendants_le
    (hclosed : ∀ v ∈ S, ∀ u, parent v = some u → u ∈ S)
    (hbranch : ∀ u ∈ S, ∀ T ⊆ S, (∀ v ∈ T, parent v = some u) → T.card ≤ d)
    (root : V) {t : Nat}
    (hdepth : ∀ v ∈ S, ∀ k, Below parent root k v → k < t) :
    (descendants parent S root).card ≤ ∑ k ∈ Finset.range t, d ^ k := by
  classical
  have hsub : descendants parent S root
      ⊆ (Finset.range t).biUnion (level parent S root) := by
    intro v hv
    obtain ⟨hvS, k, hbelow⟩ := Finset.mem_filter.mp hv
    refine Finset.mem_biUnion.mpr ⟨k, ?_, ?_⟩
    · exact Finset.mem_range.mpr (hdepth v hvS k hbelow)
    · exact Finset.mem_filter.mpr ⟨hvS, hbelow⟩
  calc (descendants parent S root).card
      ≤ ((Finset.range t).biUnion (level parent S root)).card :=
        Finset.card_le_card hsub
    _ ≤ ∑ k ∈ Finset.range t, (level parent S root k).card :=
        Finset.card_biUnion_le
    _ ≤ ∑ k ∈ Finset.range t, d ^ k :=
        Finset.sum_le_sum fun k _ => card_level_le hclosed hbranch root k

/-- Where parents come first, what lies `k` steps down has `k` others
above it. -/
theorem Below.lt_card [LinearOrder V]
    (hclosed : ∀ v ∈ S, ∀ u, parent v = some u → u ∈ S)
    (hlt : ∀ v u, parent v = some u → u < v)
    {root v : V} {k : Nat} (hv : v ∈ S) (hbelow : Below parent root k v) :
    k < (descendants parent S root).card := by
  classical
  have hpath : ∃ T ⊆ descendants parent S root,
      T.card = k + 1 ∧ ∀ w ∈ T, w ≤ v := by
    induction hbelow with
    | root =>
        refine ⟨{root}, ?_, Finset.card_singleton _, fun w hw => ?_⟩
        · exact Finset.singleton_subset_iff.mpr
            (Finset.mem_filter.mpr ⟨hv, 0, Below.root⟩)
        · exact (Finset.mem_singleton.mp hw).le
    | @child u v k hparent hu ih =>
        obtain ⟨T, hT, hcard, hle⟩ := ih (hclosed v hv u hparent)
        have hnew : v ∉ T := fun h => (hle v h).not_gt (hlt v u hparent)
        refine ⟨insert v T, Finset.insert_subset ?_ hT, ?_, fun w hw => ?_⟩
        · exact Finset.mem_filter.mpr ⟨hv, k + 1, Below.child hparent hu⟩
        · rw [Finset.card_insert_of_notMem hnew, hcard]
        · rcases Finset.mem_insert.mp hw with rfl | hw
          · exact le_rfl
          · exact (hle w hw).trans (hlt v u hparent).le
  obtain ⟨T, hT, hcard, -⟩ := hpath
  have hle := Finset.card_le_card hT
  omega

end Descent
