/-
A list in chunks of one size, the last of them shorter.

# What the module packages

- how many chunks there are (`lt_count_iff`), none of them empty
  (`chunk_ne_nil`) and nothing beyond them (`chunk_eq_nil`);
- the chunks in order are the list (`flatMap_range`);
- and nothing less is: with some of them left out it is the list only if
  none was (`length_flatMap_range_if_lt`, `flatMap_range_if_iff`).
-/
import Mathlib.Algebra.Order.BigOperators.Group.List
import Mathlib.Algebra.BigOperators.Group.Finset.Basic
import Mathlib.Algebra.Order.BigOperators.Group.Finset

namespace Chunks

variable {α : Type*}

/-- Chunk `i`, of size `k`. -/
def chunk (k : Nat) (xs : List α) (i : Nat) : List α :=
  (xs.drop (i * k)).take k

/-- The number of chunks. -/
def count (k : Nat) (xs : List α) : Nat := (xs.length + k - 1) / k

variable {k : Nat} {xs : List α}

/-- Chunk `i` is one of them if it starts inside the list. -/
theorem lt_count_iff (hk : 0 < k) {i : Nat} :
    i < count k xs ↔ i * k < xs.length := by
  unfold count
  rw [Nat.lt_iff_add_one_le, Nat.le_div_iff_mul_le hk, Nat.succ_mul]
  omega

theorem chunk_ne_nil (hk : 0 < k) {i : Nat} (hi : i < count k xs) :
    chunk k xs i ≠ [] := by
  rw [lt_count_iff hk] at hi
  unfold chunk
  rw [← List.length_pos_iff, List.length_take, List.length_drop]
  omega

theorem chunk_eq_nil (hk : 0 < k) {i : Nat} (hi : count k xs ≤ i) :
    chunk k xs i = [] := by
  have hnot := mt (@lt_count_iff _ k xs hk i).mpr (Nat.not_lt.mpr hi)
  unfold chunk
  rw [List.drop_of_length_le (Nat.not_lt.mp hnot), List.take_nil]

/-- The first chunks are the beginning of the list. -/
theorem flatMap_range_take (n : Nat) :
    (List.range n).flatMap (chunk k xs) = xs.take (n * k) := by
  induction n with
  | zero => simp
  | succ n ih =>
      rw [List.range_succ, List.flatMap_append, ih, Nat.succ_mul,
        List.take_add]
      simp [chunk]

/-- All chunks are the list. -/
theorem flatMap_range (hk : 0 < k) {n : Nat} (hn : count k xs ≤ n) :
    (List.range n).flatMap (chunk k xs) = xs := by
  rw [flatMap_range_take]
  apply List.take_of_length_le
  exact Nat.not_lt.mp (mt (lt_count_iff hk).mpr (Nat.not_lt.mpr hn))

/-- The length of a list put together from pieces. -/
theorem length_flatMap_range (f : Nat → List α) (n : Nat) :
    ((List.range n).flatMap f).length = ∑ i ∈ Finset.range n, (f i).length := by
  induction n with
  | zero => rfl
  | succ n ih =>
      rw [List.range_succ, List.flatMap_append, List.length_append, ih,
        Finset.sum_range_succ]
      simp

/-- Put together with a chunk left out, it is too short. -/
theorem length_flatMap_range_if_lt (hk : 0 < k) {n j : Nat} {P : Nat → Prop}
    [DecidablePred P] (hj : j < count k xs) (hmiss : ¬ (j < n ∧ P j)) :
    ((List.range n).flatMap fun i => if P i then chunk k xs i else []).length
      < xs.length := by
  have hall := congrArg List.length
    (flatMap_range hk (Nat.le_refl (count k xs)))
  rw [length_flatMap_range] at hall
  have hpieces : ∀ i ∈ Finset.range n,
      (if P i then chunk k xs i else []).length
        = if P i ∧ i < count k xs then (chunk k xs i).length else 0 := by
    intro i _
    by_cases hP : P i
    · by_cases hi : i < count k xs
      · simp [hP, hi]
      · simp [hP, hi, chunk_eq_nil hk (Nat.not_lt.mp hi)]
    · simp [hP]
  rw [length_flatMap_range, Finset.sum_congr rfl hpieces, ← Finset.sum_filter,
    ← hall]
  -- the pieces that are there are chunks other than `j`
  refine Finset.sum_lt_sum_of_subset (i := j) ?_ ?_ ?_ ?_ ?_
  · intro i hi
    rw [Finset.mem_filter] at hi
    exact Finset.mem_range.mpr hi.2.2
  · exact Finset.mem_range.mpr hj
  · intro hmem
    rw [Finset.mem_filter, Finset.mem_range] at hmem
    exact hmiss ⟨hmem.1, hmem.2.1⟩
  · exact List.length_pos_iff.mpr (chunk_ne_nil hk hj)
  · intro i _ _
    exact Nat.zero_le _

/-- Put together with some chunks left out, it is the list exactly if none
of them was. -/
theorem flatMap_range_if_iff (hk : 0 < k) {n : Nat} {P : Nat → Prop}
    [DecidablePred P] :
    ((List.range n).flatMap fun i => if P i then chunk k xs i else []) = xs
      ↔ ∀ i < count k xs, i < n ∧ P i := by
  constructor
  · intro heq j hj
    by_contra hmiss
    have hshort := length_flatMap_range_if_lt hk hj hmiss
    rw [heq] at hshort
    exact Nat.lt_irrefl _ hshort
  · intro h
    have hn : count k xs ≤ n := by
      by_contra hlt
      exact Nat.lt_irrefl n (h n (Nat.not_le.mp hlt)).1
    have hsame : ∀ i, (if P i then chunk k xs i else []) = chunk k xs i := by
      intro i
      by_cases hi : i < count k xs
      · rw [if_pos (h i hi).2]
      · rw [chunk_eq_nil hk (Nat.not_lt.mp hi), ite_self]
    simp only [hsame]
    exact flatMap_range hk hn

end Chunks
