/-
Rankings: the elements of a set listed in a strict order, with no regard
to how the list was made.

# What the module packages

- a set has one ranking (`Ranking.unique`), and its elements are distinct;
- positions are the order (`Ranking.index_lt`), and so a prefix holds
  whatever precedes one of its elements (`Ranking.mem_take`);
- an element of which fewer others are ahead stands no later
  (`Ranking.index_le`).
-/
import Mathlib.Data.List.Sort

variable {α : Type*}

/-- The elements that `P` holds of, in the order `before`. -/
structure Ranking (before : α → α → Prop) (P : α → Prop) (l : List α) :
    Prop where
  mem_iff : ∀ a, a ∈ l ↔ P a
  sorted : l.Pairwise before

namespace Ranking

variable {before : α → α → Prop} {P : α → Prop} {l : List α}

/-- What stands in a prefix. -/
theorem mem_take_iff_getElem? {l : List α} {k : Nat} {a : α} :
    a ∈ l.take k ↔ ∃ i < k, l[i]? = some a := by
  simp only [List.mem_iff_getElem?, List.getElem?_take,
    Option.ite_none_right_eq_some]

/-- Who stands first is ahead. -/
theorem before_of_lt (h : Ranking before P l) {i j : Nat} {a b : α}
    (hi : l[i]? = some a) (hj : l[j]? = some b) (hij : i < j) : before a b := by
  obtain ⟨hil, hia⟩ := List.getElem?_eq_some_iff.mp hi
  obtain ⟨hjl, hjb⟩ := List.getElem?_eq_some_iff.mp hj
  have hab := List.pairwise_iff_getElem.mp h.sorted i j hil hjl hij
  rwa [hia, hjb] at hab

section Asymm

variable [Std.Asymm before]

theorem nodup (h : Ranking before P l) : l.Nodup :=
  h.sorted.imp fun {a b} hab heq => by
    subst heq
    exact Std.Asymm.asymm _ _ hab hab

theorem unique {l' : List α} (h : Ranking before P l)
    (h' : Ranking before P l') : l' = l := by
  apply h'.sorted.eq_of_mem_iff h.sorted
  intro a
  rw [h.mem_iff, h'.mem_iff]

/-- Who is ahead stands first. -/
theorem index_lt (h : Ranking before P l) {i j : Nat} {a b : α}
    (hi : l[i]? = some a) (hj : l[j]? = some b) (hab : before a b) : i < j := by
  rcases Nat.lt_trichotomy i j with hlt | heq | hgt
  · exact hlt
  · rw [heq] at hi
    rw [Option.some.inj (hi.symm.trans hj)] at hab
    exact absurd hab (Std.Asymm.asymm _ _ hab)
  · exact absurd (h.before_of_lt hj hi hgt) (Std.Asymm.asymm _ _ hab)

/-- A prefix holds whoever is ahead of one of its elements. -/
theorem mem_take (h : Ranking before P l) {k : Nat} {a b : α} (ha : P a)
    (hb : b ∈ l.take k) (hab : before a b) : a ∈ l.take k := by
  obtain ⟨i, hi⟩ := List.mem_iff_getElem?.mp ((h.mem_iff a).mpr ha)
  obtain ⟨j, hjk, hj⟩ := mem_take_iff_getElem?.mp hb
  have hij := h.index_lt hi hj hab
  exact mem_take_iff_getElem?.mpr ⟨i, Nat.lt_trans hij hjk, hi⟩

/-- An element stands no later than another one does in its ranking, if
whoever is ahead of it was ahead of the other. -/
theorem index_le {P' : α → Prop} {l' : List α} (h : Ranking before P l)
    (h' : Ranking before P' l') {a a' : α} {i : Nat} (hi : l[i]? = some a)
    (ha' : P' a') (hahead : ∀ b, P' b → before b a' → P b ∧ before b a) :
    ∃ i' ≤ i, l'[i']? = some a' := by
  obtain ⟨i', hi'⟩ := List.mem_iff_getElem?.mp ((h'.mem_iff a').mpr ha')
  refine ⟨i', ?_, hi'⟩
  have hsub : l'.take i' ⊆ l.take i := by
    intro b hb
    obtain ⟨j, hji, hj⟩ := mem_take_iff_getElem?.mp hb
    have hPb : P' b := (h'.mem_iff b).mp (List.mem_of_getElem? hj)
    obtain ⟨hP, hba⟩ := hahead b hPb (h'.before_of_lt hj hi' hji)
    obtain ⟨k, hk⟩ := List.mem_iff_getElem?.mp ((h.mem_iff b).mpr hP)
    exact mem_take_iff_getElem?.mpr ⟨k, h.index_lt hk hi hba, hk⟩
  have hnd : (l'.take i').Nodup := h'.nodup.sublist (List.take_sublist _ _)
  have hle := (List.subperm_of_subset hnd hsub).length_le
  have hlen := (List.getElem?_eq_some_iff.mp hi').1
  rw [List.length_take, List.length_take] at hle
  omega

end Asymm

end Ranking
