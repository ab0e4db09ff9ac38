/-
Text in fields: a list cut at a separator, with a limit on the number of
cuts.

# What the module packages

- cutting off a field (`split_append`) and cutting none (`split_zero`),
  from which the fields of a text that was put together are computed;
- no field but the one the limit leaves whole contains the separator
  (`notMem_of_getElem?`), so a text put together from a field that does is
  not cut back into it;
- how many fields there are (`length_split`).
-/
import Mathlib.Data.List.TakeWhile

namespace Fields

variable {α : Type*} [DecidableEq α]

/-- The fields of a text, with at most `n` cuts. -/
def split (sep : α) : Nat → List α → List (List α)
  | 0, s => [s]
  | n + 1, s =>
      if sep ∈ s then
        s.takeWhile (· ≠ sep) :: split sep n (s.dropWhile (· ≠ sep)).tail
      else [s]

variable {sep : α}

@[simp] theorem split_zero (s : List α) : split sep 0 s = [s] := rfl

/-- The first separator cuts off what is before it. -/
theorem split_append {a : List α} (ha : sep ∉ a) (n : Nat) (s : List α) :
    split sep (n + 1) (a ++ sep :: s) = a :: split sep n s := by
  have hne : ∀ x ∈ a, decide (x ≠ sep) = true := by
    intro x hx
    refine decide_eq_true fun heq => ha ?_
    rw [← heq]
    exact hx
  have hmem : sep ∈ a ++ sep :: s := by simp
  rw [split, if_pos hmem, List.takeWhile_append_of_pos hne,
    List.dropWhile_append_of_pos hne]
  simp

/-- A text put together from four fields. -/
theorem split_fields {a b c : List α} (ha : sep ∉ a) (hb : sep ∉ b)
    (hc : sep ∉ c) (d : List α) :
    split sep 3 (a ++ sep :: b ++ sep :: c ++ sep :: d) = [a, b, c, d] := by
  rw [List.append_assoc, List.append_assoc, List.cons_append,
    List.cons_append, split_append ha, split_append hb, split_append hc,
    split_zero]

/-- A field cut off contains no separator. -/
theorem notMem_of_getElem? {n i : Nat} {s f : List α} (hi : i < n)
    (hf : (split sep n s)[i]? = some f) : sep ∉ f := by
  induction n generalizing i s with
  | zero => exact absurd hi (Nat.not_lt_zero i)
  | succ n ih =>
      rw [split] at hf
      split at hf
      · cases i with
        | zero =>
            rw [List.getElem?_cons_zero, Option.some.injEq] at hf
            intro hmem
            rw [← hf] at hmem
            simpa using List.mem_takeWhile_imp hmem
        | succ i =>
            rw [List.getElem?_cons_succ] at hf
            exact ih (Nat.lt_of_succ_lt_succ hi) hf
      · next hnot =>
        cases i with
        | zero =>
            rw [List.getElem?_cons_zero, Option.some.injEq] at hf
            rw [← hf]
            exact hnot
        | succ i => simp at hf

/-- A text with more than `n` separators is cut `n` times. -/
theorem length_split {n : Nat} {s : List α} (h : n ≤ s.count sep) :
    (split sep n s).length = n + 1 := by
  induction n generalizing s with
  | zero => rfl
  | succ n ih =>
      have hmem : sep ∈ s := List.count_pos_iff.mp (by omega)
      rw [split, if_pos hmem, List.length_cons, ih]
      -- what is cut off held one separator
      have hcount : s.count sep = (s.takeWhile (· ≠ sep)).count sep
          + (s.dropWhile (· ≠ sep)).count sep := by
        rw [← List.count_append, List.takeWhile_append_dropWhile]
      have hnone : (s.takeWhile (· ≠ sep)).count sep = 0 := by
        refine List.count_eq_zero.mpr fun hsep => ?_
        simpa using List.mem_takeWhile_imp hsep
      have htail : (s.dropWhile (· ≠ sep)).count sep
          ≤ (s.dropWhile (· ≠ sep)).tail.count sep + 1 := by
        cases s.dropWhile (· ≠ sep) with
        | nil => simp
        | cons x xs =>
            rw [List.count_cons, List.tail_cons]
            split <;> omega
      omega

end Fields
