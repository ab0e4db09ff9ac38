/-
What is picked from a list, and where a filter puts what it keeps.

An element picked by its place and what is left without it are the list in
another order (`perm_picked`).

The elements of a list that meet `P` are numbered by `ordinal`: how many
before them meet it. The number of an element is its place in the
filtered list (`getElem?_filter_ordinal`), different elements have different
numbers (`ordinal_lt`), and appending to the list gives new numbers to new
elements alone (`ordinal_append`, `le_ordinal_append`).
-/
import Mathlib.Data.List.Basic
import Mathlib.Data.List.Induction
import Mathlib.Data.List.Perm.Basic

namespace Selection

variable {α : Type*} (P : α → Bool)

-- ============================================================ one element

/-- A picked element and the rest. -/
theorem perm_cons_rest {l : List α} {i : Nat} {a : α} (h : l[i]? = some a) :
    l.Perm (a :: l.eraseIdx i) := by
  obtain ⟨hlt, hget⟩ := List.getElem?_eq_some_iff.mp h
  have hperm := List.getElem_cons_eraseIdx_perm hlt
  rw [hget] at hperm
  exact hperm.symm

/-- What is picked, if anything is there, and the rest. -/
theorem perm_picked (l : List α) (i : Nat) :
    l.Perm (l[i]?.toList ++ l.eraseIdx i) := by
  cases h : l[i]? with
  | none =>
      rw [List.eraseIdx_of_length_le (List.getElem?_eq_none_iff.mp h)]
      exact List.Perm.refl _
  | some a => exact perm_cons_rest h

-- ================================================== the place of what stays

/-- How many elements before place `i` meet `P`. -/
def ordinal (l : List α) (i : Nat) : Nat := (l.take i).countP P

variable {P} {l : List α} {i j : Nat} {a : α}

theorem ordinal_mono (h : i ≤ j) : ordinal P l i ≤ ordinal P l j :=
  ((List.take_prefix_take_left h).sublist).countP_le

/-- An element that meets `P` is counted after its place. -/
theorem ordinal_succ (hi : l[i]? = some a) (ha : P a = true) :
    ordinal P l (i + 1) = ordinal P l i + 1 := by
  unfold ordinal
  rw [List.take_add_one, hi, List.countP_append]
  simp [ha]

theorem ordinal_lt (hi : l[i]? = some a) (ha : P a = true) (h : i < j) :
    ordinal P l i < ordinal P l j := by
  calc ordinal P l i < ordinal P l i + 1 := Nat.lt_succ_self _
    _ = ordinal P l (i + 1) := (ordinal_succ hi ha).symm
    _ ≤ ordinal P l j := ordinal_mono h

theorem ordinal_inj {b : α} (hi : l[i]? = some a) (ha : P a = true)
    (hj : l[j]? = some b) (hb : P b = true)
    (h : ordinal P l i = ordinal P l j) : i = j := by
  rcases Nat.lt_trichotomy i j with hlt | heq | hgt
  · exact absurd h (Nat.ne_of_lt (ordinal_lt hi ha hlt))
  · exact heq
  · exact absurd h (Nat.ne_of_gt (ordinal_lt hj hb hgt))

/-- The number of an element is its place in the filtered list. -/
theorem getElem?_filter_ordinal (hi : l[i]? = some a) (ha : P a = true) :
    (l.filter P)[ordinal P l i]? = some a := by
  obtain ⟨hlt, hget⟩ := List.getElem?_eq_some_iff.mp hi
  have hparts : l = l.take i ++ a :: l.drop (i + 1) := by
    rw [← hget, ← List.drop_eq_getElem_cons hlt, List.take_append_drop]
  have hsplit : l.filter P
      = (l.take i).filter P ++ a :: (l.drop (i + 1)).filter P := by
    calc l.filter P = (l.take i ++ a :: l.drop (i + 1)).filter P :=
          congrArg (List.filter P) hparts
      _ = _ := by rw [List.filter_append, List.filter_cons_of_pos ha]
  rw [hsplit, ordinal, List.countP_eq_length_filter,
    List.getElem?_append_right (Nat.le_refl _), Nat.sub_self]
  rfl

theorem ordinal_append (m : List α) (h : i ≤ l.length) :
    ordinal P (l ++ m) i = ordinal P l i := by
  unfold ordinal
  rw [List.take_append_of_le_length h]

theorem le_ordinal_append (m : List α) (h : l.length ≤ i) :
    (l.filter P).length ≤ ordinal P (l ++ m) i := by
  unfold ordinal
  rw [List.take_append, List.take_of_length_le h, List.countP_append,
    List.countP_eq_length_filter]
  exact Nat.le_add_right _ _

/-- Each place of the filtered list is the number of an element. -/
theorem exists_ordinal :
    ∀ {l : List α} {j : Nat}, (l.filter P)[j]? = some a →
      ∃ i, l[i]? = some a ∧ P a = true ∧ ordinal P l i = j := by
  intro l
  induction l using List.reverseRecOn with
  | nil => intro j h; cases h
  | append_singleton l b ih =>
      intro j h
      rw [List.filter_append] at h
      rcases Nat.lt_or_ge j (l.filter P).length with hj | hj
      · rw [List.getElem?_append_left hj] at h
        obtain ⟨i, hi, ha, hplace⟩ := ih h
        have hlt := (List.getElem?_eq_some_iff.mp hi).1
        refine ⟨i, ?_, ha, ?_⟩
        · rw [List.getElem?_append_left hlt]
          exact hi
        · rw [ordinal_append [b] (Nat.le_of_lt hlt)]
          exact hplace
      · rw [List.getElem?_append_right hj] at h
        have hmem := List.mem_filter.mp (List.mem_of_getElem? h)
        obtain rfl := List.mem_singleton.mp hmem.1
        rw [List.filter_cons_of_pos hmem.2] at h
        have hlast := (List.getElem?_eq_some_iff.mp h).1
        rw [List.filter_nil, List.length_singleton] at hlast
        refine ⟨l.length, List.getElem?_concat_length, hmem.2, ?_⟩
        rw [ordinal_append [a] (Nat.le_refl _), ordinal, List.take_length,
          List.countP_eq_length_filter]
        omega

end Selection
