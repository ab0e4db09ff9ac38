/-
Properties of a trace, the list of what happened in a run, oldest first.

`AtEvery P` says that `P` held of every item and of what had happened
before it; it is kept by a run that appends one item at a time
(`atEvery_concat`). `Before a b` says that `b` happened after `a`.
-/
import Mathlib.Data.List.Basic

namespace Trace

variable {α : Type*}

/-- Every item met `P`, read at the trace before it. -/
def AtEvery (P : List α → α → Prop) (tr : List α) : Prop :=
  ∀ pre x post, tr = pre ++ x :: post → P pre x

@[simp] theorem atEvery_nil (P : List α → α → Prop) : AtEvery P [] := by
  intro pre x post h
  simp at h

/-- An item of a trace that got longer is an old one or the last. -/
theorem eq_concat_cases {tr pre post : List α} {x y : α}
    (h : tr ++ [x] = pre ++ y :: post) :
    (tr = pre ∧ x = y) ∨ ∃ post', tr = pre ++ y :: post' := by
  rcases List.eq_nil_or_concat post with rfl | ⟨post', z, rfl⟩
  · obtain ⟨htr, hx⟩ := List.append_inj' h rfl
    exact Or.inl ⟨htr, List.singleton_inj.mp hx⟩
  · rw [List.concat_eq_append, ← List.cons_append, ← List.append_assoc] at h
    exact Or.inr ⟨post', (List.append_inj' h rfl).1⟩

theorem atEvery_concat {P : List α → α → Prop} {tr : List α} {x : α} :
    AtEvery P (tr ++ [x]) ↔ AtEvery P tr ∧ P tr x := by
  constructor
  · intro h
    refine ⟨fun pre y post htr => ?_, h tr x [] rfl⟩
    apply h pre y (post ++ [x])
    rw [htr, List.append_assoc, List.cons_append]
  · intro h pre y post htr
    rcases eq_concat_cases htr with ⟨rfl, rfl⟩ | ⟨post', hold⟩
    · exact h.2
    · exact h.1 pre y post' hold

/-- An item of the trace, with what came before it. -/
theorem AtEvery.of_mem {P : List α → α → Prop} {tr : List α} {x : α}
    (h : AtEvery P tr) (hx : x ∈ tr) : ∃ pre post,
      tr = pre ++ x :: post ∧ P pre x := by
  obtain ⟨pre, post, htr⟩ := List.append_of_mem hx
  exact ⟨pre, post, htr, h pre x post htr⟩

/-- `b` happened after `a`. -/
def Before (a b : α) (tr : List α) : Prop := [a, b].Sublist tr

theorem before_concat {a b x : α} {tr : List α} :
    Before a b (tr ++ [x]) ↔ Before a b tr ∨ (a ∈ tr ∧ b = x) := by
  unfold Before
  rw [List.sublist_append_iff]
  constructor
  · intro h
    obtain ⟨l₁, l₂, heq, h₁, h₂⟩ := h
    rcases l₁ with _ | ⟨c, _ | ⟨d, l₁⟩⟩
    · rw [List.nil_append] at heq
      rw [← heq] at h₂
      exact absurd h₂.length_le (by simp)
    · simp only [List.cons_append, List.nil_append, List.cons.injEq] at heq
      obtain ⟨rfl, rfl⟩ := heq
      rw [List.singleton_sublist] at h₁ h₂
      exact Or.inr ⟨h₁, List.mem_singleton.mp h₂⟩
    · simp only [List.cons_append, List.cons.injEq, List.nil_eq_append_iff]
        at heq
      obtain ⟨rfl, rfl, rfl, -⟩ := heq
      exact Or.inl h₁
  · intro h
    rcases h with h | ⟨ha, rfl⟩
    · exact ⟨[a, b], [], rfl, h, List.nil_sublist _⟩
    · exact ⟨[a], [b], rfl, List.singleton_sublist.mpr ha,
        List.Sublist.refl _⟩

theorem Before.mem_left {a b : α} {tr : List α} (h : Before a b tr) :
    a ∈ tr := h.subset List.mem_cons_self

/-- What happened in a part of the trace happened in the trace. -/
theorem Before.mono {a b : α} {tr tr' : List α} (h : Before a b tr)
    (hsub : tr.Sublist tr') : Before a b tr' :=
  List.Sublist.trans h hsub

/-- Items that share a label no two of a trace share are one item. -/
theorem eq_of_nodup_filterMap {β : Type*} {f : α → Option β} {tr : List α}
    (h : (tr.filterMap f).Nodup) {a b : α} (ha : a ∈ tr) (hb : b ∈ tr)
    {y : β} (hfa : f a = some y) (hfb : f b = some y) : a = b := by
  induction tr with
  | nil => cases ha
  | cons x tr ih =>
      have hx : ∀ c ∈ tr, f x = some y → f c = some y → False := by
        intro c hc hfx hfc
        rw [List.filterMap_cons_some hfx, List.nodup_cons] at h
        exact h.1 (List.mem_filterMap.mpr ⟨c, hc, hfc⟩)
      rcases List.mem_cons.mp ha with rfl | ha'
      · rcases List.mem_cons.mp hb with rfl | hb'
        · rfl
        · exact (hx b hb' hfa hfb).elim
      · rcases List.mem_cons.mp hb with rfl | hb'
        · exact (hx a ha' hfb hfa).elim
        · apply ih _ ha' hb'
          exact h.sublist ((List.sublist_cons_self x tr).filterMap f)

end Trace
