/-
A bounded recency log: at most `capacity` keys with the time each was
last touched, oldest first. Touching a key moves it to the back, and a
new key pushes the oldest out of a full log; a sweep drops entries from
the front while they are stale.

# How long a key stays

`HeldSince k t₀ others` says a key is in the log, was last touched at
`t₀` or later, and that whatever stands behind it is among `others`.
Touching another key extends `others`; a key that is pushed out was at
the front of a full log, so `others` had filled it
(`HeldSince.touch`). A sweep drops the key only when its time is stale
(`HeldSince.sweep`). Together: a key leaves the log only behind
`capacity` other keys or a sweep that finds it stale.
-/
import Mathlib.Data.Finset.Card
import Mathlib.Data.List.Nodup
import Mathlib.Order.Basic

/-- A recency log: keys with their times, oldest first. -/
structure Recency (κ τ : Type*) (capacity : Nat) where
  entries : List (κ × τ)
  nodup : (entries.map Prod.fst).Nodup
  length_le : entries.length ≤ capacity

namespace Recency

variable {κ τ : Type*} [DecidableEq κ] {capacity : Nat}

/-- The log without its oldest entry, if it is full. -/
def makeRoom (capacity : Nat) (l : List (κ × τ)) : List (κ × τ) :=
  if capacity ≤ l.length then l.tail else l

/-- The entries after a key is touched. -/
def touched (capacity : Nat) (k : κ) (t : τ) (l : List (κ × τ)) :
    List (κ × τ) :=
  (if k ∈ l.map Prod.fst then l.filter (·.1 ≠ k) else makeRoom capacity l)
    ++ [(k, t)]

omit [DecidableEq κ] in
theorem makeRoom_sublist (capacity : Nat) (l : List (κ × τ)) :
    (makeRoom capacity l).Sublist l := by
  unfold makeRoom
  split
  · exact List.tail_sublist l
  · exact List.Sublist.refl l

theorem touched_nodup {l : List (κ × τ)} (h : (l.map Prod.fst).Nodup)
    (k : κ) (t : τ) :
    ((touched capacity k t l).map Prod.fst).Nodup := by
  unfold touched
  rw [List.map_append, List.map_singleton]
  refine List.nodup_append.mpr ⟨?_, List.nodup_singleton k, ?_⟩
  · split
    · exact h.sublist (List.filter_sublist.map _)
    · exact h.sublist ((makeRoom_sublist capacity l).map _)
  · intro a ha b hb
    rw [List.mem_singleton.mp hb]
    rintro rfl
    split at ha
    · obtain ⟨e, he, rfl⟩ := List.mem_map.mp ha
      exact of_decide_eq_true (List.mem_filter.mp he).2 rfl
    · next hk =>
      exact hk (((makeRoom_sublist capacity l).map _).subset ha)

theorem touched_length {l : List (κ × τ)} (hc : 0 < capacity)
    (h : l.length ≤ capacity) (k : κ) (t : τ) :
    (touched capacity k t l).length ≤ capacity := by
  unfold touched makeRoom
  rw [List.length_append, List.length_singleton]
  split
  · next hk =>
    obtain ⟨e, he, rfl⟩ := List.mem_map.mp hk
    have hlt : (l.filter (·.1 ≠ e.1)).length < l.length :=
      List.length_filter_lt_length_iff_exists.mpr ⟨e, he, by simp⟩
    omega
  · split
    · rw [List.length_tail]
      omega
    · omega

/-- Touch a key. -/
def touch (hc : 0 < capacity) (r : Recency κ τ capacity) (k : κ) (t : τ) :
    Recency κ τ capacity where
  entries := touched capacity k t r.entries
  nodup := touched_nodup r.nodup k t
  length_le := touched_length hc r.length_le k t

omit [DecidableEq κ] in
/-- Drop stale entries from the front. -/
def sweep (r : Recency κ τ capacity) (stale : τ → Bool) :
    Recency κ τ capacity where
  entries := r.entries.dropWhile fun e => stale e.2
  nodup := r.nodup.sublist ((List.dropWhile_sublist _).map _)
  length_le := (List.dropWhile_sublist _).length_le.trans r.length_le

/-- Is the key in the log? -/
def keys (r : Recency κ τ capacity) : List κ := r.entries.map Prod.fst

/-- A log that is not full loses nothing to a touch. -/
theorem mem_keys_touch {r : Recency κ τ capacity} (hc : 0 < capacity)
    (hroom : r.entries.length < capacity) (k : κ) (t : τ) (q : κ) :
    q ∈ (r.touch hc k t).keys ↔ q ∈ r.keys ∨ q = k := by
  have hlist : (r.touch hc k t).keys
      = (if k ∈ r.keys then r.entries.filter (·.1 ≠ k) else r.entries).map
          Prod.fst ++ [k] := by
    show (touched capacity k t r.entries).map Prod.fst = _
    unfold touched makeRoom
    rw [if_neg (Nat.not_le.mpr hroom), List.map_append]
    rfl
  rw [hlist, List.mem_append, List.mem_singleton]
  by_cases hq : q = k
  · exact iff_of_true (Or.inr hq) (Or.inr hq)
  · refine or_congr ?_ Iff.rfl
    split
    · constructor
      · intro h
        obtain ⟨e, he, rfl⟩ := List.mem_map.mp h
        exact List.mem_map_of_mem (List.mem_filter.mp he).1
      · intro h
        obtain ⟨e, he, rfl⟩ := List.mem_map.mp h
        exact List.mem_map_of_mem
          (List.mem_filter.mpr ⟨he, decide_eq_true hq⟩)
    · exact Iff.rfl

/-- A touch brings no key but its own. -/
theorem mem_keys_of_touch {r : Recency κ τ capacity} (hc : 0 < capacity)
    {k : κ} {t : τ} {q : κ} (hq : q ∈ (r.touch hc k t).keys) :
    q ∈ r.keys ∨ q = k := by
  change q ∈ (touched capacity k t r.entries).map Prod.fst at hq
  unfold touched at hq
  rw [List.map_append, List.mem_append, List.map_singleton,
    List.mem_singleton] at hq
  refine hq.imp_left fun hmem => ?_
  split at hmem
  · exact (List.filter_sublist.map Prod.fst).subset hmem
  · exact ((makeRoom_sublist capacity r.entries).map Prod.fst).subset hmem

-- ================================================= how long a key stays

variable [LE τ]

/-- The key is in the log, last touched at `t₀` or later, and what was
touched after it is among `others`. -/
def HeldSince (r : Recency κ τ capacity) (k : κ) (t₀ : τ)
    (others : Finset κ) : Prop :=
  ∃ front t back, r.entries = front ++ (k, t) :: back ∧ t₀ ≤ t
    ∧ ∀ e ∈ back, e.1 ∈ others ∧ e.1 ≠ k

omit [DecidableEq κ] in
theorem HeldSince.mem {r : Recency κ τ capacity} {k : κ} {t₀ : τ}
    {others : Finset κ} (h : r.HeldSince k t₀ others) : k ∈ r.keys := by
  obtain ⟨front, t, back, hl, -, -⟩ := h
  unfold keys
  rw [hl, List.map_append]
  exact List.mem_append_right _ List.mem_cons_self

/-- A key just touched is held, whatever else is. -/
theorem heldSince_touch_self (hc : 0 < capacity) (r : Recency κ τ capacity)
    (k : κ) {t₀ t : τ} (ht : t₀ ≤ t) (others : Finset κ) :
    (r.touch hc k t).HeldSince k t₀ others :=
  ⟨_, t, [], rfl, ht, fun _ he => absurd he List.not_mem_nil⟩

omit [LE τ] in
/-- The keys behind a held key are as many as there are entries. -/
theorem card_ge_of_back {k : κ} {t : τ} {front back : List (κ × τ)}
    {others : Finset κ} (hnd : ((front ++ (k, t) :: back).map Prod.fst).Nodup)
    (hback : ∀ e ∈ back, e.1 ∈ others ∧ e.1 ≠ k) :
    back.length ≤ (others.erase k).card := by
  have hsub : (back.map Prod.fst).toFinset ⊆ others.erase k := by
    intro q hq
    obtain ⟨e, he, rfl⟩ := List.mem_map.mp (List.mem_toFinset.mp hq)
    exact Finset.mem_erase.mpr ⟨(hback e he).2, (hback e he).1⟩
  have hnd' : (back.map Prod.fst).Nodup := by
    refine hnd.sublist (List.Sublist.map _ ?_)
    exact (List.sublist_cons_self _ _).trans (List.sublist_append_right _ _)
  have hcard := Finset.card_le_card hsub
  rw [List.toFinset_card_of_nodup hnd', List.length_map] at hcard
  exact hcard

/-- Touching another key: the held key stays, unless `capacity` others
have been touched since. -/
theorem HeldSince.touch {r : Recency κ τ capacity} {k q : κ} {t₀ : τ}
    {others : Finset κ} (h : r.HeldSince k t₀ others) (hc : 0 < capacity)
    (hq : q ≠ k) (t : τ) :
    (r.touch hc q t).HeldSince k t₀ (insert q others)
      ∨ capacity ≤ ((insert q others).erase k).card := by
  obtain ⟨front, t', back, hl, ht, hback⟩ := h
  have hgrow : ∀ e ∈ back ++ [(q, t)], e.1 ∈ insert q others ∧ e.1 ≠ k := by
    intro e he
    rcases List.mem_append.mp he with he | he
    · exact ⟨Finset.mem_insert_of_mem (hback e he).1, (hback e he).2⟩
    · rw [List.mem_singleton.mp he]
      exact ⟨Finset.mem_insert_self _ _, hq⟩
  by_cases hmem : q ∈ r.entries.map Prod.fst
  · refine Or.inl ⟨front.filter (·.1 ≠ q), t',
      back.filter (·.1 ≠ q) ++ [(q, t)],
      ?_, ht, ?_⟩
    · show touched capacity q t r.entries = _
      unfold touched
      rw [if_pos hmem, hl, List.filter_append, List.filter_cons,
        if_pos (by simpa using hq.symm), List.append_assoc, List.cons_append]
    · intro e he
      refine hgrow e ?_
      rcases List.mem_append.mp he with he | he
      · exact List.mem_append_left _ (List.mem_filter.mp he).1
      · exact List.mem_append_right _ he
  · have hentries : (r.touch hc q t).entries
        = makeRoom capacity r.entries ++ [(q, t)] := by
      show touched capacity q t r.entries = _
      unfold touched
      rw [if_neg hmem]
    by_cases hfull : capacity ≤ r.entries.length
    · cases front with
      | nil =>
          -- the held key itself is pushed out: the log behind it is full
          refine Or.inr ?_
          have hnd : ((([] : List (κ × τ)) ++ (k, t') :: (back ++ [(q, t)])
              ).map Prod.fst).Nodup := by
            have hnodup := r.nodup
            rw [hl] at hnodup hmem
            rw [List.nil_append, ← List.cons_append, List.map_append]
            refine List.nodup_append.mpr ⟨hnodup, List.nodup_singleton _, ?_⟩
            intro a ha b hb hab
            rw [hab, List.mem_singleton.mp hb] at ha
            exact hmem ha
          have hcard := card_ge_of_back hnd hgrow
          rw [hl, List.nil_append, List.length_cons] at hfull
          rw [List.length_append, List.length_singleton] at hcard
          exact hfull.trans hcard
      | cons e front =>
          refine Or.inl ⟨front, t', back ++ [(q, t)], ?_, ht, hgrow⟩
          rw [hentries]
          unfold makeRoom
          rw [if_pos hfull, hl, List.cons_append, List.tail_cons,
            List.append_assoc, List.cons_append]
    · refine Or.inl ⟨front, t', back ++ [(q, t)], ?_, ht, hgrow⟩
      rw [hentries]
      unfold makeRoom
      rw [if_neg hfull, hl, List.append_assoc, List.cons_append]

omit [DecidableEq κ] [LE τ] in
/-- A sweep of a log cut at an entry it keeps, or of the part behind. -/
theorem dropWhile_append_cons {p : κ × τ → Bool} {e : κ × τ}
    (he : p e = false) (front back : List (κ × τ)) :
    (front ++ e :: back).dropWhile p = front.dropWhile p ++ e :: back := by
  induction front with
  | nil =>
      rw [List.nil_append, List.dropWhile_cons_of_neg (by rw [he]; exact
        Bool.false_ne_true)]
      rfl
  | cons a front ih =>
      rw [List.cons_append, List.dropWhile_cons, List.dropWhile_cons, ih]
      split <;> rfl

omit [DecidableEq κ] in
/-- A sweep: the held key stays, unless a time at or after `t₀` is
stale. -/
theorem HeldSince.sweep {r : Recency κ τ capacity} {k : κ} {t₀ : τ}
    {others : Finset κ} (h : r.HeldSince k t₀ others) (stale : τ → Bool) :
    (r.sweep stale).HeldSince k t₀ others
      ∨ ∃ t, t₀ ≤ t ∧ stale t = true := by
  obtain ⟨front, t, back, hl, ht, hback⟩ := h
  cases hs : stale t with
  | true => exact Or.inr ⟨t, ht, hs⟩
  | false =>
      refine Or.inl ⟨front.dropWhile fun e => stale e.2, t, back, ?_, ht,
        hback⟩
      show r.entries.dropWhile _ = _
      rw [hl]
      exact dropWhile_append_cons hs front back

end Recency
