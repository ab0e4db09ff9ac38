/-
A bounded recency log, read from its history of touches and sweeps.

# What is in the log

`mem_keys_log_iff`: a key is in the log exactly when it was touched,
fewer than `capacity` distinct other keys were touched since its last
touch, and no sweep since then found the time of that touch stale. The
times of the touches never go back, and a sweep that finds a time stale
finds every earlier time stale; nothing relates the sweeps to the
touches.

One direction follows the key from its last touch on
(`HeldSince.exec`). The other reads the history off the log: `Tells`
says the entries are sorted by time, that each carries the time of its
key's last touch, and that the keys behind it are the keys touched
since.
-/
import Joker.Lib.Recency
import Joker.Lib.Transition
import Mathlib.Data.List.Induction

namespace Recency

open Transition

variable {κ τ : Type*} {capacity : Nat}

-- ======================================================== the histories

/-- What is done to a log. -/
inductive Op (κ τ : Type*) where
  | touch (k : κ) (t : τ)
  | sweep (stale : τ → Bool)

/-- The key and time of a touch. -/
def Op.touch? : Op κ τ → Option (κ × τ)
  | .touch k t => some (k, t)
  | .sweep _ => none

/-- The touches of a history, in order. -/
def touches (ops : List (Op κ τ)) : List (κ × τ) := ops.filterMap Op.touch?

theorem touches_append (as bs : List (Op κ τ)) :
    touches (as ++ bs) = touches as ++ touches bs := List.filterMap_append

/-- The log with nothing in it. -/
def empty : Recency κ τ capacity := ⟨[], List.nodup_nil, Nat.zero_le _⟩

variable [DecidableEq κ]

/-- One operation. -/
def apply (hc : 0 < capacity) (r : Recency κ τ capacity) :
    Op κ τ → Recency κ τ capacity
  | .touch k t => r.touch hc k t
  | .sweep stale => r.sweep stale

/-- The log after a history. -/
def log (hc : 0 < capacity) (ops : List (Op κ τ)) : Recency κ τ capacity :=
  exec (apply hc) empty ops

/-- The keys touched in a history. -/
def touchedKeys (ops : List (Op κ τ)) : Finset κ :=
  ((touches ops).map Prod.fst).toFinset

theorem touchedKeys_append (as bs : List (Op κ τ)) :
    touchedKeys (as ++ bs) = touchedKeys as ∪ touchedKeys bs := by
  unfold touchedKeys
  rw [touches_append, List.map_append, List.toFinset_append]

@[simp] theorem touchedKeys_touch (k : κ) (t : τ) :
    touchedKeys [(.touch k t : Op κ τ)] = {k} := rfl

@[simp] theorem touchedKeys_sweep (stale : τ → Bool) :
    touchedKeys [(.sweep stale : Op κ τ)] = ∅ := rfl

/-- The last touch of the key was at `t`, and `bs` is what followed. -/
def LastTouch (ops : List (Op κ τ)) (k : κ) (t : τ) (bs : List (Op κ τ)) :
    Prop :=
  (∃ as, ops = as ++ .touch k t :: bs) ∧ k ∉ touchedKeys bs

theorem LastTouch.mem_touches {ops : List (Op κ τ)} {k : κ} {t : τ}
    {bs : List (Op κ τ)} (h : LastTouch ops k t bs) :
    (k, t) ∈ touches ops := by
  obtain ⟨⟨as, rfl⟩, -⟩ := h
  rw [touches_append]
  exact List.mem_append_right _ List.mem_cons_self

/-- A last touch is one still after an operation that touches another
key, or none. -/
theorem LastTouch.concat {ops : List (Op κ τ)} {k : κ} {t : τ}
    {bs : List (Op κ τ)} (h : LastTouch ops k t bs) {op : Op κ τ}
    (hop : k ∉ touchedKeys [op]) :
    LastTouch (ops ++ [op]) k t (bs ++ [op]) := by
  obtain ⟨⟨as, rfl⟩, hk⟩ := h
  refine ⟨⟨as, by rw [List.append_assoc, List.cons_append]⟩, ?_⟩
  rw [touchedKeys_append]
  exact fun hmem => (Finset.mem_union.mp hmem).elim hk hop

-- ============================================== from the last touch on

variable [LE τ]

/-- Operations that do not touch a held key leave it held, until
`capacity` others were touched or a sweep finds a time stale that is not
earlier than the touch. -/
theorem HeldSince.exec {k : κ} {t₀ : τ} (hc : 0 < capacity)
    (bs : List (Op κ τ)) :
    ∀ {r : Recency κ τ capacity} {others : Finset κ},
      r.HeldSince k t₀ others → k ∉ touchedKeys bs →
      (exec (apply hc) r bs).HeldSince k t₀ (others ∪ touchedKeys bs)
        ∨ capacity ≤ ((others ∪ touchedKeys bs).erase k).card
        ∨ ∃ stale t, .sweep stale ∈ bs ∧ t₀ ≤ t ∧ stale t = true := by
  induction bs with
  | nil =>
      intro r others h _
      refine Or.inl ?_
      show r.HeldSince k t₀ (others ∪ ∅)
      rw [Finset.union_empty]
      exact h
  | cons op bs ih =>
      intro r others h hk
      have hsplit : touchedKeys (op :: bs)
          = touchedKeys [op] ∪ touchedKeys bs := touchedKeys_append [op] bs
      rw [hsplit] at hk ⊢
      rw [Finset.mem_union, not_or] at hk
      -- a later failure is one of the whole history
      have hlater : ∀ {stale t}, (.sweep stale : Op κ τ) ∈ bs → t₀ ≤ t →
          stale t = true →
          ∃ stale t, (.sweep stale : Op κ τ) ∈ op :: bs ∧ t₀ ≤ t
            ∧ stale t = true :=
        fun hmem ht hstale => ⟨_, _, List.mem_cons_of_mem _ hmem, ht, hstale⟩
      cases op with
      | touch q t =>
          have hq : q ≠ k := by
            intro heq
            rw [touchedKeys_touch, heq] at hk
            exact hk.1 (Finset.mem_singleton_self k)
          rw [touchedKeys_touch, ← Finset.union_assoc, Finset.union_comm others,
            ← Finset.insert_eq]
          rcases h.touch hc hq t with h | hfull
          · rcases ih h hk.2 with h | hfull | ⟨stale, t', hmem, ht, hstale⟩
            · exact Or.inl h
            · exact Or.inr (Or.inl hfull)
            · exact Or.inr (Or.inr (hlater hmem ht hstale))
          · refine Or.inr (Or.inl (hfull.trans (Finset.card_le_card ?_)))
            exact Finset.erase_subset_erase k Finset.subset_union_left
      | sweep stale =>
          rw [touchedKeys_sweep, Finset.empty_union]
          rcases h.sweep stale with h | ⟨t, ht, hstale⟩
          · rcases ih h hk.2 with h | hfull | ⟨stale, t', hmem, ht, hstale⟩
            · exact Or.inl h
            · exact Or.inr (Or.inl hfull)
            · exact Or.inr (Or.inr (hlater hmem ht hstale))
          · exact Or.inr (Or.inr ⟨stale, t, List.mem_cons_self, ht, hstale⟩)

-- ================================================= what the log tells

/-- The entries of the log, read as its history: sorted by time, each
with the time of its key's last touch, and behind it the keys touched
since, which no sweep has found stale. -/
structure Tells (ops : List (Op κ τ)) (r : Recency κ τ capacity) : Prop where
  sorted : r.entries.Pairwise fun a b => a.2 ≤ b.2
  since : ∀ front k t back, r.entries = front ++ (k, t) :: back →
    ∃ bs, LastTouch ops k t bs
      ∧ (∀ q, q ∈ touchedKeys bs ↔ q ∈ back.map Prod.fst)
      ∧ ∀ stale, .sweep stale ∈ bs → stale t = false

theorem tells_empty :
    Tells ([] : List (Op κ τ)) (empty : Recency κ τ capacity) := by
  refine ⟨List.Pairwise.nil, fun front k t back h => ?_⟩
  have hlen := congrArg List.length h
  simp [empty] at hlen

omit [LE τ] in
/-- An entry after a touch is the new one, or was an entry; the keys
behind it are those that were, and the one just touched. -/
theorem touched_split {l : List (κ × τ)} {q k : κ} {t t' : τ}
    {front back : List (κ × τ)}
    (h : touched capacity q t l = front ++ (k, t') :: back) :
    (back = [] ∧ k = q ∧ t' = t) ∨ ∃ F B, l = F ++ (k, t') :: B ∧ k ≠ q
      ∧ ∀ x, x ∈ back.map Prod.fst ↔ x ∈ B.map Prod.fst ∨ x = q := by
  unfold touched at h
  rcases List.eq_nil_or_concat back with rfl | ⟨back, e, rfl⟩
  · have heq := (List.append_inj' h rfl).2
    injection heq with heq
    injection heq with hk ht
    exact Or.inl ⟨rfl, hk.symm, ht.symm⟩
  · rw [List.concat_eq_append, ← List.cons_append, ← List.append_assoc] at h
    obtain ⟨hl, he⟩ := List.append_inj' h rfl
    injection he with he
    subst he
    have hkeys : ∀ B : List (κ × τ), (∀ x, x ∈ back.map Prod.fst ∨ x = q
        ↔ x ∈ B.map Prod.fst ∨ x = q) → ∀ x, x ∈ (back.concat (q, t)).map
        Prod.fst ↔ x ∈ B.map Prod.fst ∨ x = q := by
      intro B hB x
      rw [← hB x, List.concat_eq_append, List.map_append, List.mem_append]
      simp
    clear h
    refine Or.inr ?_
    split at hl
    · -- the touched key moved to the back
      obtain ⟨F, R, rfl, -, hR⟩ := List.filter_eq_append_iff.mp hl
      obtain ⟨F', B, rfl, -, hk, hB⟩ := List.filter_eq_cons_iff.mp hR
      refine ⟨F ++ F', B, by rw [List.append_assoc],
        of_decide_eq_true hk, hkeys B fun x => ?_⟩
      rw [← hB]
      by_cases hx : x = q
      · exact iff_of_true (Or.inr hx) (Or.inr hx)
      · refine or_congr_left ?_
        simp only [List.mem_map, List.mem_filter]
        constructor
        · intro hall
          obtain ⟨e, ⟨he, -⟩, rfl⟩ := hall
          exact ⟨e, he, rfl⟩
        · intro hall
          obtain ⟨e, he, rfl⟩ := hall
          exact ⟨e, ⟨he, decide_eq_true hx⟩, rfl⟩
    · -- a new key, at the expense of the oldest in a full log
      next hq =>
      have hne : (k, t') ∈ l → k ≠ q := by
        intro hmem heq
        exact hq (heq ▸ List.mem_map_of_mem hmem)
      have hmem : (k, t') ∈ l := by
        refine (makeRoom_sublist capacity l).subset ?_
        rw [hl]
        exact List.mem_append_right _ List.mem_cons_self
      unfold makeRoom at hl
      split at hl
      · cases l with
        | nil => exact absurd hmem List.not_mem_nil
        | cons e l =>
            rw [List.tail_cons] at hl
            exact ⟨e :: front, back, by rw [hl]; rfl, hne hmem,
              hkeys back fun _ => Iff.rfl⟩
      · exact ⟨front, back, hl, hne hmem, hkeys back fun _ => Iff.rfl⟩

/-- A touch that is not earlier than those before keeps what the log
tells. -/
theorem Tells.touch {ops : List (Op κ τ)} {r : Recency κ τ capacity}
    (h : Tells ops r) (hc : 0 < capacity) (q : κ) (t : τ)
    (hlast : ∀ e ∈ touches ops, e.2 ≤ t) :
    Tells (ops ++ [.touch q t]) (r.touch hc q t) := by
  refine ⟨?_, fun front k t' back hl => ?_⟩
  · show (touched capacity q t r.entries).Pairwise _
    have hold : ∀ {l : List (κ × τ)}, l.Sublist r.entries →
        (l ++ [(q, t)]).Pairwise fun a b => a.2 ≤ b.2 := by
      intro l hl
      refine List.pairwise_append.mpr ⟨h.sorted.sublist hl,
        List.pairwise_singleton _ _, fun e he e' he' => ?_⟩
      rw [List.mem_singleton.mp he']
      obtain ⟨front, back, hsplit⟩ := List.append_of_mem (hl.subset he)
      obtain ⟨bs, hbs, -⟩ := h.since front e.1 e.2 back hsplit
      exact hlast e hbs.mem_touches
    unfold touched
    split
    · exact hold List.filter_sublist
    · exact hold (makeRoom_sublist _ _)
  · rcases touched_split hl with ⟨rfl, rfl, rfl⟩ | ⟨F, B, hF, hne, hback⟩
    · exact ⟨[], ⟨⟨ops, rfl⟩, Finset.notMem_empty _⟩, fun q => Iff.rfl.trans
        (iff_of_false (Finset.notMem_empty _) List.not_mem_nil),
        fun _ hmem => absurd hmem List.not_mem_nil⟩
    · obtain ⟨bs, hbs, hkeys, hfresh⟩ := h.since F k t' B hF
      refine ⟨_, hbs.concat (by simpa using hne), fun x => ?_, ?_⟩
      · rw [touchedKeys_append, Finset.mem_union, hkeys x, hback x]
        simp
      · intro stale hmem
        rcases List.mem_append.mp hmem with hmem | hmem
        · exact hfresh stale hmem
        · cases List.mem_singleton.mp hmem

/-- A sweep that finds a time stale only with all earlier ones keeps
what the log tells. -/
theorem Tells.sweep {ops : List (Op κ τ)} {r : Recency κ τ capacity}
    (h : Tells ops r) (stale : τ → Bool)
    (hmono : ∀ t t', t ≤ t' → stale t' = true → stale t = true) :
    Tells (ops ++ [.sweep stale]) (r.sweep stale) := by
  refine ⟨h.sorted.sublist (List.dropWhile_sublist _),
    fun front k t back hl => ?_⟩
  have hsplit := List.takeWhile_append_dropWhile
    (p := fun e : κ × τ => stale e.2) (l := r.entries)
  replace hl : r.entries.dropWhile (fun e => stale e.2)
    = front ++ (k, t) :: back := hl
  -- the first entry left is fresh, and none after it is older
  have hfresh : stale t = false := by
    have hhead : ∀ e l, r.entries.dropWhile (fun e => stale e.2) = e :: l →
        stale e.2 = false := by
      intro e l he
      have hnot := List.head_dropWhile_not (fun e : κ × τ => stale e.2)
        (l := r.entries) (by rw [he]; exact List.cons_ne_nil _ _)
      simpa only [he, List.head_cons] using hnot
    cases front with
    | nil => exact hhead _ _ hl
    | cons e front =>
        have he := hhead _ _ hl
        have hsorted := h.sorted.sublist (List.dropWhile_sublist
          (fun e : κ × τ => stale e.2))
        rw [hl, List.cons_append, List.pairwise_cons] at hsorted
        have hle := hsorted.1 (k, t)
          (List.mem_append_right _ List.mem_cons_self)
        cases hs : stale t with
        | false => rfl
        | true =>
            rw [hmono _ _ hle hs] at he
            cases he
  rw [hl, ← List.append_assoc] at hsplit
  obtain ⟨bs, hbs, hkeys, hold⟩ := h.since _ k t back hsplit.symm
  have hnone : k ∉ touchedKeys [.sweep stale] := by simp
  refine ⟨_, hbs.concat hnone, fun x => ?_, ?_⟩
  · rw [touchedKeys_append, touchedKeys_sweep, Finset.union_empty]
    exact hkeys x
  · intro stale' hmem
    rcases List.mem_append.mp hmem with hmem | hmem
    · exact hold stale' hmem
    · injection List.mem_singleton.mp hmem with heq
      rw [heq]
      exact hfresh

/-- A history whose touches never go back in time, with sweeps that are
stale downwards. -/
structure InOrder (ops : List (Op κ τ)) : Prop where
  touches : ((touches ops).map Prod.snd).Pairwise (· ≤ ·)
  sweeps : ∀ stale, .sweep stale ∈ ops →
    ∀ t t', t ≤ t' → stale t' = true → stale t = true

/-- The log tells its history. -/
theorem tells_log (hc : 0 < capacity) (ops : List (Op κ τ))
    (hops : InOrder ops) : Tells ops (log hc ops) := by
  induction ops using List.reverseRecOn with
  | nil => exact tells_empty
  | append_singleton ops op ih =>
      have htimes := hops.touches
      rw [touches_append, List.map_append, List.pairwise_append] at htimes
      have hold := ih ⟨htimes.1, fun stale hmem =>
        hops.sweeps stale (List.mem_append_left _ hmem)⟩
      unfold log
      rw [exec_concat]
      cases op with
      | touch q t =>
          refine hold.touch hc q t fun e he => ?_
          exact htimes.2.2 e.2 (List.mem_map_of_mem he) t List.mem_cons_self
      | sweep stale =>
          exact hold.sweep stale (hops.sweeps stale
            (List.mem_append_right _ List.mem_cons_self))

-- ========================================================= the iff

/-- What is in the log after a history. -/
theorem mem_keys_log_iff (hc : 0 < capacity) (hrefl : ∀ t : τ, t ≤ t)
    {ops : List (Op κ τ)} (hops : InOrder ops) (k : κ) :
    k ∈ (log hc ops).keys
      ↔ ∃ t bs, LastTouch ops k t bs ∧ (touchedKeys bs).card < capacity
        ∧ ∀ stale, .sweep stale ∈ bs → stale t = false := by
  constructor
  · intro hk
    obtain ⟨⟨k', t⟩, he, rfl⟩ := List.mem_map.mp hk
    obtain ⟨front, back, hl⟩ := List.append_of_mem he
    obtain ⟨bs, hbs, hkeys, hfresh⟩ :=
      (tells_log hc ops hops).since front k' t back hl
    refine ⟨t, bs, hbs, ?_, hfresh⟩
    have hsub : touchedKeys bs = (back.map Prod.fst).toFinset := by
      ext q
      rw [hkeys q, List.mem_toFinset]
    have hlen := (log hc ops).length_le
    rw [hl, List.length_append, List.length_cons] at hlen
    have hcard := List.toFinset_card_le (back.map Prod.fst)
    rw [List.length_map] at hcard
    rw [hsub]
    omega
  · intro hall
    obtain ⟨t, bs, ⟨⟨as, rfl⟩, hk⟩, hcard, hfresh⟩ := hall
    have hself := heldSince_touch_self hc (log hc as) k
      (hrefl t) ∅
    unfold log
    rw [exec_append, exec_cons]
    rcases hself.exec hc bs hk with hheld | hfull | ⟨stale, t', hmem, ht, hs⟩
    · exact hheld.mem
    · rw [Finset.empty_union, Finset.erase_eq_of_notMem hk] at hfull
      exact absurd hfull (Nat.not_le.mpr hcard)
    · have hstale := hops.sweeps stale (List.mem_append_right _
        (List.mem_cons_of_mem _ hmem)) t t' ht hs
      rw [hfresh stale hmem] at hstale
      cases hstale

end Recency
