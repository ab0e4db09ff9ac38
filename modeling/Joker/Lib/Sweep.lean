/-
Erasing from a map while iterating over it: the loop

    for (it = m.begin(); it != m.end(); )
      if (drop(it)) it = m.erase(it); else ++it;

over an association list with distinct keys. Erasing at `it` leaves the
iterator where it is, on what was the next entry; nothing is skipped and
nothing is met twice, so the loop is a filter (`entries_sweep`), and what
it does to one key depends on that key's entry alone
(`lookup_sweep_eq_some`).
-/
import Mathlib.Data.List.AList

namespace Sweep

variable {α β : Type*} [DecidableEq α] (drop : α → β → Bool)

/-- The loop with the iterator on entry number `it`, for at most the given
number of turns. -/
def loop : Nat → Nat → AList (fun _ : α => β) → AList fun _ : α => β
  | 0, _, m => m
  | turns + 1, it, m =>
      match m.entries[it]? with
      | none => m
      | some e =>
          if drop e.1 e.2 then loop turns it (m.erase e.1)
          else loop turns (it + 1) m

/-- The whole loop: every turn passes or erases one entry. -/
def sweep (m : AList fun _ : α => β) : AList fun _ : α => β :=
  loop drop m.entries.length 0 m

/-- Erasing the entry the iterator is on. -/
theorem entries_erase_at {m : AList fun _ : α => β}
    {kept rest : List (Sigma fun _ : α => β)} {e : Sigma fun _ : α => β}
    (h : m.entries = kept ++ e :: rest) :
    (m.erase e.1).entries = kept ++ rest := by
  have hnd := m.nodupKeys
  rw [h, List.nodupKeys_middle, List.nodupKeys_cons, List.keys_append,
    List.mem_append, not_or] at hnd
  have hkept : e.1 ∉ kept.keys := hnd.1.1
  show m.entries.kerase e.1 = _
  rw [h, List.kerase_append_right hkept, List.kerase_cons_eq rfl]

/-- The loop part way: what is behind the iterator stays, and of what is
ahead what is not to be dropped. -/
theorem entries_loop (rest : List (Sigma fun _ : α => β)) :
    ∀ (turns : Nat) (kept : List (Sigma fun _ : α => β))
      (m : AList fun _ : α => β), rest.length ≤ turns →
      m.entries = kept ++ rest →
      (loop drop turns kept.length m).entries
        = kept ++ rest.filter fun e => !drop e.1 e.2 := by
  induction rest with
  | nil =>
      intro turns kept m _ hm
      rw [List.append_nil] at hm
      cases turns with
      | zero => simp [loop, hm]
      | succ turns => simp [loop, hm]
  | cons e rest ih =>
      intro turns kept m hturns hm
      obtain _ | turns := turns
      · simp at hturns
      rw [List.length_cons] at hturns
      have hget : m.entries[kept.length]? = some e := by simp [hm]
      rw [loop, hget]
      show (if drop e.1 e.2 = true then _ else _ : AList _).entries = _
      cases hdrop : drop e.1 e.2 with
      | true =>
          rw [if_pos rfl, ih turns kept _ (by omega) (entries_erase_at hm)]
          simp [hdrop]
      | false =>
          have hstep : m.entries = (kept ++ [e]) ++ rest := by simp [hm]
          have hnext := ih turns (kept ++ [e]) m (by omega) hstep
          rw [List.length_append] at hnext
          rw [if_neg (by simp)]
          simpa [hdrop] using hnext

/-- The loop is a filter. -/
theorem entries_sweep (m : AList fun _ : α => β) :
    (sweep drop m).entries = m.entries.filter fun e => !drop e.1 e.2 :=
  entries_loop drop m.entries m.entries.length [] m (Nat.le_refl _) rfl

/-- What is found after the loop was there before and is not dropped. -/
theorem lookup_sweep_eq_some {m : AList fun _ : α => β} {a : α} {b : β} :
    (sweep drop m).lookup a = some b
      ↔ m.lookup a = some b ∧ drop a b = false := by
  have hmem : ∀ m : AList fun _ : α => β,
      m.lookup a = some b ↔ (⟨a, b⟩ : Sigma fun _ : α => β) ∈ m.entries :=
    fun m => AList.mem_lookup_iff (s := m)
  rw [hmem, hmem, entries_sweep, List.mem_filter]
  simp

end Sweep
