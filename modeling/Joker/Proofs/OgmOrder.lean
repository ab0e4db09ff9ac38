/-
Which originator message the table keeps.

A message carries a sequence number, and `ogm_process` does not look at
it: the row of an originator is that of the message processed last
(`lookup_processed`). So the row is that of the newest message exactly
when the last one processed says the same (`newest_ogm_kept_iff`), and the
order of processing does not matter exactly when all messages say the
same.
-/
import Joker.Proofs.Candidate

namespace Joker

open Transition NeighborTable

/-- A message as it is processed: when, and with what received power. -/
abbrev Received := TimePoint × Ogm × Rat

/-- What a message says about the link. -/
def report (x : Received) : UInt8 × Rat := (x.2.1.tq_reported, x.2.2)

/-- What the row of an address says about the link. -/
def row_report (t : NeighborTable) (m : MacAddress) : Option (UInt8 × Rat) :=
  (t.Lookup m).map fun e => (e.tq_recv, e.rx_power_dbm)

/-- The table after messages were processed in order. -/
def processed (t : NeighborTable) (xs : List Received) : NeighborTable :=
  exec (fun t x => ogm_process x.2.1 t x.2.2 x.1) t xs

/-- The messages of one originator. -/
def from_originator (m : MacAddress) (xs : List Received) : List Received :=
  xs.filter fun x => x.2.1.originator = m

/-- No message of the list is newer. -/
def Newest (xs : List Received) (x : Received) : Prop :=
  x ∈ xs ∧ ∀ y ∈ xs, y.2.1.sequence_number ≤ x.2.1.sequence_number

variable {t : NeighborTable} {m : MacAddress} {xs ys : List Received}

/-- The row of an originator is that of its last message. -/
theorem lookup_processed (t : NeighborTable) (m : MacAddress)
    (xs : List Received) :
    (processed t xs).Lookup m
      = ((from_originator m xs).getLast?.map row).or (t.Lookup m) := by
  unfold processed
  induction xs using List.reverseRecOn with
  | nil => rfl
  | append_singleton xs x ih =>
      have hrow : (row x).mac = x.2.1.originator := rfl
      rw [exec_concat]
      show (NeighborTable.Update _ (row x)).Lookup m = _
      rw [lookup_Update, hrow]
      unfold from_originator at ih ⊢
      rw [List.filter_append]
      by_cases hm : m = x.2.1.originator
      · simp [hm]
      · simp [hm, Ne.symm hm, ih]

theorem row_report_processed (t : NeighborTable) (m : MacAddress)
    (xs : List Received) :
    row_report (processed t xs) m
      = ((from_originator m xs).getLast?.map report).or (row_report t m) := by
  unfold row_report
  rw [lookup_processed]
  cases (from_originator m xs).getLast? <;> rfl

/-- Messages processed in another order, at whatever times. -/
def Reordered (xs ys : List Received) : Prop :=
  (ys.map Prod.snd).Perm (xs.map Prod.snd)

/-- The same messages of one originator are among them. -/
theorem Reordered.mem_report (h : Reordered xs ys) {y : Received}
    (hy : y ∈ from_originator m ys) :
    ∃ x ∈ from_originator m xs, report x = report y := by
  obtain ⟨hy, hm⟩ := List.mem_filter.mp hy
  have hmem : y.2 ∈ xs.map Prod.snd := h.subset (List.mem_map_of_mem hy)
  obtain ⟨x, hx, heq⟩ := List.mem_map.mp hmem
  refine ⟨x, List.mem_filter.mpr ⟨hx, ?_⟩, ?_⟩
  · rw [heq]
    exact hm
  · unfold report
    rw [heq]

/-- Any message can be the last. -/
theorem exists_reordered_last {x : Received} (hx : x ∈ from_originator m xs) :
    ∃ ys, Reordered xs ys ∧ (from_originator m ys).getLast? = some x := by
  obtain ⟨hmem, hm⟩ := List.mem_filter.mp hx
  obtain ⟨pre, post, rfl⟩ := List.append_of_mem hmem
  refine ⟨pre ++ post ++ [x], List.Perm.map _ ?_, ?_⟩
  · rw [List.append_assoc]
    exact List.Perm.append_left pre (List.perm_append_singleton x post)
  · unfold from_originator
    rw [List.filter_append, List.filter_singleton, hm]
    exact List.getLast?_concat

/-- A row that is the same after every reordering is that of each message,
for each can be the last. -/
theorem report_eq_of_reordered
    (h : ∀ ys, Reordered xs ys →
      row_report (processed t ys) m = row_report (processed t xs) m)
    {x : Received} (hx : x ∈ from_originator m xs) :
    some (report x) = row_report (processed t xs) m := by
  obtain ⟨ys, hperm, hlast⟩ := exists_reordered_last hx
  have hys := h ys hperm
  rw [row_report_processed, hlast] at hys
  exact hys

/-- Messages that all say the same make the same row in every order. -/
theorem row_report_reordered
    (h : ∀ x ∈ from_originator m xs, ∀ y ∈ from_originator m xs,
      report x = report y) (hperm : Reordered xs ys) :
    row_report (processed t ys) m = row_report (processed t xs) m := by
  rw [row_report_processed, row_report_processed]
  cases hys : (from_originator m ys).getLast? with
  | some y =>
      obtain ⟨x, hx, hxy⟩ := hperm.mem_report (List.mem_of_getLast? hys)
      cases hxs : (from_originator m xs).getLast? with
      | none =>
          rw [List.getLast?_eq_none_iff.mp hxs] at hx
          exact absurd hx List.not_mem_nil
      | some last =>
          have hlast := h x hx last (List.mem_of_getLast? hxs)
          simp [← hxy, hlast]
  | none =>
      cases hxs : (from_originator m xs).getLast? with
      | none => rfl
      | some last =>
          have hback : Reordered ys xs := hperm.symm
          obtain ⟨y, hy, -⟩ := hback.mem_report (List.mem_of_getLast? hxs)
          rw [List.getLast?_eq_none_iff.mp hys] at hy
          exact absurd hy List.not_mem_nil

/-- The row says what the newest message of its originator says exactly if
the last message processed does. And it says the same in whatever order
the messages are processed exactly if all of them say the same. -/
theorem newest_ogm_kept_iff (t : NeighborTable) (m : MacAddress)
    (xs : List Received) :
    ((∀ x, Newest (from_originator m xs) x →
        row_report (processed t xs) m = some (report x))
      ↔ ∀ x, Newest (from_originator m xs) x →
        ∀ last, (from_originator m xs).getLast? = some last →
          report last = report x)
    ∧ ((∀ ys, Reordered xs ys →
        row_report (processed t ys) m = row_report (processed t xs) m)
      ↔ ∀ x ∈ from_originator m xs, ∀ y ∈ from_originator m xs,
        report x = report y) := by
  constructor
  · refine forall_congr' fun x => forall_congr' fun hx => ?_
    rw [row_report_processed]
    cases hlast : (from_originator m xs).getLast? with
    | none =>
        rw [List.getLast?_eq_none_iff.mp hlast] at hx
        exact absurd hx.1 List.not_mem_nil
    | some last => simp
  · constructor
    · intro h x hx y hy
      exact Option.some.inj ((report_eq_of_reordered h hx).trans
        (report_eq_of_reordered h hy).symm)
    · intro h ys hperm
      exact row_report_reordered h hperm

/-- The message with sequence number 2 overtakes the one with 1. -/
def overtaken : List Received :=
  [(0, ⟨first_originator, 2, 200, 8⟩, -50),
    (1, ⟨first_originator, 1, 100, 8⟩, -60)]

/-- The row is that of the old message. -/
theorem old_ogm_overwrites :
    (overtaken.map fun x => x.2.1.sequence_number).Nodup
    ∧ ¬ (∀ x, Newest (from_originator first_originator overtaken) x →
      row_report (processed {} overtaken) first_originator
        = some (report x)) := by
  refine ⟨by decide, fun h => ?_⟩
  have hnewest : Newest (from_originator first_originator overtaken)
      (0, ⟨first_originator, 2, 200, 8⟩, -50) := by
    refine ⟨List.mem_cons_self, fun y hy => ?_⟩
    rcases List.mem_cons.mp hy with rfl | hy
    · exact UInt32.le_refl _
    · rw [List.mem_singleton.mp hy]
      decide
  have hrow := h _ hnewest
  rw [row_report_processed] at hrow
  revert hrow
  decide

end Joker
