/-
The neighbour table, read at the addresses.

Each operation is a change of `Lookup` (`lookup_Update`,
`lookup_ExpireStale`), and a row stands under its own address all
through the runs of a table (`keyed_after`), so the rows `AllFresh`
returns are what `Lookup` finds, one an address (`mem_allFresh_iff`,
`allFresh_macs_nodup`).

In a run of discovery a sweep erases only what is stale for good: a row
that is not stale at `now` was not at an earlier reading either, and the
next message of the originator brings it back whatever was erased. So at
`now` the fresh row of an address is that of the last message from it
(`lookup_discovered_fresh`).
-/
import Joker.Model.Neighbor
import Mathlib.Data.List.Induction

namespace Joker

open Transition

namespace NeighborTable

-- ========================================================= the operations

theorem lookup_Update (t : NeighborTable) (fresh : NeighborEntry)
    (m : MacAddress) :
    (t.Update fresh).Lookup m
      = if m = fresh.mac then some fresh else t.Lookup m := by
  show (t.table.insert fresh.mac fresh).lookup m = _
  split
  · next hm =>
    rw [hm]
    exact AList.lookup_insert _
  · next hm => exact AList.lookup_insert_ne hm

/-- A row in the list of the table is what a lookup of its key finds. -/
theorem mem_entries_iff (t : NeighborTable) (m : MacAddress)
    (e : NeighborEntry) :
    (⟨m, e⟩ : Sigma fun _ => NeighborEntry) ∈ t.table.entries
      ↔ t.Lookup m = some e :=
  AList.mem_lookup_iff.symm

theorem lookup_ExpireStale (t : NeighborTable) (now expiry : TimePoint)
    (m : MacAddress) :
    (t.ExpireStale now expiry).Lookup m
      = (t.Lookup m).filter fun e => !e.IsStale now expiry := by
  refine Option.ext fun e => ?_
  rw [Option.filter_eq_some_iff, ← mem_entries_iff, ← mem_entries_iff]
  exact List.mem_filter

/-- A row stands under its own address. -/
def Keyed (t : NeighborTable) : Prop :=
  ∀ m e, t.Lookup m = some e → e.mac = m

theorem Keyed.call {t : NeighborTable} (h : Keyed t) (call : TableCall) :
    Keyed (t.call call) := by
  intro m e he
  cases call with
  | Update fresh =>
      rw [NeighborTable.call, lookup_Update] at he
      split at he
      · next hm =>
        injection he with he
        rw [← he, hm]
      · exact h m e he
  | ExpireStale now expiry =>
      rw [NeighborTable.call, lookup_ExpireStale] at he
      exact h m e (Option.filter_eq_some_iff.mp he).1

/-- Rows stand under their own addresses all through a run. -/
theorem keyed_after (calls : List TableCall) : Keyed (after calls) :=
  exec_invariant Keyed (fun _ call h => h.call call) calls
    fun _ _ h => by cases h

-- ========================================================= the fresh rows

/-- The fresh rows are those a lookup finds. -/
theorem mem_allFresh_iff {t : NeighborTable} (h : Keyed t)
    (now expiry : TimePoint) (e : NeighborEntry) :
    e ∈ t.AllFresh now expiry
      ↔ t.Lookup e.mac = some e ∧ e.IsStale now expiry = false := by
  unfold AllFresh
  rw [List.mem_filter, List.mem_map, Bool.not_eq_true', ← mem_entries_iff]
  refine and_congr_left fun _ => ⟨fun hall => ?_, fun hmem => ⟨_, hmem, rfl⟩⟩
  obtain ⟨⟨m, e'⟩, hmem, rfl⟩ := hall
  rw [h m e' ((mem_entries_iff t m e').mp hmem)]
  exact hmem

/-- There is one fresh row an address. -/
theorem allFresh_macs_nodup {t : NeighborTable} (h : Keyed t)
    (now expiry : TimePoint) :
    ((t.AllFresh now expiry).map NeighborEntry.mac).Nodup := by
  have hkeys : (t.table.entries.map Sigma.snd).map NeighborEntry.mac
      = t.table.keys := by
    rw [List.map_map]
    refine List.map_congr_left fun x hx => ?_
    exact h x.1 x.2 ((mem_entries_iff t x.1 x.2).mp hx)
  have hnd := t.table.keys_nodup
  rw [← hkeys] at hnd
  exact hnd.sublist (List.filter_sublist.map _)

end NeighborTable

-- ====================================================== runs of discovery

open NeighborTable

/-- The messages processed in a run, with their clock readings and
received powers, in order. -/
def ogms (es : List DiscoveryEvent) : List (TimePoint × Ogm × Rat) :=
  es.filterMap fun
    | .ogm_process now ogm rx_power_dbm => some (now, ogm, rx_power_dbm)
    | .ExpireStale _ => none

/-- The last message processed from the address. -/
def last_ogm (m : MacAddress) (es : List DiscoveryEvent) :
    Option (TimePoint × Ogm × Rat) :=
  (ogms es).reverse.find? fun x => x.2.1.originator = m

/-- The row a message makes. -/
def row (x : TimePoint × Ogm × Rat) : NeighborEntry :=
  ogm_entry x.2.1 x.2.2 x.1

/-- The row of a neighbour last heard at `t`: the quality it reports and
the power it was received with, and everything else at its best. -/
def reported_row (m : MacAddress) (t : TimePoint) (tq_reported : UInt8)
    (rx_power_dbm : Rat) : NeighborEntry where
  mac := m
  last_seen := t
  tq_local := 255
  tq_recv := tq_reported
  f_asym := 1
  hop_penalty := 1
  rx_power_dbm := rx_power_dbm
  reachable_to_dest := true

/-- Processing a message writes its row. -/
theorem lookup_ogm_process (ogm : Ogm) (t : NeighborTable)
    (rx_power_dbm : Rat) (now : TimePoint) (m : MacAddress) :
    (ogm_process ogm t rx_power_dbm now).Lookup m
      = if m = ogm.originator
        then some (reported_row m now ogm.tq_reported rx_power_dbm)
        else t.Lookup m := by
  unfold ogm_process
  rw [lookup_Update]
  show (if m = ogm.originator then _ else _) = _
  by_cases hm : m = ogm.originator
  · rw [if_pos hm, if_pos hm, hm]
    rfl
  · rw [if_neg hm, if_neg hm]

/-- Rows stand under their own addresses all through a run of discovery. -/
theorem keyed_discovered (config : SelectionConfig)
    (es : List DiscoveryEvent) : Keyed (discovered config es) := by
  have hcalls : discovered config es
      = NeighborTable.after (es.map (DiscoveryEvent.call config)) := by
    unfold discovered NeighborTable.after exec
    rw [List.foldl_map]
    congr 1
    funext t ev
    cases ev <;> rfl
  rw [hcalls]
  exact keyed_after _

theorem last_ogm_process (m : MacAddress) (es : List DiscoveryEvent)
    (now : TimePoint) (ogm : Ogm) (rx_power_dbm : Rat) :
    last_ogm m (es ++ [.ogm_process now ogm rx_power_dbm])
      = if m = ogm.originator then some (now, ogm, rx_power_dbm)
        else last_ogm m es := by
  unfold last_ogm ogms
  rw [List.filterMap_append, List.reverse_append]
  simp only [List.filterMap_cons, List.filterMap_nil, List.reverse_singleton,
    List.singleton_append, List.find?_cons]
  by_cases hm : m = ogm.originator
  · simp [hm]
  · simp [hm, Ne.symm hm]

theorem last_ogm_ExpireStale (m : MacAddress) (es : List DiscoveryEvent)
    (now : TimePoint) :
    last_ogm m (es ++ [.ExpireStale now]) = last_ogm m es := by
  unfold last_ogm ogms
  rw [List.filterMap_append]
  simp

/-- Every sweep of the run is at `now` or earlier. -/
def SweptBy (now : TimePoint) (es : List DiscoveryEvent) : Prop :=
  ∀ t, .ExpireStale t ∈ es → t ≤ now

/-- What is fresh at a reading was fresh before. -/
theorem fresh_of_le {e : NeighborEntry} {t now expiry : TimePoint}
    (ht : t ≤ now) (h : e.IsStale now expiry = false) :
    e.IsStale t expiry = false := by
  have hnot := of_decide_eq_false h
  refine decide_eq_false fun hgt => hnot ?_
  exact Int.lt_of_lt_of_le hgt (Int.sub_le_sub_right ht _)

/-- The fresh row of an address is that of its last message. -/
theorem lookup_discovered_fresh (config : SelectionConfig) (now : TimePoint)
    (m : MacAddress) (es : List DiscoveryEvent) (hes : SweptBy now es) :
    ((discovered config es).Lookup m).filter
        (fun e => !e.IsStale now config.expiry)
      = ((last_ogm m es).map fun x =>
          reported_row m x.1 x.2.1.tq_reported x.2.2).filter
        fun e => !e.IsStale now config.expiry := by
  induction es using List.reverseRecOn with
  | nil => rfl
  | append_singleton es ev ih =>
      have hold := ih fun t ht => hes t (List.mem_append_left _ ht)
      unfold discovered at hold ⊢
      rw [exec_concat]
      generalize exec (NeighborTable.discover config) {} es = t at hold ⊢
      cases ev with
      | ogm_process t' ogm rx_power_dbm =>
          rw [last_ogm_process]
          show ((ogm_process ogm t rx_power_dbm t').Lookup m).filter _ = _
          rw [lookup_ogm_process]
          by_cases hm : m = ogm.originator
          · rw [if_pos hm, if_pos hm]
            rfl
          · rw [if_neg hm, if_neg hm]
            exact hold
      | ExpireStale t' =>
          rw [last_ogm_ExpireStale, ← hold]
          show ((t.ExpireStale t' config.expiry).Lookup m).filter _ = _
          rw [lookup_ExpireStale]
          have ht := hes t' (List.mem_append_right _ List.mem_cons_self)
          refine Option.ext fun e => ?_
          simp only [Option.filter_eq_some_iff, Bool.not_eq_true']
          exact ⟨fun h => ⟨h.1.1, h.2⟩,
            fun h => ⟨⟨h.1, fresh_of_le ht h.2⟩, h.2⟩⟩

/-- The fresh rows after a run of discovery. -/
theorem mem_discovered_fresh_iff (config : SelectionConfig) {now : TimePoint}
    {es : List DiscoveryEvent} (hes : SweptBy now es) (e : NeighborEntry) :
    e ∈ (discovered config es).AllFresh now config.expiry
      ↔ ∃ t ogm rx_power_dbm,
        last_ogm e.mac es = some (t, ogm, rx_power_dbm)
          ∧ now - t ≤ config.expiry
          ∧ e = reported_row e.mac t ogm.tq_reported rx_power_dbm := by
  have hlook := lookup_discovered_fresh config now e.mac es hes
  rw [mem_allFresh_iff (keyed_discovered config es)]
  have hfresh : ∀ o : Option NeighborEntry,
      (o = some e ∧ e.IsStale now config.expiry = false)
        ↔ (o.filter fun e => !e.IsStale now config.expiry) = some e := by
    intro o
    rw [Option.filter_eq_some_iff, Bool.not_eq_true']
  rw [hfresh, hlook, ← hfresh]
  constructor
  · intro hall
    obtain ⟨hrow, hstale⟩ := hall
    obtain ⟨⟨t, ogm, rx⟩, hlast, heq⟩ := Option.map_eq_some_iff.mp hrow
    rw [← heq] at hstale
    exact ⟨t, ogm, rx, hlast, Int.not_lt.mp (of_decide_eq_false hstale),
      heq.symm⟩
  · intro hall
    obtain ⟨t, ogm, rx, hlast, hage, heq⟩ := hall
    refine ⟨?_, ?_⟩
    · rw [hlast]
      exact congrArg some heq.symm
    · rw [heq]
      exact decide_eq_false (Int.not_lt.mpr hage)

end Joker
