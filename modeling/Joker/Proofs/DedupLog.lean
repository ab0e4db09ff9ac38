/-
The duplicate cache, characterised by its history of calls.

Over any calls of `Insert`, at clock readings that never go back, and of
`EvictExpired`, at any readings, the cache contains an id exactly when
the id was inserted, fewer than `capacity` distinct other ids were
inserted since, and no sweep since found it older than the age limit
(`contains_after_iff`); list and index stay in step and in order
(`dedup_refines_log`). The cache represents a recency log
(Proofs/DedupCache.lean) whose history is the calls, so this is the log's
characterisation (Lib/RecencyLog.lean) read at the cache.
-/
import Joker.Lib.RecencyLog
import Joker.Proofs.DedupCache

namespace Joker

open Transition DedupCache

-- ============================================================ the history

/-- What a call does to the log a cache represents. -/
def CacheCall.op (ttl : TimePoint) : CacheCall → Recency.Op PacketId TimePoint
  | .Insert now packet_id => .touch packet_id now
  | .EvictExpired now => .sweep fun t => decide (now - t > ttl)

/-- The last insertion of the id was at `now`, and `bs` is what
followed. -/
def LastInsert (calls : List CacheCall) (p : PacketId) (now : TimePoint)
    (bs : List CacheCall) : Prop :=
  (∃ as, calls = as ++ .Insert now p :: bs) ∧ p ∉ insertedIds bs

/-- Insertions at clock readings that never go back. -/
def InsertedInOrder (calls : List CacheCall) : Prop :=
  ((insertions calls).map Prod.snd).Pairwise (· ≤ ·)

variable {capacity : Nat} {ttl : TimePoint} {calls : List CacheCall}

theorem touches_op (ttl : TimePoint) (calls : List CacheCall) :
    Recency.touches (calls.map (CacheCall.op ttl)) = insertions calls := by
  unfold Recency.touches insertions
  rw [List.filterMap_map]
  refine List.filterMap_congr fun call _ => ?_
  cases call <;> rfl

theorem touchedKeys_op (ttl : TimePoint) (calls : List CacheCall) :
    Recency.touchedKeys (calls.map (CacheCall.op ttl))
      = (insertedIds calls).toFinset := by
  unfold Recency.touchedKeys insertedIds
  rw [touches_op]

theorem mem_sweep_op {stale : TimePoint → Bool} :
    .sweep stale ∈ calls.map (CacheCall.op ttl)
      ↔ ∃ now, .EvictExpired now ∈ calls
        ∧ stale = fun t => decide (now - t > ttl) := by
  rw [List.mem_map]
  constructor
  · intro hall
    obtain ⟨call, hcall, hop⟩ := hall
    cases call with
    | Insert now p => cases hop
    | EvictExpired now =>
        injection hop with hop
        exact ⟨now, hcall, hop.symm⟩
  · intro hall
    obtain ⟨now, hcall, rfl⟩ := hall
    exact ⟨_, hcall, rfl⟩

/-- A last touch in the log's history is a last insertion. -/
theorem lastTouch_op_iff {p : PacketId} {now : TimePoint}
    {bs' : List (Recency.Op PacketId TimePoint)} :
    Recency.LastTouch (calls.map (CacheCall.op ttl)) p now bs'
      ↔ ∃ bs, bs' = bs.map (CacheCall.op ttl)
        ∧ LastInsert calls p now bs := by
  unfold Recency.LastTouch LastInsert
  constructor
  · intro hall
    obtain ⟨⟨as, hsplit⟩, hp⟩ := hall
    obtain ⟨as, cs, rfl, -, hcs⟩ := List.map_eq_append_iff.mp hsplit
    obtain ⟨call, bs, rfl, hcall, rfl⟩ := List.map_eq_cons_iff.mp hcs
    rw [touchedKeys_op, List.mem_toFinset] at hp
    cases call with
    | EvictExpired now => cases hcall
    | Insert now' p' =>
        injection hcall with hp' hnow
        subst hp' hnow
        exact ⟨bs, rfl, ⟨as, rfl⟩, hp⟩
  · intro hall
    obtain ⟨bs, rfl, ⟨as, rfl⟩, hp⟩ := hall
    refine ⟨⟨as.map (CacheCall.op ttl), List.map_append⟩, ?_⟩
    rw [touchedKeys_op, List.mem_toFinset]
    exact hp

theorem InsertedInOrder.inOrder (h : InsertedInOrder calls) (ttl : TimePoint) :
    Recency.InOrder (calls.map (CacheCall.op ttl)) := by
  refine ⟨?_, fun stale hmem t t' hle hstale => ?_⟩
  · rw [touches_op]
    exact h
  · obtain ⟨now, -, rfl⟩ := mem_sweep_op.mp hmem
    have hold := of_decide_eq_true hstale
    exact decide_eq_true (lt_of_lt_of_le hold (Int.sub_le_sub_left hle now))

-- ======================================================== the refinement

/-- No call changes the bounds of the cache. -/
theorem call_ttl (c : DedupCache) (call : CacheCall) :
    (c.call call).ttl = c.ttl := by
  cases call with
  | Insert now p => exact Insert_ttl c p now
  | EvictExpired now => exact EvictExpired_ttl c now

theorem after_ttl (capacity : Nat) (ttl : TimePoint)
    (calls : List CacheCall) : (after capacity ttl calls).ttl = ttl :=
  exec_invariant (fun c : DedupCache => c.ttl = ttl)
    (fun c call h => (call_ttl c call).trans h) calls rfl

theorem after_capacity (capacity : Nat) (ttl : TimePoint)
    (calls : List CacheCall) :
    (after capacity ttl calls).capacity = capacity := by
  refine exec_invariant (fun c : DedupCache => c.capacity = capacity)
    (fun c call h => ?_) calls rfl
  cases call with
  | Insert now p => exact (Insert_capacity c p now).trans h
  | EvictExpired now => exact (EvictExpired_capacity c now).trans h

/-- One call, on the cache and on the log. -/
theorem DedupCache.Represents.call {c : DedupCache}
    {r : Recency PacketId TimePoint capacity} (h : Represents c r)
    (hc : 0 < capacity) (call : CacheCall) :
    Represents (c.call call) (r.apply hc (call.op c.ttl)) := by
  cases call with
  | Insert now p => exact h.insert hc p now
  | EvictExpired now => exact h.evict now

/-- A cache represents the log of its calls. -/
theorem represents_after (hc : 0 < capacity) (ttl : TimePoint)
    (calls : List CacheCall) :
    Represents (after capacity ttl calls)
      (Recency.log hc (calls.map (CacheCall.op ttl))) := by
  induction calls using List.reverseRecOn with
  | nil => exact represents_empty capacity ttl
  | append_singleton calls call ih =>
      have hstep := ih.call hc call
      rw [after_ttl] at hstep
      unfold after Recency.log at hstep ⊢
      rw [List.map_append, List.map_singleton, exec_concat, exec_concat]
      exact hstep

/-- A cache without capacity stays as it was made. -/
theorem after_zero (ttl : TimePoint) (calls : List CacheCall) :
    after 0 ttl calls = { capacity := 0, ttl := ttl } := by
  refine exec_invariant
    (fun c : DedupCache => c = { capacity := 0, ttl := ttl })
    ?_ calls rfl
  intro c call h
  subst h
  cases call <;> rfl

/-- What a cache contains. -/
theorem contains_after_iff (hcalls : InsertedInOrder calls) (p : PacketId) :
    (after capacity ttl calls).Contains p = true
      ↔ 0 < capacity ∧ ∃ now bs, LastInsert calls p now bs
        ∧ (insertedIds bs).toFinset.card < capacity
        ∧ ∀ t, .EvictExpired t ∈ bs → t - now ≤ ttl := by
  rcases Nat.eq_zero_or_pos capacity with rfl | hc
  · rw [after_zero]
    exact iff_of_false Bool.false_ne_true fun h => Nat.lt_irrefl 0 h.1
  · rw [(represents_after hc ttl calls).contains_iff,
      Recency.mem_keys_log_iff hc (fun t => le_refl t) (hcalls.inOrder ttl)]
    constructor
    · intro hall
      obtain ⟨now, bs', hlast, hcard, hfresh⟩ := hall
      obtain ⟨bs, rfl, hinsert⟩ := lastTouch_op_iff.mp hlast
      rw [touchedKeys_op] at hcard
      refine ⟨hc, now, bs, hinsert, hcard, fun t ht => ?_⟩
      have hnot := hfresh _ (mem_sweep_op.mpr ⟨t, ht, rfl⟩)
      exact not_lt.mp (of_decide_eq_false hnot)
    · intro hall
      obtain ⟨-, now, bs, hlast, hcard, hfresh⟩ := hall
      refine ⟨now, _, lastTouch_op_iff.mpr ⟨bs, rfl, hlast⟩, ?_, ?_⟩
      · rw [touchedKeys_op]
        exact hcard
      · intro stale hmem
        obtain ⟨t, ht, rfl⟩ := mem_sweep_op.mp hmem
        exact decide_eq_false (not_lt.mpr (hfresh t ht))

-- ========================================================= list and index

/-- List and index hold the same ids, each once and under its node's
address; the list is sorted by the times of the last insertions; neither
exceeds the capacity. -/
structure InStep (calls : List CacheCall) (c : DedupCache) : Prop where
  linked : Linked c
  ids : ∀ p, p ∈ c.index.keys ↔ p ∈ c.lru_order.map LruNode.packet_id
  ids_nodup : (c.lru_order.map LruNode.packet_id).Nodup
  keys_nodup : c.index.keys.Nodup
  last : ∀ n ∈ c.lru_order,
    ∃ bs, LastInsert calls n.packet_id n.inserted_at bs
  sorted : c.lru_order.Pairwise fun m n => m.inserted_at ≤ n.inserted_at
  bounded : c.lru_order.length ≤ c.capacity ∧ c.index.keys.length ≤ c.capacity

/-- The list of a cache without capacity is empty. -/
theorem inStep_zero (ttl : TimePoint) (calls : List CacheCall) :
    InStep calls { capacity := 0, ttl := ttl } where
  linked := (represents_empty 0 ttl).linked
  ids := fun _ => Iff.rfl
  ids_nodup := List.nodup_nil
  keys_nodup := List.nodup_nil
  last := fun _ h => absurd h List.not_mem_nil
  sorted := List.Pairwise.nil
  bounded := ⟨Nat.le_refl 0, Nat.le_refl 0⟩

theorem inStep_after (capacity : Nat) (ttl : TimePoint)
    (hcalls : InsertedInOrder calls) :
    InStep calls (after capacity ttl calls) := by
  rcases Nat.eq_zero_or_pos capacity with rfl | hc
  · rw [after_zero]
    exact inStep_zero ttl calls
  · have hrep := represents_after hc ttl calls
    have htells := Recency.tells_log hc _ (hcalls.inOrder ttl)
    have hlinked := hrep.linked
    have hlen := (Recency.log hc (calls.map (CacheCall.op ttl))).length_le
    rw [hrep.entries_eq, List.length_map] at hlen
    refine ⟨hlinked, hlinked.mem_keys, hlinked.ids_nodup,
      (after capacity ttl calls).index.keys_nodup, fun n hn => ?_, ?_, ?_⟩
    · obtain ⟨front, back, hl⟩ := List.append_of_mem hn
      have hentries := hrep.entries_eq
      rw [hl, List.map_append, List.map_cons] at hentries
      obtain ⟨bs', hlast, -⟩ := htells.since _ _ _ _ hentries
      obtain ⟨bs, -, hinsert⟩ := lastTouch_op_iff.mp hlast
      exact ⟨bs, hinsert⟩
    · have hsorted := htells.sorted
      rw [hrep.entries_eq, List.pairwise_map] at hsorted
      exact hsorted
    · rw [hlinked.keys_length, hrep.capacity_eq]
      exact ⟨hlen, hlen⟩

/-- A sweep of a sorted list leaves no entry older than the age limit. -/
theorem InStep.evict_fresh {c : DedupCache} (h : InStep calls c)
    (now : TimePoint) :
    ∀ n ∈ (c.EvictExpired now).lru_order, now - n.inserted_at ≤ c.ttl := by
  obtain ⟨-, -, hlru⟩ :=
    evictLoop_spec now c.lru_order.length c h.linked (le_refl _)
  intro n hn
  replace hn : n ∈ (evictLoop now c.lru_order.length c).lru_order := hn
  rw [hlru] at hn
  have hsorted := h.sorted.sublist (List.dropWhile_sublist
    (fun n : LruNode => decide (now - n.inserted_at > c.ttl)))
  -- the loop stopped at an entry that is young enough, and sorted after it
  cases hl : c.lru_order.dropWhile
      (fun n => decide (now - n.inserted_at > c.ttl)) with
  | nil =>
      rw [hl] at hn
      exact absurd hn List.not_mem_nil
  | cons m l =>
      have hhead := List.head_dropWhile_not
        (fun n : LruNode => decide (now - n.inserted_at > c.ttl))
        (l := c.lru_order) (by rw [hl]; exact List.cons_ne_nil _ _)
      simp only [hl, List.head_cons, decide_eq_false_iff_not, not_lt] at hhead
      rw [hl] at hn hsorted
      rcases List.mem_cons.mp hn with rfl | hn
      · exact hhead
      · have hle := (List.pairwise_cons.mp hsorted).1 n hn
        exact (Int.sub_le_sub_left hle now).trans hhead

/-- The duplicate cache refines a recency log: after any calls, with the
insertions at readings that never go back, it contains what was inserted,
was followed by fewer than `capacity` distinct other ids and was found
too old by no sweep since; list and index are in step, ordered and
bounded; and a sweep leaves no entry that is too old. -/
theorem dedup_refines_log (capacity : Nat) (ttl : TimePoint)
    (calls : List CacheCall) (hcalls : InsertedInOrder calls) :
    (∀ p, (after capacity ttl calls).Contains p = true
      ↔ 0 < capacity ∧ ∃ now bs, LastInsert calls p now bs
        ∧ (insertedIds bs).toFinset.card < capacity
        ∧ ∀ t, .EvictExpired t ∈ bs → ¬ t - now > ttl)
    ∧ InStep calls (after capacity ttl calls)
    ∧ ∀ now, ∀ n ∈ ((after capacity ttl calls).EvictExpired now).lru_order,
        ¬ now - n.inserted_at > ttl := by
  have hin := inStep_after capacity ttl hcalls
  refine ⟨fun p => ?_, hin, fun now n hn => ?_⟩
  · rw [contains_after_iff hcalls]
    simp only [gt_iff_lt, not_lt]
  · have hfresh := hin.evict_fresh now n hn
    rw [after_ttl] at hfresh
    exact not_lt.mpr hfresh

/-- Three ids and a sweep in a cache of two. -/
theorem dedup_refines_log_evicted :
    InStep [.Insert 0 1, .Insert 5 2, .EvictExpired 9, .Insert 9 1]
        (after 2 6 [.Insert 0 1, .Insert 5 2, .EvictExpired 9, .Insert 9 1])
      ∧ (after 2 6 [.Insert 0 1, .Insert 5 2, .EvictExpired 9, .Insert 9 1]
        ).Contains 2 = true := by
  have h := dedup_refines_log 2 6
    [.Insert 0 1, .Insert 5 2, .EvictExpired 9, .Insert 9 1]
    (by unfold InsertedInOrder; decide)
  exact ⟨h.2.1, by decide⟩

end Joker
