/-
The duplicate cache is a bounded recency log.

The list and the hash index of the cache agree (`Linked`): every node is
indexed under its id, at its own address, and every index entry names a
node. Each operation keeps them so, and does to the ids and times in the
list what the log's operation does (`Represents.insert`,
`Represents.evict`); whether an id is indexed is whether the log holds
it (`Represents.contains_iff`).
-/
import Joker.Lib.Recency
import Joker.Model.DedupCache

namespace Joker

/-- The id and time of a node. -/
def LruNode.entry (n : LruNode) : PacketId × TimePoint :=
  (n.packet_id, n.inserted_at)

namespace DedupCache

-- ========================================================= the invariant

/-- List and index agree. -/
structure Linked (c : DedupCache) : Prop where
  addrs_nodup : (c.lru_order.map LruNode.addr).Nodup
  addr_lt : ∀ n ∈ c.lru_order, n.addr < c.next_addr
  indexed : ∀ n ∈ c.lru_order, c.index.lookup n.packet_id = some n.addr
  listed : ∀ p a, c.index.lookup p = some a →
    ∃ n ∈ c.lru_order, n.addr = a ∧ n.packet_id = p

variable {c : DedupCache}

/-- One node an address. -/
theorem Linked.eq_of_addr (h : Linked c) {m n : LruNode}
    (hm : m ∈ c.lru_order) (hn : n ∈ c.lru_order) (heq : m.addr = n.addr) :
    m = n :=
  List.inj_on_of_nodup_map h.addrs_nodup hm hn heq

/-- One node an id. -/
theorem Linked.eq_of_id (h : Linked c) {m n : LruNode}
    (hm : m ∈ c.lru_order) (hn : n ∈ c.lru_order)
    (heq : m.packet_id = n.packet_id) : m = n := by
  have hidx := h.indexed m hm
  rw [heq, h.indexed n hn] at hidx
  exact h.eq_of_addr hm hn (Option.some.inj hidx).symm

theorem Linked.ids_nodup (h : Linked c) :
    (c.lru_order.map LruNode.packet_id).Nodup :=
  List.Nodup.map_on (fun _ hm _ hn heq => h.eq_of_id hm hn heq)
    (h.addrs_nodup.of_map _)

/-- An id is indexed when the list has a node for it. -/
theorem Linked.mem_keys (h : Linked c) (p : PacketId) :
    p ∈ c.index.keys ↔ p ∈ c.lru_order.map LruNode.packet_id := by
  have hkey : p ∈ c.index.keys ↔ (c.index.lookup p).isSome = true :=
    AList.lookup_isSome.symm
  rw [hkey, List.mem_map]
  constructor
  · intro hsome
    obtain ⟨a, ha⟩ := Option.isSome_iff_exists.mp hsome
    obtain ⟨n, hn, -, hid⟩ := h.listed p a ha
    exact ⟨n, hn, hid⟩
  · intro hall
    obtain ⟨n, hn, rfl⟩ := hall
    rw [h.indexed n hn]
    rfl

/-- The index is as large as the list. -/
theorem Linked.keys_length (h : Linked c) :
    c.index.keys.length = c.lru_order.length := by
  have hperm : c.index.keys.Perm (c.lru_order.map LruNode.packet_id) :=
    (List.perm_ext_iff_of_nodup c.index.keys_nodup h.ids_nodup).mpr
      fun p => h.mem_keys p
  rw [hperm.length_eq, List.length_map]

-- ======================================================== the operations

theorem pop_front_lru (c : DedupCache) :
    c.pop_front.lru_order = c.lru_order.tail := by
  unfold DedupCache.pop_front
  cases hl : c.lru_order with
  | nil => exact hl
  | cons oldest rest => rfl

theorem pop_front_sublist (c : DedupCache) :
    c.pop_front.lru_order.Sublist c.lru_order := by
  rw [pop_front_lru]
  exact List.tail_sublist _

theorem pop_front_capacity (c : DedupCache) :
    c.pop_front.capacity = c.capacity := by
  unfold DedupCache.pop_front
  cases c.lru_order <;> rfl

theorem pop_front_ttl (c : DedupCache) : c.pop_front.ttl = c.ttl := by
  unfold DedupCache.pop_front
  cases c.lru_order <;> rfl

/-- Evicting the front keeps list and index in agreement. -/
theorem Linked.pop_front (h : Linked c) : Linked c.pop_front := by
  unfold DedupCache.pop_front
  cases hl : c.lru_order with
  | nil => exact h
  | cons oldest rest =>
      dsimp only
      have hmem : ∀ {n}, n ∈ rest → n ∈ c.lru_order := fun hn =>
        hl ▸ List.mem_cons_of_mem _ hn
      have hfront : oldest ∈ c.lru_order := hl ▸ List.mem_cons_self
      have hnd := h.addrs_nodup
      rw [hl, List.map_cons, List.nodup_cons] at hnd
      refine ⟨hnd.2, fun n hn => h.addr_lt n (hmem hn), ?_, ?_⟩
      · intro n hn
        have hne : n.packet_id ≠ oldest.packet_id := by
          intro heq
          rw [h.eq_of_id (hmem hn) hfront heq] at hn
          exact hnd.1 (List.mem_map_of_mem hn)
        show (c.index.erase oldest.packet_id).lookup n.packet_id = _
        rw [AList.lookup_erase_ne hne]
        exact h.indexed n (hmem hn)
      · intro p a hp
        replace hp : (c.index.erase oldest.packet_id).lookup p = some a := hp
        by_cases hpo : p = oldest.packet_id
        · rw [hpo, AList.lookup_erase] at hp
          cases hp
        · rw [AList.lookup_erase_ne hpo] at hp
          obtain ⟨n, hn, haddr, hid⟩ := h.listed p a hp
          rw [hl] at hn
          rcases List.mem_cons.mp hn with rfl | hn
          · exact absurd hid.symm hpo
          · exact ⟨n, hn, haddr, hid⟩

/-- Appending a node for an id that is not indexed does. -/
theorem Linked.push (h : Linked c) {p : PacketId}
    (hp : c.index.lookup p = none) (now : TimePoint) :
    Linked { c with
      lru_order := c.lru_order ++ [⟨c.next_addr, p, now⟩]
      index := c.index.insert p c.next_addr
      next_addr := c.next_addr + 1 } := by
  refine ⟨?_, ?_, ?_, ?_⟩
  · rw [List.map_append, List.map_singleton]
    refine List.nodup_append.mpr ⟨h.addrs_nodup, List.nodup_singleton _, ?_⟩
    intro a ha b hb hab
    obtain ⟨n, hn, rfl⟩ := List.mem_map.mp ha
    rw [List.mem_singleton.mp hb] at hab
    exact Nat.ne_of_lt (h.addr_lt n hn) hab
  · intro n hn
    rcases List.mem_append.mp hn with hn | hn
    · exact Nat.lt_succ_of_lt (h.addr_lt n hn)
    · rw [List.mem_singleton.mp hn]
      exact Nat.lt_succ_self _
  · intro n hn
    show (c.index.insert p c.next_addr).lookup n.packet_id = _
    rcases List.mem_append.mp hn with hn | hn
    · have hne : n.packet_id ≠ p := by
        intro heq
        have hidx := h.indexed n hn
        rw [heq, hp] at hidx
        cases hidx
      rw [AList.lookup_insert_ne hne]
      exact h.indexed n hn
    · rw [List.mem_singleton.mp hn]
      exact AList.lookup_insert _
  · intro q a hq
    replace hq : (c.index.insert p c.next_addr).lookup q = some a := hq
    by_cases hqp : q = p
    · rw [hqp, AList.lookup_insert] at hq
      exact ⟨_, List.mem_append_right _ List.mem_cons_self,
        Option.some.inj hq, hqp.symm⟩
    · rw [AList.lookup_insert_ne hqp] at hq
      obtain ⟨n, hn, hrest⟩ := h.listed q a hq
      exact ⟨n, List.mem_append_left _ hn, hrest⟩

/-- Refreshing an entry is moving the node for its id to the back. -/
theorem Linked.splice_eq (h : Linked c) {n : LruNode}
    (hn : n ∈ c.lru_order) (now : TimePoint) :
    splice_to_back n.addr now c.lru_order
      = c.lru_order.filter (·.packet_id ≠ n.packet_id)
        ++ [{ n with inserted_at := now }] := by
  have hsplit : ∀ m ∈ c.lru_order, m.addr = n.addr ↔ m = n := fun m hm =>
    ⟨fun heq => h.eq_of_addr hm hn heq, fun heq => heq ▸ rfl⟩
  have hself : c.lru_order.filter (·.addr = n.addr) = [n] := by
    have hfilter : c.lru_order.filter (·.addr = n.addr)
        = c.lru_order.filter (· = n) :=
      List.filter_congr fun m hm => decide_eq_decide.mpr (hsplit m hm)
    rw [hfilter]
    have hcount := List.count_eq_one_of_mem (h.addrs_nodup.of_map _) hn
    rw [List.filter_eq, hcount]
    rfl
  have hother : c.lru_order.filter (·.addr ≠ n.addr)
      = c.lru_order.filter (·.packet_id ≠ n.packet_id) := by
    refine List.filter_congr fun m hm => decide_eq_decide.mpr (not_congr ?_)
    rw [hsplit m hm]
    exact ⟨fun heq => heq ▸ rfl, fun heq => h.eq_of_id hm hn heq⟩
  unfold splice_to_back
  rw [hself, hother]
  rfl

/-- So does moving a node to the back. -/
theorem Linked.splice (h : Linked c) {n : LruNode} (hn : n ∈ c.lru_order)
    (now : TimePoint) :
    Linked { c with lru_order := splice_to_back n.addr now c.lru_order } := by
  have hnodes : ∀ m ∈ splice_to_back n.addr now c.lru_order,
      ∃ m' ∈ c.lru_order, m'.addr = m.addr ∧ m'.packet_id = m.packet_id := by
    intro m hm
    rw [h.splice_eq hn] at hm
    rcases List.mem_append.mp hm with hm | hm
    · exact ⟨m, (List.mem_filter.mp hm).1, rfl, rfl⟩
    · rw [List.mem_singleton.mp hm]
      exact ⟨n, hn, rfl, rfl⟩
  refine ⟨?_, ?_, ?_, ?_⟩
  · show ((splice_to_back n.addr now c.lru_order).map LruNode.addr).Nodup
    rw [h.splice_eq hn, List.map_append, List.map_singleton]
    refine List.nodup_append.mpr
      ⟨h.addrs_nodup.sublist (List.filter_sublist.map _),
        List.nodup_singleton _, ?_⟩
    intro a ha b hb hab
    obtain ⟨m, hm, rfl⟩ := List.mem_map.mp ha
    rw [List.mem_singleton.mp hb] at hab
    obtain ⟨hmem, hne⟩ := List.mem_filter.mp hm
    exact of_decide_eq_true hne (congrArg _ (h.eq_of_addr hmem hn hab))
  · intro m hm
    obtain ⟨m', hm', haddr, -⟩ := hnodes m hm
    exact haddr ▸ h.addr_lt m' hm'
  · intro m hm
    obtain ⟨m', hm', haddr, hid⟩ := hnodes m hm
    exact haddr ▸ hid ▸ h.indexed m' hm'
  · intro p a hp
    obtain ⟨m, hm, haddr, hid⟩ := h.listed p a hp
    show ∃ m ∈ splice_to_back n.addr now c.lru_order, _
    rw [h.splice_eq hn]
    by_cases hmn : m.packet_id = n.packet_id
    · rw [h.eq_of_id hm hn hmn] at haddr hid
      exact ⟨_, List.mem_append_right _ List.mem_cons_self, haddr, hid⟩
    · exact ⟨m, List.mem_append_left _
        (List.mem_filter.mpr ⟨hm, decide_eq_true hmn⟩), haddr, hid⟩

-- ======================================================== the refinement

/-- The cache represents the log. -/
structure Represents {capacity : Nat} (c : DedupCache)
    (r : Recency PacketId TimePoint capacity) : Prop where
  linked : Linked c
  capacity_eq : c.capacity = capacity
  entries_eq : r.entries = c.lru_order.map LruNode.entry

variable {capacity : Nat} {r : Recency PacketId TimePoint capacity}

/-- An empty cache represents the empty log. -/
theorem represents_empty (capacity : Nat) (ttl : TimePoint) :
    Represents { capacity := capacity, ttl := ttl }
      (⟨[], List.nodup_nil, Nat.zero_le _⟩ :
        Recency PacketId TimePoint capacity) where
  linked := ⟨List.nodup_nil, fun _ h => absurd h List.not_mem_nil,
    fun _ h => absurd h List.not_mem_nil, fun _ _ h => (by cases h)⟩
  capacity_eq := rfl
  entries_eq := rfl

theorem map_fst_entry (l : List LruNode) :
    (l.map LruNode.entry).map Prod.fst = l.map LruNode.packet_id := by
  rw [List.map_map]
  rfl

/-- The cache contains the ids the log holds. -/
theorem Represents.contains_iff (h : Represents c r) (p : PacketId) :
    c.Contains p = true ↔ p ∈ r.keys := by
  unfold DedupCache.Contains Recency.keys
  rw [AList.lookup_isSome, h.entries_eq, map_fst_entry]
  exact h.linked.mem_keys p

/-- `Insert` touches the id. -/
theorem Represents.insert (h : Represents c r) (hc : 0 < capacity)
    (p : PacketId) (now : TimePoint) :
    Represents (c.Insert p now) (r.touch hc p now) := by
  have hcap : ¬ c.capacity = 0 := by
    rw [h.capacity_eq]
    omega
  have hentries : (r.touch hc p now).entries
      = Recency.touched capacity p now (c.lru_order.map LruNode.entry) := by
    rw [← h.entries_eq]
    rfl
  have hmem := h.linked.mem_keys p
  unfold DedupCache.Insert
  rw [if_neg hcap]
  cases hlook : c.index.lookup p with
  | some it =>
      obtain ⟨n, hn, rfl, rfl⟩ := h.linked.listed p it hlook
      refine ⟨h.linked.splice hn now, h.capacity_eq, ?_⟩
      rw [hentries]
      show _ = (splice_to_back n.addr now c.lru_order).map LruNode.entry
      rw [h.linked.splice_eq hn, List.map_append, List.map_singleton]
      unfold Recency.touched
      rw [map_fst_entry, if_pos (List.mem_map_of_mem hn), List.filter_map]
      rfl
  | none =>
      have hnew : p ∉ c.lru_order.map LruNode.packet_id := by
        intro hin
        have hsome := AList.lookup_isSome.mpr (hmem.mpr hin)
        rw [hlook] at hsome
        cases hsome
      unfold Recency.touched at hentries
      rw [map_fst_entry, if_neg hnew] at hentries
      by_cases hfull : capacity ≤ c.lru_order.length
      · have hne : c.lru_order ≠ [] := by
          intro hnil
          rw [hnil, List.length_nil] at hfull
          omega
        dsimp only
        rw [if_pos ⟨by rw [h.linked.keys_length, h.capacity_eq]; exact hfull,
          hne⟩]
        have hpop : c.pop_front.index.lookup p = none := by
          rw [← Option.not_isSome_iff_eq_none, AList.lookup_isSome]
          intro hk
          have hin := (h.linked.pop_front.mem_keys p).mp hk
          exact hnew ((c.pop_front_sublist.map _).subset hin)
        refine ⟨h.linked.pop_front.push hpop now, ?_, ?_⟩
        · exact c.pop_front_capacity.trans h.capacity_eq
        · rw [hentries]
          unfold Recency.makeRoom
          rw [List.length_map, if_pos hfull, List.map_append, c.pop_front_lru,
            List.map_tail]
          rfl
      · dsimp only
        rw [if_neg fun hcond => hfull (by
          rw [← h.linked.keys_length, ← h.capacity_eq]
          exact hcond.1)]
        refine ⟨h.linked.push hlook now, h.capacity_eq, ?_⟩
        rw [hentries]
        unfold Recency.makeRoom
        rw [List.length_map, if_neg hfull, List.map_append]
        rfl

/-- Neither operation changes the capacity. -/
theorem Insert_capacity (c : DedupCache) (p : PacketId) (now : TimePoint) :
    (c.Insert p now).capacity = c.capacity := by
  unfold DedupCache.Insert
  split
  · rfl
  · split
    · rfl
    · dsimp only
      split
      · exact c.pop_front_capacity
      · rfl

theorem EvictExpired_capacity (c : DedupCache) (now : TimePoint) :
    (c.EvictExpired now).capacity = c.capacity := by
  have hloop : ∀ fuel c, (evictLoop now fuel c).capacity = c.capacity := by
    intro fuel
    induction fuel with
    | zero => intro c; rfl
    | succ fuel ih =>
        intro c
        unfold evictLoop
        split
        · rfl
        · split
          · rw [ih, c.pop_front_capacity]
          · rfl
  exact hloop _ c

/-- A cache that can hold an id holds the one inserted last. -/
theorem contains_Insert_self {c : DedupCache} (hc : 0 < c.capacity)
    (p : PacketId) (now : TimePoint) : (c.Insert p now).Contains p = true := by
  unfold DedupCache.Insert
  rw [if_neg (Nat.pos_iff_ne_zero.mp hc)]
  cases hp : c.index.lookup p with
  | some it =>
      unfold DedupCache.Contains
      dsimp only
      rw [hp]
      rfl
  | none =>
      unfold DedupCache.Contains
      dsimp only
      rw [AList.lookup_insert]
      rfl

/-- Neither operation changes the age limit. -/
theorem Insert_ttl (c : DedupCache) (p : PacketId) (now : TimePoint) :
    (c.Insert p now).ttl = c.ttl := by
  unfold DedupCache.Insert
  split
  · rfl
  · split
    · rfl
    · dsimp only
      split
      · exact c.pop_front_ttl
      · rfl

theorem EvictExpired_ttl (c : DedupCache) (now : TimePoint) :
    (c.EvictExpired now).ttl = c.ttl := by
  have hloop : ∀ fuel c, (evictLoop now fuel c).ttl = c.ttl := by
    intro fuel
    induction fuel with
    | zero => intro c; rfl
    | succ fuel ih =>
        intro c
        unfold evictLoop
        split
        · rfl
        · split
          · rw [ih, c.pop_front_ttl]
          · rfl
  exact hloop _ c

/-- The loop of a sweep drops the stale nodes at the front. -/
theorem evictLoop_spec (now : TimePoint) (fuel : Nat) :
    ∀ c : DedupCache, Linked c → c.lru_order.length ≤ fuel →
      Linked (evictLoop now fuel c)
        ∧ (evictLoop now fuel c).capacity = c.capacity
        ∧ (evictLoop now fuel c).lru_order
          = c.lru_order.dropWhile fun n => now - n.inserted_at > c.ttl := by
  induction fuel with
  | zero =>
      intro c h hlen
      have hnil := List.length_eq_zero_iff.mp (Nat.le_zero.mp hlen)
      refine ⟨h, rfl, ?_⟩
      unfold evictLoop
      rw [hnil]
      rfl
  | succ fuel ih =>
      intro c h hlen
      unfold evictLoop
      cases hl : c.lru_order with
      | nil => exact ⟨h, rfl, hl⟩
      | cons oldest rest =>
          dsimp only
          rw [List.dropWhile_cons]
          by_cases hold : now - oldest.inserted_at > c.ttl
          · have hrest : c.pop_front.lru_order = rest := by
              rw [c.pop_front_lru, hl]
              rfl
            rw [hl, List.length_cons] at hlen
            obtain ⟨hlinked, hcap, hlru⟩ := ih c.pop_front h.pop_front (by
              rw [hrest]
              omega)
            rw [hrest, c.pop_front_ttl] at hlru
            rw [if_pos hold, if_pos (decide_eq_true hold)]
            exact ⟨hlinked, hcap.trans c.pop_front_capacity, hlru⟩
          · rw [if_neg hold, if_neg (by simpa using hold)]
            exact ⟨h, rfl, hl⟩

/-- `EvictExpired` sweeps the log of what is older than `ttl`. -/
theorem Represents.evict (h : Represents c r) (now : TimePoint) :
    Represents (c.EvictExpired now)
      (r.sweep fun t => decide (now - t > c.ttl)) := by
  obtain ⟨hlinked, hcap, hlru⟩ :=
    evictLoop_spec now c.lru_order.length c h.linked (le_refl _)
  refine ⟨hlinked, hcap.trans h.capacity_eq, ?_⟩
  show r.entries.dropWhile _ = (evictLoop now _ c).lru_order.map _
  rw [hlru, h.entries_eq, List.dropWhile_map]
  rfl

end DedupCache

end Joker
