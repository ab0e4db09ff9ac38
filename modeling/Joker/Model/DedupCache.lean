/-
The duplicate cache (include/joker/dedup_cache.hpp,
src/dedup_cache.cpp): an LRU list of entries and a hash index of
iterators into it.

A `std::list` iterator names a node, not a position, and stays valid
while the list is spliced around it. Nodes therefore carry an address
of their own, fresh at `push_back`, and the index maps a packet id to
the address of its node. Nothing in the data ties the two containers
together; that they agree is an invariant of the operations
(Proofs/DedupCache.lean).
-/
import Joker.Lib.Transition
import Joker.Model.Basic

namespace Joker

/-- A node of `lru_order_`: its address and the `Entry` it holds. -/
structure LruNode where
  addr : Nat
  packet_id : PacketId
  inserted_at : TimePoint
deriving DecidableEq

/-- `DedupCache`, oldest entry at the front of `lru_order`. -/
structure DedupCache where
  capacity : Nat
  ttl : TimePoint
  lru_order : List LruNode := []
  index : UnorderedMap PacketId Nat := ∅
  next_addr : Nat := 0

namespace DedupCache

/-- Is the id indexed? The entry's age is not looked at. -/
def Contains (c : DedupCache) (packet_id : PacketId) : Bool :=
  (c.index.lookup packet_id).isSome

/-- `lru_order_.splice(lru_order_.end(), lru_order_, it)` and the write
of `it->inserted_at`. -/
def splice_to_back (it : Nat) (now : TimePoint) (l : List LruNode) :
    List LruNode :=
  l.filter (·.addr ≠ it)
    ++ (l.filter (·.addr = it)).map fun e => { e with inserted_at := now }

/-- Evicts the front of the list, if there is one. -/
def pop_front (c : DedupCache) : DedupCache :=
  match c.lru_order with
  | [] => c
  | oldest :: rest =>
      { c with index := c.index.erase oldest.packet_id, lru_order := rest }

/-- Records an id at clock reading `now`: refreshes it if present, else
appends it, evicting the oldest entry of a full cache. -/
def Insert (c : DedupCache) (packet_id : PacketId) (now : TimePoint) :
    DedupCache :=
  if c.capacity = 0 then c
  else
    match c.index.lookup packet_id with
    | some it => { c with lru_order := splice_to_back it now c.lru_order }
    | none =>
        let c := if c.index.keys.length ≥ c.capacity ∧ c.lru_order ≠ [] then
            c.pop_front else c
        { c with
          lru_order := c.lru_order ++ [⟨c.next_addr, packet_id, now⟩]
          index := c.index.insert packet_id c.next_addr
          next_addr := c.next_addr + 1 }

/-- The loop of `EvictExpired`, one turn a unit of fuel: pop the front
while it is older than `ttl_`. -/
def evictLoop (now : TimePoint) : Nat → DedupCache → DedupCache
  | 0, c => c
  | fuel + 1, c =>
      match c.lru_order with
      | [] => c
      | oldest :: _ =>
          if now - oldest.inserted_at > c.ttl then
            evictLoop now fuel c.pop_front
          else c

/-- Periodic sweep. Each turn shortens the list, so its length is fuel
enough. -/
def EvictExpired (c : DedupCache) (now : TimePoint) : DedupCache :=
  evictLoop now c.lru_order.length c

end DedupCache

-- ================================================== the runs of a cache

/-- A call that changes a cache. -/
inductive CacheCall where
  | Insert (now : TimePoint) (packet_id : PacketId)
  | EvictExpired (now : TimePoint)

/-- One call. -/
def DedupCache.call (c : DedupCache) : CacheCall → DedupCache
  | .Insert now packet_id => c.Insert packet_id now
  | .EvictExpired now => c.EvictExpired now

/-- A new cache after a sequence of calls. -/
def DedupCache.after (capacity : Nat) (ttl : TimePoint)
    (calls : List CacheCall) : DedupCache :=
  Transition.exec DedupCache.call { capacity := capacity, ttl := ttl } calls

/-- The id and clock reading of an insertion. -/
def CacheCall.insertion : CacheCall → Option (PacketId × TimePoint)
  | .Insert now packet_id => some (packet_id, now)
  | .EvictExpired _ => none

/-- The insertions among the calls, in order. -/
def insertions (calls : List CacheCall) : List (PacketId × TimePoint) :=
  calls.filterMap CacheCall.insertion

/-- The ids inserted by the calls. -/
def insertedIds (calls : List CacheCall) : List PacketId :=
  (insertions calls).map Prod.fst

end Joker
