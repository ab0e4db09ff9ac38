/-
Candidate selection (include/joker/candidate.hpp, src/candidate.cpp).

`select_candidates` reads the steady clock, whose reading is an argument
here, and does not look at the destination it is given. `std::sort` is
insertion sort by the same comparator: entries of a table have distinct
addresses, so the comparator orders them strictly and every correct sort
returns the same list.
-/
import Joker.Model.Header
import Joker.Model.Neighbor
import Joker.Model.Routing
import Mathlib.Data.List.Sort

namespace Joker

/-- `Candidate`, priority 1 the highest. -/
structure Candidate where
  mac : MacAddress
  lq : Rat
  priority : UInt8
deriving DecidableEq

/-- `operator<` of addresses: lexicographic in the bytes. -/
instance : LT MacAddress :=
  ⟨fun m n => m.bytes.map UInt8.toNat < n.bytes.map UInt8.toNat⟩

instance (m n : MacAddress) : Decidable (m < n) :=
  inferInstanceAs (Decidable (_ < (_ : List Nat)))

/-- The comparator of the sort: better link first, then lower address. -/
def ranks_before (a b : Candidate) : Bool :=
  if a.lq ≠ b.lq then a.lq > b.lq else a.mac < b.mac

/-- The candidate a neighbour makes, not yet ranked. -/
def score (config : SelectionConfig) (n : NeighborEntry) : Candidate :=
  let tq := calculate_tq n.tq_local n.tq_recv n.f_asym n.hop_penalty
    config.tq_max
  let fm := calculate_fade_margin n.rx_power_dbm config.sensitivity_dbm
  let dp := distance_penalty fm
  let lq := calculate_joker_lq tq dp config.tq_max
  ⟨n.mac, lq, 0⟩

/-- The scoring loop: the neighbours with a route to the destination. -/
def score_neighbors (config : SelectionConfig) (fresh : List NeighborEntry) :
    List Candidate :=
  fresh.filterMap fun n =>
    if !n.reachable_to_dest then none else some (score config n)

/-- The candidates for a packet, best first. -/
def select_candidates (_destination : MacAddress)
    (neighbor_table : NeighborTable) (candidate_count : UInt8)
    (config : SelectionConfig) (now : TimePoint) : List Candidate :=
  let fresh := neighbor_table.AllFresh now config.expiry
  let scored := score_neighbors config fresh
  let scored := scored.insertionSort fun a b => ranks_before b a = false
  let scored := if scored.length > candidate_count.toNat then
      scored.take candidate_count.toNat else scored
  scored.mapIdx fun i c => { c with priority := UInt8.ofNat (i + 1) }

end Joker
