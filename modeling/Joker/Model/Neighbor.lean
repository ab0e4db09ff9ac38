/-
The neighbour table and its one writer, originator messages
(include/joker/neighbor.hpp, src/neighbor.cpp, include/joker/ogm.hpp,
src/ogm.cpp).

`ogm_process` reads the steady clock itself, so its reading is an
argument here. `ogm_receive` is a stub in the source, and nothing sends
an originator message: what reaches `ogm_process` is arbitrary.
-/
import Joker.Lib.Transition
import Joker.Model.Basic

namespace Joker

/-- The fields of `Config` that neighbour discovery and candidate
selection read, over those of the pipeline, with their defaults. -/
structure SelectionConfig extends Config where
  tq_max : UInt16 := 255
  neighbor_expiry_ms : UInt32 := 6000
  sensitivity_dbm : Rat := -74

/-- `std::chrono::milliseconds(config.neighbor_expiry_ms)`. -/
def SelectionConfig.expiry (config : SelectionConfig) : TimePoint :=
  milliseconds config.neighbor_expiry_ms.toNat

-- ============================================================= the table

/-- Is the entry older than `expiry`? -/
def NeighborEntry.IsStale (e : NeighborEntry) (now expiry : TimePoint) :
    Bool :=
  now - e.last_seen > expiry

namespace NeighborTable

/-- Writes the entry under its own address, over what is there. -/
def Update (t : NeighborTable) (fresh : NeighborEntry) : NeighborTable :=
  { table := t.table.insert fresh.mac fresh }

/-- Erases the stale entries. -/
def ExpireStale (t : NeighborTable) (now expiry : TimePoint) :
    NeighborTable :=
  { table := ⟨t.table.entries.filter fun e => !e.2.IsStale now expiry,
      t.table.nodupKeys.sublist List.filter_sublist⟩ }

def Lookup (t : NeighborTable) (mac : MacAddress) : Option NeighborEntry :=
  t.table.lookup mac

/-- The entries that are not stale, in the order of the table. -/
def AllFresh (t : NeighborTable) (now expiry : TimePoint) :
    List NeighborEntry :=
  (t.table.entries.map Sigma.snd).filter fun e => !e.IsStale now expiry

end NeighborTable

-- =================================================== originator messages

/-- `Ogm`. -/
structure Ogm where
  originator : MacAddress
  sequence_number : UInt32
  tq_reported : UInt8
  ttl : UInt8

/-- A node's own message: full quality towards itself. -/
def ogm_build (self_mac : MacAddress) (next_sequence_number : UInt32)
    (initial_ttl : UInt8) : Ogm where
  originator := self_mac
  sequence_number := next_sequence_number
  tq_reported := 255
  ttl := initial_ttl

/-- The row `ogm_process` writes: the originator taken for the immediate
neighbour, and everything the message does not carry at its best. -/
def ogm_entry (ogm : Ogm) (rx_power_dbm : Rat) (now : TimePoint) :
    NeighborEntry where
  mac := ogm.originator
  last_seen := now
  tq_local := 255
  tq_recv := ogm.tq_reported
  f_asym := 1
  hop_penalty := 1
  rx_power_dbm := rx_power_dbm
  reachable_to_dest := true

def ogm_process (ogm : Ogm) (neighbors : NeighborTable) (rx_power_dbm : Rat)
    (now : TimePoint) : NeighborTable :=
  neighbors.Update (ogm_entry ogm rx_power_dbm now)

-- ========================================================== runs of a table

/-- A call that changes a table. -/
inductive TableCall where
  | Update (fresh : NeighborEntry)
  | ExpireStale (now expiry : TimePoint)

/-- One call. -/
def NeighborTable.call (t : NeighborTable) : TableCall → NeighborTable
  | .Update fresh => t.Update fresh
  | .ExpireStale now expiry => t.ExpireStale now expiry

/-- A new table after a sequence of calls. -/
def NeighborTable.after (calls : List TableCall) : NeighborTable :=
  Transition.exec NeighborTable.call {} calls

/-- What happens to the table of a node that discovers its neighbours. -/
inductive DiscoveryEvent where
  /-- A message is processed at clock reading `now`. -/
  | ogm_process (now : TimePoint) (ogm : Ogm) (rx_power_dbm : Rat)
  /-- A sweep at `now`, with the configured expiry. -/
  | ExpireStale (now : TimePoint)

/-- What an event is to the table alone. -/
def DiscoveryEvent.call (config : SelectionConfig) :
    DiscoveryEvent → TableCall
  | .ogm_process now ogm rx_power_dbm =>
      .Update (ogm_entry ogm rx_power_dbm now)
  | .ExpireStale now => .ExpireStale now config.expiry

/-- One event of a node with the given configuration. -/
def NeighborTable.discover (config : SelectionConfig)
    (neighbors : NeighborTable) :
    DiscoveryEvent → NeighborTable
  | .ogm_process now ogm rx_power_dbm =>
      Joker.ogm_process ogm neighbors rx_power_dbm now
  | .ExpireStale now => neighbors.ExpireStale now config.expiry

/-- The table after a run of discovery. -/
def discovered (config : SelectionConfig) (es : List DiscoveryEvent) :
    NeighborTable :=
  Transition.exec (NeighborTable.discover config) {} es

end Joker
