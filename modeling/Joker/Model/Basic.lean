/-
The data every part of the node is built from: bytes, MAC addresses,
the clock, the configuration, the counters, and the objects a node
keeps but this core never writes.

# Reading guide

Definitions keep the source's names. `std::vector<uint8_t>` is a list
of bytes; a fixed-width integer of the source is the `UInt` of that
width; `std::unordered_map` is an association list with distinct keys
(`AList`), whose order nothing here depends on. Time points and
durations of the steady clock are integers counting nanoseconds, so
that `now - inserted_at` may be negative as it may be in C++. Timer ids
and list sizes are natural numbers: the 64-bit counters behind them are
taken not to wrap.
-/
import Mathlib.Data.List.AList
import Mathlib.Data.List.TakeWhile
import Mathlib.Data.Rat.Defs

namespace Joker

/-- `std::vector<uint8_t>`: frames, payloads, wire buffers. -/
abbrev Bytes := List UInt8

/-- What C sees of a byte string. -/
def c_str (bytes : Bytes) : Bytes := bytes.takeWhile (· ≠ 0)

theorem c_str_eq_self {bytes : Bytes} (h : 0 ∉ bytes) :
    c_str bytes = bytes := by
  unfold c_str
  rw [List.takeWhile_eq_self_iff]
  intro b hb
  apply decide_eq_true
  rintro rfl
  exact h hb

/-- The 32-bit packet id of a data packet. -/
abbrev PacketId := UInt32

/-- `std::unordered_map`, up to the order of its buckets. -/
abbrev UnorderedMap (α β : Type) := AList fun _ : α => β

-- ============================================================= the clock

/-- A `steady_clock` time point or duration, in nanoseconds. -/
abbrev TimePoint := Int

/-- `std::chrono::milliseconds(n)` on the clock's scale. -/
def milliseconds (n : Nat) : TimePoint := (n : Int) * 1000000

-- ========================================================= MAC addresses

/-- Six bytes of a MAC address. -/
structure MacAddress where
  bytes : List UInt8
  length_bytes : bytes.length = 6
deriving DecidableEq

namespace MacAddress

/-- The address `MacAddress{}`: six zero bytes. -/
def zero : MacAddress := ⟨[0, 0, 0, 0, 0, 0], rfl⟩

/-- The link-layer broadcast address. -/
def broadcast : MacAddress := ⟨[0xff, 0xff, 0xff, 0xff, 0xff, 0xff], rfl⟩

instance : Inhabited MacAddress := ⟨zero⟩

/-- Is this `ff:ff:ff:ff:ff:ff`? -/
def IsBroadcast (m : MacAddress) : Bool := m.bytes.all (· == 0xff)

/-- Is this `00:00:00:00:00:00`? -/
def IsZero (m : MacAddress) : Bool := m.bytes.all (· == 0x00)

theorem ext_bytes {m n : MacAddress} (h : m.bytes = n.bytes) : m = n := by
  cases m
  cases n
  cases h
  rfl

end MacAddress

-- ========================================================= configuration

/-- The fields of `Config` the receive pipeline and the coordinators
read, with their defaults. -/
structure Config where
  candidate_count : UInt8 := 2
  twait_ms : UInt32 := 50

-- ============================================================== counters

/-- The counter names the core passes to `Metrics::Increment`. -/
inductive Counter where
  | packets_received
  | packets_dropped
  | malformed_header
  | invalid_header
  | duplicates
  | packets_delivered_lucky_or_direct
  | ttl_expired
  | overheard_packets_not_candidate
  | candidate_packets_received
  | timer_forwards
  | ack_sent
deriving DecidableEq

/-- `SimpleMetrics`: a counter that was never incremented reads zero. -/
structure Metrics where
  counters : Counter → UInt64 := fun _ => 0

namespace Metrics

/-- `Increment(name)`, by one. -/
def Increment (m : Metrics) (name : Counter) : Metrics :=
  { counters := fun n => if n = name then m.counters n + 1 else m.counters n }

/-- `GetCounter(name)`. -/
def GetCounter (m : Metrics) (name : Counter) : UInt64 := m.counters name

@[simp] theorem GetCounter_Increment_self (m : Metrics) (n : Counter) :
    (m.Increment n).GetCounter n = m.GetCounter n + 1 := by
  simp [Increment, GetCounter]

@[simp] theorem GetCounter_Increment_ne (m : Metrics) {n k : Counter}
    (h : n ≠ k) : (m.Increment k).GetCounter n = m.GetCounter n := by
  simp [Increment, GetCounter, h]

end Metrics

-- ============================================== neighbours and the radio

/-- One row of the neighbour table; its `double`s are read as exact
rationals. -/
structure NeighborEntry where
  mac : MacAddress
  last_seen : TimePoint
  tq_local : UInt8 := 0
  tq_recv : UInt8 := 0
  f_asym : Rat := 1
  hop_penalty : Rat := 1
  rx_power_dbm : Rat := 0
  reachable_to_dest : Bool := false

/-- `NeighborTable`: rows keyed by MAC address. -/
structure NeighborTable where
  table : UnorderedMap MacAddress NeighborEntry := ∅

end Joker
