/-
The metric pipeline with its partial operations checked.

The same functions as in Routing.lean and Candidate.lean, statement by
statement, with every division asking for its divisor and the narrowing
of the rounded quality for its range. Where one of them cannot be
answered the evaluation stops with a `Fault`; where none does the two
versions compute the same (Proofs/MetricFaults.lean). The guard of
`calculate_joker_lq` stands where the source has it, before the division
it guards.
-/
import Joker.Model.Candidate

namespace Joker

/-- What an evaluation can run into. -/
inductive Fault where
  | division_by_zero
  /-- The narrowing changed the number. -/
  | value_lost
deriving DecidableEq

/-- A division of `double`s. -/
def divide (a b : Rat) : Except Fault Rat :=
  if b = 0 then .error .division_by_zero else .ok (a / b)

/-- `static_cast<uint8_t>` of a `long`. -/
def narrow (z : Int) : Except Fault UInt8 :=
  if 0 ≤ z ∧ z ≤ 255 then .ok (UInt8.ofInt z) else .error .value_lost

def calculate_tq_checked (tq_local tq_recv : UInt8)
    (f_asym hop_penalty : Rat) (tq_max : UInt16) : Except Fault UInt8 := do
  let local_n ← divide tq_local.toNat tq_max.toNat
  let recv_n ← divide tq_recv.toNat tq_max.toNat
  let tq := local_n * recv_n * f_asym * hop_penalty * tq_max.toNat
  let tq := clamp tq 0 tq_max.toNat
  narrow (lround tq)

def calculate_joker_lq_checked (tq distance_penalty_value : UInt8)
    (tq_max : UInt16) : Except Fault Rat :=
  if tq_max = 0 then .ok 0
  else do
    let numerator : Rat := (tq_max.toNat : Rat) - distance_penalty_value.toNat
    let lq ← divide ((tq.toNat : Rat) * numerator) tq_max.toNat
    .ok (clamp lq 0 tq_max.toNat)

def score_checked (config : SelectionConfig) (n : NeighborEntry) :
    Except Fault Candidate := do
  let tq ← calculate_tq_checked n.tq_local n.tq_recv n.f_asym n.hop_penalty
    config.tq_max
  let fm := calculate_fade_margin n.rx_power_dbm config.sensitivity_dbm
  let dp := distance_penalty fm
  let lq ← calculate_joker_lq_checked tq dp config.tq_max
  .ok ⟨n.mac, lq, 0⟩

/-- The scoring loop; neighbours without a route are not evaluated. -/
def score_neighbors_checked (config : SelectionConfig) :
    List NeighborEntry → Except Fault (List Candidate)
  | [] => .ok []
  | n :: fresh =>
      if !n.reachable_to_dest then score_neighbors_checked config fresh
      else do
        let c ← score_checked config n
        let scored ← score_neighbors_checked config fresh
        .ok (c :: scored)

def select_candidates_checked (_destination : MacAddress)
    (neighbor_table : NeighborTable) (candidate_count : UInt8)
    (config : SelectionConfig) (now : TimePoint) :
    Except Fault (List Candidate) := do
  let fresh := neighbor_table.AllFresh now config.expiry
  let scored ← score_neighbors_checked config fresh
  let scored := scored.insertionSort fun a b => ranks_before b a = false
  let scored := if scored.length > candidate_count.toNat then
      scored.take candidate_count.toNat else scored
  .ok (scored.mapIdx fun i c => { c with priority := UInt8.ofNat (i + 1) })

end Joker
