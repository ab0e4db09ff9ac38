/-
The link metrics (include/joker/routing.hpp, src/routing.cpp), with the
source's `double`s read as exact rationals.

`std::lround` rounds to the nearest integer, halves away from zero, and
the cast of its result to `uint8_t` keeps the low eight bits. A quotient
by `tq_max = 0` is zero here; `calculate_joker_lq` returns zero then, so
no ranking looks at it.
-/
import Joker.Model.Basic
import Mathlib.Data.Rat.Floor

namespace Joker

/-- `std::clamp`. -/
def clamp (v lo hi : Rat) : Rat :=
  if v < lo then lo else if hi < v then hi else v

/-- `std::lround`. -/
def lround (q : Rat) : Int :=
  if 0 ≤ q then ⌊q + 1 / 2⌋ else -⌊-q + 1 / 2⌋

/-- The transmission quality of a link, normalised, multiplied, rescaled,
clamped and rounded. -/
def calculate_tq (tq_local tq_recv : UInt8) (f_asym hop_penalty : Rat)
    (tq_max : UInt16) : UInt8 :=
  let local_n : Rat := (tq_local.toNat : Rat) / tq_max.toNat
  let recv_n : Rat := (tq_recv.toNat : Rat) / tq_max.toNat
  let tq := local_n * recv_n * f_asym * hop_penalty * tq_max.toNat
  let tq := clamp tq 0 tq_max.toNat
  UInt8.ofInt (lround tq)

/-- Received power over the sensitivity of the receiver, in dB. -/
def calculate_fade_margin (received_power_dbm sensitivity_dbm : Rat) : Rat :=
  received_power_dbm - sensitivity_dbm

def distance_penalty (fade_margin_db : Rat) : UInt8 :=
  if fade_margin_db < 10 then 1
  else if fade_margin_db ≤ 20 then 3
  else 5

/-- The link quality candidates are ranked by. -/
def calculate_joker_lq (tq distance_penalty_value : UInt8)
    (tq_max : UInt16) : Rat :=
  if tq_max = 0 then 0
  else
    let numerator : Rat := (tq_max.toNat : Rat) - distance_penalty_value.toNat
    let lq := (tq.toNat : Rat) * numerator / tq_max.toNat
    clamp lq 0 tq_max.toNat

end Joker
