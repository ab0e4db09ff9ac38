/-
The scheduler of OGM broadcasts (include/joker/cmsi.hpp, src/cmsi.cpp) on
a timer wheel it shares with others, with the source's `double`s read as
exact rationals.

`Reschedule` is called once at start-up and again from each broadcast
callback, as its header asks of the callers; each call is given whatever
throughput was measured. `Tick` is cut at its loop as in
Model/WheelRuns.lean, and what other callbacks call are events of their
own. A timer's id is known to whom `Schedule` returned it, and
`Reschedule` drops it: nobody else's `Cancel` can name it.

`broadcasts`, `ticks` and `rescheduled_at` are bookkeeping that no step
reads.
-/
import Joker.Lib.Transition
import Joker.Model.Routing
import Joker.Model.TimerWheel

namespace Joker

/-- The interval between control messages, in seconds. -/
def calculate_cmsi (throughput_kbps : Rat) : Rat :=
  6 / 1000 * throughput_kbps + 3 / 2

/-- `static_cast<int64_t>`: towards zero. -/
def truncate (q : Rat) : Int := if 0 ≤ q then ⌊q⌋ else ⌈q⌉

/-- A delay of so many seconds, in whole milliseconds, on the scale of the
clock. -/
def whole_milliseconds (seconds : Rat) : TimePoint :=
  truncate (seconds * 1000) * 1000000

/-- `CmsiScheduler`, but for its reference to the wheel, with the defaults
of `Config`. -/
structure CmsiScheduler where
  min_s : Rat := 3 / 2
  max_s : Rat := 30

/-- The delay `Reschedule` schedules with. -/
def CmsiScheduler.delay (c : CmsiScheduler) (throughput_kbps : Rat) :
    TimePoint :=
  whole_milliseconds (clamp (calculate_cmsi throughput_kbps) c.min_s c.max_s)

def CmsiScheduler.Reschedule {κ : Type} {H : WheelHeap κ} (c : CmsiScheduler)
    (throughput_kbps : Rat) (on_fire : κ) (now : TimePoint)
    (wheel : SimpleTimerWheel κ H) : SimpleTimerWheel κ H :=
  (wheel.Schedule now (c.delay throughput_kbps) on_fire).2

-- ================================================================= runs

/-- What a timer of a shared wheel is for. -/
inductive SharedCallback (κ : Type) where
  | on_fire
  | other (callback : κ)

/-- Is it the broadcast's? -/
def SharedCallback.isOnFire {κ : Type} : SharedCallback κ → Bool
  | on_fire => true
  | other _ => false

/-- What happens to a shared wheel. -/
inductive CmsiEvent (κ : Type) where
  /-- Somebody else schedules a timer, `elapsed` after the clock was read
  last. -/
  | Schedule (elapsed : Nat) (delay : TimePoint) (callback : κ)
  | Cancel (id : TimerId)
  /-- `Tick` is called and reads the clock. -/
  | Tick (elapsed : Nat)
  /-- The loop of the `Tick` in progress goes round once. If it pops the
  broadcast's timer, the broadcast takes `elapsed`, and the throughput
  measured then is `throughput_kbps`. -/
  | turn (elapsed : Nat) (throughput_kbps : Rat)

/-- A shared wheel, its clock and its `Tick`. -/
structure CmsiState (κ : Type) (H : WheelHeap (SharedCallback κ)) where
  wheel : SimpleTimerWheel (SharedCallback κ) H
  clock : TimePoint
  /-- The clock reading of the `Tick` in progress. -/
  ticking : Option TimePoint := none
  /-- The ids that were returned to others. -/
  returned : List TimerId := []
  ticks : Nat := 0
  /-- The clock reading of the last `Reschedule`. -/
  rescheduled_at : TimePoint
  /-- The broadcasts: in which `Tick`, and when. -/
  broadcasts : List (Nat × TimePoint) := []

namespace CmsiState

variable {κ : Type} {H : WheelHeap (SharedCallback κ)}

/-- One event. -/
def step (c : CmsiScheduler) (s : CmsiState κ H) : CmsiEvent κ → CmsiState κ H
  | .Schedule elapsed delay callback =>
      let now := s.clock + elapsed
      let (id, wheel) := s.wheel.Schedule now delay (.other callback)
      { s with
        wheel := wheel
        clock := now
        returned := id :: s.returned }
  | .Cancel id =>
      if id ∈ s.returned then { s with wheel := s.wheel.Cancel id } else s
  | .Tick elapsed =>
      match s.ticking with
      | some _ => s
      | none =>
          let now := s.clock + elapsed
          { s with clock := now, ticking := some now, ticks := s.ticks + 1 }
  | .turn elapsed throughput_kbps =>
      match s.ticking with
      | none => s
      | some now =>
          match s.wheel.popExpired now with
          | none => { s with ticking := none }
          | some (entry, wheel) =>
              if entry.cancelled || !entry.callback.isOnFire then
                { s with wheel := wheel }
              else
                { s with
                  wheel := c.Reschedule throughput_kbps .on_fire
                    (s.clock + elapsed) wheel
                  clock := s.clock + elapsed
                  rescheduled_at := s.clock + elapsed
                  broadcasts := s.broadcasts ++ [(s.ticks, s.clock)] }

/-- A new wheel after the call at start-up. -/
def start (H : WheelHeap (SharedCallback κ)) (c : CmsiScheduler)
    (clock : TimePoint) (throughput_kbps : Rat) : CmsiState κ H where
  wheel := c.Reschedule throughput_kbps .on_fire clock .empty
  clock := clock
  rescheduled_at := clock

/-- The wheel after a run from start-up. -/
def run (H : WheelHeap (SharedCallback κ)) (c : CmsiScheduler)
    (clock : TimePoint) (throughput_kbps : Rat) (es : List (CmsiEvent κ)) :
    CmsiState κ H :=
  Transition.exec (step c) (start H c clock throughput_kbps) es

end CmsiState

end Joker
