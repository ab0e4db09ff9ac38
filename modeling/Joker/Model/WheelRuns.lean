/-
Whole runs of a timer wheel whose callbacks may call it back.

`Tick` is cut at its loop: an event opens it, and every `turn` evaluates
the loop condition once and either pops a timer or returns. Between two
turns the callback of the popped timer is running, and what it calls are
events of their own: any number of `Schedule` and `Cancel` calls may
stand there. That is more than a callback can do — none runs after a
cancelled timer is popped — and so every run of the source is a run here.

A callback is an `Option`: a `std::function` may be empty, and `Tick`
then calls nothing. `trace` is bookkeeping that no step reads.
-/
import Joker.Lib.Transition
import Joker.Model.TimerWheel

namespace Joker

/-- A call of the wheel, or a turn of the loop of a `Tick`. -/
inductive WheelEvent (κ : Type) where
  /-- `Schedule`, `elapsed` after the clock was read last; the delay is
  in milliseconds. -/
  | Schedule (elapsed delay : Nat) (callback : Option κ)
  | Cancel (id : TimerId)
  /-- `Tick` is called and reads the clock. -/
  | Tick (elapsed : Nat)
  /-- The loop of the `Tick` in progress goes round once. -/
  | turn

/-- Is this a call a callback may make? -/
def WheelEvent.IsCall {κ : Type} : WheelEvent κ → Prop
  | .Schedule _ _ _ => True
  | .Cancel _ => True
  | _ => False

/-- What happened to the wheel. -/
inductive WheelItem (κ : Type) where
  /-- A call of `Schedule` returned `id`. -/
  | scheduled (id : TimerId) (expires_at : TimePoint) (callback : Option κ)
  /-- `Cancel` was called. -/
  | cancelled (id : TimerId)
  /-- Tick number `tick`, at clock reading `now`, popped `entry` and, if it
  is not cancelled and not empty, ran its callback. -/
  | popped (tick : Nat) (now : TimePoint) (entry : TimerEntry (Option κ))

/-- A wheel with the state of its clock and of its `Tick`. -/
structure WheelState (κ : Type) (H : WheelHeap (Option κ)) where
  wheel : SimpleTimerWheel (Option κ) H := .empty
  clock : TimePoint
  /-- The clock reading of the `Tick` in progress. -/
  ticking : Option TimePoint := none
  ticks : Nat := 0
  trace : List (WheelItem κ) := []

namespace WheelState

variable {κ : Type} {H : WheelHeap (Option κ)}

/-- One event. A `Tick` inside a `Tick` and a turn outside one are no
events. -/
def step (s : WheelState κ H) : WheelEvent κ → WheelState κ H
  | .Schedule elapsed delay callback =>
      let now := s.clock + elapsed
      let (id, wheel) := s.wheel.Schedule now (milliseconds delay) callback
      { s with
        wheel := wheel
        clock := now
        trace := s.trace
          ++ [.scheduled id (now + milliseconds delay) callback] }
  | .Cancel id =>
      { s with
        wheel := s.wheel.Cancel id
        trace := s.trace ++ [.cancelled id] }
  | .Tick elapsed =>
      match s.ticking with
      | some _ => s
      | none =>
          let now := s.clock + elapsed
          { s with clock := now, ticking := some now, ticks := s.ticks + 1 }
  | .turn =>
      match s.ticking with
      | none => s
      | some now =>
          match s.wheel.popExpired now with
          | none => { s with ticking := none }
          | some (entry, wheel) =>
              { s with
                wheel := wheel
                trace := s.trace ++ [.popped s.ticks now entry] }

/-- The state after a run on a new wheel, the clock first reading `clock`. -/
def after (H : WheelHeap (Option κ)) (clock : TimePoint)
    (es : List (WheelEvent κ)) : WheelState κ H :=
  Transition.exec step { clock := clock } es

end WheelState

/-- The id a call of `Schedule` returned. -/
def WheelItem.scheduledId {κ : Type} : WheelItem κ → Option TimerId
  | .scheduled id _ _ => some id
  | _ => none

/-- The id of the timer a turn popped. -/
def WheelItem.poppedId {κ : Type} : WheelItem κ → Option TimerId
  | .popped _ _ entry => some entry.id
  | _ => none

/-- The id of the timer whose callback a turn ran. -/
def WheelItem.ranId {κ : Type} : WheelItem κ → Option TimerId
  | .popped _ _ entry =>
      if !entry.cancelled && entry.callback.isSome then some entry.id else none
  | _ => none

end Joker
