/-
The timer wheel (include/joker/timer_wheel.hpp, src/timer_wheel.cpp): a
vector of timers kept as a heap by `std::push_heap`/`std::pop_heap`,
earliest expiry in front.

The heap algorithms are a parameter `H` with the standard's contract,
so every fact about a wheel holds whichever conforming library orders
equal expiries. That the vector is a heap is a field of the wheel: the
three operations are the only ways to make one, and each hands the next
the heap it needs. A callback is data — what the closure captured —
and `Tick` is told how to run one.
-/
import Joker.Lib.VectorHeap
import Joker.Model.Basic

namespace Joker

open VectorHeap

/-- `TimerId`. -/
abbrev TimerId := Nat

/-- `SimpleTimerWheel::TimerEntry`. -/
structure TimerEntry (κ : Type) where
  id : TimerId
  expires_at : TimePoint
  callback : κ
  cancelled : Bool

/-- The heap algorithms a wheel of `κ` callbacks is compiled against:
`operator<` compares expiries, latest first. -/
abbrev WheelHeap (κ : Type) :=
  HeapAlgorithms (TimerEntry.expires_at : TimerEntry κ → TimePoint)

/-- `SimpleTimerWheel`, with the heap order of its vector. -/
structure SimpleTimerWheel (κ : Type) (H : WheelHeap κ) where
  next_id : TimerId
  timers : List (TimerEntry κ)
  heap : IsHeap TimerEntry.expires_at timers

namespace SimpleTimerWheel

variable {κ : Type} {H : WheelHeap κ}

/-- A new wheel: no timers, ids from one. -/
def empty : SimpleTimerWheel κ H := ⟨1, [], isHeap_nil _⟩

/-- Schedules `callback` to fire `delay` after the clock reading `now`;
the id returned is the counter before the call. -/
def Schedule (w : SimpleTimerWheel κ H) (now delay : TimePoint)
    (callback : κ) : TimerId × SimpleTimerWheel κ H :=
  (w.next_id,
    { next_id := w.next_id + 1
      timers := H.push_heap
        (w.timers ++ [⟨w.next_id, now + delay, callback, false⟩])
      heap := H.push_isHeap _ _ w.heap })

/-- The loop of `Cancel`: mark the first entry with the id, in place. -/
def cancelFirst (id : TimerId) : List (TimerEntry κ) → List (TimerEntry κ)
  | [] => []
  | e :: es =>
      if e.id = id then { e with cancelled := true } :: es
      else e :: cancelFirst id es

/-- Marking an entry cancelled moves no key. -/
theorem map_expires_at_cancelFirst (id : TimerId) (v : List (TimerEntry κ)) :
    (cancelFirst id v).map TimerEntry.expires_at
      = v.map TimerEntry.expires_at := by
  induction v with
  | nil => rfl
  | cons e es ih =>
      rw [cancelFirst]
      split
      · rfl
      · simp only [List.map_cons, ih]

/-- Cancels the timer with the id, if the wheel still holds one. -/
def Cancel (w : SimpleTimerWheel κ H) (id : TimerId) : SimpleTimerWheel κ H :=
  { next_id := w.next_id
    timers := cancelFirst id w.timers
    heap := w.heap.of_map_eq (map_expires_at_cancelFirst id w.timers) }

/-- One turn of the loop of `Tick` up to the pop: the expired timer at
the front, if there is one, and the wheel without it. -/
def popExpired (w : SimpleTimerWheel κ H) (now : TimePoint) :
    Option (TimerEntry κ × SimpleTimerWheel κ H) :=
  match h : w.timers with
  | [] => none
  | front :: rest =>
      if front.expires_at ≤ now then
        let v := H.pop_heap (front :: rest)
        v.getLast?.map fun entry =>
          (entry, { next_id := w.next_id
                    timers := v.dropLast
                    heap := H.isHeap_dropLast_pop (h ▸ w.heap) })
      else none

end SimpleTimerWheel

/-- The loop of `Tick` at clock reading `now`, one turn a unit of fuel,
over any state `σ` that holds a wheel: `run` is what a callback does to
that state, wheel included. -/
def tickLoop {κ σ : Type} {H : WheelHeap κ} (wheel : σ → SimpleTimerWheel κ H)
    (setWheel : SimpleTimerWheel κ H → σ → σ) (run : κ → σ → σ)
    (now : TimePoint) : Nat → σ → σ
  | 0, s => s
  | fuel + 1, s =>
      match (wheel s).popExpired now with
      | none => s
      | some (entry, w) =>
          let s := setWheel w s
          let s := if entry.cancelled then s else run entry.callback s
          tickLoop wheel setWheel run now fuel s

/-- What the callbacks of that loop give out: `out`, read when the
callback of the popped timer starts. -/
def tickOutputs {κ σ β : Type} {H : WheelHeap κ}
    (wheel : σ → SimpleTimerWheel κ H)
    (setWheel : SimpleTimerWheel κ H → σ → σ) (run : κ → σ → σ)
    (out : TimerEntry κ → σ → List β) (now : TimePoint) : Nat → σ → List β
  | 0, _ => []
  | fuel + 1, s =>
      match (wheel s).popExpired now with
      | none => []
      | some (entry, w) =>
          let s := setWheel w s
          if entry.cancelled
          then tickOutputs wheel setWheel run out now fuel s
          else out entry s
            ++ tickOutputs wheel setWheel run out now fuel
              (run entry.callback s)

end Joker
