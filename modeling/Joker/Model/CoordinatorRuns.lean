/-
Runs of a timer coordinator driven directly: its three entry points, in
any order, with any headers, frames and configurations.

The receive pipeline calls `OnCandidateReceivedDataPacket` with a header
it has just decoded and an id its cache does not hold; here the caller is
free. `CoordinatorItem` is what a log of such a run would say: which
timer a call scheduled and what for, and which timer's callback ran and
what it found pending. No step reads it.
-/
import Joker.Lib.Transition
import Joker.Model.Coordinator

namespace Joker

variable {H : WheelHeap ForwardCallback}

/-- A call of the coordinator or of its wheel. -/
inductive CoordinatorEvent where
  | OnCandidateReceivedDataPacket (now : TimePoint) (header : JokerHeader)
    (frame : Bytes) (header_offset : Nat) (local_mac : MacAddress)
    (config : Config)
  | HandleOverheardForward (packet_id : PacketId)
  | Tick (now : TimePoint)

/-- The clock reading of a call that reads the clock. -/
def CoordinatorEvent.reading : CoordinatorEvent → Option TimePoint
  | .OnCandidateReceivedDataPacket now _ _ _ _ _ => some now
  | .HandleOverheardForward _ => none
  | .Tick now => some now

/-- One call, at a node with the coordinator. -/
def TimerNode.coordinate (s : TimerNode H) : CoordinatorEvent → TimerNode H
  | .OnCandidateReceivedDataPacket now header frame header_offset local_mac
      config =>
      Coordinator.OnCandidateReceivedDataPacket header frame header_offset
        local_mac config now s
  | .HandleOverheardForward packet_id =>
      { s with
        coordinator := s.coordinator.HandleOverheardForward packet_id }
  | .Tick now => TimerNode.Tick now s

/-- What a log of the run would say. -/
inductive CoordinatorItem where
  /-- A packet was accepted and given the timer `timer_id`. -/
  | accepted (timer_id : TimerId) (now : TimePoint) (header : JokerHeader)
    (frame : Bytes) (local_mac : MacAddress) (config : Config)
  /-- The callback of `timer` ran in a `Tick` at `now`, and `taken` was
  pending for its packet. -/
  | expired (now : TimePoint) (timer : TimerEntry ForwardCallback)
    (taken : Option PendingForward)

/-- The callbacks a `Tick` runs: its loop, with a record of each. -/
def TimerNode.expired (now : TimePoint) (s : TimerNode H) :
    List CoordinatorItem :=
  tickOutputs (fun s => s.coordinator.wheel)
    (fun w s => { s with coordinator := { s.coordinator with wheel := w } })
    on_expiry
    (fun timer s => [.expired now timer
      (s.coordinator.pending.lookup timer.callback.packet_id)])
    now s.coordinator.wheel.timers.length s

/-- What the log says of one call. -/
def TimerNode.logged (s : TimerNode H) :
    CoordinatorEvent → List CoordinatorItem
  | .OnCandidateReceivedDataPacket now header frame _ local_mac config =>
      [.accepted s.coordinator.wheel.next_id now header frame local_mac config]
  | .HandleOverheardForward _ => []
  | .Tick now => TimerNode.expired now s

/-- The log of a run. -/
def TimerNode.log (s : TimerNode H) (es : List CoordinatorEvent) :
    List CoordinatorItem :=
  Transition.outputs TimerNode.coordinate TimerNode.logged s es

end Joker
