/-
The receive pipeline (src/forwarding.cpp) and the runs of a node that
is driven by it: frames handed over by the adapter, ticks of the timer
wheel, the duplicate-cache insertions of the node's own sends, and
expiry sweeps of that cache.
-/
import Joker.Lib.Transition
import Joker.Model.Coordinator

namespace Joker

open Transition

/-- Recognises a lucky long transmission or a direct delivery. -/
def is_lucky_long_or_direct_delivery (header : JokerHeader)
    (local_mac : MacAddress) : Bool :=
  header.final_destination = local_mac

/-- `process_received_frame` at clock reading `now`: the central receive
pipeline, called for every frame the adapter hands over. -/
def process_received_frame {κ : Type} [Coordinator κ] (raw_frame : Bytes)
    (local_mac : MacAddress) (is_candidate : Bool) (config : Config)
    (now : TimePoint) (s : JokerNode κ) : JokerNode κ :=
  let s := { s with metrics := s.metrics.Increment .packets_received }
  -- 1. isolate the header
  match deserialize_header raw_frame 0 with
  | (none, _) =>
      { s with
        metrics :=
          (s.metrics.Increment .packets_dropped).Increment .malformed_header }
  | (some header, consumed) =>
  -- 2. structural validation
  if !validate_header header config.candidate_count then
    { s with
      metrics :=
        (s.metrics.Increment .packets_dropped).Increment .invalid_header }
  else
  -- 3. packet-type dispatch
  match header.type with
  | .kAck =>
      { s with
        coordinator :=
          Coordinator.HandleAck header raw_frame consumed s.coordinator }
  | .kForwarding =>
      { s with
        coordinator := Coordinator.HandleForwardingMessage
          header raw_frame consumed s.coordinator }
  | .kUnicast =>
  -- 4. lucky long transmission check
  if is_lucky_long_or_direct_delivery header local_mac then
    if s.dedup.Contains header.packet_id then
      { s with metrics := s.metrics.Increment .duplicates }
    else
      { s with
        dedup := s.dedup.Insert header.packet_id now
        metrics := s.metrics.Increment .packets_delivered_lucky_or_direct }
  -- 5. TTL check
  else if header.ttl = 0 then
    { s with
      metrics :=
        (s.metrics.Increment .ttl_expired).Increment .packets_dropped }
  -- 6. duplicate suppression
  else if s.dedup.Contains header.packet_id then
    { s with metrics := s.metrics.Increment .duplicates }
  else
  let s := { s with dedup := s.dedup.Insert header.packet_id now }
  -- 7. not the destination: candidate or overhearing?
  if !is_candidate then
    let s := { s with
      metrics := s.metrics.Increment .overheard_packets_not_candidate }
    match (Coordinator.asTimerCoordinator : Option (PacketId → κ → κ)) with
    | some HandleOverheardForward =>
        { s with
          coordinator := HandleOverheardForward header.packet_id s.coordinator }
    | none => s
  else
  let s := { s with
    metrics := s.metrics.Increment .candidate_packets_received }
  -- 8. hand off to the coordination scheme
  Coordinator.OnCandidateReceivedDataPacket header raw_frame consumed
    local_mac config now s

-- ================================================== the runs of one node

/-- What happens to a timer-mode node. -/
inductive NodeEvent where
  /-- The adapter hands over a frame. -/
  | receive (now : TimePoint) (frame : Bytes) (is_candidate : Bool)
  /-- The ticker thread ticks the wheel. -/
  | tick (now : TimePoint)
  /-- The node records the id of a packet it sends itself. -/
  | own_send (now : TimePoint) (packet_id : PacketId)
  /-- A sweep of the duplicate cache. -/
  | evict (now : TimePoint)

variable {H : WheelHeap ForwardCallback}

/-- One event at a node with the given address and configuration. -/
def TimerNode.step (local_mac : MacAddress) (config : Config)
    (s : TimerNode H) : NodeEvent → TimerNode H
  | .receive now frame is_candidate =>
      process_received_frame frame local_mac is_candidate config now s
  | .tick now => TimerNode.Tick now s
  | .own_send now packet_id =>
      { s with dedup := s.dedup.Insert packet_id now }
  | .evict now => { s with dedup := s.dedup.EvictExpired now }

/-- A node at start-up: nothing seen, nothing pending, no timers. -/
def TimerNode.start (H : WheelHeap ForwardCallback) (capacity : Nat)
    (ttl : TimePoint) : TimerNode H where
  neighbors := {}
  dedup := { capacity := capacity, ttl := ttl }
  coordinator := {}
  nic := {}
  metrics := {}

/-- The node after a run from start-up. -/
def TimerNode.run (H : WheelHeap ForwardCallback) (local_mac : MacAddress)
    (config : Config) (capacity : Nat) (ttl : TimePoint)
    (es : List NodeEvent) : TimerNode H :=
  exec (TimerNode.step local_mac config) (TimerNode.start H capacity ttl) es

end Joker
