/-
The coordination interface and its timer-based implementation
(include/joker/coordinator.hpp, src/coordinator_timer.cpp).

# The objects

`JokerNode κ` holds the mutable objects `process_received_frame` is
handed by reference — neighbour table, duplicate cache, coordinator of
type `κ`, network adapter, counters — and `Coordinator κ` is the
virtual interface it calls them through. `TimerCoordinator` keeps the
wheel it refers to as a field.

# The expiry callback, cut at its lock

The lambda `OnCandidateReceivedDataPacket` schedules captures the packet
id (and the node's own adapter and counters). It runs in two parts: a
critical section under `pending_mutex_` that moves the retained frame
out of `pending_` (`take_pending`), and what follows outside the lock —
parse, decrement, re-serialise, transmit (`send_frame`). They are two
definitions here, so that the interleaving model (Model/Atomic.lean) and
the sequential `Tick` run the same code.

# Bookkeeping

Two fields record history and are read by no step: a transmitted frame
names the pending entry it was taken from (`retained`), and
`expiries` lists which branch each callback run ended in.
-/
import Joker.Model.Header
import Joker.Model.DedupCache
import Joker.Model.TimerWheel

namespace Joker

/-- `TimerCoordinator::PendingForward`. -/
structure PendingForward where
  timer_id : TimerId
  frame : Bytes
deriving DecidableEq

-- ============================================================ the radio

/-- A frame handed to the network adapter. `retained` is bookkeeping:
the packet id and pending entry an expiry callback sent it for. -/
structure TransmittedFrame where
  destination : MacAddress
  data : Bytes
  is_broadcast : Bool
  retained : Option (PacketId × PendingForward) := none
deriving DecidableEq

/-- The adapter, as the record of what it was asked to transmit, in
order. -/
structure NicAdapter where
  transmitted : List TransmittedFrame := []

namespace NicAdapter

/-- `TransmitBroadcast(frame)`, on behalf of `retained`. -/
def TransmitBroadcast (nic : NicAdapter) (frame : Bytes)
    (retained : Option (PacketId × PendingForward)) : NicAdapter :=
  { transmitted :=
      nic.transmitted ++ [⟨MacAddress.broadcast, frame, true, retained⟩] }

end NicAdapter

-- ======================================================= the interface

/-- The objects a node's receive pipeline works on. -/
structure JokerNode (κ : Type) where
  neighbors : NeighborTable
  dedup : DedupCache
  coordinator : κ
  nic : NicAdapter
  metrics : Metrics

/-- The virtual methods of `Coordinator`. -/
class Coordinator (κ : Type) where
  /-- A candidate accepted a data packet at clock reading `now`. -/
  OnCandidateReceivedDataPacket (header : JokerHeader) (frame : Bytes)
    (header_offset : Nat) (local_mac : MacAddress) (config : Config)
    (now : TimePoint) : JokerNode κ → JokerNode κ
  HandleAck (header : JokerHeader) (frame : Bytes) (offset : Nat) : κ → κ
  HandleForwardingMessage (header : JokerHeader) (frame : Bytes)
    (offset : Nat) : κ → κ
  /-- `HandleOverheardForward`, where `dynamic_cast<TimerCoordinator*>`
  succeeds. -/
  asTimerCoordinator : Option (PacketId → κ → κ)

-- ================================================= the timer coordinator

/-- What the expiry lambda captures beyond the node's own objects. -/
structure ForwardCallback where
  packet_id : PacketId
deriving DecidableEq

/-- The branch a run of the expiry callback ended in. -/
inductive Expiry where
  /-- Nothing pending under the id: `frame_to_send` stayed empty. -/
  | no_entry (packet_id : PacketId)
  /-- A pending entry whose frame is empty. -/
  | empty_frame (packet_id : PacketId) (entry : PendingForward)
  /-- Parsed with `ttl > 1`: transmitted decremented. -/
  | forwarded (packet_id : PacketId) (entry : PendingForward)
  /-- Parsed with `ttl <= 1`: counted and dropped. -/
  | ttl_expired (packet_id : PacketId) (entry : PendingForward)
  /-- Did not parse: transmitted unchanged. -/
  | unparsable (packet_id : PacketId) (entry : PendingForward)
deriving DecidableEq

/-- `TimerCoordinator`, with the wheel it holds a reference to. -/
structure TimerCoordinator (H : WheelHeap ForwardCallback) where
  pending : UnorderedMap PacketId PendingForward := ∅
  wheel : SimpleTimerWheel ForwardCallback H := .empty
  expiries : List Expiry := []

variable {H : WheelHeap ForwardCallback}

/-- `start_forward_timer`: schedule at `twait * (priority - 1)` — an
unsigned 32-bit product — and retain the frame under the timer's id,
over whatever was pending for the packet. -/
def start_forward_timer (c : TimerCoordinator H) (header : JokerHeader)
    (frame : Bytes) (local_priority : UInt8) (twait_ms : UInt32)
    (now : TimePoint) (on_expiry : ForwardCallback) : TimerCoordinator H :=
  let delay := milliseconds (twait_ms * (local_priority.toUInt32 - 1)).toNat
  let (id, wheel) := c.wheel.Schedule now delay on_expiry
  { c with
    wheel := wheel
    pending := c.pending.insert header.packet_id ⟨id, frame⟩ }

/-- The priority loop of `OnCandidateReceivedDataPacket`: `2 + i`, cast
to `uint8_t`, at the first listed position `i` of the local address, and
1 when it is not listed. -/
def local_priority (header : JokerHeader) (local_mac : MacAddress) : UInt8 :=
  match header.other_candidates.findIdx? (· = local_mac) with
  | some i => UInt8.ofNat (2 + i)
  | none => 1

namespace TimerCoordinator

/-- The part of `OnCandidateReceivedDataPacket` under `pending_mutex_`. -/
def accept (header : JokerHeader) (frame : Bytes) (local_mac : MacAddress)
    (config : Config) (now : TimePoint) (c : TimerCoordinator H) :
    TimerCoordinator H :=
  start_forward_timer c header frame (local_priority header local_mac)
    config.twait_ms now ⟨header.packet_id⟩

/-- `HandleOverheardForward`: cancel and drop what is pending for the
id. -/
def HandleOverheardForward (packet_id : PacketId) (c : TimerCoordinator H) :
    TimerCoordinator H :=
  match c.pending.lookup packet_id with
  | none => c
  | some it =>
      { c with
        wheel := c.wheel.Cancel it.timer_id
        pending := c.pending.erase packet_id }

/-- The critical section of the expiry callback: move the entry for the
id, if there is one, out of `pending_`. -/
def take_pending (packet_id : PacketId) (c : TimerCoordinator H) :
    Option PendingForward × TimerCoordinator H :=
  match c.pending.lookup packet_id with
  | some it => (some it, { c with pending := c.pending.erase packet_id })
  | none => (none, c)

/-- Records the branch a callback run ended in. -/
def record (c : TimerCoordinator H) (e : Expiry) : TimerCoordinator H :=
  { c with expiries := c.expiries ++ [e] }

end TimerCoordinator

/-- A node whose coordinator is a `TimerCoordinator`. -/
abbrev TimerNode (H : WheelHeap ForwardCallback) :=
  JokerNode (TimerCoordinator H)

/-- `handle_forward_timer_expiry`: counts the forward. -/
def handle_forward_timer_expiry (s : TimerNode H) : TimerNode H :=
  { s with metrics := s.metrics.Increment .timer_forwards }

/-- The expiry callback after its critical section took `taken`. -/
def send_frame (packet_id : PacketId) (taken : Option PendingForward)
    (s : TimerNode H) : TimerNode H :=
  match taken with
  | none => { s with coordinator := s.coordinator.record (.no_entry packet_id) }
  | some it =>
      let frame_to_send := it.frame
      if frame_to_send = [] then
        { s with
          coordinator := s.coordinator.record (.empty_frame packet_id it) }
      else
        match deserialize_header frame_to_send 0 with
        | (some hdr, consumed) =>
            if hdr.ttl > 1 then
              let hdr := { hdr with ttl := hdr.ttl - 1 }
              let new_frame := (serialize_header hdr []).2
                ++ frame_to_send.drop consumed
              handle_forward_timer_expiry
                { s with
                  coordinator := s.coordinator.record (.forwarded packet_id it)
                  nic := s.nic.TransmitBroadcast new_frame
                    (some (packet_id, it)) }
            else
              { s with
                coordinator := s.coordinator.record (.ttl_expired packet_id it)
                metrics := s.metrics.Increment .ttl_expired }
        | (none, _) =>
            handle_forward_timer_expiry
              { s with
                coordinator := s.coordinator.record (.unparsable packet_id it)
                nic := s.nic.TransmitBroadcast frame_to_send
                  (some (packet_id, it)) }

/-- The expiry callback, run without interruption. -/
def on_expiry (cb : ForwardCallback) (s : TimerNode H) : TimerNode H :=
  let (taken, c) := s.coordinator.take_pending cb.packet_id
  send_frame cb.packet_id taken { s with coordinator := c }

/-- `Tick` of the node's wheel at clock reading `now`. An expiry
callback schedules nothing, so the wheel's size is fuel enough. -/
def TimerNode.Tick (now : TimePoint) (s : TimerNode H) : TimerNode H :=
  tickLoop (fun s => s.coordinator.wheel)
    (fun w s => { s with coordinator := { s.coordinator with wheel := w } })
    on_expiry now s.coordinator.wheel.timers.length s

instance : Coordinator (TimerCoordinator H) where
  OnCandidateReceivedDataPacket header frame _ local_mac config now s :=
    { s with
      coordinator := s.coordinator.accept header frame local_mac config now }
  HandleAck _ _ _ c := c
  HandleForwardingMessage _ _ _ c := c
  asTimerCoordinator := some TimerCoordinator.HandleOverheardForward

end Joker
