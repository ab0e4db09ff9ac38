/-
The acknowledgement-based coordinator (include/joker/coordinator.hpp,
src/coordinator_ack.cpp) and a node that runs it.

A candidate answers every data packet it is handed with an ACK. The
transmitter keeps what it has out under the packet's id and drops it on
the first ACK or at the deadline. The Forwarding message that should
tell the first candidate to go on is built in `HandleAck` and not sent,
so nothing is left of it here; receiving one does nothing either.

`AckCall` is a call of the transmitter's side, in any order and with any
ids, frames and clock readings.
-/
import Joker.Lib.Sweep
import Joker.Model.Forwarding

namespace Joker

open Transition

/-- `TransmitUnicast(destination, frame)` of the adapter. -/
def NicAdapter.TransmitUnicast (nic : NicAdapter) (destination : MacAddress)
    (frame : Bytes) : NicAdapter :=
  { transmitted := nic.transmitted ++ [⟨destination, frame, false, none⟩] }

/-- `AckCoordinator::PendingCoordination`. -/
structure PendingCoordination where
  packet_id : PacketId
  original_frame : Bytes
  deadline : TimePoint
  first_ack_sender : Option MacAddress
deriving DecidableEq

/-- `AckCoordinator`. -/
structure AckCoordinator where
  pending : UnorderedMap PacketId PendingCoordination := ∅

namespace AckCoordinator

/-- The candidate's answer to a data packet: `ack`, field by field. -/
def ack (header : JokerHeader) (local_mac : MacAddress) : JokerHeader where
  type := .kAck
  ttl := 1
  num_candidates := 0
  packet_id := header.packet_id
  final_destination := local_mac
  other_candidates := []

/-- The transmitter correlates an ACK with what it has pending. -/
def HandleAck (header : JokerHeader) (_frame : Bytes) (_offset : Nat)
    (c : AckCoordinator) : AckCoordinator :=
  match c.pending.lookup header.packet_id with
  | none => c  -- stale or unknown
  | some it =>
      match it.first_ack_sender with
      | some _ => c  -- already resolved
      | none =>
          let it :=
            { it with first_ack_sender := some header.final_destination }
          let pending := c.pending.replace header.packet_id it
          { pending := pending.erase header.packet_id }

/-- `ProcessTimeouts`: erase what is due, while iterating. -/
def ProcessTimeouts (now : TimePoint) (c : AckCoordinator) : AckCoordinator :=
  { pending := Sweep.sweep (fun _ it => decide (now ≥ it.deadline)) c.pending }

/-- `AddPending`: over whatever is pending for the id. -/
def AddPending (packet_id : PacketId) (frame : Bytes) (deadline : TimePoint)
    (c : AckCoordinator) : AckCoordinator :=
  { pending := c.pending.insert packet_id ⟨packet_id, frame, deadline, none⟩ }

end AckCoordinator

instance : Coordinator AckCoordinator where
  OnCandidateReceivedDataPacket header _ _ local_mac _ _ s :=
    let wire := (serialize_header (AckCoordinator.ack header local_mac) []).2
    { s with
      nic := s.nic.TransmitUnicast MacAddress.zero wire
      metrics := s.metrics.Increment .ack_sent }
  HandleAck := AckCoordinator.HandleAck
  HandleForwardingMessage _ _ _ c := c
  asTimerCoordinator := none

/-- A node whose coordinator is an `AckCoordinator`. -/
abbrev AckNode := JokerNode AckCoordinator

-- ================================================= the transmitter's side

/-- A call of the transmitter's side. -/
inductive AckCall where
  | AddPending (packet_id : PacketId) (frame : Bytes) (deadline : TimePoint)
  | HandleAck (header : JokerHeader) (frame : Bytes) (offset : Nat)
  | ProcessTimeouts (now : TimePoint)

namespace AckCoordinator

/-- The coordinator after one call. -/
def call (c : AckCoordinator) : AckCall → AckCoordinator
  | .AddPending packet_id frame deadline =>
      c.AddPending packet_id frame deadline
  | .HandleAck header frame offset => c.HandleAck header frame offset
  | .ProcessTimeouts now => c.ProcessTimeouts now

/-- The coordinator after a run of calls from its construction. -/
def after (calls : List AckCall) : AckCoordinator := exec call {} calls

end AckCoordinator

end Joker
