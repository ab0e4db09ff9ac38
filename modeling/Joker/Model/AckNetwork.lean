/-
A network of nodes in ACK mode.

The nodes are those of Model/AckCoordinator.lean on the medium of
Model/Network.lean: what an adapter transmits goes on the air, and the
medium hands it to any other node, at most once to each, in any order,
at any time, or never, with any flag. A node's own traffic is a frame
put on the air (`originate`) and the exchange it opens for it
(`AddPending`); the code leaves it to the caller whether and in which
order it does the two.

# Bookkeeping

`handed` is read to hand nothing over twice; `answers` and the flags
that came with the hand-overs are read by no step.
-/
import Joker.Model.AckCoordinator
import Joker.Model.Network

namespace Joker

open Transition

/-- A transmission on the air of a network in ACK mode. -/
structure AckTransmission (N : Nat) where
  sender : Fin N
  frame : TransmittedFrame
  /-- The transmission it was sent on receipt of, by its place on the
  air. -/
  answers : Option Nat
deriving DecidableEq

/-- The nodes, and all that has been on the air. -/
structure AckNetwork (N : Nat) where
  nodes : Fin N → AckNode
  air : List (AckTransmission N) := []
  /-- Which transmissions were handed to which nodes, and the flag. -/
  handed : List ((Nat × Fin N) × Bool) := []

/-- What happens in a network in ACK mode. -/
inductive AckEvent (N : Nat) where
  /-- A node puts a frame of its own on the air. -/
  | originate (n : Fin N) (destination : MacAddress) (frame : Bytes)
  | AddPending (n : Fin N) (packet_id : PacketId) (frame : Bytes)
      (deadline : TimePoint)
  /-- Transmission `i` is handed to a node. -/
  | deliver (i : Nat) (n : Fin N) (now : TimePoint) (is_candidate : Bool)
  | ProcessTimeouts (n : Fin N) (now : TimePoint)
  | own_send (n : Fin N) (now : TimePoint) (packet_id : PacketId)
  | evict (n : Fin N) (now : TimePoint)

variable {N : Nat}

namespace AckNetwork

/-- Node `n` is now `s`; what it transmitted meanwhile goes on the air. -/
def put (net : AckNetwork N) (n : Fin N) (s : AckNode)
    (answers : Option Nat) : AckNetwork N :=
  let sent := s.nic.transmitted.drop (net.nodes n).nic.transmitted.length
  { net with
    nodes := Function.update net.nodes n s
    air := net.air ++ sent.map fun f => ⟨n, f, answers⟩ }

/-- The transmission that may be handed to node `n` under index `i`: one
on the air, of another node, not handed to `n` before. -/
def offered (net : AckNetwork N) (i : Nat) (n : Fin N) :
    Option (AckTransmission N) :=
  net.air[i]?.filter fun tx =>
    tx.sender ≠ n ∧ net.handed.all fun x => x.1 ≠ (i, n)

/-- One event. A hand-over that may not happen changes nothing. -/
def step (st : Stations N) (net : AckNetwork N) : AckEvent N → AckNetwork N
  | .originate n destination frame =>
      { net with
        air := net.air ++ [⟨n, ⟨destination, frame, destination.IsBroadcast,
          none⟩, none⟩] }
  | .AddPending n packet_id frame deadline =>
      let s := net.nodes n
      net.put n { s with
        coordinator := s.coordinator.AddPending packet_id frame deadline } none
  | .deliver i n now is_candidate =>
      match net.offered i n with
      | none => net
      | some tx =>
          { net with handed := ((i, n), is_candidate) :: net.handed }.put n
            (process_received_frame tx.frame.data (st.mac n) is_candidate
              (st.config n) now (net.nodes n)) (some i)
  | .ProcessTimeouts n now =>
      let s := net.nodes n
      net.put n { s with coordinator := s.coordinator.ProcessTimeouts now } none
  | .own_send n now packet_id =>
      let s := net.nodes n
      net.put n { s with dedup := s.dedup.Insert packet_id now } none
  | .evict n now =>
      let s := net.nodes n
      net.put n { s with dedup := s.dedup.EvictExpired now } none

/-- Nodes at start-up, nothing on the air. -/
def start (st : Stations N) : AckNetwork N where
  nodes n :=
    { neighbors := {}
      dedup := { capacity := st.capacity n, ttl := st.ttl n }
      coordinator := {}
      nic := {}
      metrics := {} }

/-- The network after a run from start-up. -/
def run (st : Stations N) (es : List (AckEvent N)) : AckNetwork N :=
  exec (step st) (start st) es

end AckNetwork

end Joker
