/-
A network of timer-mode nodes that share a medium.

A node's transmissions go on the air as its adapter records them; the
medium hands a transmission to any other node, at most once to each, in
any order, at any time, or never. The flag that goes with a hand-over is
part of the event: the adapters compute it from the link-layer
destination (`addressed_to`), and a property that depends on the rule
says so. Local sends put a frame on the air (`originate`) and record
its id (`own_send`).

# Bookkeeping

Steps read `handed`, to hand nothing over twice, and nothing else of
what is recorded beside the nodes: `source` remembers which transmission
a node took each of its timers on for, `parent` and `sent_at` where a
transmission on the air came from and when.
-/
import Joker.Model.Forwarding
import Mathlib.Logic.Function.Basic

namespace Joker

open Transition

/-- What the nodes of a network are built with. -/
structure Stations (N : Nat) where
  mac : Fin N → MacAddress
  config : Fin N → Config
  capacity : Fin N → Nat
  ttl : Fin N → TimePoint

/-- A transmission on the air. -/
structure Transmission (N : Nat) where
  sender : Fin N
  frame : TransmittedFrame
  sent_at : TimePoint
  /-- The transmission it forwards, by its place on the air. -/
  parent : Option Nat
deriving DecidableEq

/-- The nodes, and all that has been on the air. -/
structure Network (N : Nat) (H : WheelHeap ForwardCallback) where
  nodes : Fin N → TimerNode H
  air : List (Transmission N) := []
  /-- Which transmissions were handed to which nodes. -/
  handed : List (Nat × Fin N) := []
  /-- The transmission each timer of a node was scheduled for. -/
  source : Fin N → TimerId → Option Nat := fun _ _ => none

/-- What happens in a network. -/
inductive NetEvent (N : Nat) where
  /-- A node puts a frame of its own on the air. -/
  | originate (n : Fin N) (now : TimePoint) (destination : MacAddress)
      (frame : Bytes)
  /-- Transmission `i` is handed to a node. -/
  | deliver (i : Nat) (n : Fin N) (now : TimePoint) (is_candidate : Bool)
  | tick (n : Fin N) (now : TimePoint)
  | own_send (n : Fin N) (now : TimePoint) (packet_id : PacketId)
  | evict (n : Fin N) (now : TimePoint)

/-- The clock reading of an event. -/
def NetEvent.time {N : Nat} : NetEvent N → TimePoint
  | .originate _ now _ _ => now
  | .deliver _ _ now _ => now
  | .tick _ now => now
  | .own_send _ now _ => now
  | .evict _ now => now

/-- `is_candidate` as the adapters compute it: the link-layer destination
is the receiver's address or the broadcast address. -/
def addressed_to (mac destination : MacAddress) : Bool :=
  destination = mac || destination.IsBroadcast

variable {N : Nat} {H : WheelHeap ForwardCallback}

namespace Network

/-- An event at one node; what its adapter transmits goes on the air. -/
def act (st : Stations N) (net : Network N H) (n : Fin N) (now : TimePoint)
    (ev : NodeEvent) : Network N H :=
  let s := (net.nodes n).step (st.mac n) (st.config n) ev
  let sent := s.nic.transmitted.drop (net.nodes n).nic.transmitted.length
  { net with
    nodes := Function.update net.nodes n s
    air := net.air ++ sent.map fun f =>
      ⟨n, f, now, f.retained.bind fun r => net.source n r.2.timer_id⟩ }

/-- Records that transmission `i` is handed to node `n`, which may
schedule its next timer for it. -/
def hand (net : Network N H) (i : Nat) (n : Fin N) : Network N H :=
  { net with
    handed := (i, n) :: net.handed
    source := Function.update net.source n
      (Function.update (net.source n)
        (net.nodes n).coordinator.wheel.next_id (some i)) }

/-- May transmission `i` be handed to node `n`? -/
def CanHand (net : Network N H) (i : Nat) (n : Fin N)
    (tx : Transmission N) : Prop :=
  net.air[i]? = some tx ∧ tx.sender ≠ n ∧ (i, n) ∉ net.handed

instance (net : Network N H) (i : Nat) (n : Fin N) (tx : Transmission N) :
    Decidable (net.CanHand i n tx) :=
  inferInstanceAs (Decidable (_ ∧ _ ∧ _))

/-- One event. A hand-over that may not happen changes nothing. -/
def step (st : Stations N) (net : Network N H) : NetEvent N → Network N H
  | .originate n now destination frame =>
      { net with
        air := net.air ++ [⟨n, ⟨destination, frame, destination.IsBroadcast,
          none⟩, now, none⟩] }
  | .deliver i n now is_candidate =>
      match net.air[i]? with
      | none => net
      | some tx =>
          if net.CanHand i n tx then
            (net.hand i n).act st n now
              (.receive now tx.frame.data is_candidate)
          else net
  | .tick n now => net.act st n now (.tick now)
  | .own_send n now packet_id => net.act st n now (.own_send now packet_id)
  | .evict n now => net.act st n now (.evict now)

/-- Nodes at start-up, nothing on the air. -/
def start (H : WheelHeap ForwardCallback) (st : Stations N) : Network N H :=
  { nodes := fun n => TimerNode.start H (st.capacity n) (st.ttl n) }

/-- The network after a run from start-up. -/
def run (H : WheelHeap ForwardCallback) (st : Stations N)
    (es : List (NetEvent N)) : Network N H :=
  exec (step st) (start H st) es

/-- The parent of transmission `j`. -/
def parentOf (net : Network N H) (j : Nat) : Option Nat :=
  net.air[j]?.bind Transmission.parent

-- ================================================================= links

/-- What is handed over is handed to a node that hears the sender, with
the flag the adapters compute. -/
def Heard (st : Stations N) (link : Fin N → Fin N → Prop)
    (net : Network N H) : NetEvent N → Prop
  | .deliver i n _ is_candidate => ∃ tx ∈ net.air[i]?, link tx.sender n
      ∧ is_candidate = addressed_to (st.mac n) tx.frame.destination
  | _ => True

instance (st : Stations N) (link : Fin N → Fin N → Prop) [DecidableRel link]
    (net : Network N H) : DecidablePred (Heard st link net)
  | .originate .. => isTrue trivial
  | .deliver i n _ is_candidate =>
      inferInstanceAs (Decidable (∃ tx ∈ net.air[i]?, link tx.sender n
        ∧ is_candidate = addressed_to (st.mac n) tx.frame.destination))
  | .tick .. => isTrue trivial
  | .own_send .. => isTrue trivial
  | .evict .. => isTrue trivial

/-- What is handed over reaches the node faster than the node's
`twait_ms`. -/
def Prompt (st : Stations N) (net : Network N H) : NetEvent N → Prop
  | .deliver i n now _ => ∃ tx ∈ net.air[i]?, tx.sent_at ≤ now
      ∧ now < tx.sent_at + milliseconds (st.config n).twait_ms.toNat
  | _ => True

instance (st : Stations N) (net : Network N H) :
    DecidablePred (Prompt st net)
  | .originate .. => isTrue trivial
  | .deliver i n now _ => inferInstanceAs (Decidable (∃ tx ∈ net.air[i]?,
      tx.sent_at ≤ now
        ∧ now < tx.sent_at + milliseconds (st.config n).twait_ms.toNat))
  | .tick .. => isTrue trivial
  | .own_send .. => isTrue trivial
  | .evict .. => isTrue trivial

/-- Everything on the air was handed to every node that hears it, and no
forward is pending. -/
def Quiescent (link : Fin N → Fin N → Prop) (net : Network N H) : Prop :=
  (∀ x ∈ net.air.zipIdx, ∀ n, x.1.sender ≠ n → link x.1.sender n →
    (x.2, n) ∈ net.handed)
    ∧ ∀ n, (net.nodes n).coordinator.pending.keys = []

instance (link : Fin N → Fin N → Prop) [DecidableRel link]
    (net : Network N H) : Decidable (Quiescent link net) :=
  inferInstanceAs (Decidable (_ ∧ _))

end Network

end Joker
