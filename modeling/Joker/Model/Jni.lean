/-
The Android node (adapters/android_jni/joker_jni.cpp) and the system of
two phones running it.

The receive callback hands every frame to the core and then decides on
its own, from the parsed header, whether the payload goes to the user
interface. `dispatch_packet_to_ui` is the record of what it was given;
the log lines around it are left out. The UDP adapter drops what the
phone itself sent and flags everything else as addressed to the phone.

# Two phones

`Chat` holds a group owner and a client, each a process of its own with
its own sequence counter, and the frames on their way to each. A frame
sent by one arrives at the other once, at any later time, in any order.
`sent` is bookkeeping: the messages given to `send_from_node`.
-/
import Joker.Model.Crc32
import Joker.Model.Forwarding
import Mathlib.Logic.Function.Basic

namespace Joker

open Transition

-- ============================================================= one phone

/-- `JokerInstance::name`. -/
inductive NodeName where
  | GO
  | CLI
deriving DecidableEq

namespace NodeName

/-- The other end of the link. -/
def peer : NodeName → NodeName
  | GO => CLI
  | CLI => GO

/-- The address of the node: the group owner ends in 1, the client in 2. -/
def mac : NodeName → MacAddress
  | GO => ⟨[0x02, 0x00, 0x00, 0x00, 0x00, 0x01], rfl⟩
  | CLI => ⟨[0x02, 0x00, 0x00, 0x00, 0x00, 0x02], rfl⟩

end NodeName

variable {H : WheelHeap ForwardCallback}

/-- `JokerInstance`, with what was dispatched to its user interface. -/
structure JokerInstance (H : WheelHeap ForwardCallback) where
  name : NodeName
  node : TimerNode H
  config : Config := {}
  ui : List Bytes := []

namespace JokerInstance

/-- `nic->GetMacAddress()`. -/
def mac (s : JokerInstance H) : MacAddress := s.name.mac

/-- A new instance: a cache of 1000 entries and 5000 ms. -/
def create (H : WheelHeap ForwardCallback) (name : NodeName) :
    JokerInstance H :=
  { name := name, node := TimerNode.start H 1000 (milliseconds 5000) }

/-- `process_received_frame` on the objects of the instance. -/
def process (s : JokerInstance H) (frame : Bytes) (is_cand : Bool)
    (now : TimePoint) : JokerInstance H :=
  { s with
    node := process_received_frame frame s.mac is_cand s.config now s.node }

/-- `dispatch_packet_to_ui`. -/
def dispatch_packet_to_ui (s : JokerInstance H) (payload : Bytes) :
    JokerInstance H :=
  { s with ui := s.ui ++ [payload] }

/-- The receive callback. -/
def receive_callback (s : JokerInstance H) (frame : Bytes) (is_cand : Bool)
    (now : TimePoint) : JokerInstance H :=
  match deserialize_header frame 0 with
  | (none, _) => s.process frame is_cand now
  | (some hdr, consumed) =>
      -- already processed, or our own
      if s.node.dedup.Contains hdr.packet_id then s.process frame is_cand now
      else
        let s := s.process frame is_cand now
        -- to the user only if targeted at this node or broadcast
        if hdr.type = .kUnicast ∧ frame.length > consumed
            ∧ (hdr.final_destination = s.mac
              ∨ hdr.final_destination.IsBroadcast = true) then
          s.dispatch_packet_to_ui (frame.drop consumed)
        else s

end JokerInstance

/-- A process: the instance and `g_seq_counter`. -/
structure Phone (H : WheelHeap ForwardCallback) where
  g_node : JokerInstance H
  g_seq_counter : UInt32 := 1

/-- The bytes the packet id is computed over: the message and the
counter, most significant byte first. -/
def id_bytes (msg : Bytes) (seq : UInt32) : Bytes :=
  msg ++ [((seq >>> 24) &&& 0xff).toUInt8, ((seq >>> 16) &&& 0xff).toUInt8,
    ((seq >>> 8) &&& 0xff).toUInt8, (seq &&& 0xff).toUInt8]

/-- The header `send_from_node` builds. -/
def send_header (name : NodeName) (msg : Bytes) (seq : UInt32) :
    JokerHeader where
  type := .kUnicast
  ttl := 32
  num_candidates := 0
  packet_id := joker_packet_id (id_bytes msg seq)
  final_destination := name.peer.mac
  other_candidates := []

/-- `send_from_node`: the frame that is broadcast, and the process
after. -/
def send_from_node (p : Phone H) (msg : Bytes) (now : TimePoint) :
    Bytes × Phone H :=
  let hdr := send_header p.g_node.name msg p.g_seq_counter
  let wire := (serialize_header hdr []).2 ++ msg
  let node := { p.g_node.node with
    dedup := p.g_node.node.dedup.Insert hdr.packet_id now
    nic := p.g_node.node.nic.TransmitBroadcast wire none }
  (wire, { g_node := { p.g_node with node := node }
           g_seq_counter := p.g_seq_counter + 1 })

-- ============================================================ two phones

/-- The two phones and the frames on their way to each. -/
structure Chat (H : WheelHeap ForwardCallback) where
  phones : NodeName → Phone H
  in_flight : NodeName → List Bytes := fun _ => []
  sent : NodeName → List Bytes := fun _ => []

/-- What happens between two phones. -/
inductive ChatEvent where
  /-- The user of a phone sends a message. -/
  | send (name : NodeName) (now : TimePoint) (msg : Bytes)
  /-- The `k`-th frame on its way to a phone arrives. -/
  | deliver (name : NodeName) (k : Nat) (now : TimePoint)
  /-- The ticker thread of a phone ticks its wheel. -/
  | tick (name : NodeName) (now : TimePoint)

namespace Chat

/-- One event. A delivery of nothing changes nothing. -/
def step (c : Chat H) : ChatEvent → Chat H
  | .send name now msg =>
      let (wire, p) := send_from_node (c.phones name) msg now
      { phones := Function.update c.phones name p
        in_flight := Function.update c.in_flight name.peer
          (c.in_flight name.peer ++ [wire])
        sent := Function.update c.sent name (c.sent name ++ [msg]) }
  | .deliver name k now =>
      match (c.in_flight name)[k]? with
      | none => c
      | some frame =>
          let p := c.phones name
          { c with
            phones := Function.update c.phones name
              { p with g_node := p.g_node.receive_callback frame true now }
            in_flight := Function.update c.in_flight name
              ((c.in_flight name).eraseIdx k) }
  | .tick name now =>
      let p := c.phones name
      { c with
        phones := Function.update c.phones name
          { p with g_node :=
              { p.g_node with node := TimerNode.Tick now p.g_node.node } } }

/-- Two phones just started. -/
def start (H : WheelHeap ForwardCallback) : Chat H :=
  { phones := fun name => { g_node := JokerInstance.create H name } }

/-- The phones after a run. -/
def run (H : WheelHeap ForwardCallback) (es : List ChatEvent) : Chat H :=
  exec step (start H) es

end Chat

end Joker
