/-
The raw-socket adapter (adapters/linux_af_packet/linux_af_packet.cpp)
and a segment of Ethernet whose stations run timer-mode nodes behind it.

`TransmitRaw` puts a 14-byte Ethernet header before the frame and the
receive loop takes it off again. `recvfrom` fills a buffer of 65536
bytes and drops what does not fit. The socket calls of the constructor,
promiscuous mode and the polling of the loop are left out: `deliver` is
a turn of the loop that found a packet, whatever its link-layer
destination.

What a station transmits goes on the wire as the bytes its adapter gave
to `sendto`, nothing at all while the adapter is stopped; the segment
hands it to any other station at most once, in any order, or never.
Other hosts of the segment are `foreign`: their packets are not kept.
-/
import Joker.Model.Network

namespace Joker

open Transition

/-- The EtherType of JOKER frames. -/
def ETH_P_JOKER : UInt16 := 0x88B5

/-- `htons`, and the two bytes copied from it. -/
def put_u16_be (v : UInt16) : Bytes := [(v >>> 8).toUInt8, v.toUInt8]

/-- Two bytes copied out, and `ntohs`. -/
def get_u16_be (data : Bytes) (off : Nat) : UInt16 :=
  ((data.getD off 0).toUInt16 <<< 8) ||| (data.getD (off + 1) 0).toUInt16

/-- The Ethernet frame of a payload. -/
def ethernet_frame (source dest : MacAddress) (payload : Bytes) : Bytes :=
  dest.bytes ++ source.bytes ++ put_u16_be ETH_P_JOKER ++ payload

-- ============================================================ the adapter

/-- `LinuxAfPacketAdapter`. -/
structure LinuxAfPacketAdapter where
  mac : MacAddress
  running : Bool := false

namespace LinuxAfPacketAdapter

/-- `Start`. -/
def Start (a : LinuxAfPacketAdapter) : LinuxAfPacketAdapter :=
  { a with running := true }

/-- `Stop`. -/
def Stop (a : LinuxAfPacketAdapter) : LinuxAfPacketAdapter :=
  { a with running := false }

/-- `TransmitRaw`: what is given to `sendto`. -/
def TransmitRaw (a : LinuxAfPacketAdapter) (dest : MacAddress)
    (payload : Bytes) : Option Bytes :=
  if !a.running then none else some (ethernet_frame a.mac dest payload)

/-- `TransmitUnicast`. -/
def TransmitUnicast (a : LinuxAfPacketAdapter) (destination : MacAddress)
    (frame : Bytes) : Option Bytes := a.TransmitRaw destination frame

/-- `TransmitBroadcast`. -/
def TransmitBroadcast (a : LinuxAfPacketAdapter) (frame : Bytes) :
    Option Bytes := a.TransmitRaw MacAddress.broadcast frame

/-- A turn of `ReceiveLoop` that read `packet`: the arguments of the
callback, if it is called. -/
def ReceiveLoop (a : LinuxAfPacketAdapter) (packet : Bytes) :
    Option (Bytes × MacAddress × Bool) :=
  let buffer := packet.take 65536
  if buffer.length > 14 then
    let dest_mac := copy_mac buffer 0
    let eth_type := get_u16_be buffer 12
    if eth_type = ETH_P_JOKER then
      some (buffer.drop 14, a.mac, dest_mac = a.mac || dest_mac.IsBroadcast)
    else none
  else none

end LinuxAfPacketAdapter

-- ============================================================ the segment

/-- The stations of a segment and what was on its wire: who sent it, and
the bytes, if any left the host. -/
structure Ethernet (N : Nat) (H : WheelHeap ForwardCallback) where
  adapters : Fin N → LinuxAfPacketAdapter
  nodes : Fin N → TimerNode H
  wire : List (Fin N × Option Bytes) := []
  /-- Which packets were handed to which stations. -/
  handed : List (Nat × Fin N) := []

/-- What happens on a segment. -/
inductive EthernetEvent (N : Nat) where
  | Start (n : Fin N)
  | Stop (n : Fin N)
  /-- A station transmits a frame of its own. -/
  | transmit (n : Fin N) (now : TimePoint) (destination : MacAddress)
      (frame : Bytes)
  /-- The receive loop of a station reads packet `i`. -/
  | deliver (i : Nat) (n : Fin N) (now : TimePoint)
  /-- The receive loop of a station reads a packet of another host. -/
  | foreign (n : Fin N) (now : TimePoint) (packet : Bytes)
  | tick (n : Fin N) (now : TimePoint)
  | own_send (n : Fin N) (now : TimePoint) (packet_id : PacketId)
  | evict (n : Fin N) (now : TimePoint)

variable {N : Nat} {H : WheelHeap ForwardCallback}

namespace Ethernet

/-- An event at the node of a station; what it transmits goes through its
adapter. -/
def act (st : Stations N) (net : Ethernet N H) (n : Fin N)
    (ev : NodeEvent) : Ethernet N H :=
  let s := (net.nodes n).step (net.adapters n).mac (st.config n) ev
  let sent := s.nic.transmitted.drop (net.nodes n).nic.transmitted.length
  { net with
    nodes := Function.update net.nodes n s
    wire := net.wire ++ sent.map fun f =>
      (n, (net.adapters n).TransmitRaw f.destination f.data) }

/-- The receive loop of a station reads `packet`. -/
def receive (st : Stations N) (net : Ethernet N H) (n : Fin N)
    (now : TimePoint) (packet : Bytes) : Ethernet N H :=
  match (net.adapters n).ReceiveLoop packet with
  | none => net
  | some (payload, _, is_candidate) =>
      net.act st n (.receive now payload is_candidate)

/-- One event. A loop that does not run reads nothing, and a hand-over that
may not happen changes nothing. -/
def step (st : Stations N) (net : Ethernet N H) :
    EthernetEvent N → Ethernet N H
  | .Start n =>
      { net with
        adapters := Function.update net.adapters n (net.adapters n).Start }
  | .Stop n =>
      { net with
        adapters := Function.update net.adapters n (net.adapters n).Stop }
  | .transmit n _ destination frame =>
      { net with
        wire := net.wire
          ++ [(n, (net.adapters n).TransmitUnicast destination frame)] }
  | .deliver i n now =>
      match net.wire[i]? with
      | some (sender, some packet) =>
          if (net.adapters n).running ∧ sender ≠ n ∧ (i, n) ∉ net.handed then
            { net with handed := (i, n) :: net.handed }.receive st n now packet
          else net
      | _ => net
  | .foreign n now packet =>
      if (net.adapters n).running then net.receive st n now packet else net
  | .tick n now => net.act st n (.tick now)
  | .own_send n now packet_id => net.act st n (.own_send now packet_id)
  | .evict n now => net.act st n (.evict now)

/-- Stations just built: their adapters not started, nothing sent. -/
def start (H : WheelHeap ForwardCallback) (st : Stations N) : Ethernet N H where
  adapters n := { mac := st.mac n }
  nodes n := TimerNode.start H (st.capacity n) (st.ttl n)

/-- The segment after a run. -/
def run (H : WheelHeap ForwardCallback) (st : Stations N)
    (es : List (EthernetEvent N)) : Ethernet N H :=
  exec (step st) (start H st) es

end Ethernet

end Joker
