/-
The UDP adapter of the phone and the laptop
(adapters/android_jni/udp_nic_adapter.cpp), and two phones on one
network behind it.

The adapter keeps addresses as text: one peer's and, for some MAC
addresses, an address of their own; where it knows none it takes the
broadcast address of its subnet. A datagram is sent to what `inet_addr`
makes of the text, and comes from the address `inet_ntop` writes
(Lib/InetAddr.lean). The port is the same everywhere. UDP has no link
layer, so every datagram that is not the host's own is handed up as
addressed to this node. The socket calls are taken to succeed, and log
lines are left out.

# Two phones

`UdpChat` is the pair of phones of Model/Jni.lean, each behind its
adapter, and the datagrams they sent. A datagram reaches the hosts that
have its destination address, and every host, its sender included, if
that is a broadcast address; each reads it at most once, at any later
time, in any order.
-/
import Joker.Lib.InetAddr
import Joker.Model.Jni

namespace Joker

open Inet Transition

/-- What should be an address, as text. -/
abbrev IpText := Bytes

/-- A string literal of the source. -/
def ascii (s : String) : Bytes := s.toList.map Char.toUInt8

-- ============================================================ the adapter

/-- `UdpNicAdapter`. -/
structure UdpNicAdapter where
  bind_ip : IpText
  broadcast_ip : IpText
  mac_address : MacAddress
  peer_ip : IpText := []
  peer_ips : UnorderedMap MacAddress IpText := ∅
  running : Bool := false

namespace UdpNicAdapter

/-- `substr(0, find_last_of('.'))`, if there is a dot. -/
def before_last_dot (text : Bytes) : Option Bytes :=
  match text.reverse.dropWhile (· ≠ '.'.toUInt8) with
  | [] => none
  | _ :: before => some before.reverse

/-- The constructor: the broadcast address is guessed from the address
bound to. -/
def create (bind_ip : IpText) (mac_address : MacAddress) : UdpNicAdapter where
  bind_ip := bind_ip
  broadcast_ip :=
    if bind_ip ≠ [] ∧ bind_ip ≠ ascii "0.0.0.0" then
      match before_last_dot bind_ip with
      | some before => before ++ ascii ".255"
      | none => ascii "255.255.255.255"
    else ascii "255.255.255.255"
  mac_address := mac_address

/-- `Start`. -/
def Start (a : UdpNicAdapter) : UdpNicAdapter := { a with running := true }

/-- `Stop`. -/
def Stop (a : UdpNicAdapter) : UdpNicAdapter := { a with running := false }

/-- `SetPeerIp`. -/
def SetPeerIp (ip : IpText) (a : UdpNicAdapter) : UdpNicAdapter :=
  { a with peer_ip := ip }

/-- `SetPeerIpForMac`. -/
def SetPeerIpForMac (mac : MacAddress) (ip : IpText) (a : UdpNicAdapter) :
    UdpNicAdapter :=
  { a with
    peer_ips := a.peer_ips.insert mac ip
    peer_ip := if a.peer_ip = [] then ip else a.peer_ip }

/-- `SendUdpPacket`: the destination and the datagram given to `sendto`,
while the socket is open. -/
def SendUdpPacket (a : UdpNicAdapter) (frame : Bytes) (target_ip : IpText) :
    Option (InAddr × Bytes) :=
  if !a.running then none
  else
    let dest_ip := if target_ip = [] then a.peer_ip else target_ip
    if dest_ip ≠ [] then some (inet_addr (c_str dest_ip), frame)
    else some (inet_addr (c_str a.broadcast_ip), frame)

/-- `TransmitUnicast`. -/
def TransmitUnicast (a : UdpNicAdapter) (destination : MacAddress)
    (frame : Bytes) : Option (InAddr × Bytes) :=
  a.SendUdpPacket frame ((a.peer_ips.lookup destination).getD a.peer_ip)

/-- `TransmitBroadcast`. -/
def TransmitBroadcast (a : UdpNicAdapter) (frame : Bytes) :
    Option (InAddr × Bytes) := a.SendUdpPacket frame []

/-- Does the loop drop datagrams of `sender_ip` as its own? -/
def IsOwn (a : UdpNicAdapter) (sender_ip : IpText) : Bool :=
  a.bind_ip ≠ [] ∧ a.bind_ip ≠ ascii "0.0.0.0" ∧ sender_ip = a.bind_ip

/-- Does the loop take `sender_ip` for a peer's address? -/
def IsPeer (a : UdpNicAdapter) (sender_ip : IpText) : Bool :=
  sender_ip ≠ a.bind_ip ∧ sender_ip ≠ ascii "127.0.0.1"

/-- A turn of `ReceiveLoop` that read a datagram: the arguments of the
callback, if it is called, and the adapter after. -/
def ReceiveLoop (a : UdpNicAdapter) (sender_addr : InAddr) (datagram : Bytes) :
    Option (Bytes × MacAddress × Bool) × UdpNicAdapter :=
  let sender_ip := inet_ntop sender_addr
  if datagram = [] then (none, a)
  else if a.IsOwn sender_ip then (none, a)
  else
    let peer_ip :=
      if a.IsPeer sender_ip ∧ a.peer_ip = [] then sender_ip else a.peer_ip
    (some (datagram, a.mac_address, true), { a with peer_ip := peer_ip })

end UdpNicAdapter

-- ===================================================== runs of an adapter

/-- What happens to an adapter. -/
inductive UdpEvent where
  | Start
  | Stop
  | SetPeerIp (ip : IpText)
  | SetPeerIpForMac (mac : MacAddress) (ip : IpText)
  | TransmitUnicast (destination : MacAddress) (frame : Bytes)
  | TransmitBroadcast (frame : Bytes)
  /-- The receive loop, if it runs, reads a datagram. -/
  | datagram (sender_addr : InAddr) (data : Bytes)

namespace UdpNicAdapter

/-- One event. -/
def step (a : UdpNicAdapter) : UdpEvent → UdpNicAdapter
  | .Start => a.Start
  | .Stop => a.Stop
  | .SetPeerIp ip => a.SetPeerIp ip
  | .SetPeerIpForMac mac ip => a.SetPeerIpForMac mac ip
  | .TransmitUnicast _ _ => a
  | .TransmitBroadcast _ => a
  | .datagram sender_addr data =>
      if a.running then (a.ReceiveLoop sender_addr data).2 else a

/-- The datagrams sent in an event. -/
def sends (a : UdpNicAdapter) : UdpEvent → List (InAddr × Bytes)
  | .TransmitUnicast destination frame =>
      (a.TransmitUnicast destination frame).toList
  | .TransmitBroadcast frame => (a.TransmitBroadcast frame).toList
  | _ => []

end UdpNicAdapter

-- ============================================================ two phones

/-- The network the phones are on: the address of each, and which
destinations it treats as broadcast. -/
structure Lan where
  addr : NodeName → InAddr
  is_broadcast : InAddr → Bool

/-- Does a datagram to `dest_addr` reach a phone? -/
def Lan.reaches (lan : Lan) (dest_addr : InAddr) (name : NodeName) : Bool :=
  dest_addr = lan.addr name || lan.is_broadcast dest_addr

/-- A datagram on the network. -/
structure Datagram where
  sender : NodeName
  dest_addr : InAddr
  data : Bytes
deriving DecidableEq

/-- A phone and its adapter. -/
structure UdpPhone (H : WheelHeap ForwardCallback) where
  phone : Phone H
  nic : UdpNicAdapter

/-- The two phones, the datagrams they sent, and which were read by
which. -/
structure UdpChat (H : WheelHeap ForwardCallback) where
  phones : NodeName → UdpPhone H
  datagrams : List Datagram := []
  handed : List (Nat × NodeName) := []

/-- What happens. -/
inductive UdpChatEvent where
  /-- `sendChatMessage`. -/
  | send (name : NodeName) (now : TimePoint) (msg : Bytes)
  /-- `setPeerIp`. -/
  | setPeerIp (name : NodeName) (ip : IpText)
  /-- The receive loop of a phone reads datagram `k`. -/
  | deliver (name : NodeName) (k : Nat) (now : TimePoint)
  /-- The ticker thread of a phone ticks its wheel. -/
  | tick (name : NodeName) (now : TimePoint)

variable {H : WheelHeap ForwardCallback}

namespace UdpChat

/-- A phone is now `p`, and the frames its node transmitted meanwhile went
through its adapter. -/
def put (u : UdpChat H) (name : NodeName) (p : Phone H) : UdpChat H :=
  let nic := (u.phones name).nic
  let before := (u.phones name).phone.g_node.node.nic.transmitted.length
  { u with
    phones := Function.update u.phones name { phone := p, nic := nic }
    datagrams := u.datagrams
      ++ (p.g_node.node.nic.transmitted.drop before).filterMap fun f =>
        ((if f.is_broadcast then nic.TransmitBroadcast f.data
          else nic.TransmitUnicast f.destination f.data).map
            fun d => ⟨name, d.1, d.2⟩) }

/-- One event. A delivery that may not happen changes nothing. -/
def step (lan : Lan) (u : UdpChat H) : UdpChatEvent → UdpChat H
  | .send name now msg =>
      u.put name (send_from_node (u.phones name).phone msg now).2
  | .setPeerIp name ip =>
      let p := u.phones name
      { u with
        phones := Function.update u.phones name
          { p with nic := p.nic.SetPeerIp ip } }
  | .deliver name k now =>
      match u.datagrams[k]? with
      | none => u
      | some d =>
          if lan.reaches d.dest_addr name ∧ (k, name) ∉ u.handed then
            let p := u.phones name
            let (up, nic) := p.nic.ReceiveLoop (lan.addr d.sender) d.data
            let u := { u with
              handed := (k, name) :: u.handed
              phones := Function.update u.phones name { p with nic := nic } }
            match up with
            | none => u
            | some (frame, _, is_cand) =>
                u.put name { p.phone with
                  g_node := p.phone.g_node.receive_callback frame is_cand now }
          else u
  | .tick name now =>
      let p := (u.phones name).phone
      u.put name { p with
        g_node := { p.g_node with node := TimerNode.Tick now p.g_node.node } }

/-- Two phones just started, each told its own address to bind to. -/
def start (H : WheelHeap ForwardCallback) (lan : Lan) : UdpChat H where
  phones name :=
    { phone := { g_node := JokerInstance.create H name }
      nic := (UdpNicAdapter.create (inet_ntop (lan.addr name)) name.mac).Start }

/-- The phones after a run. -/
def run (H : WheelHeap ForwardCallback) (lan : Lan)
    (es : List UdpChatEvent) : UdpChat H := exec (step lan) (start H lan) es

/-- The datagrams of the other phone that a phone has not read, each with
its place. -/
def onWay (u : UdpChat H) (name : NodeName) : List (Datagram × Nat) :=
  u.datagrams.zipIdx.filter fun x =>
    x.1.sender = name.peer ∧ (x.2, name) ∉ u.handed

end UdpChat

end Joker
