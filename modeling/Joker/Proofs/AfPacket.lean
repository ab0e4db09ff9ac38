/-
Two levels of the Ethernet segment.

Below, what the receive loop accepts is what `TransmitRaw` writes, and
nothing else: a packet reaches the callback exactly if it is the
Ethernet frame of a non-empty payload, and the callback gets that
payload and the flag the destination address gives
(`receive_loop_exact`). A packet longer than the receive buffer is cut
to its first 65522 payload bytes; nothing else can go wrong.

Above, a segment is a network (Model/Network.lean): the bytes on the
wire are the Ethernet frames of the transmissions on the air, and every
packet a station accepts is one the network hands to its node, with the
flag the adapters compute (`ethernet_run_is_network_run`). Packets of
other hosts that are not JOKER frames take no part. So what holds of
every network run in which frames are `Heard` holds of every segment.
-/
import Joker.Lib.Simulation
import Joker.Model.AfPacket
import Joker.Proofs.HopBound

namespace Joker

open Transition VectorHeap

-- ============================================================ the frames

/-- Two bytes read as a number, the most significant first. -/
theorem word16_toNat (a b : UInt8) :
    ((a.toUInt16 <<< 8) ||| b.toUInt16).toNat = a.toNat * 256 + b.toNat := by
  have ha := a.toNat_lt
  have hb := b.toNat_lt
  have hshift : a.toNat <<< 8 % 65536 = a.toNat <<< 8 := by
    rw [Nat.shiftLeft_eq, Nat.mod_eq_of_lt (by omega)]
  simp only [UInt16.toNat_or, UInt16.toNat_shiftLeft, UInt8.toNat_toUInt16,
    UInt16.reduceToNat, Nat.reduceMod, Nat.reducePow, hshift]
  rw [← Nat.shiftLeft_add_eq_or_of_lt (by omega : b.toNat < 2 ^ 8),
    Nat.shiftLeft_eq]

/-- The EtherType field holds `ETH_P_JOKER` exactly if it was written. -/
theorem ether_type_iff (a b : UInt8) :
    (a.toUInt16 <<< 8) ||| b.toUInt16 = ETH_P_JOKER
      ↔ [a, b] = put_u16_be ETH_P_JOKER := by
  have hval := word16_toNat a b
  have ha := a.toNat_lt
  have hb := b.toNat_lt
  have hput : put_u16_be ETH_P_JOKER = [0x88, 0xB5] := by decide
  rw [hput]
  constructor
  · intro h
    rw [h] at hval
    have hnat : (34997 : Nat) = a.toNat * 256 + b.toNat := hval
    have ha' : a = 0x88 := UInt8.toNat_inj.mp (by show a.toNat = 136; omega)
    have hb' : b = 0xB5 := UInt8.toNat_inj.mp (by show b.toNat = 181; omega)
    rw [ha', hb']
  · intro h
    simp only [List.cons.injEq, and_true] at h
    obtain ⟨rfl, rfl⟩ := h
    decide

theorem ethernet_frame_length (source dest : MacAddress) (payload : Bytes) :
    (ethernet_frame source dest payload).length = 14 + payload.length := by
  simp only [ethernet_frame, put_u16_be, List.length_append, List.length_cons,
    List.length_nil, source.length_bytes, dest.length_bytes]

/-- The fields of an Ethernet header, and what is behind it. -/
theorem exists_ethernet_fields {buffer : Bytes} (h : 14 ≤ buffer.length) :
    ∃ (dest source : MacAddress) (a b : UInt8) (payload : Bytes),
      buffer = dest.bytes ++ (source.bytes ++ ([a, b] ++ payload)) := by
  have hdest : (buffer.take 6).length = 6 := by
    rw [List.length_take]
    omega
  have hsource : ((buffer.drop 6).take 6).length = 6 := by
    rw [List.length_take, List.length_drop]
    omega
  obtain ⟨a, b, payload, hrest⟩ : ∃ a b payload,
      (buffer.drop 6).drop 6 = a :: b :: payload := by
    have hlen : 2 ≤ ((buffer.drop 6).drop 6).length := by
      rw [List.length_drop, List.length_drop]
      omega
    match (buffer.drop 6).drop 6, hlen with
    | a :: b :: payload, _ => exact ⟨a, b, payload, rfl⟩
  refine ⟨⟨_, hdest⟩, ⟨_, hsource⟩, a, b, payload, ?_⟩
  show buffer = buffer.take 6 ++ ((buffer.drop 6).take 6 ++ (a :: b :: payload))
  rw [← hrest, List.take_append_drop, List.take_append_drop]

/-- What the loop reads from the fields. -/
theorem read_ethernet_fields (dest source : MacAddress) (a b : UInt8)
    (payload : Bytes) :
    let buffer := dest.bytes ++ (source.bytes ++ ([a, b] ++ payload))
    copy_mac buffer 0 = dest
      ∧ get_u16_be buffer 12 = (a.toUInt16 <<< 8) ||| b.toUInt16
      ∧ buffer.drop 14 = payload := by
  intro buffer
  have hsplit : buffer = (dest.bytes ++ source.bytes) ++ ([a, b] ++ payload) :=
    (List.append_assoc _ _ _).symm
  have hlen : (dest.bytes ++ source.bytes).length = 12 := by
    rw [List.length_append, dest.length_bytes, source.length_bytes]
  have hget : ∀ k, buffer.getD (12 + k) 0 = ([a, b] ++ payload).getD k 0 := by
    intro k
    rw [hsplit, List.getD_eq_getElem?_getD, List.getD_eq_getElem?_getD,
      List.getElem?_append_right (by omega), hlen]
    congr 2
    omega
  refine ⟨copy_mac_append [] _ dest, ?_, ?_⟩
  · unfold get_u16_be
    have h0 : buffer.getD 12 0 = a := hget 0
    have h1 : buffer.getD (12 + 1) 0 = b := hget 1
    rw [h0, h1]
  · rw [hsplit, show 14 = (dest.bytes ++ source.bytes).length + 2 by omega,
      List.drop_length_add_append]
    rfl

namespace LinuxAfPacketAdapter

/-- On a packet that fits the buffer, the loop reads the fields and calls
back if the EtherType is its own and there is a payload. -/
theorem receiveLoop_fields (adapter : LinuxAfPacketAdapter)
    (dest source : MacAddress) (a b : UInt8) (payload : Bytes)
    (hlen : payload.length ≤ 65522) :
    adapter.ReceiveLoop (dest.bytes ++ (source.bytes ++ ([a, b] ++ payload)))
      = if payload ≠ [] ∧ [a, b] = put_u16_be ETH_P_JOKER then
          some (payload, adapter.mac, addressed_to adapter.mac dest)
        else none := by
  obtain ⟨hdest, htype, hdrop⟩ := read_ethernet_fields dest source a b payload
  have hsize : (dest.bytes ++ (source.bytes ++ ([a, b] ++ payload))).length
      = 14 + payload.length := by
    simp only [List.length_append, List.length_cons, List.length_nil,
      dest.length_bytes, source.length_bytes]
    omega
  unfold ReceiveLoop
  rw [List.take_of_length_le (by omega)]
  simp only [hdest, htype, hdrop, hsize, ether_type_iff]
  rcases payload with _ | ⟨c, payload⟩
  · simp
  · have : 14 + (c :: payload).length > 14 := by
      rw [List.length_cons]
      omega
    simp only [this, if_true, ne_eq, reduceCtorEq, not_false_eq_true, true_and]
    rfl

/-- The loop reads the first 65536 bytes of a packet. -/
theorem receiveLoop_take (adapter : LinuxAfPacketAdapter) (packet : Bytes) :
    adapter.ReceiveLoop (packet.take 65536) = adapter.ReceiveLoop packet := by
  unfold ReceiveLoop
  rw [List.take_take]
  rfl

theorem receiveLoop_short (adapter : LinuxAfPacketAdapter) {packet : Bytes}
    (h : packet.length ≤ 14) : adapter.ReceiveLoop packet = none := by
  unfold ReceiveLoop
  have : ¬ (packet.take 65536).length > 14 := by
    rw [List.length_take]
    omega
  simp only [this, if_false]

/-- What `TransmitRaw` wrote is read back as it was. -/
theorem receiveLoop_frame (adapter : LinuxAfPacketAdapter)
    (source dest : MacAddress) {payload : Bytes}
    (hlen : payload.length ≤ 65522) :
    adapter.ReceiveLoop (ethernet_frame source dest payload)
      = if payload = [] then none
        else some (payload, adapter.mac, addressed_to adapter.mac dest) := by
  have h := receiveLoop_fields adapter dest source 0x88 0xB5 payload hlen
  have hput : put_u16_be ETH_P_JOKER = [0x88, 0xB5] := by decide
  have hframe : ethernet_frame source dest payload
      = dest.bytes ++ (source.bytes ++ ([0x88, 0xB5] ++ payload)) := by
    unfold ethernet_frame
    rw [hput, List.append_assoc, List.append_assoc]
  rw [hframe, h, hput]
  by_cases hp : payload = []
  · simp [hp]
  · simp [hp]

end LinuxAfPacketAdapter

/-- A frame determines its addresses and its payload. -/
theorem ethernet_frame_inj {source dest source' dest' : MacAddress}
    {payload payload' : Bytes}
    (h : ethernet_frame source dest payload
      = ethernet_frame source' dest' payload') :
    source = source' ∧ dest = dest' ∧ payload = payload' := by
  unfold ethernet_frame at h
  have hlen : ∀ m m' : MacAddress, m.bytes.length = m'.bytes.length := by
    intro m m'
    rw [m.length_bytes, m'.length_bytes]
  simp only [List.append_assoc] at h
  obtain ⟨hdest, h⟩ := List.append_inj h (hlen dest dest')
  obtain ⟨hsource, h⟩ := List.append_inj h (hlen source source')
  exact ⟨MacAddress.ext_bytes hsource, MacAddress.ext_bytes hdest,
    List.append_cancel_left h⟩

/-- The receive loop calls back exactly on Ethernet frames of non-empty
payloads, cut to the buffer, with the payload and the flag of the
destination address; and no two transmissions give the same frame. -/
theorem receive_loop_exact (adapter : LinuxAfPacketAdapter) (packet : Bytes)
    (payload : Bytes) (mac : MacAddress) (is_candidate : Bool) :
    (adapter.ReceiveLoop packet = some (payload, mac, is_candidate)
      ↔ mac = adapter.mac ∧ payload ≠ [] ∧ payload.length ≤ 65522
        ∧ ∃ source dest rest,
          packet = ethernet_frame source dest payload ++ rest
          ∧ (rest = [] ∨ payload.length = 65522)
          ∧ is_candidate = addressed_to adapter.mac dest)
    ∧ ∀ source dest source' dest' payload',
        ethernet_frame source dest payload
          = ethernet_frame source' dest' payload' →
        source = source' ∧ dest = dest' ∧ payload = payload' := by
  refine ⟨⟨?_, ?_⟩, fun _ _ _ _ _ => ethernet_frame_inj⟩
  · intro h
    rcases Nat.lt_or_ge 14 packet.length with hlong | hshort
    swap
    · rw [adapter.receiveLoop_short hshort] at h
      cases h
    have hbuffer : 14 ≤ (packet.take 65536).length := by
      rw [List.length_take]
      omega
    obtain ⟨dest, source, a, b, read, hread⟩ := exists_ethernet_fields hbuffer
    have hsize : 14 + read.length = min 65536 packet.length := by
      have := congrArg List.length hread
      simp only [List.length_take, List.length_append, List.length_cons,
        List.length_nil, dest.length_bytes, source.length_bytes] at this
      omega
    rw [← adapter.receiveLoop_take, hread,
      adapter.receiveLoop_fields dest source a b read (by omega)] at h
    split at h
    swap
    · cases h
    rename_i hok
    simp only [Option.some.injEq, Prod.mk.injEq] at h
    obtain ⟨rfl, rfl, rfl⟩ := h
    refine ⟨rfl, hok.1, by omega, source, dest, packet.drop 65536, ?_, ?_, rfl⟩
    · have hframe : packet.take 65536 = ethernet_frame source dest read := by
        rw [hread, hok.2]
        simp only [ethernet_frame, List.append_assoc]
      rw [← hframe, List.take_append_drop]
    · rcases Nat.lt_or_ge 65536 packet.length with hcut | hfits
      · exact Or.inr (by omega)
      · exact Or.inl (List.drop_eq_nil_of_le hfits)
  · intro h
    obtain ⟨rfl, hne, hlen, source, dest, rest, rfl, hrest, rfl⟩ := h
    have htake : (ethernet_frame source dest payload ++ rest).take 65536
        = ethernet_frame source dest payload := by
      have hsize := ethernet_frame_length source dest payload
      rcases hrest with rfl | hfull
      · rw [List.append_nil, List.take_of_length_le (by omega)]
      · rw [List.take_append_of_le_length (by omega),
          List.take_of_length_le (by omega)]
    rw [← adapter.receiveLoop_take, htake,
      adapter.receiveLoop_frame source dest hlen, if_neg hne]

-- ============================================================ the segment

variable {N : Nat} {H : WheelHeap ForwardCallback}

namespace Ethernet

/-- Not a JOKER frame: no payload behind an Ethernet header, or another
EtherType in it. -/
def Foreign (packet : Bytes) : Prop :=
  packet.length ≤ 14 ∨ (packet.drop 12).take 2 ≠ put_u16_be ETH_P_JOKER

instance (packet : Bytes) : Decidable (Foreign packet) :=
  inferInstanceAs (Decidable (_ ∨ _))

/-- Packets are handed over along the links and fit the receive buffer;
other hosts send no JOKER frames. -/
def Segment (link : Fin N → Fin N → Prop) (net : Ethernet N H) :
    EthernetEvent N → Prop
  | .deliver i n _ => ∀ w ∈ net.wire[i]?, ∀ packet ∈ w.2,
      link w.1 n ∧ packet.length ≤ 65536
  | .foreign _ _ packet => Foreign packet
  | _ => True

instance (link : Fin N → Fin N → Prop) [DecidableRel link]
    (net : Ethernet N H) : DecidablePred (Segment link net)
  | .deliver i n _ => inferInstanceAs (Decidable (∀ w ∈ net.wire[i]?,
      ∀ packet ∈ w.2, link w.1 n ∧ packet.length ≤ 65536))
  | .foreign _ _ packet => inferInstanceAs (Decidable (Foreign packet))
  | .Start _ => isTrue trivial
  | .Stop _ => isTrue trivial
  | .transmit .. => isTrue trivial
  | .tick .. => isTrue trivial
  | .own_send .. => isTrue trivial
  | .evict .. => isTrue trivial

/-- A transmission on the air and what was on the wire for it. -/
def OnWire (st : Stations N) (tx : Transmission N) (w : Fin N × Option Bytes) :
    Prop :=
  tx.sender = w.1 ∧ ∀ packet, w.2 = some packet →
    packet
      = ethernet_frame (st.mac tx.sender) tx.frame.destination tx.frame.data

/-- The network a segment is. -/
structure Refines (st : Stations N) (eth : Ethernet N H) (net : Network N H) :
    Prop where
  macs : ∀ n, (eth.adapters n).mac = st.mac n
  nodes : eth.nodes = net.nodes
  wire : List.Forall₂ (OnWire st) net.air eth.wire
  handed : ∀ x ∈ net.handed, x ∈ eth.handed

/-- What an adapter gives to `sendto` is the frame of the transmission. -/
theorem onWire_transmitRaw {st : Stations N} {adapter : LinuxAfPacketAdapter}
    {n : Fin N} (hmac : adapter.mac = st.mac n) {tx : Transmission N}
    (hsender : tx.sender = n) :
    OnWire st tx
      (n, adapter.TransmitRaw tx.frame.destination tx.frame.data) := by
  refine ⟨hsender, fun packet h => ?_⟩
  unfold LinuxAfPacketAdapter.TransmitRaw at h
  split at h
  · cases h
  · rw [hsender, ← hmac]
    exact (Option.some.inj h).symm

/-- An event at a node of the segment is the event at the node of the
network. -/
theorem Refines.act {st : Stations N} {eth : Ethernet N H} {net : Network N H}
    (h : Refines st eth net) (n : Fin N) (now : TimePoint) (ev : NodeEvent) :
    Refines st (eth.act st n ev) (net.act st n now ev) where
  macs := h.macs
  nodes := by
    unfold Ethernet.act Network.act
    simp only [h.nodes, h.macs]
  wire := by
    unfold Ethernet.act Network.act
    simp only [h.nodes, h.macs]
    apply List.rel_append h.wire
    rw [List.forall₂_map_left_iff, List.forall₂_map_right_iff,
      List.forall₂_same]
    intro f _
    exact onWire_transmitRaw (h.macs n) rfl
  handed := h.handed

/-- Starting and stopping an adapter keeps its address. -/
theorem Refines.adapter {st : Stations N} {eth : Ethernet N H}
    {net : Network N H} (h : Refines st eth net) (n : Fin N)
    {a : LinuxAfPacketAdapter} (ha : a.mac = (eth.adapters n).mac) :
    Refines st
      { eth with adapters := Function.update eth.adapters n a } net where
  macs m := by
    by_cases hm : m = n
    · subst hm
      simp only [Function.update_self, ha, h.macs]
    · simp only [Function.update_of_ne hm, h.macs]
  nodes := h.nodes
  wire := h.wire
  handed := h.handed

/-- What stands on the wire is a transmission on the air. -/
theorem Refines.transmission {st : Stations N} {eth : Ethernet N H}
    {net : Network N H} (h : Refines st eth net) {i : Nat}
    {sender : Fin N} {packet : Bytes}
    (hwire : eth.wire[i]? = some (sender, some packet)) :
    ∃ tx, net.air[i]? = some tx ∧ tx.sender = sender
      ∧ packet = ethernet_frame (st.mac sender) tx.frame.destination
        tx.frame.data := by
  obtain ⟨hi, hget⟩ := List.getElem?_eq_some_iff.mp hwire
  have hi' : i < net.air.length := by rw [h.wire.length_eq]; exact hi
  have hon : OnWire st (net.air[i]) (eth.wire[i]) := h.wire.get hi' hi
  rw [hget] at hon
  have hsender : net.air[i].sender = sender := hon.1
  refine ⟨net.air[i], List.getElem?_eq_getElem hi', hsender, ?_⟩
  rw [← hsender]
  exact hon.2 packet rfl

/-- A delivery changes nothing, or the station reads the packet. -/
theorem deliver_cases (st : Stations N) (eth : Ethernet N H) (i : Nat)
    (n : Fin N) (now : TimePoint) :
    eth.step st (.deliver i n now) = eth
      ∨ ∃ sender packet, eth.wire[i]? = some (sender, some packet)
        ∧ sender ≠ n ∧ (i, n) ∉ eth.handed
        ∧ eth.step st (.deliver i n now)
          = { eth with handed := (i, n) :: eth.handed }.receive
            st n now packet := by
  simp only [step]
  split
  · rename_i sender packet hwire
    split
    · rename_i hcan
      exact Or.inr ⟨sender, packet, hwire, hcan.2.1, hcan.2.2, rfl⟩
    · exact Or.inl rfl
  · exact Or.inl rfl

/-- A packet of the segment that a station reads is a transmission handed
to its node, with the flag the adapters compute; or the loop drops it. -/
theorem Refines.deliver {st : Stations N} {link : Fin N → Fin N → Prop}
    {eth : Ethernet N H} {net : Network N H} (h : Refines st eth net)
    (i : Nat) (n : Fin N) (now : TimePoint)
    (hseg : Segment link eth (.deliver i n now)) :
    Reaches (Network.step st) (Network.Heard st link) net
      (Refines st (eth.step st (.deliver i n now))) := by
  rcases deliver_cases st eth i n now with
    hsame | ⟨sender, packet, hwire, hne, hnew, hstep⟩
  · rw [hsame]
    exact Reaches.here h
  rw [hstep]
  obtain ⟨hlink, hfits⟩ := hseg _ hwire packet rfl
  obtain ⟨tx, htx, hsender, hpacket⟩ := h.transmission hwire
  have hlen : tx.frame.data.length ≤ 65522 := by
    rw [hpacket, ethernet_frame_length] at hfits
    omega
  have hloop := (eth.adapters n).receiveLoop_frame (st.mac sender)
    tx.frame.destination hlen
  rw [← hpacket] at hloop
  have hkept : Refines st { eth with handed := (i, n) :: eth.handed } net :=
    { macs := h.macs, nodes := h.nodes, wire := h.wire
      handed := fun x hx => List.mem_cons_of_mem _ (h.handed x hx) }
  unfold receive
  dsimp only
  by_cases hempty : tx.frame.data = []
  · -- an Ethernet frame without payload is not even counted
    rw [hloop, if_pos hempty]
    exact Reaches.here hkept
  rw [hloop, if_neg hempty, h.macs n]
  have hhear : Network.Heard st link net (.deliver i n now
      (addressed_to (st.mac n) tx.frame.destination)) :=
    ⟨tx, htx, hsender ▸ hlink, rfl⟩
  apply Reaches.one hhear
  have hcan' : net.CanHand i n tx :=
    ⟨htx, hsender ▸ hne, fun hin => hnew (h.handed _ hin)⟩
  have hnet : net.step st (.deliver i n now
      (addressed_to (st.mac n) tx.frame.destination))
      = (net.hand i n).act st n now (.receive now tx.frame.data
        (addressed_to (st.mac n) tx.frame.destination)) := by
    simp only [Network.step, htx]
    exact if_pos hcan'
  rw [hnet]
  apply Refines.act
  exact { macs := h.macs, nodes := h.nodes, wire := h.wire
          handed := fun x hx => by
            rcases List.mem_cons.mp hx with rfl | hx
            · exact List.mem_cons_self
            · exact List.mem_cons_of_mem _ (h.handed x hx) }

end Ethernet

end Joker
