/-
Two phones behind UDP are two phones (Model/Jni.lean).

The two are alone on their network, and each is told its own address to
bind to, so its adapter drops what the phone itself sent, and everything
else it reads came from the other phone. Whatever the adapters learn, a
datagram goes to the peer or to the broadcast address, and both reach
the other phone. No address is given for a MAC address: nothing in the
program calls `SetPeerIpForMac`. So the datagrams
a phone has still to read are the frames on their way to it, and each
event on one side is an event on the other: the two systems reach the
same phones (`udp_chat_bisimulation`).

# What carries over

`Carries` relates the two. Its step lemmas are stated for the chat, and
each direction of the theorem reads them its own way: a delivery on the
network is a delivery in the chat, or the adapter dropped it; a delivery
in the chat is one of a datagram that reaches the phone.
-/
import Joker.Lib.Simulation
import Joker.Model.Udp
import Joker.Proofs.Chat
import Joker.Proofs.UdpPeers

namespace Joker

open Inet Transition

variable {H : WheelHeap ForwardCallback}

-- ============================================================== positions

/-- Leaving out a member of a list without repetitions is leaving out what
stands in its place. -/
theorem exists_eraseIdx {α : Type*} [DecidableEq α] {l : List α} {x : α}
    (hl : l.Nodup) (hx : x ∈ l) :
    ∃ j, l[j]? = some x ∧ l.filter (· ≠ x) = l.eraseIdx j := by
  have hlt : l.idxOf x < l.length := List.idxOf_lt_length_iff.mpr hx
  refine ⟨l.idxOf x, ?_, ?_⟩
  · rw [List.getElem?_eq_getElem hlt, List.getElem_idxOf]
  · rw [← List.erase_eq_eraseIdx_of_idxOf rfl,
      List.Nodup.erase_eq_filter hl]
    apply List.filter_congr
    intro y _
    by_cases hy : y = x <;> simp [hy]

theorem nodup_zipIdx {α : Type*} (l : List α) : l.zipIdx.Nodup := by
  apply List.Nodup.of_map Prod.snd
  rw [List.zipIdx_map_snd]
  exact List.nodup_range'

-- ============================================================ the network

/-- The network knows the phones by distinct addresses, none of them the
unspecified one, and the broadcast addresses their adapters compute are
broadcast addresses. -/
structure Lan.Sound (lan : Lan) : Prop where
  ne : lan.addr .GO ≠ lan.addr .CLI
  specified : ∀ name, lan.addr name ≠ 0
  broadcast : ∀ name, lan.is_broadcast (UdpNicAdapter.address
    (UdpNicAdapter.create (inet_ntop (lan.addr name)) name.mac).broadcast_ip)
      = true

/-- A phone is told of no address but one that reaches the other phone. -/
def UdpChatEvent.Names (lan : Lan) : UdpChatEvent → Prop
  | .setPeerIp name ip =>
      ip = [] ∨ lan.reaches (UdpNicAdapter.address ip) name.peer = true
  | _ => True

instance (lan : Lan) : DecidablePred (UdpChatEvent.Names lan)
  | .setPeerIp name ip =>
      inferInstanceAs (Decidable (ip = []
        ∨ lan.reaches (UdpNicAdapter.address ip) name.peer = true))
  | .send .. => isTrue trivial
  | .deliver .. => isTrue trivial
  | .tick .. => isTrue trivial

theorem Lan.Sound.addr_ne {lan : Lan} (h : lan.Sound) {m n : NodeName}
    (hne : m ≠ n) : lan.addr m ≠ lan.addr n := by
  cases m <;> cases n
  · exact absurd rfl hne
  · exact h.ne
  · exact h.ne.symm
  · exact absurd rfl hne

/-- An adapter that is bound to the address of its phone, and whose peer,
if it has one, is the other phone. -/
structure Sound (lan : Lan) (name : NodeName) (a : UdpNicAdapter) : Prop where
  bind : a.bind_ip = inet_ntop (lan.addr name)
  broadcast : lan.is_broadcast (UdpNicAdapter.address a.broadcast_ip) = true
  peer : a.peer_ip = []
    ∨ lan.reaches (UdpNicAdapter.address a.peer_ip) name.peer = true
  given : a.peer_ips = ∅
  running : a.running = true

namespace Sound

variable {lan : Lan} {name : NodeName} {a : UdpNicAdapter}

theorem created (h : lan.Sound) (name : NodeName) :
    Sound lan name
      (UdpNicAdapter.create (inet_ntop (lan.addr name)) name.mac).Start where
  bind := rfl
  broadcast := h.broadcast name
  peer := Or.inl rfl
  given := rfl
  running := rfl

/-- What a phone broadcasts reaches the other phone. -/
theorem transmitBroadcast (h : Sound lan name a) (frame : Bytes) :
    ∃ dest_addr, a.TransmitBroadcast frame = some (dest_addr, frame)
      ∧ lan.reaches dest_addr name.peer = true := by
  unfold UdpNicAdapter.TransmitBroadcast UdpNicAdapter.SendUdpPacket
  rw [h.running]
  by_cases hpeer : a.peer_ip = []
  · refine ⟨UdpNicAdapter.address a.broadcast_ip, ?_, ?_⟩
    · simp [hpeer, UdpNicAdapter.address]
    · unfold Lan.reaches
      rw [h.broadcast, Bool.or_true]
  · refine ⟨UdpNicAdapter.address a.peer_ip, ?_, h.peer.resolve_left hpeer⟩
    simp [hpeer, UdpNicAdapter.address]

/-- Its own datagrams are dropped. -/
theorem receiveLoop_own (hlan : lan.Sound) (h : Sound lan name a)
    (data : Bytes) : a.ReceiveLoop (lan.addr name) data = (none, a) := by
  have hown : a.IsOwn (inet_ntop (lan.addr name)) = true := by
    have hspecified : inet_ntop (lan.addr name) ≠ ascii "0.0.0.0" := by
      intro heq
      apply hlan.specified name
      apply inet_ntop_inj.mp
      rw [heq]
      decide
    unfold UdpNicAdapter.IsOwn
    rw [h.bind]
    exact decide_eq_true ⟨inet_ntop_ne_nil _, hspecified, rfl⟩
  unfold UdpNicAdapter.ReceiveLoop
  dsimp only
  by_cases hdata : data = []
  · rw [if_pos hdata]
  · rw [if_neg hdata, if_pos hown]

/-- The other phone's are handed up, and its address may be learnt. -/
theorem receiveLoop_peer (hlan : lan.Sound) (h : Sound lan name a)
    {data : Bytes} (hdata : data ≠ []) :
    (a.ReceiveLoop (lan.addr name.peer) data).1
        = some (data, a.mac_address, true)
      ∧ Sound lan name (a.ReceiveLoop (lan.addr name.peer) data).2 := by
  have hne : lan.addr name.peer ≠ lan.addr name := hlan.addr_ne name.peer_ne
  have hown : ¬ a.IsOwn (inet_ntop (lan.addr name.peer)) = true := by
    unfold UdpNicAdapter.IsOwn
    rw [h.bind]
    exact fun hall => hne (inet_ntop_inj.mp (of_decide_eq_true hall).2.2)
  have hpeer : lan.reaches (UdpNicAdapter.address
      (inet_ntop (lan.addr name.peer))) name.peer = true := by
    unfold Lan.reaches
    simp [UdpNicAdapter.address_inet_ntop]
  unfold UdpNicAdapter.ReceiveLoop
  dsimp only
  rw [if_neg hdata, if_neg hown]
  refine ⟨rfl, h.bind, h.broadcast, ?_, h.given, h.running⟩
  dsimp only
  split
  · exact Or.inr hpeer
  · exact h.peer

end Sound

-- ======================================================== the core's part

/-- A phone that runs no timer, as it was built. -/
structure Idle (name : NodeName) (p : Phone H) : Prop where
  name : p.g_node.name = name
  config : p.g_node.config = {}
  timers : p.g_node.node.coordinator.wheel.timers = []

namespace Idle

variable {name : NodeName} {p : Phone H}

/-- A packet for the phone is delivered or a duplicate: nothing is
scheduled and nothing sent. -/
theorem receive (h : Idle name p) (x : Packet) (now : TimePoint) :
    Idle name { p with
        g_node := p.g_node.receive_callback (frame_to name x) true now }
      ∧ (p.g_node.receive_callback (frame_to name x) true now).node.nic
        = p.g_node.node.nic := by
  have hmac : p.g_node.mac = name.mac := congrArg NodeName.mac h.name
  have hv : verdict (frame_to name x) p.g_node.mac true p.g_node.config
      p.g_node.node.dedup
      = if p.g_node.node.dedup.Contains x.1 then .duplicate
        else .delivered (header_to name x.1) := by
    rw [h.config, (dataFrame_to name x).verdict_eq, hmac]
    exact if_pos rfl
  rw [p.g_node.receive_callback_eq, process_received_frame_eq, hv]
  refine ⟨⟨h.name, h.config, ?_⟩, rfl⟩
  cases p.g_node.node.dedup.Contains x.1 <;> exact h.timers

theorem tick (h : Idle name p) (now : TimePoint) :
    TimerNode.Tick now p.g_node.node = p.g_node.node := by
  unfold TimerNode.Tick
  rw [h.timers]
  rfl

/-- Sending adds one frame to what the node transmitted. -/
theorem send (h : Idle name p) (msg : Bytes) (now : TimePoint) :
    Idle name (send_from_node p msg now).2
      ∧ ∃ x f, (send_from_node p msg now).1 = frame_to name.peer x
        ∧ (send_from_node p msg now).2.g_node.node.nic.transmitted
          = p.g_node.node.nic.transmitted ++ [f]
        ∧ f.is_broadcast = true ∧ f.data = (send_from_node p msg now).1 :=
  ⟨⟨h.name, h.config, h.timers⟩, _, _,
    send_from_node_frame h.name msg now, rfl, rfl, rfl⟩

end Idle

-- =========================================================== the relation

namespace UdpChat

/-- The chat that the phones on the network are in. -/
structure Carries (lan : Lan) (u : UdpChat H) (c : Chat H) : Prop where
  phones : ∀ name, (u.phones name).phone = c.phones name
  idle : ∀ name, Idle name (c.phones name)
  adapter : ∀ name, Sound lan name (u.phones name).nic
  on_way : ∀ name, c.in_flight name = (u.onWay name).map (·.1.data)
  frames : ∀ d ∈ u.datagrams, (∃ x, d.data = frame_to d.sender.peer x)
    ∧ lan.reaches d.dest_addr d.sender.peer = true
  handed : ∀ x ∈ u.handed, x.1 < u.datagrams.length

theorem carries_start (H : WheelHeap ForwardCallback) {lan : Lan}
    (hlan : lan.Sound) : Carries lan (start H lan) (Chat.start H) where
  phones _ := rfl
  idle _ := ⟨rfl, rfl, rfl⟩
  adapter name := Sound.created hlan name
  on_way _ := rfl
  frames _ h := absurd h List.not_mem_nil
  handed _ h := absurd h List.not_mem_nil

/-- A phone that transmitted nothing meanwhile. -/
theorem put_quiet (u : UdpChat H) (name : NodeName) (p : Phone H)
    (h : p.g_node.node.nic = (u.phones name).phone.g_node.node.nic) :
    u.put name p = { u with
      phones := Function.update u.phones name
        { phone := p, nic := (u.phones name).nic } } := by
  unfold put
  dsimp only
  rw [h, List.drop_length, List.filterMap_nil, List.append_nil]

/-- Two states of the network that differ in nothing the relation reads but
the phones. -/
theorem Carries.phones_update {lan : Lan} {u : UdpChat H} {c : Chat H}
    (h : Carries lan u c) (name : NodeName) {p : UdpPhone H} {c' : Chat H}
    (hphone : p.phone = c'.phones name)
    (hothers : ∀ m, m ≠ name → c'.phones m = c.phones m)
    (hidle : Idle name p.phone) (hnic : Sound lan name p.nic)
    (hway : c'.in_flight = c.in_flight) :
    Carries lan { u with phones := Function.update u.phones name p } c' where
  phones m := by
    by_cases hm : m = name
    · subst hm
      simp only [Function.update_self, hphone]
    · simp only [Function.update_of_ne hm, hothers m hm, h.phones]
  idle m := by
    by_cases hm : m = name
    · subst hm
      rw [← hphone]
      exact hidle
    · rw [hothers m hm]
      exact h.idle m
  adapter m := by
    by_cases hm : m = name
    · subst hm
      simp only [Function.update_self]
      exact hnic
    · simp only [Function.update_of_ne hm]
      exact h.adapter m
  on_way m := by
    rw [hway]
    exact h.on_way m
  frames := h.frames
  handed := h.handed

-- ================================================================== steps

theorem Carries.setPeerIp {lan : Lan} {u : UdpChat H} {c : Chat H}
    (h : Carries lan u c) (name : NodeName) {ip : IpText}
    (hip : ip = []
      ∨ lan.reaches (UdpNicAdapter.address ip) name.peer = true) :
    Carries lan (u.step lan (.setPeerIp name ip)) c :=
  h.phones_update name (h.phones name) (fun _ _ => rfl)
    ((h.phones name).symm ▸ h.idle name)
    { h.adapter name with peer := hip } rfl

/-- A ticker does nothing. -/
theorem Carries.tick {lan : Lan} {u : UdpChat H} {c : Chat H}
    (h : Carries lan u c) (name : NodeName) (now : TimePoint) :
    Carries lan (u.step lan (.tick name now)) (c.step (.tick name now)) := by
  have hidle : Idle name (u.phones name).phone := by
    rw [h.phones]
    exact h.idle name
  have hu : u.step lan (.tick name now) = { u with
      phones := Function.update u.phones name (u.phones name) } := by
    show u.put name _ = _
    rw [hidle.tick, put_quiet _ _ _ rfl]
  rw [hu]
  refine h.phones_update name ?_ (fun m hm => ?_) hidle (h.adapter name) rfl
  · show _ = Function.update c.phones name _ name
    rw [Function.update_self, (h.idle name).tick]
    exact h.phones name
  · exact Function.update_of_ne hm _ _

/-- A new datagram is on its way to the other phone. -/
theorem onWay_append {u : UdpChat H} {m : NodeName}
    (hnew : (u.datagrams.length, m) ∉ u.handed) (d : Datagram) :
    ({ u with datagrams := u.datagrams ++ [d] } : UdpChat H).onWay m
      = u.onWay m
        ++ if d.sender = m.peer then [(d, u.datagrams.length)] else [] := by
  unfold onWay
  dsimp only
  rw [List.zipIdx_append, List.filter_append, Nat.zero_add]
  congr 1
  split <;> rename_i hm <;> simp [hm, hnew]

/-- A datagram of a frame is sent. -/
theorem Carries.sent {lan : Lan} {u : UdpChat H} {c : Chat H}
    (h : Carries lan u c) {d : Datagram}
    (hframe : ∃ x, d.data = frame_to d.sender.peer x)
    (hreach : lan.reaches d.dest_addr d.sender.peer = true) :
    Carries lan { u with datagrams := u.datagrams ++ [d] }
      { c with
        in_flight := Function.update c.in_flight d.sender.peer
          (c.in_flight d.sender.peer ++ [d.data]) } where
  phones := h.phones
  idle := h.idle
  adapter := h.adapter
  on_way m := by
    have hnew : (u.datagrams.length, m) ∉ u.handed := fun hin =>
      absurd (h.handed _ hin) (Nat.lt_irrefl _)
    rw [onWay_append hnew, List.map_append, ← h.on_way]
    by_cases hm : m = d.sender.peer
    · subst hm
      rw [if_pos d.sender.peer_peer.symm]
      exact Function.update_self _ _ _
    · have hne : d.sender ≠ m.peer := by
        intro heq
        exact hm (by rw [heq, m.peer_peer])
      rw [if_neg hne, List.map_nil, List.append_nil]
      exact Function.update_of_ne hm _ _
  frames := by
    intro d' hd'
    rcases List.mem_append.mp hd' with hd' | hd'
    · exact h.frames d' hd'
    · rw [List.mem_singleton.mp hd']
      exact ⟨hframe, hreach⟩
  handed := by
    intro y hy
    have hlt := h.handed y hy
    dsimp only
    rw [List.length_append]
    omega

/-- The frame of a message is on its way to the other phone. -/
theorem Carries.send {lan : Lan} {u : UdpChat H} {c : Chat H}
    (h : Carries lan u c) (name : NodeName) (now : TimePoint) (msg : Bytes) :
    Carries lan (u.step lan (.send name now msg))
      (c.step (.send name now msg)) := by
  obtain ⟨hidle, x, f, hframe, hsent, hbroadcast, hdata⟩ :=
    (h.idle name).send msg now
  obtain ⟨dest_addr, htransmit, hreach⟩ :=
    (h.adapter name).transmitBroadcast f.data
  have hu : u.step lan (.send name now msg) = { u with
      phones := Function.update u.phones name
        { phone := (send_from_node (c.phones name) msg now).2
          nic := (u.phones name).nic }
      datagrams := u.datagrams ++ [⟨name, dest_addr, f.data⟩] } := by
    show u.put name _ = _
    unfold put
    dsimp only
    rw [h.phones name, hsent, List.drop_left]
    simp only [List.filterMap_cons, List.filterMap_nil, hbroadcast, if_true,
      htransmit, Option.map_some]
  rw [hu]
  -- first the phone, then the datagram it gives out
  have hphone : Carries lan
      { u with
        phones := Function.update u.phones name
          { phone := (send_from_node (c.phones name) msg now).2
            nic := (u.phones name).nic } }
      { c.step (.send name now msg) with in_flight := c.in_flight } :=
    h.phones_update name (Function.update_self name _ c.phones).symm
      (fun m hm => Function.update_of_ne hm _ c.phones) hidle (h.adapter name)
      rfl
  have hnext := hphone.sent (d := ⟨name, dest_addr, f.data⟩)
    ⟨x, hdata.trans hframe⟩ hreach
  simp only [hdata] at hnext ⊢
  exact hnext

/-- A phone reads a datagram; what becomes of it is another matter. -/
theorem onWay_hand {u : UdpChat H} {name m : NodeName} {k : Nat}
    {d : Datagram} (hd : u.datagrams[k]? = some d) :
    ({ u with handed := (k, name) :: u.handed } : UdpChat H).onWay m
      = if m = name ∧ d.sender = name.peer then
          (u.onWay m).filter (· ≠ (d, k))
        else u.onWay m := by
  have hall : ∀ x ∈ u.datagrams.zipIdx, x.2 = k → x = (d, k) := by
    intro x hx hk
    have hx' := List.mem_zipIdx_iff_getElem?.mp hx
    rw [hk, hd] at hx'
    exact Prod.ext (Option.some.inj hx').symm hk
  unfold onWay
  dsimp only
  split
  · rename_i hm
    obtain ⟨rfl, hsender⟩ := hm
    rw [List.filter_filter]
    apply List.filter_congr
    intro x hx
    rw [Bool.eq_iff_iff]
    simp only [List.mem_cons, Prod.mk.injEq, and_true, not_or,
      decide_eq_true_eq, Bool.and_eq_true, ne_eq]
    constructor
    · intro h
      exact ⟨fun heq => h.2.1 (by rw [heq]), h.1, h.2.2⟩
    · intro h
      exact ⟨h.2.1, fun hk => h.1 (hall x hx hk), h.2.2⟩
  · rename_i hm
    apply List.filter_congr
    intro x hx
    rw [Bool.eq_iff_iff]
    simp only [List.mem_cons, Prod.mk.injEq, not_or, decide_eq_true_eq]
    constructor
    · intro h
      exact ⟨h.1, h.2.2⟩
    · intro h
      refine ⟨h.1, fun heq => hm ⟨heq.2, ?_⟩, h.2⟩
      rw [← heq.2, ← h.1, hall x hx heq.1]

/-- The datagram is on record as read. -/
theorem Carries.hand {lan : Lan} {u : UdpChat H} {c : Chat H}
    (h : Carries lan u c) {name : NodeName} {k : Nat} {d : Datagram}
    (hd : u.datagrams[k]? = some d) {c' : Chat H}
    (hphones : c'.phones = c.phones)
    (hway : ∀ m, c'.in_flight m
      = (({ u with handed := (k, name) :: u.handed } : UdpChat H).onWay m).map
        (·.1.data)) :
    Carries lan { u with handed := (k, name) :: u.handed } c' where
  phones m := by rw [hphones]; exact h.phones m
  idle m := by rw [hphones]; exact h.idle m
  adapter := h.adapter
  on_way := hway
  frames := h.frames
  handed x hx := by
    rcases List.mem_cons.mp hx with rfl | hx
    · exact (List.getElem?_eq_some_iff.mp hd).1
    · exact h.handed x hx

/-- May a phone read datagram `k`? -/
def CanRead (lan : Lan) (u : UdpChat H) (name : NodeName) (k : Nat)
    (d : Datagram) : Prop :=
  u.datagrams[k]? = some d ∧ lan.reaches d.dest_addr name = true
    ∧ (k, name) ∉ u.handed

/-- A phone that reads its own datagram drops it. -/
theorem Carries.read_own {lan : Lan} (hlan : lan.Sound) {u : UdpChat H}
    {c : Chat H} (h : Carries lan u c) {name : NodeName} {k : Nat}
    {d : Datagram} (hd : CanRead lan u name k d) (hsender : d.sender = name)
    (now : TimePoint) :
    Carries lan (u.step lan (.deliver name k now)) c := by
  have hloop := (h.adapter name).receiveLoop_own hlan d.data
  have hne : ¬ d.sender = name.peer := fun heq =>
    name.peer_ne (heq.symm.trans hsender)
  have hu : u.step lan (.deliver name k now) = { u with
      handed := (k, name) :: u.handed
      phones := Function.update u.phones name (u.phones name) } := by
    simp only [step, hd.1]
    rw [if_pos ⟨hd.2.1, hd.2.2⟩, hsender, hloop]
  rw [hu]
  have hhand : Carries lan { u with handed := (k, name) :: u.handed } c := by
    apply h.hand hd.1 rfl
    intro m
    rw [onWay_hand hd.1, if_neg fun hall => hne hall.2]
    exact h.on_way m
  exact hhand.phones_update name (hhand.phones name) (fun _ _ => rfl)
    ((h.phones name).symm ▸ h.idle name) (h.adapter name) rfl

/-- A phone that reads a datagram of the other phone is delivered the frame
in the chat. -/
theorem Carries.read_peer {lan : Lan} (hlan : lan.Sound) {u : UdpChat H}
    {c : Chat H} (h : Carries lan u c) {name : NodeName} {k j : Nat}
    {d : Datagram} (hd : CanRead lan u name k d)
    (hsender : d.sender = name.peer)
    (hj : (u.onWay name)[j]? = some (d, k))
    (hrest : (u.onWay name).filter (· ≠ (d, k)) = (u.onWay name).eraseIdx j)
    (now : TimePoint) :
    Carries lan (u.step lan (.deliver name k now))
      (c.step (.deliver name j now)) := by
  obtain ⟨⟨x, hx⟩, -⟩ := h.frames d (List.mem_of_getElem? hd.1)
  rw [hsender, name.peer_peer] at hx
  have hnonempty : d.data ≠ [] := by
    rw [hx]
    intro hnil
    have := congrArg List.length hnil
    unfold frame_to at this
    rw [List.length_append, wire_length] at this
    simp [JokerHeader.WireSize, header_to] at this
  obtain ⟨hup, hsound⟩ := (h.adapter name).receiveLoop_peer hlan hnonempty
  obtain ⟨hidle, hnic⟩ := (h.idle name).receive x now
  rw [← hx] at hidle hnic
  -- the chat hands over the frame in place `j`
  have hframe : (c.in_flight name)[j]? = some d.data := by
    rw [h.on_way, List.getElem?_map, hj]
    rfl
  have hc : c.step (.deliver name j now) = { c with
      phones := Function.update c.phones name { c.phones name with
        g_node := (c.phones name).g_node.receive_callback d.data true now }
      in_flight := Function.update c.in_flight name
        ((c.in_flight name).eraseIdx j) } := by
    simp only [Chat.step, hframe]
  have hu : u.step lan (.deliver name k now) = { u with
      handed := (k, name) :: u.handed
      phones := Function.update u.phones name
        { phone := { c.phones name with
            g_node := (c.phones name).g_node.receive_callback d.data true now }
          nic := ((u.phones name).nic.ReceiveLoop (lan.addr name.peer)
            d.data).2 } } := by
    simp only [step, hd.1]
    rw [if_pos ⟨hd.2.1, hd.2.2⟩, hsender, hup]
    dsimp only
    rw [put_quiet]
    · simp only [Function.update_self, Function.update_idem, h.phones]
    · dsimp only
      rw [Function.update_self, h.phones]
      exact hnic
  rw [hu, hc]
  have hhand : Carries lan { u with handed := (k, name) :: u.handed }
      { c with
        in_flight := Function.update c.in_flight name
          ((c.in_flight name).eraseIdx j) } := by
    refine h.hand hd.1 ?_ fun m => ?_
    · rfl
    show Function.update c.in_flight name _ m = _
    rw [onWay_hand hd.1]
    by_cases hm : m = name
    · subst hm
      rw [if_pos ⟨rfl, hsender⟩, hrest, Function.update_self, h.on_way,
        List.eraseIdx_map]
    · rw [if_neg fun hall => hm hall.1, Function.update_of_ne hm]
      exact h.on_way m
  refine hhand.phones_update name ?_ (fun m hm => Function.update_of_ne hm _ _)
    hidle hsound rfl
  show _ = Function.update c.phones name _ name
  rw [Function.update_self]

/-- Which datagrams are on their way. -/
theorem mem_onWay {u : UdpChat H} {name : NodeName} {d : Datagram} {k : Nat} :
    (d, k) ∈ u.onWay name ↔ u.datagrams[k]? = some d ∧ d.sender = name.peer
      ∧ (k, name) ∉ u.handed := by
  unfold onWay
  rw [List.mem_filter, List.mem_zipIdx_iff_getElem?, decide_eq_true_eq]

theorem onWay_nodup (u : UdpChat H) (name : NodeName) :
    (u.onWay name).Nodup := (nodup_zipIdx u.datagrams).filter _

-- ============================================================ the theorem

/-- An event on the network is none or one in the chat. -/
theorem Carries.step {lan : Lan} (hlan : lan.Sound) {u : UdpChat H}
    {c : Chat H} (h : Carries lan u c) (ev : UdpChatEvent)
    (hev : ev.Names lan) :
    ∃ cs, Carries lan (u.step lan ev) (exec Chat.step c cs) := by
  cases ev with
  | send name now msg => exact ⟨[.send name now msg], h.send name now msg⟩
  | setPeerIp name ip => exact ⟨[], h.setPeerIp name hev⟩
  | tick name now => exact ⟨[.tick name now], h.tick name now⟩
  | deliver name k now =>
      have hsame : ¬ (∃ d, CanRead lan u name k d) →
          u.step lan (.deliver name k now) = u := by
        intro hno
        simp only [UdpChat.step]
        split
        · rfl
        · rename_i d hd
          exact if_neg fun hall => hno ⟨d, hd, hall⟩
      by_cases hread : ∃ d, CanRead lan u name k d
      · obtain ⟨d, hd⟩ := hread
        rcases d.sender.eq_or_eq_peer name with hsender | hsender
        · exact ⟨[], h.read_own hlan hd hsender now⟩
        · obtain ⟨j, hj, hrest⟩ := exists_eraseIdx (u.onWay_nodup name)
            (mem_onWay.mpr ⟨hd.1, hsender, hd.2.2⟩)
          exact ⟨[.deliver name j now],
            h.read_peer hlan hd hsender hj hrest now⟩
      · rw [hsame hread]
        exact ⟨[], h⟩

/-- An event in the chat is none or one on the network. -/
theorem Carries.unstep {lan : Lan} (hlan : lan.Sound) {u : UdpChat H}
    {c : Chat H} (h : Carries lan u c) (ev : ChatEvent) :
    ∃ es, (∀ ev ∈ es, UdpChatEvent.Names lan ev)
      ∧ Carries lan (exec (UdpChat.step lan) u es) (c.step ev) := by
  cases ev with
  | send name now msg =>
      exact ⟨[.send name now msg], by simp [UdpChatEvent.Names],
        h.send name now msg⟩
  | tick name now =>
      exact ⟨[.tick name now], by simp [UdpChatEvent.Names], h.tick name now⟩
  | deliver name j now =>
      cases hj : (u.onWay name)[j]? with
      | none =>
          refine ⟨[], by simp, ?_⟩
          have hnone : (c.in_flight name)[j]? = none := by
            rw [h.on_way, List.getElem?_map, hj]
            rfl
          simp only [Chat.step, hnone]
          exact h
      | some x =>
          obtain ⟨d, k⟩ := x
          obtain ⟨hd, hsender, hnew⟩ := mem_onWay.mp (List.mem_of_getElem? hj)
          have hreach := (h.frames d (List.mem_of_getElem? hd)).2
          rw [hsender, name.peer_peer] at hreach
          have hrest : (u.onWay name).filter (· ≠ (d, k))
              = (u.onWay name).eraseIdx j := by
            obtain ⟨j', hj', hrest⟩ := exists_eraseIdx (u.onWay_nodup name)
              (List.mem_of_getElem? hj)
            rw [hrest]
            congr 1
            have hlt := (List.getElem?_eq_some_iff.mp hj).1
            exact ((List.getElem?_inj hlt (u.onWay_nodup name)).mp
              (hj.trans hj'.symm)).symm
          exact ⟨[.deliver name k now], by simp [UdpChatEvent.Names],
            h.read_peer hlan ⟨hd, hreach, hnew⟩ hsender hj hrest now⟩

/-- Every run on the network is a chat. -/
theorem run_carries {lan : Lan} (hlan : lan.Sound) (es : List UdpChatEvent)
    (hes : ∀ ev ∈ es, ev.Names lan) :
    ∃ cs, Carries lan (run H lan es) (Chat.run H cs) := by
  induction es using List.reverseRecOn with
  | nil => exact ⟨[], carries_start H hlan⟩
  | append_singleton es ev ih =>
      obtain ⟨cs, h⟩ := ih fun ev hev => hes ev (List.mem_append_left _ hev)
      obtain ⟨cs', h'⟩ := h.step hlan ev (hes ev (by simp))
      refine ⟨cs ++ cs', ?_⟩
      unfold run Chat.run at h' ⊢
      rw [exec_concat, exec_append]
      exact h'

/-- Every chat is a run on the network. -/
theorem carries_run {lan : Lan} (hlan : lan.Sound) (cs : List ChatEvent) :
    ∃ es, (∀ ev ∈ es, UdpChatEvent.Names lan ev)
      ∧ Carries lan (run H lan es) (Chat.run H cs) := by
  induction cs using List.reverseRecOn with
  | nil => exact ⟨[], by simp, carries_start H hlan⟩
  | append_singleton cs ev ih =>
      obtain ⟨es, hes, h⟩ := ih
      obtain ⟨es', hes', h'⟩ := h.unstep hlan ev
      refine ⟨es ++ es', fun ev hev => ?_, ?_⟩
      · rcases List.mem_append.mp hev with hev | hev
        · exact hes ev hev
        · exact hes' ev hev
      · unfold run Chat.run at h' ⊢
        rw [exec_concat, exec_append]
        exact h'

end UdpChat

/-- Two phones alone on their network, each told its own address to bind
to and of no peer address but one that reaches the other, and the two
phones of the chat reach the same states, with the same frames on their
way; and every datagram reaches the other phone. -/
theorem udp_chat_bisimulation (H : WheelHeap ForwardCallback) (lan : Lan)
    (hlan : lan.Sound) :
    (∀ es, (∀ ev ∈ es, UdpChatEvent.Names lan ev) → ∃ cs,
      (∀ name, ((UdpChat.run H lan es).phones name).phone
          = (Chat.run H cs).phones name
        ∧ (Chat.run H cs).in_flight name
          = ((UdpChat.run H lan es).onWay name).map (·.1.data))
      ∧ ∀ d ∈ (UdpChat.run H lan es).datagrams,
        lan.reaches d.dest_addr d.sender.peer = true)
    ∧ ∀ cs, ∃ es, (∀ ev ∈ es, UdpChatEvent.Names lan ev)
      ∧ ∀ name, ((UdpChat.run H lan es).phones name).phone
          = (Chat.run H cs).phones name
        ∧ (Chat.run H cs).in_flight name
          = ((UdpChat.run H lan es).onWay name).map (·.1.data) := by
  constructor
  · intro es hes
    obtain ⟨cs, h⟩ := UdpChat.run_carries hlan es hes
    exact ⟨cs, fun name => ⟨h.phones name, h.on_way name⟩,
      fun d hd => (h.frames d hd).2⟩
  · intro cs
    obtain ⟨es, hes, h⟩ := UdpChat.carries_run hlan cs
    exact ⟨es, hes, fun name => ⟨h.phones name, h.on_way name⟩⟩

/-- A Wi-Fi Direct group: the group owner and one client. -/
def group : Lan where
  addr
    | .GO => 0xc0a83101
    | .CLI => 0xc0a83107
  is_broadcast addr := addr = 0xc0a831ff

/-- In a group, with the client told of the group owner, two messages that
cross are a chat. -/
theorem udp_chat_bisimulation_group : ∃ cs,
    ∀ name, ((UdpChat.run (VectorHeap.sortedHeap _) group
        [.setPeerIp .CLI (ascii "192.168.49.1"), .send .CLI 0 [1],
          .send .GO 1 [2], .deliver .GO 0 2, .deliver .CLI 1 3]).phones
          name).phone
      = (Chat.run (VectorHeap.sortedHeap _) cs).phones name := by
  have hgroup : group.Sound := by
    refine ⟨by decide, fun name => ?_, fun name => ?_⟩ <;>
      cases name <;> decide
  obtain ⟨cs, h, -⟩ := (udp_chat_bisimulation (VectorHeap.sortedHeap _) group
    hgroup).1 [.setPeerIp .CLI (ascii "192.168.49.1"), .send .CLI 0 [1],
      .send .GO 1 [2], .deliver .GO 0 2, .deliver .CLI 1 3] (by decide)
  exact ⟨cs, fun name => (h name).1⟩

end Joker
