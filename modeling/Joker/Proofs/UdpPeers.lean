/-
Where do datagrams go?

The adapter keeps one peer address. It is the first one it learnt since
it was last told one by `SetPeerIp`: given for a MAC address, or heard
from. Every datagram goes to the address given for its destination, else
to the peer, and only while there is no peer to the broadcast address
(`datagram_destinations`). So what the core calls a broadcast is sent to
one host as soon as one was heard. Addresses are given as text, and text
that is no address is kept like any other: `inet_addr` makes the
broadcast address 255.255.255.255 of it when a datagram is sent.

A host that is bound to no address hears its own broadcasts. If one of
them is the first it hears, its peer is the host itself, and nothing it
sends ever leaves the host again; that and nothing else cuts it off
(`cut_off_iff`).
-/
import Joker.Model.Udp
import Joker.Proofs.Suppression
import Mathlib.Data.List.Induction

namespace Joker

open Inet Transition

namespace UdpNicAdapter

-- ================================================================ history

/-- Is the receive loop running, and which addresses it was given or heard
since the last `SetPeerIp`, that one first. -/
def learn (bind_ip : IpText) (k : Bool × List IpText) :
    UdpEvent → Bool × List IpText
  | .Start => (true, k.2)
  | .Stop => (false, k.2)
  | .SetPeerIp ip => (k.1, [ip])
  | .SetPeerIpForMac _ ip => (k.1, k.2 ++ [ip])
  | .TransmitUnicast _ _ => k
  | .TransmitBroadcast _ => k
  | .datagram sender_addr data =>
      if k.1 = true ∧ data ≠ [] ∧ inet_ntop sender_addr ≠ bind_ip
          ∧ inet_ntop sender_addr ≠ ascii "127.0.0.1" then
        (k.1, k.2 ++ [inet_ntop sender_addr])
      else k

/-- What a run from the construction of the adapter learns. -/
def learnt (bind_ip : IpText) (es : List UdpEvent) : Bool × List IpText :=
  exec (learn bind_ip) (false, []) es

/-- The address the events gave last for a MAC address. -/
def given_for (mac : MacAddress) (es : List UdpEvent) : Option IpText :=
  (es.filterMap fun
    | .SetPeerIpForMac m ip => if m = mac then some ip else none
    | _ => none).getLast?

/-- The first address that is one, or none. -/
def firstAddress (ips : List IpText) : IpText := (ips.find? (· ≠ [])).getD []

theorem firstAddress_concat (ips : List IpText) (ip : IpText) :
    firstAddress (ips ++ [ip])
      = if firstAddress ips = [] then ip else firstAddress ips := by
  unfold firstAddress
  rw [List.find?_append]
  cases hfind : ips.find? (· ≠ []) with
  | some x =>
      have hx : x ≠ [] := by simpa using List.find?_some hfind
      simp [hx]
  | none => by_cases hip : ip = [] <;> simp [hip]

/-- What the adapter keeps of its history. -/
structure Remembers (bind_ip : IpText) (es : List UdpEvent)
    (a : UdpNicAdapter) : Prop where
  bind : a.bind_ip = bind_ip
  running : a.running = (learnt bind_ip es).1
  peer : a.peer_ip = firstAddress (learnt bind_ip es).2
  given : ∀ mac, a.peer_ips.lookup mac = given_for mac es

theorem given_for_concat (mac : MacAddress) (es : List UdpEvent)
    (ev : UdpEvent) (h : ∀ m ip, ev ≠ .SetPeerIpForMac m ip) :
    given_for mac (es ++ [ev]) = given_for mac es := by
  unfold given_for
  rw [List.filterMap_append]
  cases ev with
  | SetPeerIpForMac m ip => exact absurd rfl (h m ip)
  | _ => simp

theorem given_for_set (mac m : MacAddress) (ip : IpText)
    (es : List UdpEvent) :
    given_for mac (es ++ [.SetPeerIpForMac m ip])
      = if m = mac then some ip else given_for mac es := by
  unfold given_for
  rw [List.filterMap_append]
  by_cases hm : m = mac <;> simp [hm]

/-- A host's own address is no peer's. -/
theorem isPeer_of_isOwn {a : UdpNicAdapter} {sender_ip : IpText}
    (h : a.IsOwn sender_ip = true) : a.IsPeer sender_ip = false := by
  have hsame : sender_ip = a.bind_ip := (of_decide_eq_true h).2.2
  unfold IsPeer
  simp [hsame]

/-- A datagram the loop reads: its sender becomes the peer if there is
none. -/
theorem receiveLoop_snd (a : UdpNicAdapter) (sender_addr : InAddr)
    (data : Bytes) :
    (a.ReceiveLoop sender_addr data).2
      = if data ≠ [] ∧ a.IsPeer (inet_ntop sender_addr) = true
            ∧ a.peer_ip = [] then
          { a with peer_ip := inet_ntop sender_addr }
        else a := by
  unfold ReceiveLoop
  by_cases hdata : data = []
  · simp [hdata]
  by_cases hown : a.IsOwn (inet_ntop sender_addr) = true
  · simp [hdata, hown, isPeer_of_isOwn hown]
  · by_cases hpeer : a.IsPeer (inet_ntop sender_addr) = true ∧ a.peer_ip = []
    · simp [hdata, hown, hpeer]
    · simp only [hdata, hown, hpeer, if_false, ne_eq, not_false_eq_true,
        true_and]
      simp

theorem step_datagram (a : UdpNicAdapter) (sender_addr : InAddr)
    (data : Bytes) :
    a.step (.datagram sender_addr data)
      = if (a.running = true ∧ data ≠ []
              ∧ a.IsPeer (inet_ntop sender_addr) = true) ∧ a.peer_ip = [] then
          { a with peer_ip := inet_ntop sender_addr }
        else a := by
  unfold step
  by_cases hrun : a.running = true
  · simp only [hrun, if_true, true_and, receiveLoop_snd, and_assoc]
  · simp only [Bool.not_eq_true] at hrun
    simp [hrun]

/-- An event that gives no address for a MAC address. -/
theorem Remembers.concat {bind_ip : IpText} {es : List UdpEvent}
    {a a' : UdpNicAdapter} (h : Remembers bind_ip es a) {ev : UdpEvent}
    (hev : ∀ m ip, ev ≠ .SetPeerIpForMac m ip) (hbind : a'.bind_ip = a.bind_ip)
    (hips : a'.peer_ips = a.peer_ips)
    (hrun : a'.running = (learn bind_ip (learnt bind_ip es) ev).1)
    (hpeer : a'.peer_ip
      = firstAddress (learn bind_ip (learnt bind_ip es) ev).2) :
    Remembers bind_ip (es ++ [ev]) a' := by
  have hlearn : learnt bind_ip (es ++ [ev])
      = learn bind_ip (learnt bind_ip es) ev := exec_concat _ _ _ _
  refine ⟨hbind.trans h.bind, by rw [hlearn, hrun], by rw [hlearn, hpeer],
    fun mac => ?_⟩
  rw [given_for_concat mac es ev hev, hips, h.given]

/-- A datagram is heard of by the adapter and by its history alike. -/
theorem Remembers.datagram {bind_ip : IpText} {es : List UdpEvent}
    {a : UdpNicAdapter} (h : Remembers bind_ip es a) (sender_addr : InAddr)
    (data : Bytes) :
    Remembers bind_ip (es ++ [.datagram sender_addr data])
      (a.step (.datagram sender_addr data)) := by
  have hpeer : a.IsPeer (inet_ntop sender_addr) = true
      ↔ inet_ntop sender_addr ≠ bind_ip
        ∧ inet_ntop sender_addr ≠ ascii "127.0.0.1" := by
    rw [← h.bind]
    exact decide_eq_true_iff
  have hread : learn bind_ip (learnt bind_ip es) (.datagram sender_addr data)
      = if a.running = true ∧ data ≠ []
            ∧ a.IsPeer (inet_ntop sender_addr) = true then
          ((learnt bind_ip es).1,
            (learnt bind_ip es).2 ++ [inet_ntop sender_addr])
        else learnt bind_ip es := by
    simp only [hpeer, h.running]
    rfl
  rw [step_datagram]
  by_cases hheard : a.running = true ∧ data ≠ []
      ∧ a.IsPeer (inet_ntop sender_addr) = true
  · have hfirst := firstAddress_concat (learnt bind_ip es).2
      (inet_ntop sender_addr)
    rw [← h.peer] at hfirst
    rw [if_pos hheard] at hread
    by_cases hnone : a.peer_ip = []
    · rw [if_pos ⟨hheard, hnone⟩]
      refine h.concat (by simp) rfl rfl ?_ ?_
      · rw [hread]
        exact h.running
      · rw [hread, hfirst, if_pos hnone]
    · rw [if_neg fun hall => hnone hall.2]
      refine h.concat (by simp) rfl rfl ?_ ?_
      · rw [hread]
        exact h.running
      · rw [hread, hfirst, if_neg hnone]
  · rw [if_neg hheard] at hread
    rw [if_neg fun hall => hheard hall.1]
    refine h.concat (by simp) rfl rfl ?_ ?_
    · rw [hread]
      exact h.running
    · rw [hread]
      exact h.peer

/-- Each event keeps the history. -/
theorem Remembers.step {bind_ip : IpText} {es : List UdpEvent}
    {a : UdpNicAdapter} (h : Remembers bind_ip es a) (ev : UdpEvent) :
    Remembers bind_ip (es ++ [ev]) (a.step ev) := by
  cases ev with
  | Start => exact h.concat (by simp) rfl rfl rfl h.peer
  | Stop => exact h.concat (by simp) rfl rfl rfl h.peer
  | SetPeerIp ip =>
      refine h.concat (by simp) rfl rfl h.running ?_
      show ip = firstAddress [ip]
      cases ip <;> rfl
  | SetPeerIpForMac m ip =>
      have hlearn : learnt bind_ip (es ++ [.SetPeerIpForMac m ip])
          = ((learnt bind_ip es).1, (learnt bind_ip es).2 ++ [ip]) :=
        exec_concat _ _ _ _
      refine ⟨h.bind, by rw [hlearn]; exact h.running, ?_, fun mac => ?_⟩
      · rw [hlearn]
        show (if a.peer_ip = [] then ip else a.peer_ip)
          = firstAddress (_ ++ [ip])
        rw [firstAddress_concat, h.peer]
      · rw [given_for_set]
        show (a.peer_ips.insert m ip).lookup mac = _
        by_cases hm : m = mac
        · subst hm
          rw [AList.lookup_insert, if_pos rfl]
        · rw [AList.lookup_insert_ne (Ne.symm hm), if_neg hm, h.given]
  | TransmitUnicast destination frame =>
      exact h.concat (by simp) rfl rfl h.running h.peer
  | TransmitBroadcast frame =>
      exact h.concat (by simp) rfl rfl h.running h.peer
  | datagram sender_addr data => exact h.datagram sender_addr data

/-- After any run from its construction. -/
theorem remembers (bind_ip : IpText) (mac : MacAddress) (es : List UdpEvent) :
    Remembers bind_ip es (exec step (create bind_ip mac) es) := by
  induction es using List.reverseRecOn with
  | nil => exact ⟨rfl, rfl, rfl, fun _ => rfl⟩
  | append_singleton es ev ih =>
      rw [exec_concat]
      exact ih.step ev

-- =========================================================== destinations

/-- Where a datagram goes whose destination is this text. -/
def address (ip : IpText) : InAddr := inet_addr (c_str ip)

/-- An address that was heard of is sent to. -/
theorem address_inet_ntop (a : InAddr) : address (inet_ntop a) = a := by
  unfold address
  rw [c_str_eq_self (zero_notMem_inet_ntop a), inet_addr_inet_ntop]

/-- The datagram of a frame goes to the first address there is. -/
theorem sendUdpPacket_eq (a : UdpNicAdapter) (frame : Bytes)
    (target_ip : IpText) :
    a.SendUdpPacket frame target_ip
      = if a.running then
          some (address (firstAddress [target_ip, a.peer_ip, a.broadcast_ip]),
            frame)
        else none := by
  unfold SendUdpPacket firstAddress address
  cases a.running <;> cases target_ip <;> cases a.peer_ip <;>
    cases a.broadcast_ip <;> simp

theorem broadcast_ip_exec (a : UdpNicAdapter) (es : List UdpEvent) :
    (exec step a es).broadcast_ip = a.broadcast_ip := by
  refine exec_invariant
    (fun b : UdpNicAdapter => b.broadcast_ip = a.broadcast_ip)
    (fun b ev hb => ?_) es rfl
  cases ev with
  | datagram sender_addr data =>
      rw [step_datagram]
      split <;> exact hb
  | _ => exact hb

/-- Every datagram an adapter sends goes to the address given last for its
destination, if there is one, else to the first address given or heard
since the last `SetPeerIp`, and only while there is none to the broadcast
address; a broadcast is no exception. What was given is sent to as
`inet_addr` reads it, which makes of text that is no address the limited
broadcast; what was heard is read as it was. -/
theorem datagram_destinations (bind_ip : IpText) (mac : MacAddress)
    (es : List UdpEvent) (destination : MacAddress) (frame : Bytes) :
    let a := exec step (create bind_ip mac) es
    let heard := firstAddress (learnt bind_ip es).2
    let broadcast_ip := (create bind_ip mac).broadcast_ip
    (a.TransmitBroadcast frame
      = if (learnt bind_ip es).1 then
          some (address (firstAddress [heard, broadcast_ip]), frame)
        else none)
    ∧ (a.TransmitUnicast destination frame
      = if (learnt bind_ip es).1 then
          some (address (firstAddress [(given_for destination es).getD [],
            heard, broadcast_ip]), frame)
        else none)
    ∧ (∀ ip, inet_aton (c_str ip) = none → address ip = INADDR_NONE)
    ∧ ∀ sender_addr, address (inet_ntop sender_addr) = sender_addr := by
  intro a heard broadcast_ip
  have h : Remembers bind_ip es a := remembers bind_ip mac es
  have hbroadcast : a.broadcast_ip = broadcast_ip := broadcast_ip_exec _ es
  have hpeer : a.peer_ip = heard := h.peer
  refine ⟨?_, ?_, fun ip hip => ?_, address_inet_ntop⟩
  · unfold TransmitBroadcast
    rw [sendUdpPacket_eq, h.running, hpeer, hbroadcast]
    rfl
  · unfold TransmitUnicast
    rw [sendUdpPacket_eq, h.running, h.given, hpeer, hbroadcast]
    cases given_for destination es with
    | some ip => rfl
    | none =>
        -- nothing given for the destination: the peer is tried twice
        have htwice : firstAddress [heard, heard, broadcast_ip]
            = firstAddress [[], heard, broadcast_ip] := by
          unfold firstAddress
          cases heard <;> simp
        simp only [Option.getD_none, htwice]
  · unfold address inet_addr
    rw [hip]
    rfl

-- ================================================================ cut off

/-- No address is given: the adapter goes by what it hears. -/
def Unnamed : UdpEvent → Prop
  | .SetPeerIp _ => False
  | .SetPeerIpForMac _ _ => False
  | _ => True

instance : DecidablePred Unnamed
  | .SetPeerIp _ => isFalse id
  | .SetPeerIpForMac _ _ => isFalse id
  | .Start => isTrue trivial
  | .Stop => isTrue trivial
  | .TransmitUnicast _ _ => isTrue trivial
  | .TransmitBroadcast _ => isTrue trivial
  | .datagram _ _ => isTrue trivial

theorem given_for_unnamed {mac : MacAddress} {es : List UdpEvent}
    (h : ∀ ev ∈ es, Unnamed ev) : given_for mac es = none := by
  have hnone : (es.filterMap fun
      | .SetPeerIpForMac m ip => if m = mac then some ip else none
      | _ => none) = [] := by
    rw [List.filterMap_eq_nil_iff]
    intro ev hev
    cases ev with
    | SetPeerIpForMac m ip => exact (h _ hev).elim
    | _ => rfl
  unfold given_for
  rw [hnone]
  rfl

theorem learn_unnamed (bind_ip : IpText) (k : Bool × List IpText)
    {ev : UdpEvent} (h : Unnamed ev) :
    (learn bind_ip k ev).2 = k.2
      ∨ ∃ sender_addr, inet_ntop sender_addr ≠ bind_ip
        ∧ (learn bind_ip k ev).2 = k.2 ++ [inet_ntop sender_addr] := by
  cases ev with
  | SetPeerIp ip => exact h.elim
  | SetPeerIpForMac m ip => exact h.elim
  | datagram sender_addr data =>
      unfold learn
      dsimp only
      split
      · rename_i hheard
        exact Or.inr ⟨_, hheard.2.2.1, rfl⟩
      · exact Or.inl rfl
  | _ => exact Or.inl rfl

/-- What is heard is added behind what was known, and is never the address
bound to. -/
theorem learnt_append (bind_ip : IpText) (es es' : List UdpEvent)
    (h : ∀ ev ∈ es', Unnamed ev) :
    ∃ more : List InAddr, (learnt bind_ip (es ++ es')).2
        = (learnt bind_ip es).2 ++ more.map inet_ntop
      ∧ bind_ip ∉ more.map inet_ntop := by
  induction es' using List.reverseRecOn with
  | nil => exact ⟨[], by simp, List.not_mem_nil⟩
  | append_singleton es' ev ih =>
      obtain ⟨more, hmore, hnew⟩ :=
        ih fun ev hev => h ev (List.mem_append_left _ hev)
      have hlearn : learnt bind_ip (es ++ (es' ++ [ev]))
          = learn bind_ip (learnt bind_ip (es ++ es')) ev := by
        rw [← List.append_assoc]
        exact exec_concat _ _ _ _
      rw [hlearn]
      rcases learn_unnamed bind_ip (learnt bind_ip (es ++ es'))
        (h ev (by simp)) with hsame | ⟨sender_addr, hne, hadd⟩
      · exact ⟨more, hsame.trans hmore, hnew⟩
      · refine ⟨more ++ [sender_addr], ?_, ?_⟩
        · simp [hadd, hmore]
        · rw [List.map_append, List.mem_append, not_or]
          exact ⟨hnew, by simpa using hne.symm⟩

/-- All that such an adapter knows it heard. -/
theorem learnt_unnamed (bind_ip : IpText) (es : List UdpEvent)
    (h : ∀ ev ∈ es, Unnamed ev) :
    ∃ heard : List InAddr, (learnt bind_ip es).2 = heard.map inet_ntop
      ∧ bind_ip ∉ heard.map inet_ntop :=
  learnt_append bind_ip [] es h

theorem firstAddress_append {ips more : List IpText}
    (h : firstAddress ips ≠ []) :
    firstAddress (ips ++ more) = firstAddress ips := by
  unfold firstAddress at h ⊢
  rw [List.find?_append]
  cases hfind : ips.find? (· ≠ []) with
  | none =>
      rw [hfind] at h
      exact absurd rfl h
  | some x => rfl

theorem firstAddress_mem {ips : List IpText} (h : firstAddress ips ≠ []) :
    firstAddress ips ∈ ips := by
  unfold firstAddress at h ⊢
  cases hfind : ips.find? (· ≠ []) with
  | none =>
      rw [hfind] at h
      exact absurd rfl h
  | some x => exact List.mem_of_find?_eq_some hfind

theorem firstAddress_cons {ip : IpText} (h : ip ≠ []) (ips : List IpText) :
    firstAddress (ip :: ips) = ip := by
  unfold firstAddress
  simp [h]

/-- What was heard first stays the destination of everything. -/
theorem destination_of_first {bind_ip : IpText} {mac : MacAddress}
    {es es' : List UdpEvent} {ev : UdpEvent} {d : InAddr × Bytes}
    (hes : ∀ ev ∈ es, Unnamed ev) (hes' : ∀ ev ∈ es', Unnamed ev)
    (hfirst : firstAddress (learnt bind_ip es).2 ≠ [])
    (hd : d ∈ sends (exec step (create bind_ip mac) (es ++ es')) ev) :
    d.1 = address (firstAddress (learnt bind_ip es).2) := by
  have hheard : firstAddress (learnt bind_ip (es ++ es')).2
      = firstAddress (learnt bind_ip es).2 := by
    obtain ⟨more, hmore, -⟩ := learnt_append bind_ip es es' hes'
    rw [hmore, firstAddress_append hfirst]
  have hnone : ∀ m, given_for m (es ++ es') = none := by
    intro m
    apply given_for_unnamed
    intro ev hev
    rcases List.mem_append.mp hev with hev | hev
    · exact hes ev hev
    · exact hes' ev hev
  cases ev with
  | TransmitUnicast destination frame =>
      have hto := (datagram_destinations bind_ip mac (es ++ es') destination
        frame).2.1
      rw [hnone, hheard] at hto
      change d ∈
        (UdpNicAdapter.TransmitUnicast _ destination frame).toList at hd
      rw [hto] at hd
      split at hd
      · rw [List.mem_singleton.mp hd]
        exact congrArg address (firstAddress_cons hfirst _)
      · cases hd
  | TransmitBroadcast frame =>
      have hto := (datagram_destinations bind_ip mac (es ++ es') mac frame).1
      rw [hheard] at hto
      change d ∈ (UdpNicAdapter.TransmitBroadcast _ frame).toList at hd
      rw [hto] at hd
      split at hd
      · rw [List.mem_singleton.mp hd]
        exact congrArg address (firstAddress_cons hfirst _)
      · cases hd
  | _ => cases hd

/-- An adapter that knew no peer sends to the first it hears. -/
theorem broadcast_after_hearing {bind_ip : IpText} (mac : MacAddress)
    (es : List UdpEvent) {sender_addr : InAddr}
    (hbind : inet_ntop sender_addr ≠ bind_ip)
    (hlocal : inet_ntop sender_addr ≠ ascii "127.0.0.1") :
    (address (firstAddress ((learnt bind_ip es).2 ++ [inet_ntop sender_addr])),
        []) ∈ outputs step sends (exec step (create bind_ip mac) es)
      [.Start, .datagram sender_addr [0], .TransmitBroadcast []] := by
  have hto := (datagram_destinations bind_ip mac
    (es ++ [.Start, .datagram sender_addr [0]]) mac []).1
  have hlearn : learnt bind_ip (es ++ [.Start, .datagram sender_addr [0]])
      = (true, (learnt bind_ip es).2 ++ [inet_ntop sender_addr]) := by
    unfold learnt
    rw [exec_append]
    simp [exec, learn, hbind, hlocal]
  rw [hlearn, if_pos rfl, firstAddress_cons, exec_append] at hto
  · simp only [outputs_cons, outputs_nil, List.append_nil]
    apply List.mem_append_right
    apply List.mem_append_right
    exact Option.mem_toList.mpr hto
  · rw [firstAddress_concat]
    split
    · exact inet_ntop_ne_nil _
    · assumption

/-- There are hosts apart from this one. -/
theorem exists_other_host (bind_ip : IpText) (own : InAddr) :
    ∃ other : InAddr, other ≠ own ∧ inet_ntop other ≠ bind_ip
      ∧ inet_ntop other ≠ ascii "127.0.0.1" := by
  -- three addresses, of which at most two are excluded
  have hlocal {n : InAddr} (hn : n ≠ 0x7f000001) :
      inet_ntop n ≠ ascii "127.0.0.1" := by
    rw [← show inet_ntop 0x7f000001 = ascii "127.0.0.1" by decide]
    exact mt inet_ntop_inj.mp hn
  by_cases h1 : own ≠ 1 ∧ inet_ntop 1 ≠ bind_ip
  · exact ⟨1, h1.1.symm, h1.2, hlocal (by decide)⟩
  by_cases h2 : own ≠ 2 ∧ inet_ntop 2 ≠ bind_ip
  · exact ⟨2, h2.1.symm, h2.2, hlocal (by decide)⟩
  refine ⟨3, ?_, ?_, hlocal (by decide)⟩
  · rintro rfl
    have h1' : inet_ntop 1 = bind_ip := by simpa using h1
    have h2' : inet_ntop 2 = bind_ip := by simpa using h2
    exact absurd (inet_ntop_inj.mp (h1'.trans h2'.symm)) (by decide)
  · rintro rfl
    have h1' : own = 1 := by
      by_contra hne
      exact h1 ⟨hne, by simp [inet_ntop_inj]⟩
    have h2' : own = 2 := by
      by_contra hne
      exact h2 ⟨hne, by simp [inet_ntop_inj]⟩
    exact absurd (h1'.symm.trans h2') (by decide)

/-- A host whose adapter is given no peer sends everything to itself from
some point on exactly if the first address the adapter heard is the
host's own; and that never happens to an adapter bound to it. -/
theorem cut_off_iff (bind_ip : IpText) (mac : MacAddress) (own : InAddr)
    (es : List UdpEvent) (hes : ∀ ev ∈ es, Unnamed ev) :
    ((∀ es', (∀ ev ∈ es', Unnamed ev) →
        ∀ d ∈ outputs step sends (exec step (create bind_ip mac) es) es',
          d.1 = own)
      ↔ firstAddress (learnt bind_ip es).2 = inet_ntop own)
    ∧ (bind_ip = inet_ntop own →
      firstAddress (learnt bind_ip es).2 ≠ inet_ntop own) := by
  have hown : inet_ntop own ≠ [] := inet_ntop_ne_nil own
  refine ⟨⟨fun hall => ?_, fun hfirst es' hes' d hd => ?_⟩, ?_⟩
  · -- started, it hears another host and broadcasts to what it heard first
    obtain ⟨other, hother, hbind, hlocal⟩ := exists_other_host bind_ip own
    have heq := hall _ (by simp [Unnamed])
      _ (broadcast_after_hearing mac es hbind hlocal)
    rw [firstAddress_concat] at heq
    split at heq
    · rw [address_inet_ntop] at heq
      exact absurd heq hother
    · rename_i hknown
      obtain ⟨heard, hheard, -⟩ := learnt_unnamed bind_ip es hes
      have hmem := firstAddress_mem hknown
      rw [hheard] at hmem
      obtain ⟨first, -, hfirst⟩ := List.mem_map.mp hmem
      rw [← hheard] at hfirst
      rw [← hfirst, address_inet_ntop] at heq
      rw [← hfirst, ← heq]
  · obtain ⟨pre, ev, post, rfl, hsend⟩ := mem_outputs step hd
    rw [← exec_append] at hsend
    rw [destination_of_first hes
      (fun e he => hes' e (List.mem_append_left _ he)) (hfirst ▸ hown) hsend,
      hfirst, address_inet_ntop]
  · intro hbind hfirst
    obtain ⟨heard, hheard, hnew⟩ := learnt_unnamed bind_ip es hes
    have hmem := firstAddress_mem (hfirst ▸ hown :
      firstAddress (learnt bind_ip es).2 ≠ [])
    rw [hfirst, hheard] at hmem
    exact hnew (hbind ▸ hmem)

/-- The laptop binds to no address. It broadcasts, reads its own datagram
back, and has cut itself off. -/
theorem cut_off_iff_laptop :
    (outputs step sends
      (exec step (create (ascii "0.0.0.0") (station 3))
        [.Start, .TransmitBroadcast [1], .datagram 0xc0a83107 [1]])
      [.datagram 0xc0a83101 [2], .TransmitBroadcast [3],
        .TransmitUnicast (station 1) [4]]).all
      (fun d => d.1 = 0xc0a83107) = true := by
  have hcut := (cut_off_iff (ascii "0.0.0.0") (station 3) 0xc0a83107
    [.Start, .TransmitBroadcast [1], .datagram 0xc0a83107 [1]]
    (by decide)).1.mpr (by decide)
  rw [List.all_eq_true]
  intro d hd
  exact decide_eq_true (hcut _ (by decide) d hd)

end UdpNicAdapter

end Joker
