/-
What lies behind the origin's neighbours.

The condition under which the flood gets through (Proofs/Delivery.lean)
is the best one on the links alone. Where it fails, the order in which
every neighbour of the origin is handed the origin's unicast before
anything else is sent cuts the destination off: from then on only the
addressed neighbour and nodes it reaches past the others ever send, and
nothing that happens later brings the packet to the destination
(`undelivered_behind_neighbours`).
-/
import Joker.Proofs.Senders

namespace Joker

open Transition Relation

variable {N : Nat} {H : WheelHeap ForwardCallback}

namespace Network

variable {st : Stations N} {link : Fin N → Fin N → Prop} {o a d : Fin N}
  {p : PacketId} {ttl : Nat} {net : Network N H}

/-- A chain of clear nodes leads from the addressed node to `v`. -/
def Reaches (link : Fin N → Fin N → Prop) (o a v : Fin N) : Prop :=
  ReflTransGen (fun u v => link u v ∧ Clear link o a v) a v

-- ============================================================ what is known

/-- In a hand-over along a link or a tick, a node hears what is on the air
or keeps the ids it has recorded. -/
theorem relays_cases {ev : NetEvent N} (hev : Relays st link net ev)
    (v : Fin N) :
    ((net.step st ev).nodes v).dedup = (net.nodes v).dedup
      ∨ ∃ (i : Nat) (tx : Transmission N) (now : TimePoint)
        (is_candidate : Bool), net.air[i]? = some tx ∧ link tx.sender v
        ∧ is_candidate = addressed_to (st.mac v) tx.frame.destination
        ∧ (net.step st ev).nodes v = (net.nodes v).step (st.mac v)
          (st.config v) (.receive now tx.frame.data is_candidate) := by
  cases ev with
  | originate n now destination frame => exact absurd hev id
  | own_send n now packet_id => exact absurd hev id
  | evict n now => exact absurd hev id
  | deliver i n now is_candidate =>
      rcases deliver_cases st net i n now is_candidate with
        heq | ⟨tx, ⟨htx, -, -⟩, heq⟩
      · rw [heq]
        exact Or.inl rfl
      · rw [heq]
        by_cases hv : v = n
        · subst hv
          obtain ⟨tx', htx', hlink, hflag⟩ := hev
          obtain rfl := Option.some.inj (htx.symm.trans htx')
          exact Or.inr ⟨i, tx, now, is_candidate, htx, hlink, hflag,
            act_self st (net.hand i v) v now _⟩
        · rw [act_other st (net.hand i n) now _ hv]
          exact Or.inl rfl
  | tick n now =>
      refine Or.inl ?_
      show ((net.act st n now (.tick now)).nodes v).dedup = _
      by_cases hv : v = n
      · subst hv
        rw [act_self]
        exact TimerNode.tick_dedup now (net.nodes v)
      · rw [act_other st net now _ hv]

/-- The packet is news to a node only when a copy is handed to it. -/
theorem knows_step {ev : NetEvent N} {v : Fin N}
    (hev : Relays st link net ev)
    (h : Knows p ((net.step st ev).nodes v)) :
    Knows p (net.nodes v) ∨ ∃ tx ∈ net.air, link tx.sender v := by
  rcases relays_cases hev v with hdedup | ⟨i, tx, -, -, htx, hlink, -⟩
  · unfold Knows at h ⊢
    rw [hdedup] at h
    exact Or.inl h
  · exact Or.inr ⟨tx, List.mem_of_getElem? htx, hlink⟩

/-- What a node knows it keeps. -/
theorem Flooding.knows_mono (h : Flooding st link o a d p ttl net)
    (hcap : ∀ n, 0 < st.capacity n)
    (hmac : ∀ n, st.mac n = st.mac d ↔ n = d) (hN : N ≤ ttl)
    {ev : NetEvent N} (hev : Relays st link net ev) {v : Fin N}
    (hk : Knows p (net.nodes v)) : Knows p ((net.step st ev).nodes v) := by
  rcases relays_cases hev v with
    hdedup | ⟨i, tx, now, is_candidate, htx, hlink, hflag, heq⟩
  · unfold Knows at hk ⊢
    rw [hdedup]
    exact hk
  · rw [heq]
    exact (h.hear hcap hmac hN htx hlink hflag now).knows

/-- Every neighbour of the origin knows the packet. -/
def Deaf (link : Fin N → Fin N → Prop) (o : Fin N) (p : PacketId)
    (net : Network N H) : Prop :=
  ∀ v, link o v → Knows p (net.nodes v)

-- ============================================================ the frontier

/-- The packet stays on the near side: only the origin, its neighbours
and what the addressed node reaches know it, and of the neighbours only
the addressed one sends it. -/
structure Behind (link : Fin N → Fin N → Prop) (o a : Fin N) (p : PacketId)
    (net : Network N H) : Prop where
  knows : ∀ v, Knows p (net.nodes v) → v = o ∨ link o v ∨ Reaches link o a v
  sends : ∀ v, net.Sends p v → v = o ∨ Reaches link o a v

/-- Whoever is on the air sends the packet. -/
theorem Flooding.on_air_sends (h : Flooding st link o a d p ttl net)
    {tx : Transmission N} (htx : tx ∈ net.air) : net.Sends p tx.sender := by
  obtain ⟨i, hi⟩ := List.getElem?_of_mem htx
  obtain ⟨t, ⟨header, consumed, hf, rfl, -⟩, -⟩ := h.copies i tx hi
  refine Or.inl ⟨tx, htx, rfl, ?_⟩
  unfold Transmission.packet_id
  rw [(hf d).parses]
  rfl

/-- Who hears a sender on the near side is on the near side. -/
theorem Behind.hears (h : Flooding st link o a d p ttl net)
    (hb : Behind link o a p net) {tx : Transmission N} (htx : tx ∈ net.air)
    {v : Fin N} (hlink : link tx.sender v) :
    v = o ∨ link o v ∨ Reaches link o a v := by
  rcases hb.sends _ (h.on_air_sends htx) with hs | hreach
  · exact Or.inr (Or.inl (hs ▸ hlink))
  · by_cases hvo : v = o
    · exact Or.inl hvo
    · by_cases hov : link o v
      · exact Or.inr (Or.inl hov)
      · exact Or.inr (Or.inr (hreach.tail ⟨hlink, hvo, Or.inr hov⟩))

/-- A node that takes the packet on is reached: it is the addressed node,
if the origin's transmission is all there is, and no neighbour of the
origin, if these know the packet already. -/
theorem Behind.takes_on (h : Flooding st link o a d p ttl net)
    (hb : Behind link o a p net)
    (honly : ∀ n, addressed_to (st.mac n) (st.mac a) = true → n = a)
    (hquiet : net.air.length ≤ 1 ∨ Deaf link o p net) {ev : NetEvent N}
    (hev : Relays st link net ev) {v : Fin N} (htakes : TakesOn st net v p ev) :
    Reaches link o a v := by
  cases ev with
  | originate n now destination frame => exact absurd hev id
  | own_send n now packet_id => exact absurd hev id
  | evict n now => exact absurd hev id
  | tick n now => exact absurd htakes id
  | deliver i n now is_candidate =>
      obtain ⟨rfl, hcand, tx, header, consumed, ⟨htx, hne, -⟩, -, -, -, -,
        hnew⟩ := htakes
      obtain ⟨tx', htx', hlink, hflag⟩ := hev
      obtain rfl := Option.some.inj (htx.symm.trans htx')
      obtain ⟨x, hx, hsender, hdest⟩ := h.first
      rcases hquiet with hlen | hdeaf
      · have hi := (List.getElem?_eq_some_iff.mp htx).1
        obtain rfl : i = 0 := by omega
        obtain rfl := Option.some.inj (htx.symm.trans hx)
        rw [hdest, hcand] at hflag
        obtain rfl := honly n hflag.symm
        exact .refl
      · have hnot : ¬ Knows p (net.nodes n) := by simp [Knows, hnew]
        rcases hb.hears h (List.mem_of_getElem? htx) hlink with
          rfl | hon | hreach
        · exact absurd (hsender ▸ (h.known x (List.mem_of_getElem? hx)).1) hnot
        · exact absurd (hdeaf n hon) hnot
        · exact hreach

/-- Hand-overs along links and ticks keep the packet on the near side. -/
theorem Behind.step (h : Flooding st link o a d p ttl net)
    (hacc : Accounted st net) (hb : Behind link o a p net)
    (honly : ∀ n, addressed_to (st.mac n) (st.mac a) = true → n = a)
    (hquiet : net.air.length ≤ 1 ∨ Deaf link o p net) {ev : NetEvent N}
    (hev : Relays st link net ev) : Behind link o a p (net.step st ev) := by
  refine ⟨fun v hk => ?_, fun v hs => ?_⟩
  · rcases knows_step hev hk with hold | ⟨tx, htx, hlink⟩
    · exact hb.knows v hold
    · exact hb.hears h htx hlink
  · rcases Sends.step hacc hs with hold | htakes | horig
    · exact hb.sends v hold
    · exact Or.inr (hb.takes_on h honly hquiet hev htakes)
    · cases ev with
      | originate n now destination frame => exact absurd hev id
      | deliver i n now is_candidate => exact absurd horig id
      | tick n now => exact absurd horig id
      | own_send n now packet_id => exact absurd horig id
      | evict n now => exact absurd horig id

-- ================================================================ the runs

/-- After the unicast the packet is with the origin. -/
theorem behind_unicast (H : WheelHeap ForwardCallback) (frame : Bytes)
    (now : TimePoint) :
    Behind link o a p (run H st (unicast st o a p frame now)) := by
  refine ⟨fun v hk => Or.inl ?_, fun v hs => Or.inl ?_⟩
  · by_contra hv
    rw [unicast_others H st hv] at hk
    exact Bool.false_ne_true hk
  · by_contra hv
    rcases hs with ⟨tx, htx, hsender, -⟩ | ⟨e, he, -⟩
    · rw [unicast_air] at htx
      obtain rfl := List.mem_singleton.mp htx
      exact hv hsender.symm
    · rw [unicast_others H st hv] at he
      cases he

/-- The accounts of the network, with the packet on the near side for as
long as the origin's transmission is all there is. -/
structure Overheard (st : Stations N) (link : Fin N → Fin N → Prop)
    (o a d : Fin N) (p : PacketId) (ttl : Nat) (net : Network N H) : Prop where
  flooding : Flooding st link o a d p ttl net
  accounted : Accounted st net
  behind : net.air.length ≤ 1 → Behind link o a p net

/-- From here on every neighbour of the origin is deaf to the packet. -/
structure Stuck (st : Stations N) (link : Fin N → Fin N → Prop)
    (o a d : Fin N) (p : PacketId) (ttl : Nat) (net : Network N H) : Prop where
  flooding : Flooding st link o a d p ttl net
  accounted : Accounted st net
  behind : Behind link o a p net
  deaf : Deaf link o p net

theorem Overheard.step (hcap : ∀ n, 0 < st.capacity n)
    (hmac : ∀ n, st.mac n = st.mac d ↔ n = d) (hN : N ≤ ttl)
    (honly : ∀ n, addressed_to (st.mac n) (st.mac a) = true → n = a)
    (h : Overheard st link o a d p ttl net) {ev : NetEvent N}
    (hev : Relays st link net ev) :
    Overheard st link o a d p ttl (net.step st ev) := by
  refine ⟨h.flooding.step hcap hmac hN hev, h.accounted.step ev,
    fun hlen => ?_⟩
  obtain ⟨more, hair⟩ := step_air st net ev
  have hold : net.air.length ≤ 1 := by
    rw [hair, List.length_append] at hlen
    omega
  exact (h.behind hold).step h.flooding h.accounted honly (Or.inl hold) hev

theorem Stuck.step (hcap : ∀ n, 0 < st.capacity n)
    (hmac : ∀ n, st.mac n = st.mac d ↔ n = d) (hN : N ≤ ttl)
    (honly : ∀ n, addressed_to (st.mac n) (st.mac a) = true → n = a)
    (h : Stuck st link o a d p ttl net) {ev : NetEvent N}
    (hev : Relays st link net ev) :
    Stuck st link o a d p ttl (net.step st ev) where
  flooding := h.flooding.step hcap hmac hN hev
  accounted := h.accounted.step ev
  behind := h.behind.step h.flooding h.accounted honly (Or.inr h.deaf) hev
  deaf v hv := h.flooding.knows_mono hcap hmac hN hev (h.deaf v hv)

/-- One data packet, unicast by `o` to `a`, the only node the address is
flagged for. If the destination neither hears the origin nor is reached
from `a` past the origin's other neighbours, and each of these was handed
the origin's transmission before anything else was sent, the destination
delivers nothing in any continuation of the run. -/
theorem undelivered_behind_neighbours (H : WheelHeap ForwardCallback)
    (st : Stations N) (link : Fin N → Fin N → Prop) {o a d : Fin N}
    {p : PacketId} {frame : Bytes} {header : JokerHeader} {consumed : Nat}
    (now : TimePoint) (es₁ es₂ : List (NetEvent N))
    (hcap : ∀ n, 0 < st.capacity n)
    (hf : ∀ n, DataFrame (st.config n) frame header consumed)
    (hid : header.packet_id = p)
    (hdest : ∀ n, st.mac n = header.final_destination ↔ n = d)
    (httl : N ≤ header.ttl.toNat) (hdo : d ≠ o)
    (honly : ∀ n, addressed_to (st.mac n) (st.mac a) = true → n = a)
    (hod : ¬ link o d) (hreach : ¬ Reaches link o a d)
    (hrel : Along (Network.step st) (Relays st link)
      (run H st (unicast st o a p frame now)) (es₁ ++ es₂))
    (hair : (run H st (unicast st o a p frame now ++ es₁)).air.length = 1)
    (hheard : ∀ v ≠ o, link o v →
      (0, v) ∈ (run H st (unicast st o a p frame now ++ es₁)).handed) :
    ((run H st (unicast st o a p frame now ++ es₁ ++ es₂)
      ).nodes d).metrics.GetCounter .packets_delivered_lucky_or_direct = 0 := by
  have hmacd : st.mac d = header.final_destination := (hdest d).mpr rfl
  have hmac : ∀ n, st.mac n = st.mac d ↔ n = d := by
    rw [hmacd]
    exact hdest
  have hcopy : Copy st d p frame header.ttl.toNat :=
    ⟨header, consumed, hf, hid, hmacd.symm, rfl⟩
  obtain ⟨hrel₁, hrel₂⟩ := along_append.mp hrel
  have hfirst : Overheard st link o a d p header.ttl.toNat
      (run H st (unicast st o a p frame now ++ es₁)) := by
    unfold run at hrel₁ ⊢
    rw [exec_append]
    exact exec_invariant_along (Overheard st link o a d p header.ttl.toNat)
      (fun _ _ hev h => h.step hcap hmac httl honly hev) es₁ hrel₁
      ⟨flooding_unicast H (hcap o) hdo hcopy now, run_accounted H st _,
        fun _ => behind_unicast H frame now⟩
  have hdeaf : Deaf link o p
      (run H st (unicast st o a p frame now ++ es₁)) := by
    intro v hv
    by_cases hvo : v = o
    · obtain ⟨tx, htx, hsender, -⟩ := hfirst.flooding.first
      have hknown := hfirst.flooding.known tx (List.mem_of_getElem? htx)
      rw [hsender] at hknown
      rw [hvo]
      exact hknown.1
    · exact hfirst.flooding.handed 0 v (hheard v hvo hv)
  have hlast : Stuck st link o a d p header.ttl.toNat
      (run H st (unicast st o a p frame now ++ es₁ ++ es₂)) := by
    unfold run at hrel₂ hfirst hdeaf hair ⊢
    rw [exec_append _ _ (_ ++ _)]
    rw [← exec_append] at hrel₂
    exact exec_invariant_along (Stuck st link o a d p header.ttl.toNat)
      (fun _ _ hev h => h.step hcap hmac httl honly hev) es₂ hrel₂
      ⟨hfirst.flooding, hfirst.accounted, hfirst.behind (le_of_eq hair), hdeaf⟩
  refine ((hlast.flooding.station d).delivered rfl).2 fun hk => ?_
  rcases hlast.behind.knows d hk with hd | hd | hd
  · exact hdo hd
  · exact hod hd
  · exact hreach hd

end Network

end Joker
