/-
Does a packet always get through where nothing is lost?

A node that overhears the origin's unicast records the id like any
other, and drops the copy a relay addresses to it later. So the origin's
neighbours, the addressed one apart, may be deaf to the packet by the
time the flood reaches them, and what lies behind them alone is never
reached (`overhearing_neighbour_blocks`). Around them the flood gets
through: if the destination hears the origin, or hears a chain of
forwarders from the addressed node that avoids the origin and its other
neighbours, it has delivered the packet exactly once whenever nothing is
left to hand over or to forward, whatever the order of deliveries and
ticks (`delivered_when_quiescent`).
-/
import Joker.Proofs.Flooding
import Joker.Proofs.HopBound
import Mathlib.Logic.Relation
import Mathlib.Data.Fintype.Card

namespace Joker

open Transition DedupCache VectorHeap Relation

variable {N : Nat} {H : WheelHeap ForwardCallback}

namespace Network

variable {st : Stations N} {link : Fin N → Fin N → Prop} {o a d n : Fin N}
  {p : PacketId} {ttl : Nat} {net net' : Network N H}

-- ========================================================== the invariant

/-- The account of the network: one transmission of the origin, at most
one broadcast of a copy by each other node, and whoever sent a copy or
was handed one knows the packet. -/
structure Flooding (st : Stations N) (link : Fin N → Fin N → Prop)
    (o a d : Fin N) (p : PacketId) (ttl : Nat) (net : Network N H) : Prop where
  station : ∀ n, StationOk st link o a d p ttl net.air n (net.nodes n)
  first : ∃ tx, net.air[0]? = some tx ∧ tx.sender = o
    ∧ tx.frame.destination = st.mac a
  later : ∀ j tx, net.air[j]? = some tx → 0 < j →
    tx.frame.destination = MacAddress.broadcast
  copies : ∀ j tx, net.air[j]? = some tx →
    ∃ t, Copy st d p tx.frame.data t ∧ ttl ≤ t + j
  senders : (net.air.map Transmission.sender).Nodup
  known : ∀ tx ∈ net.air, Knows p (net.nodes tx.sender) ∧ tx.sender ≠ d
  handed : ∀ i n, (i, n) ∈ net.handed → Knows p (net.nodes n)

/-- There is room for the destination. -/
theorem Flooding.length_lt (h : Flooding st link o a d p ttl net) :
    net.air.length + 1 ≤ N := by
  have hnd : (d :: net.air.map Transmission.sender).Nodup := by
    refine List.nodup_cons.mpr ⟨fun hd => ?_, h.senders⟩
    obtain ⟨tx, htx, hsender⟩ := List.mem_map.mp hd
    exact (h.known tx htx).2 hsender
  have hcard := hnd.length_le_card
  simp only [List.length_cons, List.length_map, Fintype.card_fin] at hcard
  exact hcard

/-- And for a node that has yet to send. -/
theorem Flooding.length_lt_of_pending (h : Flooding st link o a d p ttl net)
    {e : PendingForward}
    (he : (net.nodes n).coordinator.pending.lookup p = some e) :
    net.air.length + 2 ≤ N := by
  obtain ⟨-, hd, hsend, -⟩ := (h.station n).pending e he
  have hnd : (d :: n :: net.air.map Transmission.sender).Nodup := by
    refine List.nodup_cons.mpr ⟨fun hmem => ?_,
      List.nodup_cons.mpr ⟨fun hmem => ?_, h.senders⟩⟩
    · rcases List.mem_cons.mp hmem with hdn | hmem
      · exact hd hdn.symm
      · obtain ⟨tx, htx, hsender⟩ := List.mem_map.mp hmem
        exact (h.known tx htx).2 hsender
    · obtain ⟨tx, htx, hsender⟩ := List.mem_map.mp hmem
      exact hsend tx htx hsender
  have hcard := hnd.length_le_card
  simp only [List.length_cons, List.length_map, Fintype.card_fin] at hcard
  exact hcard

-- ============================================================== the steps

/-- Node `n` changes and nothing is sent. -/
theorem Flooding.change (h : Flooding st link o a d p ttl net)
    (hair : net'.air = net.air) (hnodes : ∀ m ≠ n, net'.nodes m = net.nodes m)
    (hstation : StationOk st link o a d p ttl net.air n (net'.nodes n))
    (hknows : Knows p (net.nodes n) → Knows p (net'.nodes n))
    (hhanded : ∀ i m, (i, m) ∈ net'.handed → (i, m) ∈ net.handed
      ∨ m = n ∧ Knows p (net'.nodes n)) :
    Flooding st link o a d p ttl net' := by
  have hmono : ∀ m, Knows p (net.nodes m) → Knows p (net'.nodes m) := by
    intro m hm
    by_cases hmn : m = n
    · subst hmn
      exact hknows hm
    · rw [hnodes m hmn]
      exact hm
  refine ⟨fun m => ?_, ?_, ?_, ?_, ?_, fun tx htx => ?_, fun i m hm => ?_⟩
  · rw [hair]
    by_cases hmn : m = n
    · subst hmn
      exact hstation
    · rw [hnodes m hmn]
      exact h.station m
  · rw [hair]
    exact h.first
  · rw [hair]
    exact h.later
  · rw [hair]
    exact h.copies
  · rw [hair]
    exact h.senders
  · rw [hair] at htx
    exact ⟨hmono _ (h.known tx htx).1, (h.known tx htx).2⟩
  · rcases hhanded i m hm with hm | ⟨rfl, hk⟩
    · exact hmono m (h.handed i m hm)
    · exact hk

/-- Node `n` sends its one copy. -/
theorem Flooding.transmit (h : Flooding st link o a d p ttl net)
    {tx : Transmission N} (hair : net'.air = net.air ++ [tx])
    (hnodes : ∀ m ≠ n, net'.nodes m = net.nodes m) (hsender : tx.sender = n)
    (hdest : tx.frame.destination = MacAddress.broadcast) {t : Nat}
    (hcopy : Copy st d p tx.frame.data t) (ht : ttl ≤ t + net.air.length)
    (hstation : StationOk st link o a d p ttl (net.air ++ [tx]) n
      (net'.nodes n))
    (hd : n ≠ d) (hfirst : ∀ tx ∈ net.air, tx.sender ≠ n)
    (hknows : Knows p (net'.nodes n)) (hhanded : net'.handed = net.handed) :
    Flooding st link o a d p ttl net' := by
  have hmono : ∀ m, Knows p (net.nodes m) → Knows p (net'.nodes m) := by
    intro m hm
    by_cases hmn : m = n
    · subst hmn
      exact hknows
    · rw [hnodes m hmn]
      exact hm
  -- a place on the air is an old one, or the new transmission's
  have hplace : ∀ (j : Nat) x, net'.air[j]? = some x →
      net.air[j]? = some x ∨ j = net.air.length ∧ x = tx := by
    intro j x hx
    rw [hair, List.getElem?_append] at hx
    split at hx
    · exact Or.inl hx
    · next hj =>
      obtain ⟨hlt, hget⟩ := List.getElem?_eq_some_iff.mp hx
      simp at hlt hget
      exact Or.inr ⟨by omega, hget.symm⟩
  refine ⟨fun m => ?_, ?_, fun j x hx hj => ?_, fun j x hx => ?_, ?_,
    fun x hx => ?_, fun i m hm => ?_⟩
  · rw [hair]
    by_cases hmn : m = n
    · subst hmn
      exact hstation
    · rw [hnodes m hmn]
      exact (h.station m).others (hsender ▸ fun heq => hmn heq.symm)
  · obtain ⟨x, hx, hrest⟩ := h.first
    refine ⟨x, ?_, hrest⟩
    rw [hair, List.getElem?_append_left (List.getElem?_eq_some_iff.mp hx).1]
    exact hx
  · rcases hplace j x hx with hx | ⟨-, rfl⟩
    · exact h.later j x hx hj
    · exact hdest
  · rcases hplace j x hx with hx | ⟨rfl, rfl⟩
    · exact h.copies j x hx
    · exact ⟨t, hcopy, ht⟩
  · rw [hair, List.map_append, List.nodup_append]
    refine ⟨h.senders, List.nodup_singleton _, ?_⟩
    intro u hu v hv huv
    obtain ⟨x, hx, rfl⟩ := List.mem_map.mp hu
    simp at hv
    exact hfirst x hx (huv.trans (hv.trans hsender))
  · rw [hair] at hx
    rcases List.mem_append.mp hx with hx | hx
    · exact ⟨hmono _ (h.known x hx).1, (h.known x hx).2⟩
    · obtain rfl := List.mem_singleton.mp hx
      rw [hsender]
      exact ⟨hknows, hd⟩
  · rw [hhanded] at hm
    exact hmono m (h.handed i m hm)

/-- The event hands a transmission over to a node that hears it, or ticks
a node. -/
def Relays (st : Stations N) (link : Fin N → Fin N → Prop)
    (net : Network N H) : NetEvent N → Prop
  | .deliver i n now is_candidate =>
      Heard st link net (.deliver i n now is_candidate)
  | .tick .. => True
  | _ => False

instance [DecidableRel link] :
    DecidablePred (Relays st link net)
  | .deliver i n now is_candidate =>
      inferInstanceAs
        (Decidable (Heard st link net (.deliver i n now is_candidate)))
  | .tick .. => isTrue trivial
  | .originate .. => isFalse id
  | .own_send .. => isFalse id
  | .evict .. => isFalse id

/-- A node that is handed a transmission along a link hears a copy: it
knows the packet afterwards, sends nothing yet, and its account is in
order. -/
theorem Flooding.hear (h : Flooding st link o a d p ttl net)
    (hcap : ∀ n, 0 < st.capacity n)
    (hmac : ∀ n, st.mac n = st.mac d ↔ n = d) (hN : N ≤ ttl) {i : Nat}
    {tx : Transmission N} (htx : net.air[i]? = some tx)
    (hlink : link tx.sender n) {is_candidate : Bool}
    (hflag : is_candidate = addressed_to (st.mac n) tx.frame.destination)
    (now : TimePoint) :
    HearsOk st link o a d p ttl net.air n (net.nodes n)
      ((net.nodes n).step (st.mac n) (st.config n)
        (.receive now tx.frame.data is_candidate)) := by
  have hlen := h.length_lt
  obtain ⟨t, hcopy, ht⟩ := h.copies i tx htx
  have hi := (List.getElem?_eq_some_iff.mp htx).1
  -- the origin's transmission is the first, all others are broadcast
  have hclear : Clear link o a n → is_candidate = true := by
    intro hall
    obtain ⟨-, hclear⟩ := hall
    rw [hflag]
    rcases Nat.eq_zero_or_pos i with rfl | hpos
    · obtain ⟨x, hx, hsender, hdest⟩ := h.first
      obtain rfl := Option.some.inj (htx.symm.trans hx)
      rw [hsender] at hlink
      rcases hclear with rfl | hclear
      · simp [addressed_to, hdest]
      · exact absurd hlink hclear
    · rw [h.later i tx htx hpos]
      simp [addressed_to]
      right
      rfl
  have hsender : (∃ x ∈ net.air, x.sender = n) → Knows p (net.nodes n) := by
    intro hall
    obtain ⟨x, hx, rfl⟩ := hall
    exact (h.known x hx).1
  exact (h.station n).hear (hcap n) (hmac n) hcopy (by omega) (by omega)
    hclear hsender now

/-- A hand-over along a link keeps the account. -/
theorem Flooding.deliver (h : Flooding st link o a d p ttl net)
    (hcap : ∀ n, 0 < st.capacity n)
    (hmac : ∀ n, st.mac n = st.mac d ↔ n = d) (hN : N ≤ ttl) {i : Nat}
    {now : TimePoint} {is_candidate : Bool}
    (hev : Relays st link net (.deliver i n now is_candidate)) :
    Flooding st link o a d p ttl
      (net.step st (.deliver i n now is_candidate)) := by
  rcases deliver_cases st net i n now is_candidate with
    heq | ⟨tx, ⟨htx, hne, -⟩, heq⟩
  · rw [heq]
    exact h
  · obtain ⟨tx', htx', hlink, hflag⟩ := hev
    obtain rfl := Option.some.inj (htx.symm.trans htx')
    obtain ⟨hstation, hknows, hnic⟩ :=
      h.hear hcap hmac hN htx hlink hflag now
    have hself : ((net.hand i n).act st n now
        (.receive now tx.frame.data is_candidate)).nodes n
          = (net.nodes n).step (st.mac n) (st.config n)
            (.receive now tx.frame.data is_candidate) :=
      act_self st (net.hand i n) n now _
    rw [heq]
    refine h.change (n := n) ?_
      (fun m hm => act_other st (net.hand i n) now _ hm)
      (hself ▸ hstation) (fun _ => hself ▸ hknows) ?_
    · have hair := act_air st (net.hand i n) n now
        (.receive now tx.frame.data is_candidate) []
        (by simp [hand, hnic])
      simpa [hand] using hair
    · intro j m hm
      rcases List.mem_cons.mp hm with hm | hm
      · injection hm with _ hm
        exact Or.inr ⟨hm, hself ▸ hknows⟩
      · exact Or.inl hm

/-- A tick keeps the account: it puts the node's forward on the air, or
nothing. -/
theorem Flooding.tick (h : Flooding st link o a d p ttl net) (hN : N ≤ ttl)
    (now : TimePoint) :
    Flooding st link o a d p ttl (net.step st (.tick n now)) := by
  have hroom : ∀ e, (net.nodes n).coordinator.pending.lookup p = some e →
      net.air.length + 2 ≤ ttl := by
    intro e he
    have hlen := h.length_lt_of_pending he
    omega
  have hself : (net.step st (.tick n now)).nodes n
      = TimerNode.Tick now (net.nodes n) := act_self st net n now _
  have hothers : ∀ m ≠ n, (net.step st (.tick n now)).nodes m
      = net.nodes m := fun m hm => act_other st net now _ hm
  have hkeeps : Knows p (net.nodes n) →
      Knows p ((net.step st (.tick n now)).nodes n) := by
    rw [hself]
    unfold Knows
    rw [TimerNode.tick_dedup]
    exact id
  rcases (h.station n).tick hroom now with
    ⟨hnic, hstation⟩ | ⟨e, data, t, he, hnic, hcopy, ht, hstation⟩
  · refine h.change (n := n) ?_ hothers (hself ▸ hstation) hkeeps
      (fun i m hm => Or.inl hm)
    have hair := act_air st net n now (.tick now) []
      (by simp [TimerNode.step, hnic])
    exact hair.trans (List.append_nil _)
  · obtain ⟨hknows, hd, hfirst, -⟩ := (h.station n).pending e he
    refine h.transmit (n := n) (act_air st net n now (.tick now)
      [⟨MacAddress.broadcast, data, true, some (p, e)⟩] ?_)
      hothers rfl rfl hcopy ht (hself ▸ hstation _ rfl) hd hfirst
      (hkeeps hknows) rfl
    simp [TimerNode.step, hnic, NicAdapter.TransmitBroadcast]

/-- Hand-overs along links and ticks keep the account. -/
theorem Flooding.step (hcap : ∀ n, 0 < st.capacity n)
    (hmac : ∀ n, st.mac n = st.mac d ↔ n = d) (hN : N ≤ ttl)
    (h : Flooding st link o a d p ttl net) {ev : NetEvent N}
    (hev : Relays st link net ev) :
    Flooding st link o a d p ttl (net.step st ev) := by
  cases ev with
  | originate n now destination frame => exact absurd hev id
  | own_send n now packet_id => exact absurd hev id
  | evict n now => exact absurd hev id
  | deliver i n now is_candidate => exact h.deliver hcap hmac hN hev
  | tick n now => exact h.tick hN now

-- =============================================================== the start

/-- The origin records the packet's id and unicasts its frame. -/
def unicast (st : Stations N) (o a : Fin N) (p : PacketId) (frame : Bytes)
    (now : TimePoint) : List (NetEvent N) :=
  [.own_send o now p, .originate o now (st.mac a) frame]

/-- The origin's frame is all there is on the air. -/
theorem unicast_air (H : WheelHeap ForwardCallback) (st : Stations N)
    (o a : Fin N) (p : PacketId) (frame : Bytes) (now : TimePoint) :
    (run H st (unicast st o a p frame now)).air
      = [⟨o, ⟨st.mac a, frame, (st.mac a).IsBroadcast, none⟩, now, none⟩] := by
  have hact := act_air st (start H st) o now (.own_send now p) [] rfl
  show ((start H st).act st o now (.own_send now p)).air ++ _ = _
  rw [hact]
  rfl

/-- The other nodes are as they were built. -/
theorem unicast_others (H : WheelHeap ForwardCallback) (st : Stations N)
    {o n : Fin N} (hn : n ≠ o) (a : Fin N) (p : PacketId) (frame : Bytes)
    (now : TimePoint) :
    (run H st (unicast st o a p frame now)).nodes n
      = TimerNode.start H (st.capacity n) (st.ttl n) :=
  Function.update_of_ne hn _ _

/-- The account after the origin's unicast. -/
theorem flooding_unicast (H : WheelHeap ForwardCallback)
    (hcap : 0 < st.capacity o) (hd : d ≠ o) {frame : Bytes}
    (hcopy : Copy st d p frame ttl) (now : TimePoint) :
    Flooding st link o a d p ttl
      (run H st (unicast st o a p frame now)) := by
  have hempty : ∀ n, ¬ Knows p (TimerNode.start H (st.capacity n) (st.ttl n)) :=
    fun _ h => Bool.false_ne_true h
  have hins := (represents_empty (st.capacity o) (st.ttl o)).insert hcap p now
  have hknows : Knows p ((run H st (unicast st o a p frame now)).nodes o) := by
    refine (congrArg (fun s : TimerNode H => s.dedup.Contains p)
      (Function.update_self o _ _)).trans ?_
    exact (hins.contains_iff p).mpr
      (Recency.heldSince_touch_self hcap _ p (le_refl now) ∅).mem
  have hair := unicast_air H st o a p frame now
  refine ⟨fun n => ?_, ?_, ?_, ?_, ?_, ?_, ?_⟩
  · by_cases hn : n = o
    · subst hn
      have hself : (run H st (unicast st n a p frame now)).nodes n
          = (TimerNode.start H (st.capacity n) (st.ttl n)).step (st.mac n)
            (st.config n) (.own_send now p) := Function.update_self _ _ _
      rw [hself]
      exact
        { cache := ⟨_, hins⟩
          only := fun _ _ => rfl
          pending := fun _ he => by cases he
          forwards := fun _ _ hclear => absurd rfl hclear.1
          delivered := fun hnd => absurd hnd.symm hd }
    · rw [unicast_others H st hn]
      exact
        { cache := ⟨_, represents_empty _ _⟩
          only := fun _ _ => rfl
          pending := fun _ he => by cases he
          forwards := fun hk => absurd hk (hempty n)
          delivered := fun _ => ⟨fun hk => absurd hk (hempty n), fun _ => rfl⟩ }
  · rw [hair]
    exact ⟨_, rfl, rfl, rfl⟩
  · rw [hair]
    intro j tx htx hj
    have hlt := (List.getElem?_eq_some_iff.mp htx).1
    simp at hlt
    omega
  · rw [hair]
    intro j tx htx
    obtain rfl := List.mem_singleton.mp (List.mem_of_getElem? htx)
    exact ⟨ttl, hcopy, by omega⟩
  · rw [hair]
    exact List.nodup_singleton _
  · rw [hair]
    intro tx htx
    obtain rfl := List.mem_singleton.mp htx
    exact ⟨hknows, hd.symm⟩
  · intro i n hn
    exact absurd hn List.not_mem_nil

-- ============================================================ the delivery

/-- With nothing left to hand over, who hears a sender knows the packet. -/
theorem Flooding.hears (h : Flooding st link o a d p ttl net)
    (hq : Quiescent link net) {tx : Transmission N} (htx : tx ∈ net.air)
    {m : Fin N} (hlink : link tx.sender m) : Knows p (net.nodes m) := by
  by_cases hm : tx.sender = m
  · exact hm ▸ (h.known tx htx).1
  · obtain ⟨j, hj⟩ := List.getElem?_of_mem htx
    have hmem : (tx, j) ∈ net.air.zipIdx :=
      List.mk_mem_zipIdx_iff_getElem?.mpr hj
    exact h.handed j m (hq.1 (tx, j) hmem m hm hlink)

/-- With nothing left to forward either, a clear node that knows the
packet, the destination apart, has sent it. -/
theorem Flooding.sends (h : Flooding st link o a d p ttl net)
    (hq : Quiescent link net) {m : Fin N} (hk : Knows p (net.nodes m))
    (hd : m ≠ d) (hclear : Clear link o a m) :
    ∃ tx ∈ net.air, tx.sender = m := by
  rcases (h.station m).forwards hk hd hclear with ⟨e, he⟩ | hsent
  · have hkeys := AList.lookup_isSome.mp (he ▸ rfl :
      ((net.nodes m).coordinator.pending.lookup p).isSome)
    have hmem : p ∈ (net.nodes m).coordinator.pending.keys := hkeys
    rw [hq.2 m] at hmem
    exact absurd hmem List.not_mem_nil
  · exact hsent

/-- One data packet, unicast by `o` to its neighbour `a`, with TTL at
least the number of nodes, in a network that loses nothing: if the
destination hears the origin, or a chain of links leads to it from `a`
that avoids the origin and the origin's other neighbours, then whenever
nothing is left to hand over or to forward the destination has delivered
the packet exactly once. -/
theorem delivered_when_quiescent (H : WheelHeap ForwardCallback)
    (st : Stations N) (link : Fin N → Fin N → Prop) {o a d : Fin N}
    {p : PacketId} {frame : Bytes} {header : JokerHeader} {consumed : Nat}
    (now : TimePoint) (es : List (NetEvent N))
    (hcap : ∀ n, 0 < st.capacity n)
    (hf : ∀ n, DataFrame (st.config n) frame header consumed)
    (hid : header.packet_id = p)
    (hdest : ∀ n, st.mac n = header.final_destination ↔ n = d)
    (httl : N ≤ header.ttl.toNat) (hoa : link o a) (hao : a ≠ o)
    (hdo : d ≠ o)
    (hpath : link o d
      ∨ ReflTransGen (fun u v => link u v ∧ Clear link o a v) a d)
    (hrel : Along (Network.step st) (Relays st link)
      (run H st (unicast st o a p frame now)) es)
    (hq : Quiescent link (run H st (unicast st o a p frame now ++ es))) :
    ((run H st (unicast st o a p frame now ++ es)
      ).nodes d).metrics.GetCounter .packets_delivered_lucky_or_direct = 1 := by
  have hmacd : st.mac d = header.final_destination := (hdest d).mpr rfl
  have hmac : ∀ n, st.mac n = st.mac d ↔ n = d := by
    rw [hmacd]
    exact hdest
  have hcopy : Copy st d p frame header.ttl.toNat :=
    ⟨header, consumed, hf, hid, hmacd.symm, rfl⟩
  have hrun : Flooding st link o a d p header.ttl.toNat
      (run H st (unicast st o a p frame now ++ es)) := by
    unfold run at hrel ⊢
    rw [exec_append]
    exact exec_invariant_along (Flooding st link o a d p header.ttl.toNat)
      (fun _ _ hev h => h.step hcap hmac httl hev) es hrel
      (flooding_unicast H (hcap o) hdo hcopy now)
  generalize run H st (unicast st o a p frame now ++ es) = net at hq hrun ⊢
  obtain ⟨tx, htx, hsender, -⟩ := hrun.first
  have horigin : ∀ {m}, link o m → Knows p (net.nodes m) :=
    fun hm => hrun.hears hq (List.mem_of_getElem? htx) (hsender ▸ hm)
  have hknows : Knows p (net.nodes d) := by
    rcases hpath with hod | hpath
    · exact horigin hod
    · -- along the chain each node knows the packet, sends it and is heard
      have hchain : ∀ v, ReflTransGen (fun u v => link u v ∧ Clear link o a v)
          a v → Clear link o a v ∧ (Knows p (net.nodes v)
            ∨ Knows p (net.nodes d)) := by
        intro v hv
        induction hv with
        | refl => exact ⟨⟨hao, Or.inl rfl⟩, Or.inl (horigin hoa)⟩
        | @tail u v _ huv ih =>
            obtain ⟨hclear, hk⟩ := ih
            refine ⟨huv.2, ?_⟩
            by_cases hud : u = d
            · subst hud
              rcases hk with hk | hk <;> exact Or.inr hk
            · rcases hk with hk | hk
              · obtain ⟨x, hx, rfl⟩ := hrun.sends hq hk hud hclear
                exact Or.inl (hrun.hears hq hx huv.1)
              · exact Or.inr hk
      rcases (hchain d hpath).2 with hk | hk <;> exact hk
  exact ((hrun.station d).delivered rfl).1 hknows

-- ============================================================ four stations

/-- Four stations, the last with address 9. -/
def four_stations : Stations 4 where
  mac n := station (if n = 3 then 9 else UInt8.ofNat n)
  config _ := {}
  capacity _ := 1000
  ttl _ := 120000000000

/-- A line: each station hears its neighbours in number. -/
def line (u v : Fin 4) : Prop := u.val + 1 = v.val ∨ v.val + 1 = u.val

instance : DecidableRel line :=
  fun _ _ => inferInstanceAs (Decidable (_ ∨ _))

/-- A packet from station 0 along the line to station 3. -/
def line_run : List (NetEvent 4) :=
  [.deliver 0 1 1 true, .tick 1 50000001, .deliver 1 0 50000002 true,
    .deliver 1 2 50000002 true, .tick 2 50000003, .deliver 2 1 50000004 true,
    .deliver 2 3 50000004 true]

theorem line_run_relays : Along (Network.step four_stations)
    (Relays four_stations line)
    (run (sortedHeap _) four_stations
      (unicast four_stations 0 1 7 (sample_frame 7 5) 0)) line_run :=
  by decide +kernel

/-- Each station hears the next, and the packet is delivered. -/
theorem delivered_when_quiescent_line :
    ((run (sortedHeap _) four_stations
      (unicast four_stations 0 1 7 (sample_frame 7 5) 0 ++ line_run)
      ).nodes 3).metrics.GetCounter .packets_delivered_lucky_or_direct = 1 := by
  have hpath : ReflTransGen (fun u v => line u v ∧ Clear line 0 1 v) 1 3 := by
    refine ReflTransGen.tail (b := 2) (.single ?_) ?_
    · exact ⟨by decide, by decide, Or.inr (by decide)⟩
    · exact ⟨by decide, by decide, Or.inr (by decide)⟩
  have hf : ∀ n, DataFrame (four_stations.config n) (sample_frame 7 5)
      (sample_header 7 5) 19 := fun _ => sample_dataFrame 7 5
  exact delivered_when_quiescent (o := 0) (a := 1) (d := 3) (sortedHeap _)
    four_stations line 0 line_run (by decide) hf rfl (by decide) (by decide)
    (by decide) (by decide) (by decide) (Or.inr hpath)
    line_run_relays (by decide +kernel)

/-- Stations 0, 1 and 2 hear each other, and 2 and 3 do. -/
def kite (u v : Fin 4) : Prop :=
  u ≠ v ∧ ((u ≠ 3 ∧ v ≠ 3) ∨ u = 2 ∨ v = 2)

instance : DecidableRel kite :=
  fun _ _ => inferInstanceAs (Decidable (_ ∧ _))

/-- Station 2 overhears the packet before station 1 forwards it. -/
def kite_run : List (NetEvent 4) :=
  [.deliver 0 2 1 false, .deliver 0 1 1 true, .tick 1 50000001,
    .deliver 1 0 50000002 true, .deliver 1 2 50000002 true]

/-- Station 0 unicasts to station 1, which reaches station 3 over station
2. Station 2 has overheard the packet and drops what station 1 forwards:
nothing is left to hand over or to forward, and station 3 has delivered
nothing. -/
theorem overhearing_neighbour_blocks :
    (∀ u v, kite u v → kite v u) ∧ (∀ u v, ReflTransGen kite u v)
      ∧ (∀ n, 0 < four_stations.capacity n)
      ∧ (∀ n, DataFrame (four_stations.config n) (sample_frame 7 5)
        (sample_header 7 5) 19)
      ∧ (∀ n, four_stations.mac n = (sample_header 7 5).final_destination
        ↔ n = 3)
      ∧ 4 ≤ (sample_header 7 5).ttl.toNat ∧ kite 0 1
      ∧ ReflTransGen (fun u v => kite u v ∧ v ≠ 0) 1 3
      ∧ Along (Network.step four_stations) (Relays four_stations kite)
        (run (sortedHeap _) four_stations
          (unicast four_stations 0 1 7 (sample_frame 7 5) 0)) kite_run
      ∧ Quiescent kite (run (sortedHeap _) four_stations
          (unicast four_stations 0 1 7 (sample_frame 7 5) 0 ++ kite_run))
      ∧ ((run (sortedHeap _) four_stations
          (unicast four_stations 0 1 7 (sample_frame 7 5) 0 ++ kite_run)
          ).nodes 3).metrics.GetCounter .packets_delivered_lucky_or_direct
        = 0 := by
  have hvia2 : ∀ u, ReflTransGen kite u 2 ∧ ReflTransGen kite 2 u := by
    intro u
    by_cases hu : u = 2
    · subst hu
      exact ⟨.refl, .refl⟩
    · exact ⟨.single ⟨hu, Or.inr (Or.inr rfl)⟩,
        .single ⟨Ne.symm hu, Or.inr (Or.inl rfl)⟩⟩
  refine ⟨by decide, fun u v => (hvia2 u).1.trans (hvia2 v).2, by decide,
    fun _ => sample_dataFrame 7 5, by decide, by decide, by decide, ?_,
    by decide +kernel, by decide +kernel, by decide +kernel⟩
  exact (ReflTransGen.single ⟨by decide, by decide⟩ :
    ReflTransGen (fun u v => kite u v ∧ v ≠ 0) 1 2).tail (by decide)

end Network

end Joker
