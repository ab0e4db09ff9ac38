/-
Does a packet get through when there are others?

Proofs/Delivery.lean follows one packet in a network that has nothing
else to do. Here the network has any other traffic before, during and
after: other packets of any stations, sweeps of the caches, frames that
are no packets at all. As long as no cache loses the packet, what becomes
of it is what becomes of it alone (Proofs/Isolation.lean), and alone it
floods as there: what an event leaves of itself is a hand-over along a
link or a tick (`Apart.slice_relays`), and these keep the account of the
flood (`Sending.flooding`).

What the counters of the stations say is what was delivered
(`deliveries_counted`), so the account of the flood, which is in terms of
counters, gives the delivery (`delivered_under_load`).
-/
import Joker.Proofs.Delivery
import Joker.Proofs.Isolation

namespace Joker

open Transition VectorHeap Relation Selection

variable {N : Nat} {H : WheelHeap ForwardCallback}

-- =============================================================== counters

theorem TimerNode.step_deliveries (s : TimerNode H) (local_mac : MacAddress)
    (config : Config) (now : TimePoint) (frame : Bytes)
    (is_candidate : Bool) :
    (s.step local_mac config (.receive now frame is_candidate)).deliveries
      = s.deliveries
        + match verdict frame local_mac is_candidate config s.dedup with
          | .delivered _ => 1
          | _ => 0 := by
  unfold TimerNode.deliveries
  rw [TimerNode.step_receive]
  dsimp only
  rw [GetCounter_foldl _ _ _ (Verdict.counters_nodup _)]
  cases verdict frame local_mac is_candidate config s.dedup with
  | _ => simp [Verdict.counters]

namespace Network

variable {st : Stations N} {net net' : Network N H} {p : PacketId}

/-- A station counts what it delivers. -/
theorem step_counted (st : Stations N) (net : Network N H) (ev : NetEvent N)
    (n : Fin N) :
    ((net.step st ev).nodes n).deliveries
      = (net.nodes n).deliveries + UInt64.ofNat
        ((delivered st net ev).countP fun d => d.station = n) := by
  have hquiet : ∀ m now ev',
      ((net.nodes m).step (st.mac m) (st.config m) ev').deliveries
        = (net.nodes m).deliveries →
      ((net.act st m now ev').nodes n).deliveries
        = (net.nodes n).deliveries + UInt64.ofNat 0 := by
    intro m now ev' hsame
    refine Eq.trans ?_ (UInt64.add_zero _).symm
    by_cases hn : n = m
    · subst hn
      rw [act_self]
      exact hsame
    · rw [act_other st net now ev' hn]
  cases ev with
  | originate m now destination frame => exact (UInt64.add_zero _).symm
  | deliver i m now is_candidate =>
      cases htx : net.air[i]? with
      | none =>
          simp only [Network.step, delivered, htx]
          exact (UInt64.add_zero _).symm
      | some tx =>
          by_cases hcan : net.CanHand i m tx
          · simp only [Network.step, delivered, htx, if_pos hcan]
            by_cases hn : n = m
            · subst hn
              rw [act_self]
              refine (TimerNode.step_deliveries (net.nodes n) _ _ now
                tx.frame.data is_candidate).trans (congrArg _ ?_)
              cases verdict tx.frame.data (st.mac n) is_candidate (st.config n)
                (net.nodes n).dedup <;> simp
            · rw [act_other st _ now _ hn]
              show (net.nodes n).deliveries = _
              cases verdict tx.frame.data (st.mac m) is_candidate (st.config m)
                (net.nodes m).dedup <;> simp [Ne.symm hn]
          · simp only [Network.step, delivered, htx, if_neg hcan]
            exact (UInt64.add_zero _).symm
  | tick m now => exact hquiet m now _ (TimerNode.tick_deliveries now _)
  | own_send m now packet_id => exact hquiet m now _ rfl
  | evict m now => exact hquiet m now _ rfl

/-- The counters at the end of a run. -/
theorem deliveries_counted (H : WheelHeap ForwardCallback) (st : Stations N)
    (es : List (NetEvent N)) (n : Fin N) :
    ((run H st es).nodes n).deliveries
      = UInt64.ofNat ((deliveries H st es).countP fun d => d.station = n) := by
  induction es using List.reverseRecOn with
  | nil => rfl
  | append_singleton es ev ih =>
      have hstep := step_counted st (run H st es) ev n
      unfold run Network.deliveries at ih ⊢
      unfold run at hstep
      rw [exec_concat, outputs_concat, hstep, ih, List.countP_append,
        UInt64.ofNat_add]

-- ============================================================== the outset

/-- Does the event bring packet `p` on the air, or its id into a cache,
other than by a node's hearing it? -/
def Brings (p : PacketId) : NetEvent N → Prop
  | .originate _ _ _ frame =>
      (deserialize_header frame 0).1.map JokerHeader.packet_id = some p
  | .own_send _ _ packet_id => packet_id = p
  | _ => False

instance (p : PacketId) : DecidablePred (Brings p (N := N))
  | .originate .. => inferInstanceAs (Decidable (_ = _))
  | .own_send .. => inferInstanceAs (Decidable (_ = _))
  | .deliver .. => isFalse id
  | .tick .. => isFalse id
  | .evict .. => isFalse id

/-- Where nothing was ever on the air, a relaying event changes nothing. -/
theorem step_start (H : WheelHeap ForwardCallback) {st : Stations N}
    {link : Fin N → Fin N → Prop} {ev : NetEvent N}
    (hev : Relays st link (start H st) ev) :
    (start H st).step st ev = start H st := by
  cases ev with
  | originate n now destination frame => exact absurd hev id
  | own_send n now packet_id => exact absurd hev id
  | evict n now => exact absurd hev id
  | deliver i n now is_candidate =>
      obtain ⟨tx, htx, -⟩ := hev
      cases htx
  | tick n now =>
      have hnodes : ((start H st).step st (.tick n now)).nodes
          = (start H st).nodes := Function.update_eq_self n _
      exact congrArg (fun nodes => { start H st with nodes := nodes }) hnodes

namespace Apart

variable {link : Fin N → Fin N → Prop} {lives : Fin N → Life}

/-- What is left of an event that brings no packet in relays. -/
theorem slice_relays (h : Apart st p net net' lives) {ev : NetEvent N}
    (hev : Heard st link net ev) (hbring : ¬ Brings p ev) :
    slice p net ev = [] ∨ ∃ ev', slice p net ev = [ev']
      ∧ Relays st link net' ev' := by
  cases ev with
  | originate n now destination frame => exact Or.inl (if_neg hbring)
  | own_send n now packet_id => exact Or.inl (if_neg hbring)
  | evict n now => exact Or.inl rfl
  | tick n now => exact Or.inr ⟨_, rfl, trivial⟩
  | deliver i n now is_candidate =>
      obtain ⟨tx, htx, hlink, hflag⟩ := hev
      replace htx : net.air[i]? = some tx := htx
      by_cases hp : tx.carries p = true
      · obtain ⟨tx', htx', hsender, hdest, -⟩ := h.counterpart htx hp
        refine Or.inr ⟨.deliver (ordinal (Transmission.carries p) net.air i) n
          now is_candidate, by simp only [slice, htx, if_pos hp], tx', htx', ?_⟩
        rw [hsender, hdest]
        exact ⟨hlink, hflag⟩
      · exact Or.inl (by simp only [slice, htx, if_neg hp])

/-- What relaying events keep true of the network with the packet alone, the
run with all its traffic keeps true of it. -/
theorem relayed {J : Network N H → Prop}
    (hJ : ∀ net ev, Relays st link net ev → J net → J (net.step st ev)) :
    ∀ (es : List (NetEvent N)) {net net' : Network N H} {lives : Fin N → Life},
      Apart st p net net' lives → J net' →
      Along (Network.step st) (Heard st link) net es →
      (∀ ev ∈ es, ¬ Brings p ev) →
      outputs (Network.step st) (losers st p) net es = [] →
      ∃ lives', Apart st p (exec (Network.step st) net es)
          (exec (Network.step st) net'
            (outputs (Network.step st) (slice p) net es)) lives'
        ∧ J (exec (Network.step st) net'
            (outputs (Network.step st) (slice p) net es)) := by
  intro es
  induction es with
  | nil => intro net net' lives h hj _ _ _; exact ⟨lives, h, hj⟩
  | cons ev es ih =>
      intro net net' lives h hj hheard hbring hlost
      rw [outputs_cons] at hlost
      obtain ⟨hnow, hlater⟩ := List.append_eq_nil_iff.mp hlost
      obtain ⟨lives', hnext⟩ := h.step ev hnow
      have hjnext : J (exec (Network.step st) net' (slice p net ev)) := by
        rcases h.slice_relays hheard.1 (hbring ev List.mem_cons_self) with
          hnone | ⟨ev', hone, hrel⟩
        · rw [hnone]
          exact hj
        · rw [hone]
          exact hJ net' ev' hrel hj
      rw [exec_cons, outputs_cons, exec_append]
      exact ih hnext hjnext hheard.2
        (fun e he => hbring e (List.mem_cons_of_mem _ he)) hlater

end Apart

-- =============================================================== the flood

/-- Everything of packet `p` was handed to every node that hears it, and no
copy of it is pending. -/
def Settled (link : Fin N → Fin N → Prop) (p : PacketId)
    (net : Network N H) : Prop :=
  (∀ x ∈ net.air.zipIdx, x.1.carries p = true → ∀ n, x.1.sender ≠ n →
    link x.1.sender n → (x.2, n) ∈ net.handed)
    ∧ ∀ n, (net.nodes n).coordinator.pending.lookup p = none

instance (link : Fin N → Fin N → Prop) [DecidableRel link] (p : PacketId)
    (net : Network N H) : Decidable (Settled link p net) :=
  inferInstanceAs (Decidable (_ ∧ _))

variable {link : Fin N → Fin N → Prop} {o a d : Fin N} {ttl : Nat}
  {lives : Fin N → Life}

/-- With the packet settled, the network with the packet alone is at rest. -/
theorem Apart.quiescent (h : Apart st p net net' lives)
    (hf : Flooding st link o a d p ttl net') (hs : Settled link p net) :
    Quiescent link net' := by
  refine ⟨fun ⟨tx', j⟩ hx n hne hlink => ?_, fun n => ?_⟩
  · have hj : net'.air[j]? = some tx' := List.mk_mem_zipIdx_iff_getElem?.mp hx
    have hcore : ((net.air.filter (Transmission.carries p)).map
        Transmission.core)[j]? = some tx'.core := by
      rw [← h.air, List.getElem?_map, hj]
      rfl
    rw [List.getElem?_map] at hcore
    obtain ⟨tx, htx, heq⟩ := Option.map_eq_some_iff.mp hcore
    obtain ⟨i, hi, hp, rfl⟩ := exists_ordinal htx
    have hsender : tx.sender = tx'.sender := congrArg Prod.fst heq
    refine (h.handed i n tx hi hp).mp (hs.1 (tx, i) ?_ hp n ?_ ?_)
    · exact List.mk_mem_zipIdx_iff_getElem?.mpr hi
    · rw [hsender]
      exact hne
    · rw [hsender]
      exact hlink
  · have hnone : ∀ q, (net'.nodes n).coordinator.pending.lookup q = none := by
      intro q
      by_cases hq : q = p
      · subst hq
        cases he : (net'.nodes n).coordinator.pending.lookup q with
        | none => rfl
        | some e =>
            obtain ⟨frame, due, hwait⟩ := (h.living' n).waits_of_pending he
            rw [(h.living' n).waits_iff, ← (h.living n).waits_iff] at hwait
            obtain ⟨e', he', -⟩ := hwait
            rw [hs.2 n] at he'
            cases he'
      · exact (hf.station n).only q hq
    refine List.eq_nil_iff_forall_not_mem.mpr fun q hq => ?_
    have hsome := AList.lookup_isSome.mpr hq
    rw [hnone q] at hsome
    cases hsome

/-- At rest, the destination knows the packet. -/
theorem Flooding.knows (h : Flooding st link o a d p ttl net)
    (hq : Quiescent link net) (hoa : link o a) (hao : a ≠ o)
    (hpath : link o d
      ∨ ReflTransGen (fun u v => link u v ∧ Clear link o a v) a d) :
    Knows p (net.nodes d) := by
  obtain ⟨tx, htx, hsender, -⟩ := h.first
  have horigin : ∀ {m}, link o m → Knows p (net.nodes m) :=
    fun hm => h.hears hq (List.mem_of_getElem? htx) (hsender ▸ hm)
  rcases hpath with hod | hpath
  · exact horigin hod
  · have hchain : ∀ v, ReflTransGen (fun u v => link u v ∧ Clear link o a v)
        a v → Knows p (net.nodes d)
          ∨ Clear link o a v ∧ Knows p (net.nodes v) := by
      intro v hv
      induction hv with
      | refl => exact Or.inr ⟨⟨hao, Or.inl rfl⟩, horigin hoa⟩
      | @tail u v _ huv ih =>
          rcases ih with hk | ⟨hclear, hk⟩
          · exact Or.inl hk
          · by_cases hud : u = d
            · exact Or.inl (hud ▸ hk)
            · obtain ⟨x, hx, rfl⟩ := h.sends hq hk hud hclear
              exact Or.inr ⟨huv.2, h.hears hq hx huv.1⟩
    rcases hchain d hpath with hk | ⟨-, hk⟩ <;> exact hk

-- ============================================================ the sending

/-- Station `o` sends packet `p` to its neighbour `a`, after `pre` and before
`post`. -/
def amid (st : Stations N) (o a : Fin N) (p : PacketId) (frame : Bytes)
    (now : TimePoint) (pre post : List (NetEvent N)) : List (NetEvent N) :=
  pre ++ (unicast st o a p frame now ++ post)

/-- Packet `p` is a data packet for `d`, with TTL at least the number of
nodes, that `o` sends once, amid any other traffic; no cache loses it, and
what is handed over is heard. The destination hears the origin, or a
chain of links leads to it from `a` that avoids the origin and the
origin's other neighbours. -/
structure Sending (H : WheelHeap ForwardCallback) (st : Stations N)
    (link : Fin N → Fin N → Prop) (o a d : Fin N) (p : PacketId)
    (frame : Bytes) (now : TimePoint) (pre post : List (NetEvent N)) :
    Prop where
  capacity : ∀ n, 0 < st.capacity n
  packet : ∃ header consumed,
    (∀ n, DataFrame (st.config n) frame header consumed)
      ∧ header.packet_id = p ∧ N ≤ header.ttl.toNat
      ∧ ∀ n, st.mac n = header.final_destination ↔ n = d
  neighbour : link o a ∧ a ≠ o
  elsewhere : d ≠ o
  path : link o d
    ∨ ReflTransGen (fun u v => link u v ∧ Clear link o a v) a d
  before : ∀ ev ∈ pre, ¬ Brings p ev
  after : ∀ ev ∈ post, ¬ Brings p ev
  heard : Along (step st) (Heard st link) (start H st)
    (amid st o a p frame now pre post)
  kept : losses H st p (amid st o a p frame now pre post) = []

namespace Sending

variable {frame : Bytes} {now : TimePoint} {pre post : List (NetEvent N)}

/-- The network with the packet alone is that of Proofs/Delivery.lean. -/
theorem flooding (h : Sending H st link o a d p frame now pre post) :
    ∃ lives ttl, Apart st p (run H st (amid st o a p frame now pre post))
        (run H st (alone H st p (amid st o a p frame now pre post))) lives
      ∧ Flooding st link o a d p ttl (run H st
          (alone H st p (amid st o a p frame now pre post))) := by
  obtain ⟨header, consumed, hf, hid, httl, hdest⟩ := h.packet
  have hmacd : st.mac d = header.final_destination := (hdest d).mpr rfl
  have hmac : ∀ n, st.mac n = st.mac d ↔ n = d := by
    rw [hmacd]
    exact hdest
  have hcopy : Copy st d p frame header.ttl.toNat :=
    ⟨header, consumed, hf, hid, hmacd.symm, rfl⟩
  have hkept := h.kept
  have hheard := h.heard
  unfold amid losses at hkept
  unfold amid at hheard
  rw [outputs_append, outputs_append] at hkept
  obtain ⟨hkept₁, hkept⟩ := List.append_eq_nil_iff.mp hkept
  obtain ⟨hkept₂, hkept₃⟩ := List.append_eq_nil_iff.mp hkept
  rw [along_append, along_append] at hheard
  obtain ⟨hheard₁, -, hheard₃⟩ := hheard
  -- nothing happens to the packet before it is sent
  obtain ⟨lives₁, hapart₁, hstart⟩ := Apart.relayed
    (J := fun net => net = start H st)
    (fun net ev hev hj => by subst hj; exact step_start H hev) pre
    (apart_start H h.capacity p) rfl hheard₁ h.before hkept₁
  -- it is sent in both
  have hsent : outputs (step st) (slice p) (exec (step st) (start H st) pre)
      (unicast st o a p frame now) = unicast st o a p frame now := by
    simp only [unicast, outputs_cons, outputs_nil, slice, (hf o).parses,
      Option.map_some, hid, if_true, List.append_nil, List.cons_append,
      List.nil_append]
  obtain ⟨lives₂, hapart₂, -⟩ := hapart₁.run hkept₂
  rw [hstart, hsent] at hapart₂
  -- and from there it floods in both
  have hflood : Flooding st link o a d p header.ttl.toNat
      (run H st (unicast st o a p frame now)) :=
    flooding_unicast H (h.capacity o) h.elsewhere hcopy now
  obtain ⟨lives₃, hapart₃, hflooded⟩ := Apart.relayed
    (fun net ev hev hf => Flooding.step h.capacity hmac httl hf hev) post
    hapart₂ hflood hheard₃ h.after hkept₃
  unfold run alone amid
  simp only [outputs_append, exec_append, hstart, hsent]
  exact ⟨lives₃, _, hapart₃, hflooded⟩

/-- What brings the packet in is the origin's frame. -/
theorem originated (h : Sending H st link o a d p frame now pre post)
    {o' : Fin N} {t : TimePoint} {destination : MacAddress} {frame' : Bytes}
    (hmem : NetEvent.originate o' t destination frame'
      ∈ amid st o a p frame now pre post)
    (hp : (deserialize_header frame' 0).1.map JokerHeader.packet_id = some p) :
    frame' = frame ∧ t = now := by
  have hbrings : Brings p (NetEvent.originate o' t destination frame') := hp
  rcases List.mem_append.mp hmem with hmem | hmem
  · exact absurd hbrings (h.before _ hmem)
  rcases List.mem_append.mp hmem with hmem | hmem
  · rcases List.mem_cons.mp hmem with heq | hmem
    · cases heq
    · injection List.mem_singleton.mp hmem with _ htime _ hframe
      exact ⟨hframe, htime⟩
  · exact absurd hbrings (h.after _ hmem)

/-- What is delivered of the packet is the frame that was sent, at its
destination. -/
theorem delivered_mem (h : Sending H st link o a d p frame now pre post)
    {x : Delivery N}
    (hx : x ∈ deliveries H st (amid st o a p frame now pre post))
    (hp : x.header.packet_id = p) :
    x.station = d ∧ ∃ k, SentAs frame x.frame x.header k := by
  obtain ⟨header, consumed, hf, -, -, hdest⟩ := h.packet
  obtain ⟨hmac, o', t, destination, frame', k, hmem, hsent⟩ :=
    sent_of_delivered H st _ hx
  obtain ⟨sent, n, hframe, -, hheader, -⟩ := id hsent
  have hid : (deserialize_header frame' 0).1.map JokerHeader.packet_id
      = some p := by
    rw [hframe, ← hp, hheader]
    rfl
  obtain ⟨rfl, -⟩ := h.originated hmem hid
  refine ⟨(hdest x.station).mp ?_, k, hsent⟩
  injection (hf d).parses.symm.trans hframe with hsame _
  rw [← hmac, hheader, Option.some.inj hsame]

/-- So if it is delivered, it is delivered once. -/
theorem delivered_once (h : Sending H st link o a d p frame now pre post)
    (hsome : (deliveries H st (amid st o a p frame now pre post)).filter
      (fun x => x.header.packet_id = p) ≠ []) :
    ∃ x k, (deliveries H st (amid st o a p frame now pre post)).filter
        (fun x => x.header.packet_id = p) = [x]
      ∧ x.station = d ∧ SentAs frame x.frame x.header k := by
  have hmem : ∀ x ∈ (deliveries H st (amid st o a p frame now pre post)).filter
      (fun x => x.header.packet_id = p), x.Of d p
        ∧ ∃ k, SentAs frame x.frame x.header k := by
    intro x hx
    obtain ⟨hx, hp⟩ := List.mem_filter.mp hx
    have hp := of_decide_eq_true hp
    obtain ⟨hstation, hsent⟩ := h.delivered_mem hx hp
    exact ⟨⟨hstation, hp⟩, hsent⟩
  have hmost := countP_deliveries_le (H := H) h.capacity
    (amid st o a p frame now pre post) d p
  have hknown := Bool.toNat_le (((run H st
    (amid st o a p frame now pre post)).nodes d).dedup.Contains p)
  rw [h.kept, List.count_nil] at hmost
  generalize hL : (deliveries H st (amid st o a p frame now pre post)).filter
    (fun x => x.header.packet_id = p) = L at hsome hmem ⊢
  have hatmost : L.length ≤ 1 := by
    calc L.length = L.countP (Delivery.Of · d p) :=
          (List.countP_eq_length.mpr fun x hx =>
            decide_eq_true (hmem x hx).1).symm
      _ ≤ (deliveries H st (amid st o a p frame now pre post)).countP
            (Delivery.Of · d p) := (hL ▸ List.filter_sublist).countP_le
      _ ≤ 1 := by omega
  obtain ⟨x, rfl⟩ := List.length_eq_one_iff.mp (Nat.le_antisymm hatmost
    (List.length_pos_of_ne_nil hsome))
  obtain ⟨hof, k, hsent⟩ := hmem x (List.mem_singleton.mpr rfl)
  exact ⟨x, k, rfl, hof.1, hsent⟩

/-- And settled it is delivered: the destination's counter, in the network
with the packet alone, stands at one. -/
theorem delivered_of_settled
    (h : Sending H st link o a d p frame now pre post)
    (hsettled : Settled link p
      (run H st (amid st o a p frame now pre post))) :
    (deliveries H st (amid st o a p frame now pre post)).filter
      (fun x => x.header.packet_id = p) ≠ [] := by
  obtain ⟨lives, ttl, hapart, hflood⟩ := h.flooding
  have hone := ((hflood.station d).delivered rfl).1 (hflood.knows
    (hapart.quiescent hflood hsettled) h.neighbour.1 h.neighbour.2 h.path)
  have hsame : deliveries H st
        (alone H st p (amid st o a p frame now pre post))
      = (deliveries H st (amid st o a p frame now pre post)).filter
        fun x => x.header.packet_id = p := by
    obtain ⟨-, -, hsame⟩ := (apart_start H h.capacity p).run h.kept
    exact hsame
  rw [deliveries_counted, hsame] at hone
  intro hnone
  rw [hnone] at hone
  have hzero : (0 : UInt64) = 1 := hone
  exact absurd hzero (by decide)

end Sending

-- ============================================================ the delivery

/-- A packet that is sent amid any other traffic, and not lost by a cache,
was delivered once in all when it is settled: at its destination, as it
was sent but for the TTL. -/
theorem delivered_under_load (H : WheelHeap ForwardCallback) (st : Stations N)
    (link : Fin N → Fin N → Prop) {o a d : Fin N} {p : PacketId}
    {frame : Bytes} {now : TimePoint} {pre post : List (NetEvent N)}
    (h : Sending H st link o a d p frame now pre post)
    (hsettled : Settled link p
      (run H st (amid st o a p frame now pre post))) :
    ∃ x k, (deliveries H st (amid st o a p frame now pre post)).filter
        (fun x => x.header.packet_id = p) = [x]
      ∧ x.station = d ∧ SentAs frame x.frame x.header k :=
  h.delivered_once (h.delivered_of_settled hsettled)

/-- Station `b` has put packet 8 on the air when station `o` sends packet 7;
station `a` forwards both. -/
def beside_another (o a b d : Fin N) : List (NetEvent N) :=
  [.deliver 0 a 2 true, .deliver 1 a 3 true, .deliver 0 d 4 true,
    .tick a 60000000, .deliver 3 o 60000001 true, .deliver 3 b 60000001 true,
    .tick b 120000001, .deliver 4 a 120000002 true,
    .deliver 4 d 120000002 true]

theorem sending_beside_another :
    Sending (sortedHeap _) four_stations line 0 1 3 7 (sample_frame 7 5) 1
      [.originate 2 0 MacAddress.broadcast (sample_frame 8 5)]
      (beside_another 0 1 2 3) where
  capacity := by decide
  packet := ⟨sample_header 7 5, 19, fun _ => sample_dataFrame 7 5, rfl,
    by decide, by decide⟩
  neighbour := by decide
  elsewhere := by decide
  path := by
    refine Or.inr (ReflTransGen.tail (b := 2) (.single ?_) ?_)
    · exact ⟨by decide, by decide, Or.inr (by decide)⟩
    · exact ⟨by decide, by decide, Or.inr (by decide)⟩
  before := by decide +kernel
  after := by decide +kernel
  heard := by decide +kernel
  kept := by decide +kernel

/-- Packet 7 goes along the line as if it were alone. -/
theorem delivered_under_load_line :
    ∃ x k, (deliveries (sortedHeap _) four_stations
        (amid four_stations 0 1 7 (sample_frame 7 5) 1
          [.originate 2 0 MacAddress.broadcast (sample_frame 8 5)]
          (beside_another 0 1 2 3))).filter
        (fun x => x.header.packet_id = 7) = [x]
      ∧ x.station = 3 ∧ SentAs (sample_frame 7 5) x.frame x.header k :=
  delivered_under_load (sortedHeap _) four_stations line
    sending_beside_another (by decide +kernel)

end Network

end Joker
