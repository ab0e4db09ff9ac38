/-
Does the network forward in circles?

A copy that comes back is a duplicate to a node that remembers the
packet, so a node forwards a packet again only after its cache has lost
the id. What a node has spent on a packet, its forwards and the copy it
holds, is paid for by the id in its cache and by the times the cache
lost it (`Paid`); one event never spends more than it pays for
(`TimerNode.step_spent`).

So, whatever the TTL: in a network of `N` nodes that lose nothing a packet
is forwarded at most once by each, and no chain of forwards comes to a
node twice. Each loss allows for one forward more
(`flood_without_loops`). Proofs/HopBound.lean asks nothing of the caches
and has TTL alone for a bound, with which a flood may double at each hop.
-/
import Joker.Proofs.Senders
import Joker.Proofs.HopBound
import Mathlib.Algebra.BigOperators.Group.Finset.Piecewise
import Mathlib.Data.List.Induction

namespace Joker

open Transition VectorHeap

variable {N : Nat} {H : WheelHeap ForwardCallback}

-- ======================================================== what is spent

/-- How often packet `p` was transmitted for an expiry callback. -/
def NicAdapter.forwardsOf (nic : NicAdapter) (p : PacketId) : Nat :=
  nic.transmitted.countP fun f => f.retained.map Prod.fst = some p

/-- The number of copies of packet `p` that are pending. -/
def TimerCoordinator.copiesOf (c : TimerCoordinator H) (p : PacketId) : Nat :=
  (c.pending.lookup p).isSome.toNat

/-- What a node has spent on packet `p`. -/
def spent (c : TimerCoordinator H) (nic : NicAdapter) (p : PacketId) : Nat :=
  nic.forwardsOf p + c.copiesOf p

theorem forwardsOf_sendFor (nic : NicAdapter) (q p : PacketId)
    (it : Option PendingForward) :
    (nic.sendFor q it).forwardsOf p
      ≤ nic.forwardsOf p + if q = p then it.isSome.toNat else 0 := by
  unfold NicAdapter.sendFor
  cases it with
  | none => exact Nat.le_add_right _ _
  | some e =>
      cases hdata : transmission e.frame with
      | none =>
          simp only [hdata]
          exact Nat.le_add_right _ _
      | some data =>
          simp only [hdata, NicAdapter.TransmitBroadcast,
            NicAdapter.forwardsOf, List.countP_append, List.countP_singleton]
          by_cases hq : q = p <;> simp [hq]

theorem copiesOf_accept (c : TimerCoordinator H) (header : JokerHeader)
    (frame : Bytes) (local_mac : MacAddress) (config : Config)
    (now : TimePoint) (p : PacketId) :
    (c.accept header frame local_mac config now).copiesOf p
      = if p = header.packet_id then 1 else c.copiesOf p := by
  unfold TimerCoordinator.copiesOf
  rw [lookup_accept]
  split <;> rfl

/-- Erasing what is pending for packet `q`. -/
theorem copiesOf_erase {c c' : TimerCoordinator H} {q : PacketId}
    (h : c'.pending = c.pending.erase q) (p : PacketId) :
    c'.copiesOf p = if p = q then 0 else c.copiesOf p := by
  unfold TimerCoordinator.copiesOf
  rw [h, lookup_erase_eq]
  split <;> rfl

/-- A tick turns pending copies into forwards. -/
theorem TimerNode.tick_spent (now : TimePoint) (s : TimerNode H)
    (p : PacketId) :
    spent (TimerNode.Tick now s).coordinator (TimerNode.Tick now s).nic p
      ≤ spent s.coordinator s.nic p := by
  refine TimerNode.tick_invariant
    (fun s' => spent s'.coordinator s'.nic p ≤ spent s.coordinator s.nic p)
    ?_ ?_ le_rfl
  · intro s' t w _ _ h
    exact h
  · intro s' t w _ _ h
    refine le_trans ?_ h
    rw [on_expiry_eq]
    unfold spent
    rw [copiesOf_erase (c := s'.coordinator) rfl]
    have hsend := forwardsOf_sendFor s'.nic t.callback.packet_id p
      (s'.coordinator.pending.lookup t.callback.packet_id)
    dsimp only [TimerNode.withWheel]
    by_cases hp : p = t.callback.packet_id
    · subst hp
      rw [if_pos rfl] at hsend
      simpa only [if_true, TimerCoordinator.copiesOf, Nat.add_zero] using hsend
    · rw [if_neg (Ne.symm hp)] at hsend
      rw [if_neg hp]
      omega

/-- No event changes the capacity of the cache. -/
theorem TimerNode.step_capacity (s : TimerNode H) (local_mac : MacAddress)
    (config : Config) (ev : NodeEvent) :
    (s.step local_mac config ev).dedup.capacity = s.dedup.capacity := by
  cases ev with
  | receive now frame is_candidate =>
      rw [TimerNode.step_receive]
      dsimp only
      cases (verdict frame local_mac is_candidate config s.dedup).recorded with
      | none => rfl
      | some p => exact DedupCache.Insert_capacity _ _ _
  | tick now =>
      show (TimerNode.Tick now s).dedup.capacity = _
      rw [TimerNode.tick_dedup]
  | own_send now packet_id => exact DedupCache.Insert_capacity _ _ _
  | evict now => exact DedupCache.EvictExpired_capacity _ _

/-- In one event a node spends nothing on a packet, or it spends one and
comes to remember the packet. -/
theorem TimerNode.step_spent {s : TimerNode H} (hcap : 0 < s.dedup.capacity)
    (local_mac : MacAddress) (config : Config) (ev : NodeEvent)
    (p : PacketId) :
    spent (s.step local_mac config ev).coordinator
        (s.step local_mac config ev).nic p ≤ spent s.coordinator s.nic p
    ∨ s.dedup.Contains p = false
      ∧ (s.step local_mac config ev).dedup.Contains p = true
      ∧ spent (s.step local_mac config ev).coordinator
          (s.step local_mac config ev).nic p
        ≤ spent s.coordinator s.nic p + 1 := by
  refine TimerNode.step_invariant (fun c nic =>
    spent c nic p ≤ spent s.coordinator s.nic p
    ∨ s.dedup.Contains p = false
      ∧ (s.step local_mac config ev).dedup.Contains p = true
      ∧ spent c nic p ≤ spent s.coordinator s.nic p + 1) ?_ ?_ ?_
    (Or.inl le_rfl)
  · intro now frame header consumed hev hv
    unfold spent
    rw [copiesOf_accept]
    by_cases hp : p = header.packet_id
    · have hknown : (s.step local_mac config ev).dedup.Contains p = true := by
        rw [hev, TimerNode.step_receive, hv, hp]
        exact DedupCache.contains_Insert_self hcap _ _
      rw [if_pos hp]
      refine Or.inr ⟨?_, hknown, by omega⟩
      rw [hp]
      exact (verdict_eq_candidate_iff.mp hv).2.2.2.1
    · rw [if_neg hp]
      exact Or.inl le_rfl
  · intro now frame header _ _
    unfold spent
    rw [copiesOf_erase (overheard_pending _ _)]
    refine Or.inl ?_
    split <;> omega
  · intro now _
    exact Or.inl (TimerNode.tick_spent now s p)

namespace Network

-- ======================================================== the forwarders

/-- The nodes that forwarded packet `p`, in order. -/
def forwarders (net : Network N H) (p : PacketId) : List (Fin N) :=
  net.air.filterMap fun tx =>
    if tx.forward_of = some p then some tx.sender else none

/-- The nodes whose caches lose packet `p` in an event. -/
def losers (st : Stations N) (p : PacketId) (net : Network N H)
    (ev : NetEvent N) : List (Fin N) :=
  (List.finRange N).filter fun n => (net.nodes n).dedup.Contains p
    && !((net.step st ev).nodes n).dedup.Contains p

/-- The nodes whose caches lost packet `p` in a run, once for each time. -/
def losses (H : WheelHeap ForwardCallback) (st : Stations N) (p : PacketId)
    (es : List (NetEvent N)) : List (Fin N) :=
  outputs (step st) (losers st p) (start H st) es

variable {st : Stations N} {net : Network N H}

/-- An event is an event at one node, or at none. -/
theorem step_node_cases (st : Stations N) (net : Network N H)
    (ev : NetEvent N) (m : Fin N) :
    (net.step st ev).nodes m = net.nodes m
      ∨ ∃ ev', (net.step st ev).nodes m
        = (net.nodes m).step (st.mac m) (st.config m) ev' := by
  have hact : ∀ (net : Network N H) n now ev,
      (net.act st n now ev).nodes m = net.nodes m
        ∨ ∃ ev', (net.act st n now ev).nodes m
          = (net.nodes m).step (st.mac m) (st.config m) ev' := by
    intro net n now ev
    by_cases hm : m = n
    · subst hm
      exact Or.inr ⟨ev, act_self st net m now ev⟩
    · exact Or.inl (act_other st net now ev hm)
  cases ev with
  | originate n now destination frame => exact Or.inl rfl
  | deliver i n now is_candidate =>
      rcases deliver_cases st net i n now is_candidate with heq | ⟨tx, -, heq⟩
      · rw [heq]
        exact Or.inl rfl
      · rw [heq]
        exact hact (net.hand i n) n now
          (.receive now tx.frame.data is_candidate)
  | tick n now => exact hact net n now (.tick now)
  | own_send n now packet_id => exact hact net n now (.own_send now packet_id)
  | evict n now => exact hact net n now (.evict now)

/-- Of what is kept under one name, that name occurs once for each. -/
theorem count_filterMap_ite {α β : Type} [DecidableEq β] (P : α → Prop)
    [DecidablePred P] (b c : β) (l : List α) :
    (l.filterMap fun a => if P a then some b else none).count c
      = if c = b then l.countP P else 0 := by
  induction l with
  | nil => simp
  | cons a l ih =>
      by_cases ha : P a
      · simp only [List.filterMap_cons, if_pos ha, List.count_cons, ih,
          List.countP_cons, decide_eq_true ha, if_true]
        by_cases hc : c = b
        · simp [hc]
        · simp [hc, Ne.symm hc]
      · simp only [List.filterMap_cons, if_neg ha, ih, List.countP_cons,
          decide_eq_false ha]
        simp

/-- The forwards on the air are those the adapters transmitted. -/
def Tallied (net : Network N H) (p : PacketId) : Prop :=
  ∀ m, (net.forwarders p).count m = (net.nodes m).nic.forwardsOf p

theorem Tallied.act {p : PacketId} (h : Tallied net p) (n : Fin N)
    (now : TimePoint) (ev : NodeEvent) : Tallied (net.act st n now ev) p := by
  obtain ⟨more, hmore⟩ :=
    (net.nodes n).step_transmitted (st.mac n) (st.config n) ev
  have hsplit : (net.act st n now ev).forwarders p = net.forwarders p
      ++ more.filterMap fun f =>
        if f.retained.map Prod.fst = some p then some n else none := by
    unfold forwarders
    rw [act_air st net n now ev more hmore, List.filterMap_append,
      List.filterMap_map]
    rfl
  intro m
  rw [hsplit, List.count_append, h m, count_filterMap_ite]
  by_cases hm : m = n
  · subst hm
    rw [act_self, if_pos rfl]
    unfold NicAdapter.forwardsOf
    rw [hmore, List.countP_append]
  · rw [act_other st net now ev hm, if_neg hm, Nat.add_zero]

theorem Tallied.step {p : PacketId} (h : Tallied net p) (ev : NetEvent N) :
    Tallied (net.step st ev) p := by
  cases ev with
  | originate n now destination frame =>
      have hsame : (net.step st (.originate n now destination frame)).forwarders
          p = net.forwarders p := by
        unfold forwarders
        show (net.air ++ [_]).filterMap _ = _
        rw [List.filterMap_append]
        exact List.append_nil _
      intro m
      rw [hsame]
      exact h m
  | deliver i n now is_candidate =>
      rcases deliver_cases st net i n now is_candidate with heq | ⟨tx, -, heq⟩
      · rw [heq]
        exact h
      · rw [heq]
        have hhand : Tallied (net.hand i n) p := h
        exact hhand.act n now (.receive now tx.frame.data is_candidate)
  | tick n now => exact h.act n now (.tick now)
  | own_send n now packet_id => exact h.act n now (.own_send now packet_id)
  | evict n now => exact h.act n now (.evict now)

-- ========================================================= the account

/-- Nobody has spent more on packet `p` than the id in its cache and the
losses pay for. -/
structure Paid (p : PacketId) (net : Network N H) (lost : List (Fin N)) :
    Prop where
  capacity : ∀ n, 0 < (net.nodes n).dedup.capacity
  tallied : Tallied net p
  spent : ∀ n, spent (net.nodes n).coordinator (net.nodes n).nic p
    ≤ ((net.nodes n).dedup.Contains p).toNat + lost.count n

/-- A node that remembers a packet does so after the event, or loses it. -/
theorem known_le (st : Stations N) (p : PacketId) (net : Network N H)
    (ev : NetEvent N) (n : Fin N) :
    ((net.nodes n).dedup.Contains p).toNat
      ≤ (((net.step st ev).nodes n).dedup.Contains p).toNat
        + (losers st p net ev).count n := by
  cases hafter : ((net.step st ev).nodes n).dedup.Contains p with
  | true =>
      have := Bool.toNat_le ((net.nodes n).dedup.Contains p)
      simp only [Bool.toNat_true]
      omega
  | false =>
      cases hbefore : (net.nodes n).dedup.Contains p with
      | false => exact Nat.zero_le _
      | true =>
          have hmem : n ∈ losers st p net ev := by
            refine List.mem_filter.mpr ⟨List.mem_finRange n, ?_⟩
            rw [hafter, hbefore]
            rfl
          have hpos := List.count_pos_iff.mpr hmem
          simp only [Bool.toNat_true, Bool.toNat_false]
          omega

theorem Paid.step {p : PacketId} {lost : List (Fin N)}
    (h : Paid p net lost) (ev : NetEvent N) :
    Paid p (net.step st ev) (lost ++ losers st p net ev) := by
  have hspent : ∀ n, Joker.spent ((net.step st ev).nodes n).coordinator
        ((net.step st ev).nodes n).nic p
      ≤ Joker.spent (net.nodes n).coordinator (net.nodes n).nic p
      ∨ (net.nodes n).dedup.Contains p = false
        ∧ ((net.step st ev).nodes n).dedup.Contains p = true
        ∧ Joker.spent ((net.step st ev).nodes n).coordinator
            ((net.step st ev).nodes n).nic p
          ≤ Joker.spent (net.nodes n).coordinator (net.nodes n).nic p + 1 := by
    intro n
    rcases step_node_cases st net ev n with heq | ⟨ev', heq⟩
    · rw [heq]
      exact Or.inl le_rfl
    · rw [heq]
      exact TimerNode.step_spent (h.capacity n) _ _ ev' p
  refine ⟨fun n => ?_, h.tallied.step ev, fun n => ?_⟩
  · rcases step_node_cases st net ev n with heq | ⟨ev', heq⟩
    · rw [heq]
      exact h.capacity n
    · rw [heq, TimerNode.step_capacity]
      exact h.capacity n
  · have hpaid := h.spent n
    rw [List.count_append]
    rcases hspent n with hle | ⟨hnew, hknown, hle⟩
    · have hknown := known_le st p net ev n
      omega
    · rw [hnew] at hpaid
      rw [hknown]
      simp only [Bool.toNat_true, Bool.toNat_false] at hpaid ⊢
      omega

theorem paid_run (hcap : ∀ n, 0 < st.capacity n) (p : PacketId)
    (es : List (NetEvent N)) : Paid p (run H st es) (losses H st p es) := by
  induction es using List.reverseRecOn with
  | nil => exact ⟨hcap, fun _ => rfl, fun _ => Nat.zero_le _⟩
  | append_singleton es ev ih =>
      have hstep : Paid p ((run H st es).step st ev)
          (losses H st p es ++ losers st p (run H st es) ev) := ih.step ev
      unfold run losses at hstep ⊢
      rw [exec_concat, outputs_concat]
      exact hstep

/-- Each forward of a node but the first is paid for by a loss. -/
theorem Paid.count_forwarders_le {p : PacketId} {lost : List (Fin N)}
    (h : Paid p net lost) (n : Fin N) :
    (net.forwarders p).count n ≤ 1 + lost.count n := by
  have hpaid := h.spent n
  have hknown := Bool.toNat_le ((net.nodes n).dedup.Contains p)
  rw [h.tallied n]
  unfold Joker.spent at hpaid
  omega

-- ============================================================= the flood

/-- What forwards a transmission of packet `p` is a forward of packet `p`. -/
theorem Accounted.child_packet (h : Accounted st net) {i j : Nat}
    {p : PacketId} {tx : Transmission N} (htx : net.air[i]? = some tx)
    (hp : tx.packet_id = some p) (hpar : net.parentOf j = some i) :
    ∃ txj, net.air[j]? = some txj ∧ txj.forward_of = some p
      ∧ txj.packet_id = some p := by
  obtain ⟨txj, htxj, hi⟩ := Option.bind_eq_some_iff.mp hpar
  rcases h.traced j txj htxj with
    ⟨-, hnone⟩ | ⟨q, e, i', hret, hi', -, ht, hdata⟩
  · rw [hnone] at hi
    cases hi
  · obtain rfl : i' = i := Option.some.inj (hi'.symm.trans hi)
    obtain ⟨txi, header, consumed, htxi, -, hframe, hf, hid, -⟩ := ht.received
    obtain rfl := Option.some.inj (htxi.symm.trans htx)
    have hq : q = p := by
      unfold Transmission.packet_id at hp
      rw [hframe, hf.parses] at hp
      exact hid.symm.trans (Option.some.inj hp)
    subst hq
    refine ⟨txj, htxj, ?_, ?_⟩
    · unfold Transmission.forward_of
      rw [hret]
      rfl
    · unfold Transmission.packet_id
      rw [(hf.forwardOf hdata).reparsed.parses]
      exact congrArg some hid

open Descent in
/-- So is all that descends from it. -/
theorem Accounted.below_packet (h : Accounted st net) {i j k : Nat}
    {p : PacketId} {tx : Transmission N} (htx : net.air[i]? = some tx)
    (hp : tx.packet_id = some p) (hbelow : Below net.parentOf i k j) :
    ∃ txj, net.air[j]? = some txj ∧ txj.packet_id = some p
      ∧ (j = i ∨ txj.forward_of = some p) := by
  induction hbelow with
  | root => exact ⟨tx, htx, hp, Or.inl rfl⟩
  | child hpar _ ih =>
      obtain ⟨txu, htxu, hpu, -⟩ := ih
      obtain ⟨txv, htxv, hfv, hpv⟩ := h.child_packet htxu hpu hpar
      exact ⟨txv, htxv, hpv, Or.inr hfv⟩

/-- As many places of a list hold something as are kept of it. -/
theorem card_filter_range {α β : Type} (f : α → Option β) (l : List α) :
    ((Finset.range l.length).filter fun j => (l[j]?.bind f).isSome).card
      = (l.filterMap f).length := by
  induction l using List.reverseRecOn with
  | nil => rfl
  | append_singleton l a ih =>
      have hold : (Finset.range l.length).filter
          (fun j => ((l ++ [a])[j]?.bind f).isSome)
          = (Finset.range l.length).filter fun j => (l[j]?.bind f).isSome := by
        refine Finset.filter_congr fun j hj => ?_
        rw [List.getElem?_append_left (Finset.mem_range.mp hj)]
      rw [List.length_append, List.length_singleton, Finset.range_add_one,
        Finset.filter_insert, hold, List.getElem?_concat_length,
        List.filterMap_append, List.length_append, ← ih]
      cases hfa : f a with
      | none => simp [hfa]
      | some b => simp [hfa]

theorem length_eq_sum_count (l : List (Fin N)) :
    l.length = ∑ n, l.count n := by
  induction l with
  | nil => simp
  | cons m l ih =>
      simp [List.count_cons, Finset.sum_add_distrib, ih]

open Descent in
/-- What descends from a transmission of packet `p` was sent by the
forwarders of `p`. -/
theorem Accounted.card_descendants_le (h : Accounted st net) {i : Nat}
    {p : PacketId} {tx : Transmission N} (htx : net.air[i]? = some tx)
    (hp : tx.packet_id = some p) :
    (descendants net.parentOf net.places i).card
      ≤ (net.forwarders p).length + 1 := by
  classical
  have hsub : descendants net.parentOf net.places i
      ⊆ insert i (net.places.filter fun j => (net.air[j]?.bind fun tx =>
          if tx.forward_of = some p then some tx.sender else none).isSome) := by
    intro j hj
    obtain ⟨hplace, k, hbelow⟩ := Finset.mem_filter.mp hj
    obtain ⟨txj, htxj, -, rfl | hforward⟩ := h.below_packet htx hp hbelow
    · exact Finset.mem_insert_self _ _
    · refine Finset.mem_insert_of_mem (Finset.mem_filter.mpr ⟨hplace, ?_⟩)
      rw [htxj, Option.bind_some, if_pos hforward]
      rfl
  calc (descendants net.parentOf net.places i).card
      ≤ _ := Finset.card_le_card hsub
    _ ≤ _ + 1 := Finset.card_insert_le _ _
    _ = (net.forwarders p).length + 1 := by
        rw [places, card_filter_range]
        rfl

theorem length_forwarders_le (hcap : ∀ n, 0 < st.capacity n)
    (es : List (NetEvent N)) (p : PacketId) :
    ((run H st es).forwarders p).length ≤ N + (losses H st p es).length := by
  have hpaid := paid_run (H := H) hcap p es
  calc ((run H st es).forwarders p).length
      = ∑ n, ((run H st es).forwarders p).count n := length_eq_sum_count _
    _ ≤ ∑ n, (1 + (losses H st p es).count n) :=
        Finset.sum_le_sum fun n _ => hpaid.count_forwarders_le n
    _ = N + (losses H st p es).length := by
        rw [Finset.sum_add_distrib, ← length_eq_sum_count]
        simp

open Descent in
/-- All that descends from a transmission of the packet is little. -/
theorem card_descendants_run (hcap : ∀ n, 0 < st.capacity n)
    {es : List (NetEvent N)} {p : PacketId} {i : Nat} {tx : Transmission N}
    (htx : (run H st es).air[i]? = some tx) (hp : tx.packet_id = some p) :
    (descendants (run H st es).parentOf (run H st es).places i).card
      ≤ N + (losses H st p es).length + 1 :=
  ((run_accounted H st es).card_descendants_le htx hp).trans
    (Nat.succ_le_succ (length_forwarders_le hcap es p))

open Descent in
/-- And so is each chain of it. -/
theorem depth_le (hcap : ∀ n, 0 < st.capacity n) {es : List (NetEvent N)}
    {p : PacketId} {i j k : Nat} {tx : Transmission N}
    (htx : (run H st es).air[i]? = some tx) (hp : tx.packet_id = some p)
    (hbelow : Below (run H st es).parentOf i k j) :
    k ≤ N + (losses H st p es).length := by
  have hacc := run_accounted H st es
  have hcard := card_descendants_run hcap htx hp
  obtain ⟨txj, htxj, -⟩ := hacc.below_packet htx hp hbelow
  have hplace : j ∈ (run H st es).places :=
    Finset.mem_range.mpr (List.getElem?_eq_some_iff.mp htxj).1
  have hlt := hbelow.lt_card hacc.parent_mem
    (fun v u hpar => (hacc.forward_ttl hpar).1) hplace
  omega

open Descent in
/-- In every run of every network, with every pattern of losses on the
air, delays, flags and evictions: a node forwards a packet at most once
and once more for each time its cache lost the id; so at most `N` and as
many transmissions as there were such losses descend from any
transmission of the packet, and no chain of forwards is longer. -/
theorem flood_without_loops (H : WheelHeap ForwardCallback) (st : Stations N)
    (hcap : ∀ n, 0 < st.capacity n) (es : List (NetEvent N)) (p : PacketId) :
    (∀ n, ((run H st es).forwarders p).count n
      ≤ 1 + (losses H st p es).count n)
    ∧ ∀ i tx, (run H st es).air[i]? = some tx → tx.packet_id = some p →
      (descendants (run H st es).parentOf (run H st es).places i).card
        ≤ N + (losses H st p es).length + 1
      ∧ ∀ j k, Below (run H st es).parentOf i k j →
        k ≤ N + (losses H st p es).length := by
  have hpaid := paid_run (H := H) hcap p es
  refine ⟨hpaid.count_forwarders_le, fun i tx htx hp => ?_⟩
  exact ⟨card_descendants_run hcap htx hp,
    fun j k hbelow => depth_le hcap htx hp hbelow⟩

/-- Two stations that remember one packet each. -/
def two_forgetful : Stations 2 where
  mac n := station (UInt8.ofNat n)
  config _ := {}
  capacity _ := 1
  ttl _ := 5000000000

/-- Packet 7 goes from station 0 to station 1 and back; station 1 sends
packet 8 of its own, and takes packet 7 on again. -/
def there_and_back : List (NetEvent 2) :=
  [.originate 0 0 MacAddress.broadcast (sample_frame 7 5),
    .deliver 0 1 1 true, .tick 1 60000000, .deliver 1 0 60000001 true,
    .tick 0 60000001, .own_send 1 60000002 8, .deliver 2 1 60000003 true,
    .tick 1 120000000]

/-- The chain is as long as the bound. -/
theorem flood_without_loops_forgetful :
    (run (sortedHeap _) two_forgetful there_and_back).forwarders 7 = [1, 0, 1]
    ∧ losses (sortedHeap _) two_forgetful 7 there_and_back = [1]
    ∧ Descent.Below (run (sortedHeap _) two_forgetful there_and_back).parentOf
      0 3 3
    ∧ 3
      ≤ 2 + (losses (sortedHeap _) two_forgetful 7 there_and_back).length := by
  have hbelow : Descent.Below
      (run (sortedHeap _) two_forgetful there_and_back).parentOf 0 3 3 :=
    .child (u := 2) (by decide +kernel)
      (.child (u := 1) (by decide +kernel)
        (.child (u := 0) (by decide +kernel) .root))
  exact ⟨by decide +kernel, by decide +kernel, hbelow,
    ((flood_without_loops (sortedHeap _) two_forgetful (by decide)
      there_and_back 7).2 0
      ⟨0, ⟨MacAddress.broadcast, sample_frame 7 5, true, none⟩, 0, none⟩
      (by decide +kernel) (by decide +kernel)).2 3 3 hbelow⟩

end Network

end Joker
