/-
What a station delivers was sent to it.

All that is on the air descends from some station's own frame: a forward
has a parent, which was there before it (`Accounted.origin`). Each hop
takes one off the TTL and leaves the other bytes alone, so what descends
through `k` forwards is the original with a TTL lower by `k` (`SentAs`).
A station delivers what was handed to it, and only if it is addressed to
it; hence what it delivers was originated in the run, for it, with the
same packet id, candidates and payload.

And it delivers a packet once. To deliver is to record the id, which a
station does again only when its cache has lost it: the account of
Proofs/LoopFree.lean, for deliveries.
-/
import Joker.Proofs.LoopFree

namespace Joker

open Transition VectorHeap

variable {N : Nat} {H : WheelHeap ForwardCallback}

-- ========================================================== the same frame

/-- `data`, with header `header`, is `frame` with a TTL lower by `k`. -/
def SentAs (frame data : Bytes) (header : JokerHeader) (k : Nat) : Prop :=
  ∃ sent consumed, deserialize_header frame 0 = (some sent, consumed)
    ∧ deserialize_header data 0 = (some header, consumed)
    ∧ header = { sent with ttl := header.ttl }
    ∧ header.ttl.toNat + k = sent.ttl.toNat
    ∧ data = frame.set 1 header.ttl
    ∧ data.drop consumed = frame.drop consumed

/-- A frame is itself. -/
theorem SentAs.refl {frame : Bytes} {header : JokerHeader} {consumed : Nat}
    (h : deserialize_header frame 0 = (some header, consumed)) :
    SentAs frame frame header 0 := by
  obtain ⟨-, -, payload, hwire⟩ := deserialize_header_eq_some_iff.mp h
  refine ⟨header, consumed, h, h, rfl, rfl, ?_, rfl⟩
  rw [hwire]
  rfl

/-- One hop more. -/
theorem SentAs.forward {frame data data' : Bytes} {header : JokerHeader}
    {k consumed : Nat} {config : Config} (h : SentAs frame data header k)
    (hf : ForwardOf config data data' header consumed) :
    SentAs frame data' { header with ttl := header.ttl - 1 } (k + 1) := by
  obtain ⟨sent, n, hsent, hparse, hheader, httl, hdata, hpayload⟩ := h
  injection hparse.symm.trans hf.received.parses with _ hn
  subst hn
  have hge : 2 ≤ header.ttl.toNat := UInt8.le_iff_toNat_le.mp hf.ttl
  refine ⟨sent, n, hsent, hf.reparsed.parses, ?_, ?_, ?_, ?_⟩
  · rw [hheader]
  · rw [ttl_sub_one_toNat hf.ttl]
    omega
  · rw [hf.edited, hdata, List.set_set]
  · exact hf.payload.trans hpayload

namespace Network

-- ============================================================== the origin

variable {st : Stations N} {net : Network N H}

open Descent in
/-- All that is on the air descends from a station's own frame. -/
theorem Accounted.origin (h : Accounted st net) :
    ∀ (j : Nat) {tx : Transmission N} {header : JokerHeader} {consumed : Nat},
      net.air[j]? = some tx →
      deserialize_header tx.frame.data 0 = (some header, consumed) →
      ∃ (i k : Nat) (txi : Transmission N), Below net.parentOf i k j
        ∧ net.air[i]? = some txi ∧ txi.parent = none
        ∧ SentAs txi.frame.data tx.frame.data header k := by
  intro j
  induction j using Nat.strong_induction_on with
  | _ j ih =>
      intro tx header consumed htx hparse
      rcases h.traced j tx htx with
        ⟨-, hnone⟩ | ⟨p, e, i, -, hpar, hlt, ht, hdata⟩
      · exact ⟨j, 0, tx, Below.root, htx, hnone, SentAs.refl hparse⟩
      · obtain ⟨txi, hdr, n, htxi, -, hframe, hf, -⟩ := ht.received
        have hfwd := hf.forwardOf hdata
        obtain ⟨o, k, txo, hbelow, htxo, hown, hsent⟩ :=
          ih i hlt htxi (hframe ▸ hf.parses)
        have hparent : net.parentOf j = some i :=
          Option.bind_eq_some_iff.mpr ⟨tx, htx, hpar⟩
        refine ⟨o, k + 1, txo, Below.child hparent hbelow, htxo, hown, ?_⟩
        rw [hframe] at hsent
        injection hparse.symm.trans hfwd.reparsed.parses with hheader _
        rw [Option.some.inj hheader]
        exact hsent.forward hfwd

/-- An event at a node puts no frame without a parent on the air. -/
theorem Accounted.mem_of_parent_none {n : Fin N} {now : TimePoint}
    {ev : NodeEvent} (h : Accounted st (net.act st n now ev))
    {tx : Transmission N} (htx : tx ∈ (net.act st n now ev).air)
    (hnone : tx.parent = none) : tx ∈ net.air := by
  obtain ⟨j, hj⟩ := List.getElem?_of_mem htx
  rcases mem_air_act htx with hold | ⟨p, e, data, -, -, -, rfl⟩
  · exact hold
  · rcases h.traced j _ hj with ⟨hown, -⟩ | ⟨_, _, i, -, hpar, -⟩
    · cases hown
    · rw [hpar] at hnone
      cases hnone

/-- A frame without a parent was put on the air by its sender. -/
theorem originated_of_parent_none (H : WheelHeap ForwardCallback)
    (st : Stations N) (es : List (NetEvent N)) :
    ∀ tx ∈ (run H st es).air, tx.parent = none →
      NetEvent.originate tx.sender tx.sent_at tx.frame.destination
        tx.frame.data ∈ es := by
  induction es using List.reverseRecOn with
  | nil => intro tx htx; cases htx
  | append_singleton es ev ih =>
      have hold : ∀ tx ∈ (run H st es).air, tx.parent = none →
          NetEvent.originate tx.sender tx.sent_at tx.frame.destination
            tx.frame.data ∈ es ++ [ev] :=
        fun tx htx hnone => List.mem_append_left _ (ih tx htx hnone)
      have hacc := (run_accounted H st es).step ev
      have hrun : run H st (es ++ [ev]) = (run H st es).step st ev :=
        exec_concat _ _ es ev
      rw [hrun]
      intro tx htx hnone
      cases ev with
      | originate n now destination frame =>
          rcases List.mem_append.mp htx with hmem | hmem
          · exact hold tx hmem hnone
          · obtain rfl := List.mem_singleton.mp hmem
            exact List.mem_append_right _ (List.mem_singleton.mpr rfl)
      | deliver i n now is_candidate =>
          rcases deliver_cases st (run H st es) i n now is_candidate with
            heq | ⟨txi, -, heq⟩
          · rw [heq] at htx
            exact hold tx htx hnone
          · rw [heq] at htx hacc
            have hmem : tx ∈ ((run H st es).hand i n).air :=
              hacc.mem_of_parent_none htx hnone
            exact hold tx hmem hnone
      | tick n now => exact hold tx (hacc.mem_of_parent_none htx hnone) hnone
      | own_send n now packet_id =>
          exact hold tx (hacc.mem_of_parent_none htx hnone) hnone
      | evict n now => exact hold tx (hacc.mem_of_parent_none htx hnone) hnone

-- ========================================================== the deliveries

/-- A packet a station delivers: its header, and the frame. -/
structure Delivery (N : Nat) where
  station : Fin N
  header : JokerHeader
  frame : Bytes

/-- What is delivered in an event. -/
def delivered (st : Stations N) (net : Network N H) :
    NetEvent N → List (Delivery N)
  | .deliver i n _ is_candidate =>
      match net.air[i]? with
      | none => []
      | some tx =>
          if net.CanHand i n tx then
            match verdict tx.frame.data (st.mac n) is_candidate (st.config n)
              (net.nodes n).dedup with
            | .delivered header => [⟨n, header, tx.frame.data⟩]
            | _ => []
          else []
  | _ => []

/-- What is delivered in a run, in order. -/
def deliveries (H : WheelHeap ForwardCallback) (st : Stations N)
    (es : List (NetEvent N)) : List (Delivery N) :=
  outputs (step st) (delivered st) (start H st) es

/-- A delivery, or none. -/
theorem delivered_cases (st : Stations N) (net : Network N H)
    (ev : NetEvent N) :
    delivered st net ev = [] ∨ ∃ i n now is_candidate tx header,
      ev = .deliver i n now is_candidate ∧ net.CanHand i n tx
        ∧ verdict tx.frame.data (st.mac n) is_candidate (st.config n)
          (net.nodes n).dedup = .delivered header
        ∧ delivered st net ev = [⟨n, header, tx.frame.data⟩] := by
  cases ev with
  | deliver i n now is_candidate =>
      cases htx : net.air[i]? with
      | none =>
          refine Or.inl ?_
          simp only [delivered, htx]
      | some tx =>
          by_cases hcan : net.CanHand i n tx
          · cases hv : verdict tx.frame.data (st.mac n) is_candidate
              (st.config n) (net.nodes n).dedup with
            | delivered header =>
                refine Or.inr ⟨i, n, now, is_candidate, tx, header, rfl, hcan,
                  hv, ?_⟩
                simp only [delivered, htx, if_pos hcan, hv]
            | _ =>
                refine Or.inl ?_
                simp only [delivered, htx, if_pos hcan, hv]
          · refine Or.inl ?_
            simp only [delivered, htx, if_neg hcan]
  | originate n now destination frame => exact Or.inl rfl
  | tick n now => exact Or.inl rfl
  | own_send n now packet_id => exact Or.inl rfl
  | evict n now => exact Or.inl rfl

/-- What a station delivers was originated, for it. -/
theorem sent_of_delivered (H : WheelHeap ForwardCallback) (st : Stations N)
    (es : List (NetEvent N)) {d : Delivery N} (hd : d ∈ deliveries H st es) :
    d.header.final_destination = st.mac d.station
    ∧ ∃ o now destination frame k,
      NetEvent.originate o now destination frame ∈ es
        ∧ SentAs frame d.frame d.header k := by
  obtain ⟨pre, ev, post, rfl, hnow⟩ := mem_outputs _ hd
  rcases delivered_cases st (run H st pre) ev with
    hnone | ⟨i, n, now, is_candidate, tx, header, -, hcan, hv, heq⟩
  · have hmem : d ∈ delivered st (run H st pre) ev := hnow
    rw [hnone] at hmem
    cases hmem
  · have hmem : d ∈ delivered st (run H st pre) ev := hnow
    rw [heq] at hmem
    obtain rfl := List.mem_singleton.mp hmem
    obtain ⟨⟨consumed, hf⟩, hdest, -⟩ := verdict_eq_delivered_iff.mp hv
    obtain ⟨o, k, txo, -, htxo, hown, hsent⟩ :=
      (run_accounted H st pre).origin i hcan.1 hf.parses
    have horiginate := originated_of_parent_none H st pre txo
      (List.mem_of_getElem? htxo) hown
    exact ⟨hdest, txo.sender, _, _, txo.frame.data, k,
      List.mem_append_left _ horiginate, hsent⟩

/-- Is it packet `p`, at station `n`? -/
def Delivery.Of (d : Delivery N) (n : Fin N) (p : PacketId) : Prop :=
  d.station = n ∧ d.header.packet_id = p

instance (d : Delivery N) (n : Fin N) (p : PacketId) : Decidable (d.Of n p) :=
  inferInstanceAs (Decidable (_ ∧ _))

/-- Who delivers a packet did not remember it, and does so after. -/
theorem countP_delivered_le (st : Stations N)
    (hcap : ∀ n, 0 < (net.nodes n).dedup.capacity)
    (ev : NetEvent N) (n : Fin N) (p : PacketId) :
    ((net.nodes n).dedup.Contains p).toNat
        + (delivered st net ev).countP (Delivery.Of · n p)
      ≤ (((net.step st ev).nodes n).dedup.Contains p).toNat
        + (losers st p net ev).count n := by
  have hknown := known_le st p net ev n
  rcases delivered_cases st net ev with
    heq | ⟨i, m, now, is_candidate, tx, header, rfl, hcan, hv, heq⟩
  · rw [heq]
    exact hknown
  · rw [heq, List.countP_singleton]
    by_cases hof : (⟨m, header, tx.frame.data⟩ : Delivery N).Of n p
    · obtain ⟨rfl, rfl⟩ := hof
      have hnew := (verdict_eq_delivered_iff.mp hv).2.2
      have hstep : (net.step st (.deliver i m now is_candidate)).nodes m
          = (net.nodes m).step (st.mac m) (st.config m)
            (.receive now tx.frame.data is_candidate) := by
        simp only [Network.step, hcan.1, if_pos hcan]
        exact act_self st (net.hand i m) m now _
      have hafter : ((net.step st (.deliver i m now is_candidate)).nodes m
          ).dedup.Contains header.packet_id = true := by
        rw [hstep, TimerNode.step_receive, hv]
        exact DedupCache.contains_Insert_self (hcap m) _ _
      rw [hafter, hnew]
      simp only [Bool.toNat_true, Bool.toNat_false]
      split <;> omega
    · rw [if_neg (by simpa using hof)]
      exact hknown

/-- A station delivers a packet once, and again only after a loss. -/
theorem countP_deliveries_le (hcap : ∀ n, 0 < st.capacity n)
    (es : List (NetEvent N)) (n : Fin N) (p : PacketId) :
    (deliveries H st es).countP (Delivery.Of · n p)
      ≤ (((run H st es).nodes n).dedup.Contains p).toNat
        + (losses H st p es).count n := by
  induction es using List.reverseRecOn with
  | nil => exact Nat.zero_le _
  | append_singleton es ev ih =>
      have hstep := countP_delivered_le st
        (paid_run (H := H) hcap p es).capacity ev n p
      unfold deliveries losses run at ih ⊢
      rw [outputs_concat, outputs_concat, exec_concat, List.countP_append,
        List.count_append]
      unfold run at hstep
      omega

/-- In every run of every network, with every pattern of losses on the
air, delays, flags and evictions: what a station delivers was originated
in the run, for this station, and arrives as it was sent but for the TTL
byte, which the hops have counted down; and a station delivers a packet
at most once, and once more for each time its cache lost the id. -/
theorem delivered_as_sent (H : WheelHeap ForwardCallback) (st : Stations N)
    (hcap : ∀ n, 0 < st.capacity n) (es : List (NetEvent N)) :
    (∀ d ∈ deliveries H st es,
      d.header.final_destination = st.mac d.station
      ∧ ∃ o now destination frame k,
        NetEvent.originate o now destination frame ∈ es
          ∧ SentAs frame d.frame d.header k)
    ∧ ∀ n p, (deliveries H st es).countP (Delivery.Of · n p)
      ≤ 1 + (losses H st p es).count n := by
  refine ⟨fun d hd => sent_of_delivered H st es hd, fun n p => ?_⟩
  have hle := countP_deliveries_le (H := H) hcap es n p
  have hknown := Bool.toNat_le (((run H st es).nodes n).dedup.Contains p)
  omega

/-- Packet 7 reaches station `d` from station `o` through station `a`, and
then from `o` itself. -/
def heard_twice (o a d : Fin N) : List (NetEvent N) :=
  [.originate o 0 MacAddress.broadcast (sample_frame 7 3),
    .deliver 0 a 1 true, .tick a 60000000, .deliver 1 d 60000001 true,
    .deliver 0 d 60000002 true]

/-- It is delivered with TTL 2, once. -/
theorem delivered_as_sent_heard_twice :
    deliveries (sortedHeap _) four_stations (heard_twice 0 1 3)
        = [⟨3, sample_header 7 2, sample_frame 7 2⟩]
    ∧ ((sample_header 7 2).final_destination = four_stations.mac 3
      ∧ ∃ o now destination frame k,
        NetEvent.originate o now destination frame
          ∈ heard_twice (0 : Fin 4) 1 3
          ∧ SentAs frame (sample_frame 7 2) (sample_header 7 2) k) := by
  have hrun : deliveries (sortedHeap _) four_stations (heard_twice 0 1 3)
      = [⟨3, sample_header 7 2, sample_frame 7 2⟩] := rfl
  exact ⟨hrun, (delivered_as_sent (sortedHeap _) four_stations (by decide)
    (heard_twice 0 1 3)).1 _ (hrun ▸ List.mem_singleton.mpr rfl)⟩

end Network

end Joker
