/-
What a network in ACK mode puts on the air.

A node sends nothing of its own accord: beside what its caller puts on
the air there are only ACKs, each given once, by a node that was handed
a data packet as a candidate, for that packet (`Accounted`). An ACK is
never answered and nothing is forwarded, so a frame put on the air costs
at most one transmission of every other node (`acknowledgements_accounted`).

An exchange is therefore closed only by its deadline or because some
node was handed a data packet of that id as a candidate
(`exchange_closed_by_candidate`); the caller's frames must be no ACKs
themselves, and which packet of that id it was is not checked.

`step_cases` says once what an event can do; the invariant is kept case
by case.
-/
import Joker.Model.AckNetwork
import Joker.Proofs.AckPipeline
import Joker.Proofs.HopBound

namespace Joker

open Transition

variable {N : Nat}

-- ======================================================== what is answered

/-- What a candidate transmits. -/
def Verdict.sent (local_mac : MacAddress) : Verdict → List TransmittedFrame
  | candidate h _ => [⟨MacAddress.zero,
      (serialize_header (AckCoordinator.ack h local_mac) []).2, false, none⟩]
  | _ => []

theorem Verdict.answer_transmitted (v : Verdict) (local_mac : MacAddress)
    (nic : NicAdapter) :
    (v.answer local_mac nic).transmitted
      = nic.transmitted ++ v.sent local_mac := by
  cases v <;> simp [Verdict.answer, Verdict.sent, NicAdapter.TransmitUnicast]

/-- The exits but one transmit nothing and count no ACK. -/
theorem Verdict.sent_cases (v : Verdict) :
    (∃ h n, v = .candidate h n)
      ∨ ∀ mac : MacAddress, v.sent mac = []
        ∧ .ack_sent ∉ v.counters ++ v.answerCounters
        ∧ .candidate_packets_received ∉ v.counters ++ v.answerCounters := by
  cases v with
  | candidate h n => exact Or.inl ⟨h, n, rfl⟩
  | _ => exact Or.inr fun mac => ⟨rfl,
      by simp [Verdict.counters, Verdict.answerCounters],
      by simp [Verdict.counters, Verdict.answerCounters]⟩

theorem Verdict.all_counters_nodup (v : Verdict) :
    (v.counters ++ v.answerCounters).Nodup := by
  cases v <;> simp [Verdict.counters, Verdict.answerCounters]

/-- An ACK parses to what it was built from. -/
theorem ack_parses (header : JokerHeader) (mac : MacAddress) :
    deserialize_header (serialize_header (AckCoordinator.ack header mac) []).2 0
      = (some (AckCoordinator.ack header mac), 13) := by
  have hdec := deserialize_wire (h := AckCoordinator.ack header mac) [] 0 rfl
  rw [List.append_nil] at hdec
  rw [serialize_header_eq, List.nil_append]
  exact hdec

/-- What a transmission answers, and who answers it. -/
def AckTransmission.answered (tx : AckTransmission N) :
    Option (Nat × Fin N) :=
  tx.answers.map fun i => (i, tx.sender)

/-- The frame a caller puts on the air, and where. -/
def AckEvent.own : AckEvent N → Option (Fin N × TransmittedFrame)
  | .originate n destination frame =>
      some (n, ⟨destination, frame, destination.IsBroadcast, none⟩)
  | _ => none

namespace AckNetwork

-- ============================================================== the steps

theorem put_quiet (net : AckNetwork N) (n : Fin N) {s : AckNode}
    (answers : Option Nat) (hnic : s.nic = (net.nodes n).nic) :
    net.put n s answers
      = { net with nodes := Function.update net.nodes n s } := by
  unfold put
  dsimp only
  rw [hnic, List.drop_length, List.map_nil, List.append_nil]

theorem nodes_put (net : AckNetwork N) (m : Fin N) (s : AckNode)
    (answers : Option Nat) (n : Fin N) :
    (net.put m s answers).nodes n = if n = m then s else net.nodes n :=
  Function.update_apply _ _ _ _

theorem offered_eq_some_iff {net : AckNetwork N} {i : Nat} {n : Fin N}
    {tx : AckTransmission N} :
    net.offered i n = some tx
      ↔ net.air[i]? = some tx ∧ tx.sender ≠ n
        ∧ ∀ x ∈ net.handed, x.1 ≠ (i, n) := by
  unfold offered
  rw [Option.filter_eq_some_iff]
  simp

/-- What an accepted hand-over does. -/
theorem step_deliver {st : Stations N} {net : AckNetwork N} {i : Nat}
    {n : Fin N} {tx : AckTransmission N} (hoffer : net.offered i n = some tx)
    (now : TimePoint) (is_candidate : Bool) :
    net.step st (.deliver i n now is_candidate)
      = { nodes := Function.update net.nodes n
            (process_received_frame tx.frame.data (st.mac n) is_candidate
              (st.config n) now (net.nodes n))
          air := net.air ++ ((verdict tx.frame.data (st.mac n) is_candidate
            (st.config n) (net.nodes n).dedup).sent (st.mac n)).map
              fun f => ⟨n, f, some i⟩
          handed := ((i, n), is_candidate) :: net.handed } := by
  simp only [step, hoffer, put, AckNode.process_received_frame_eq,
    Verdict.answer_transmitted, List.drop_left]

/-- What an event can do: put a frame on the air, change one node that
transmits and counts nothing, hand a transmission over, or nothing. -/
theorem step_cases (st : Stations N) (net : AckNetwork N) (ev : AckEvent N) :
    (∃ n f, ev.own = some (n, f)
      ∧ net.step st ev = { net with air := net.air ++ [⟨n, f, none⟩] })
    ∨ (∃ n s, ev.own = none
      ∧ net.step st ev = { net with nodes := Function.update net.nodes n s }
      ∧ s.metrics = (net.nodes n).metrics)
    ∨ (∃ i n now is_candidate tx, ev = .deliver i n now is_candidate
      ∧ net.offered i n = some tx)
    ∨ ev.own = none ∧ net.step st ev = net := by
  cases ev with
  | originate n destination frame =>
      exact Or.inl ⟨n, _, rfl, rfl⟩
  | AddPending n packet_id frame deadline =>
      exact Or.inr (Or.inl ⟨n, _, rfl, put_quiet net n none rfl, rfl⟩)
  | deliver i n now is_candidate =>
      cases hoffer : net.offered i n with
      | none =>
          refine Or.inr (Or.inr (Or.inr ⟨rfl, ?_⟩))
          simp only [step, hoffer]
      | some tx =>
          exact Or.inr (Or.inr (Or.inl ⟨i, n, now, _, tx, rfl, hoffer⟩))
  | ProcessTimeouts n now =>
      exact Or.inr (Or.inl ⟨n, _, rfl, put_quiet net n none rfl, rfl⟩)
  | own_send n now packet_id =>
      exact Or.inr (Or.inl ⟨n, _, rfl, put_quiet net n none rfl, rfl⟩)
  | evict n now =>
      exact Or.inr (Or.inl ⟨n, _, rfl, put_quiet net n none rfl, rfl⟩)

-- ========================================================== the accounts

/-- Transmission `tx`, in place `j`, is the ACK its sender gave for the
data packet in place `i`, with this header, somebody's own and for
somebody else, on being handed it as a candidate. -/
structure Acknowledges (st : Stations N) (net : AckNetwork N) (j : Nat)
    (tx : AckTransmission N) (i : Nat) (header : JokerHeader) : Prop where
  answers : tx.answers = some i
  later : i < j
  handed : ((i, tx.sender), true) ∈ net.handed
  packet : ∃ data consumed, net.air[i]? = some data
    ∧ data.answers = none ∧ data.sender ≠ tx.sender
    ∧ DataFrame (st.config tx.sender) data.frame.data header consumed
    ∧ header.final_destination ≠ st.mac tx.sender ∧ header.ttl ≠ 0
  ack : tx.frame = ⟨MacAddress.zero, (serialize_header
    (AckCoordinator.ack header (st.mac tx.sender)) []).2, false, none⟩

/-- The ACKs of a node. -/
def acksOf (net : AckNetwork N) (n : Fin N) : Nat :=
  net.air.countP fun tx => tx.sender = n ∧ tx.answers.isSome

/-- Every transmission is its sender's own or an ACK, no hand-over is
acknowledged twice, and the counters count the ACKs. -/
structure Accounted (st : Stations N) (net : AckNetwork N) : Prop where
  traced : ∀ j tx, net.air[j]? = some tx →
    tx.answers = none ∨ ∃ i header, Acknowledges st net j tx i header
  once : (net.air.filterMap AckTransmission.answered).Nodup
  counted : ∀ n, (net.nodes n).metrics.GetCounter .ack_sent
      = UInt64.ofNat (net.acksOf n)
    ∧ (net.nodes n).metrics.GetCounter .candidate_packets_received
      = UInt64.ofNat (net.acksOf n)

theorem accounted_start (st : Stations N) : Accounted st (start st) where
  traced _ _ h := by cases h
  once := List.nodup_nil
  counted _ := ⟨rfl, rfl⟩

/-- An ACK is on record for good. -/
theorem Acknowledges.mono {st : Stations N} {net net' : AckNetwork N}
    {j : Nat} {tx : AckTransmission N} {i : Nat} {header : JokerHeader}
    (h : Acknowledges st net j tx i header)
    (hair : ∃ more, net'.air = net.air ++ more)
    (hhanded : ∀ x ∈ net.handed, x ∈ net'.handed) :
    Acknowledges st net' j tx i header := by
  obtain ⟨data, consumed, hdata, hrest⟩ := h.packet
  obtain ⟨more, hmore⟩ := hair
  refine ⟨h.answers, h.later, hhanded _ h.handed, ⟨data, consumed, ?_, hrest⟩,
    h.ack⟩
  rw [hmore, List.getElem?_append_left (List.getElem?_eq_some_iff.mp hdata).1]
  exact hdata

/-- One more transmission, accounted for. -/
theorem traced_concat {st : Stations N} {net net' : AckNetwork N}
    (h : Accounted st net) {tx : AckTransmission N}
    (hair : net'.air = net.air ++ [tx])
    (hhanded : ∀ x ∈ net.handed, x ∈ net'.handed)
    (htx : tx.answers = none
      ∨ ∃ i header, Acknowledges st net' net.air.length tx i header) :
    ∀ j tx, net'.air[j]? = some tx →
      tx.answers = none ∨ ∃ i header, Acknowledges st net' j tx i header := by
  intro j tx' hj
  rw [hair] at hj
  rcases Nat.lt_or_ge j net.air.length with hlt | hge
  · rw [List.getElem?_append_left hlt] at hj
    rcases h.traced j tx' hj with hown | ⟨i, header, hi⟩
    · exact Or.inl hown
    · exact Or.inr ⟨i, header, hi.mono ⟨_, hair⟩ hhanded⟩
  · rw [List.getElem?_append_right hge] at hj
    obtain ⟨hlt, heq⟩ := List.getElem?_eq_some_iff.mp hj
    rw [List.length_singleton] at hlt
    have hj' : j = net.air.length := by omega
    subst hj'
    simp only [List.getElem_singleton] at heq
    exact heq ▸ htx

theorem acksOf_concat {net net' : AckNetwork N} {tx : AckTransmission N}
    (hair : net'.air = net.air ++ [tx]) (n : Fin N) :
    net'.acksOf n = net.acksOf n
      + if tx.sender = n ∧ tx.answers.isSome then 1 else 0 := by
  unfold acksOf
  rw [hair, List.countP_append, List.countP_singleton]
  simp only [decide_eq_true_eq]

/-- A frame of somebody's own. -/
theorem Accounted.originate {st : Stations N} {net : AckNetwork N}
    (h : Accounted st net) (n : Fin N) (f : TransmittedFrame) :
    Accounted st { net with air := net.air ++ [⟨n, f, none⟩] } where
  traced := traced_concat h rfl (fun _ hx => hx) (Or.inl rfl)
  once := by
    rw [List.filterMap_append]
    show (_ ++ []).Nodup
    rw [List.append_nil]
    exact h.once
  counted m := by
    rw [acksOf_concat rfl]
    simpa using h.counted m

/-- A change at a node that transmits and counts nothing. -/
theorem Accounted.quiet {st : Stations N} {net : AckNetwork N}
    (h : Accounted st net) (n : Fin N) {s : AckNode}
    (hmetrics : s.metrics = (net.nodes n).metrics) :
    Accounted st { net with nodes := Function.update net.nodes n s } where
  traced j tx hj := by
    rcases h.traced j tx hj with hown | ⟨i, header, hi⟩
    · exact Or.inl hown
    · exact Or.inr ⟨i, header, hi.answers, hi.later, hi.handed, hi.packet,
        hi.ack⟩
  once := h.once
  counted m := by
    by_cases hm : m = n
    · subst hm
      simp only [Function.update_self, hmetrics]
      exact h.counted m
    · simp only [Function.update_of_ne hm]
      exact h.counted m

/-- A hand-over that is not answered. -/
theorem Accounted.unanswered {st : Stations N} {net : AckNetwork N}
    (h : Accounted st net) (x : (Nat × Fin N) × Bool) (n : Fin N)
    {s : AckNode}
    (hacks : ∀ c, c = .ack_sent ∨ c = .candidate_packets_received →
      s.metrics.GetCounter c = (net.nodes n).metrics.GetCounter c) :
    Accounted st
      { net with
        nodes := Function.update net.nodes n s
        handed := x :: net.handed } where
  traced j tx hj := by
    rcases h.traced j tx hj with hown | ⟨i, header, hi⟩
    · exact Or.inl hown
    · exact Or.inr ⟨i, header, hi.mono ⟨[], (List.append_nil _).symm⟩
        fun _ hx => List.mem_cons_of_mem _ hx⟩
  once := h.once
  counted m := by
    by_cases hm : m = n
    · subst hm
      simp only [Function.update_self, hacks _ (Or.inl rfl),
        hacks _ (Or.inr rfl)]
      exact h.counted m
    · simp only [Function.update_of_ne hm]
      exact h.counted m

/-- The ACK of a transmission that was just handed over. -/
theorem Accounted.acknowledge {st : Stations N} {net net' : AckNetwork N}
    (h : Accounted st net) {i : Nat} {n : Fin N} {data : AckTransmission N}
    (hoffer : net.offered i n = some data) {header : JokerHeader}
    {consumed : Nat}
    (hf : DataFrame (st.config n) data.frame.data header consumed)
    (hdest : header.final_destination ≠ st.mac n) (httl : header.ttl ≠ 0)
    {f : TransmittedFrame}
    (hframe : f = ⟨MacAddress.zero, (serialize_header
      (AckCoordinator.ack header (st.mac n)) []).2, false, none⟩)
    (hair : net'.air = net.air ++ [⟨n, f, some i⟩])
    (hhanded : net'.handed = ((i, n), true) :: net.handed)
    (hothers : ∀ m, m ≠ n → net'.nodes m = net.nodes m)
    (hself : ∀ c, c = .ack_sent ∨ c = .candidate_packets_received →
      (net'.nodes n).metrics.GetCounter c
        = (net.nodes n).metrics.GetCounter c + 1) :
    Accounted st net' := by
  obtain ⟨hdata, hne, hnew⟩ := offered_eq_some_iff.mp hoffer
  have hlt : i < net.air.length := (List.getElem?_eq_some_iff.mp hdata).1
  -- an ACK does not pass for a data packet
  have hown : data.answers = none := by
    rcases h.traced i data hdata with hown | ⟨k, header', hk⟩
    · exact hown
    · have hparse := hf.parses
      rw [hk.ack, ack_parses] at hparse
      cases hparse
      cases hf.unicast
  constructor
  · refine traced_concat h hair ?_ (Or.inr ⟨i, header, rfl, hlt, ?_, ⟨data,
      consumed, ?_, hown, hne, hf, hdest, httl⟩, hframe⟩)
    · intro x hx
      rw [hhanded]
      exact List.mem_cons_of_mem _ hx
    · rw [hhanded]
      exact List.mem_cons_self
    · rw [hair, List.getElem?_append_left hlt]
      exact hdata
  · rw [hair, List.filterMap_append]
    show (_ ++ [(i, n)]).Nodup
    refine List.Nodup.append h.once (List.nodup_singleton _) ?_
    rw [List.disjoint_singleton]
    intro hin
    -- what was acknowledged was handed over
    obtain ⟨tx, htx, hkey⟩ := List.mem_filterMap.mp hin
    obtain ⟨j, hj⟩ := List.getElem?_of_mem htx
    rcases h.traced j tx hj with hnone | ⟨k, header', hk⟩
    · rw [AckTransmission.answered, hnone] at hkey
      cases hkey
    · rw [AckTransmission.answered, hk.answers] at hkey
      cases hkey
      exact hnew _ hk.handed rfl
  · intro m
    rw [acksOf_concat hair]
    by_cases hm : m = n
    · subst hm
      rw [hself _ (Or.inl rfl), hself _ (Or.inr rfl), (h.counted m).1,
        (h.counted m).2, if_pos ⟨rfl, rfl⟩]
      simp
    · rw [hothers m hm, if_neg fun hall => hm hall.1.symm]
      exact h.counted m

theorem Accounted.deliver {st : Stations N} {net : AckNetwork N}
    (h : Accounted st net) {i : Nat} {n : Fin N} {tx : AckTransmission N}
    (hoffer : net.offered i n = some tx) (now : TimePoint)
    (is_candidate : Bool) :
    Accounted st (net.step st (.deliver i n now is_candidate)) := by
  have hcounter : ∀ c, (process_received_frame tx.frame.data (st.mac n)
      is_candidate (st.config n) now (net.nodes n)).metrics.GetCounter c
      = if c ∈ (verdict tx.frame.data (st.mac n) is_candidate (st.config n)
            (net.nodes n).dedup).counters
          ++ (verdict tx.frame.data (st.mac n) is_candidate (st.config n)
            (net.nodes n).dedup).answerCounters then
          (net.nodes n).metrics.GetCounter c + 1
        else (net.nodes n).metrics.GetCounter c := by
    intro c
    rw [AckNode.process_received_frame_eq]
    exact GetCounter_foldl c _ _ (Verdict.all_counters_nodup _)
  rw [step_deliver hoffer]
  rcases Verdict.sent_cases (verdict tx.frame.data (st.mac n) is_candidate
    (st.config n) (net.nodes n).dedup) with ⟨header, consumed, hv⟩ | hquiet
  · obtain ⟨hf, hdest, httl, -, hflag⟩ := verdict_eq_candidate_iff.mp hv
    rw [hv] at hcounter ⊢
    subst hflag
    apply h.acknowledge hoffer hf hdest httl rfl rfl rfl
    · intro m hm
      exact Function.update_of_ne hm _ _
    · intro c hc
      simp only [Function.update_self]
      rw [hcounter c, if_pos]
      rcases hc with rfl | rfl
      · simp [Verdict.counters, Verdict.answerCounters]
      · simp [Verdict.counters, Verdict.answerCounters]
  · obtain ⟨hsent, hack, hcandidate⟩ := hquiet (st.mac n)
    rw [hsent, List.map_nil, List.append_nil]
    refine h.unanswered _ n fun c hc => ?_
    rw [hcounter c, if_neg]
    rcases hc with rfl | rfl
    · exact hack
    · exact hcandidate

theorem run_accounted (st : Stations N) (es : List (AckEvent N)) :
    Accounted st (run st es) := by
  refine exec_invariant (Accounted st) (fun net ev h => ?_) es
    (accounted_start st)
  rcases step_cases st net ev with ⟨n, f, -, hstep⟩
    | ⟨n, s, -, hstep, hmetrics⟩ | ⟨i, n, now, flag, tx, rfl, hoffer⟩
    | ⟨-, hsame⟩
  · rw [hstep]
    exact h.originate n f
  · rw [hstep]
    exact h.quiet n hmetrics
  · exact h.deliver hoffer now flag
  · rw [hsame]
    exact h

-- ========================================================= what it costs

/-- Every ACK answers one frame of somebody else's own, and no two of one
node the same: a frame put on the air has at most one ACK of every other
node. -/
theorem Accounted.acks_le {st : Stations N} {net : AckNetwork N}
    (h : Accounted st net) :
    net.air.countP (·.answers.isSome)
      ≤ net.air.countP (·.answers = none) * (N - 1) := by
  let own := net.air.zipIdx.filter fun x => x.1.answers = none
  let pairs := own.flatMap fun x =>
    ((List.finRange N).erase x.1.sender).map fun n => (x.2, n)
  have hsub : net.air.filterMap AckTransmission.answered ⊆ pairs := by
    intro key hkey
    obtain ⟨tx, htx, hkey⟩ := List.mem_filterMap.mp hkey
    obtain ⟨j, hj⟩ := List.getElem?_of_mem htx
    rcases h.traced j tx hj with hnone | ⟨i, header, hi⟩
    · rw [AckTransmission.answered, hnone] at hkey
      cases hkey
    · rw [AckTransmission.answered, hi.answers] at hkey
      obtain ⟨data, -, hdata, hown, hne, -⟩ := hi.packet
      refine List.mem_flatMap.mpr ⟨(data, i), ?_, ?_⟩
      · exact List.mem_filter.mpr
          ⟨List.mem_zipIdx_iff_getElem?.mpr hdata, decide_eq_true hown⟩
      · refine List.mem_map.mpr ⟨tx.sender, ?_, Option.some.inj hkey⟩
        exact (List.nodup_finRange N).mem_erase_iff.mpr
          ⟨Ne.symm hne, List.mem_finRange _⟩
  have hown : own.length = net.air.countP (·.answers = none) := by
    rw [← List.countP_eq_length_filter]
    conv_rhs => rw [← List.zipIdx_map_fst 0 net.air, List.countP_map]
    rfl
  have hpairs : pairs.length = own.length * (N - 1) := by
    have hothers : ∀ x : AckTransmission N × Nat,
        (((List.finRange N).erase x.1.sender).map
          fun n => (x.2, n)).length = N - 1 := by
      intro x
      rw [List.length_map, List.length_erase_of_mem (List.mem_finRange _),
        List.length_finRange]
    simp only [pairs, List.length_flatMap, hothers, List.map_const',
      List.sum_replicate_nat]
  calc net.air.countP (·.answers.isSome)
      = (net.air.filterMap AckTransmission.answered).length := by
        rw [List.length_filterMap_eq_countP]
        simp [AckTransmission.answered]
    _ ≤ pairs.length := (h.once.subperm hsub).length_le
    _ = net.air.countP (·.answers = none) * (N - 1) := by rw [hpairs, hown]

/-- Beside the ACKs there is on the air what the callers put there, in
order. -/
theorem own_frames (st : Stations N) (es : List (AckEvent N)) :
    ((run st es).air.filter (·.answers = none)).map
        (fun tx => (tx.sender, tx.frame))
      = es.filterMap AckEvent.own := by
  induction es using List.reverseRecOn with
  | nil => rfl
  | append_singleton es ev ih =>
      have hrun : run st (es ++ [ev]) = (run st es).step st ev :=
        exec_concat _ _ _ _
      rw [hrun, List.filterMap_append, ← ih]
      rcases step_cases st (run st es) ev with ⟨n, f, hown, hstep⟩
        | ⟨n, s, hown, hstep, -⟩ | ⟨i, n, now, flag, tx, rfl, hoffer⟩
        | ⟨hown, hsame⟩
      · rw [hstep, List.filterMap_cons_some hown]
        simp
      · rw [hstep, List.filterMap_cons_none hown]
        simp
      · rw [step_deliver hoffer, List.filter_append, List.map_append]
        simp [AckEvent.own, List.filter_map, Function.comp_def]
      · rw [hsame, List.filterMap_cons_none hown]
        simp

/-- In every run of nodes in ACK mode, whatever is lost, delayed or handed
over with whatever flag: beside the frames its callers put on the air
there are only ACKs, each given by a node for a data packet of somebody
else that it was handed as a candidate; no ACK is answered and nothing is
forwarded; a node acknowledges a transmission once, so an own frame has at
most one ACK of each other node; and the two counters are the number of
the node's ACKs, modulo 2^64. -/
theorem acknowledgements_accounted (st : Stations N) (es : List (AckEvent N)) :
    ((run st es).air.filter (·.answers = none)).map
        (fun tx => (tx.sender, tx.frame))
      = es.filterMap AckEvent.own
    ∧ (∀ j tx, (run st es).air[j]? = some tx →
      tx.answers = none ∨ ∃ i header, Acknowledges st (run st es) j tx i header)
    ∧ ((run st es).air.filterMap AckTransmission.answered).Nodup
    ∧ (run st es).air.length - (es.filterMap AckEvent.own).length
      ≤ (es.filterMap AckEvent.own).length * (N - 1)
    ∧ ∀ n, ((run st es).nodes n).metrics.GetCounter .ack_sent
        = UInt64.ofNat ((run st es).acksOf n)
      ∧ ((run st es).nodes n).metrics.GetCounter .candidate_packets_received
        = UInt64.ofNat ((run st es).acksOf n) := by
  have h := run_accounted st es
  refine ⟨own_frames st es, h.traced, h.once, ?_, h.counted⟩
  have hown : (es.filterMap AckEvent.own).length
      = (run st es).air.countP (·.answers = none) := by
    rw [← own_frames st es, List.length_map, List.countP_eq_length_filter]
  have hacks := h.acks_le
  have hall : (run st es).air.length = _ :=
    List.length_eq_countP_add_countP fun tx => tx.answers.isSome
  have hrest : (run st es).air.countP (fun tx => ¬ tx.answers.isSome)
      = (run st es).air.countP (·.answers = none) := by
    congr
    funext tx
    cases tx.answers <;> rfl
  rw [hown]
  rw [hrest] at hall
  omega

-- ================================================== who closes an exchange

/-- The frame parses as an ACK. -/
def IsAck (frame : Bytes) : Prop :=
  ∃ header consumed, deserialize_header frame 0 = (some header, consumed)
    ∧ header.type = .kAck

/-- A delivery closes an exchange only with an ACK of its id. -/
theorem closed_by_ack {frame : Bytes} {local_mac : MacAddress}
    {is_candidate : Bool} {config : Config} {now : TimePoint} {s : AckNode}
    {p : PacketId} (hchange : (process_received_frame frame local_mac
      is_candidate config now s).coordinator.pending.lookup p
      ≠ s.coordinator.pending.lookup p) :
    ∃ header consumed, deserialize_header frame 0 = (some header, consumed)
      ∧ header.type = .kAck ∧ header.packet_id = p := by
  rw [AckNode.process_received_frame_eq] at hchange
  dsimp only at hchange
  unfold verdict at hchange
  rcases hp : deserialize_header frame 0 with ⟨_ | header, consumed⟩
  · rw [hp] at hchange
    exact absurd rfl hchange
  · rw [hp] at hchange
    refine ⟨header, consumed, rfl, ?_⟩
    dsimp only at hchange
    split at hchange
    · cases ht : header.type with
      | kAck =>
          rw [ht] at hchange
          refine ⟨rfl, ?_⟩
          by_contra hne
          exact hchange (s.coordinator.lookup_handleAck_ne frame consumed
            (Ne.symm hne))
      | kForwarding =>
          rw [ht] at hchange
          exact absurd rfl hchange
      | kUnicast =>
          rw [ht] at hchange
          refine absurd ?_ hchange
          dsimp only
          unfold dataVerdict
          split
          · split <;> rfl
          · split
            · rfl
            · split
              · rfl
              · split <;> rfl
    · exact absurd rfl hchange

/-- The event hands a transmission over. -/
def AckEvent.IsDelivery : AckEvent N → Prop
  | .deliver .. => True
  | _ => False

/-- Of the other events only a sweep closes an exchange, when it is due. -/
theorem timed_out {st : Stations N} {net : AckNetwork N} {ev : AckEvent N}
    (hev : ¬ AckEvent.IsDelivery ev) {n : Fin N} {p : PacketId}
    {e : PendingCoordination}
    (hopen : (net.nodes n).coordinator.pending.lookup p = some e)
    (hclosed : ((net.step st ev).nodes n).coordinator.pending.lookup p
      = none) :
    ∃ now, ev = .ProcessTimeouts n now ∧ e.deadline ≤ now := by
  have hsame : ∀ {s : AckNode},
      s.coordinator = (net.nodes n).coordinator →
      ¬ s.coordinator.pending.lookup p = none := by
    intro s hc hnone
    rw [hc, hopen] at hnone
    cases hnone
  cases ev with
  | deliver j m now flag => exact absurd trivial hev
  | originate m destination frame => exact absurd hclosed (hsame rfl)
  | own_send m now q =>
      refine absurd hclosed (hsame ?_)
      rw [step, nodes_put]
      split
      · next hm => rw [hm]
      · rfl
  | evict m now =>
      refine absurd hclosed (hsame ?_)
      rw [step, nodes_put]
      split
      · next hm => rw [hm]
      · rfl
  | AddPending m q frame deadline =>
      rw [step, nodes_put] at hclosed
      split at hclosed
      · next hm =>
        subst hm
        change AList.lookup p (AList.insert q _ _) = none at hclosed
        by_cases hq : p = q
        · rw [hq, AList.lookup_insert] at hclosed
          cases hclosed
        · rw [AList.lookup_insert_ne hq, hopen] at hclosed
          cases hclosed
      · exact absurd hclosed (hsame rfl)
  | ProcessTimeouts m now =>
      rw [step, nodes_put] at hclosed
      split at hclosed
      · next hm =>
        subst hm
        refine ⟨now, rfl, ?_⟩
        by_contra hlate
        have hkept := AckCoordinator.lookup_processTimeouts.mpr
          ⟨hopen, not_le.mp hlate⟩
        rw [hkept] at hclosed
        cases hclosed
      · exact absurd hclosed (hsame rfl)

/-- A hand-over that closes an exchange is that of an ACK of its id to the
node. -/
theorem acknowledged {st : Stations N} {net : AckNetwork N} {j : Nat}
    {m n : Fin N} {now : TimePoint} {is_candidate : Bool} {p : PacketId}
    {e : PendingCoordination}
    (hopen : (net.nodes n).coordinator.pending.lookup p = some e)
    (hclosed : ((net.step st (.deliver j m now is_candidate)).nodes n
      ).coordinator.pending.lookup p = none) :
    m = n ∧ ∃ tx header consumed, net.offered j n = some tx
      ∧ deserialize_header tx.frame.data 0 = (some header, consumed)
      ∧ header.type = .kAck ∧ header.packet_id = p := by
  have hsame : ¬ (net.nodes n).coordinator.pending.lookup p = none := by
    rw [hopen]
    exact Option.some_ne_none e
  cases hoffer : net.offered j m with
  | none =>
      simp only [step, hoffer] at hclosed
      exact absurd hclosed hsame
  | some tx =>
      rw [step_deliver hoffer] at hclosed
      change ((Function.update net.nodes m _) n
        ).coordinator.pending.lookup p = none at hclosed
      by_cases hm : n = m
      · subst hm
        rw [Function.update_self] at hclosed
        obtain ⟨header, consumed, hparse, hack, hid⟩ := closed_by_ack
          (p := p) (by rw [hclosed, hopen]; simp)
        exact ⟨rfl, tx, header, consumed, hoffer, hparse, hack, hid⟩
      · rw [Function.update_of_ne hm] at hclosed
        exact absurd hclosed hsame

/-- No exchange is closed for nothing. In every run in which no caller
puts an ACK on the air itself, the event after which an exchange is gone
is a sweep at its deadline or later, or the hand-over of an ACK that some
other node gave for a data packet of that id, which it was handed as a
candidate. -/
theorem exchange_closed_by_candidate (st : Stations N)
    (es : List (AckEvent N)) (ev : AckEvent N)
    (hown : ∀ x ∈ es.filterMap AckEvent.own, ¬ IsAck x.2.data)
    {n : Fin N} {p : PacketId} {e : PendingCoordination}
    (hopen : ((run st es).nodes n).coordinator.pending.lookup p = some e)
    (hclosed : ((run st (es ++ [ev])).nodes n).coordinator.pending.lookup p
      = none) :
    (∃ now, ev = .ProcessTimeouts n now ∧ e.deadline ≤ now)
    ∨ ∃ j now is_candidate tx i header, ev = .deliver j n now is_candidate
      ∧ (run st es).air[j]? = some tx ∧ tx.sender ≠ n
      ∧ Acknowledges st (run st es) j tx i header
      ∧ header.packet_id = p := by
  have hrun : run st (es ++ [ev]) = (run st es).step st ev :=
    exec_concat _ _ _ _
  rw [hrun] at hclosed
  by_cases hev : AckEvent.IsDelivery ev
  · cases ev with
    | deliver j m now flag =>
        obtain ⟨rfl, tx, h, consumed, hoffer, hparse, hack, hid⟩ :=
          acknowledged hopen hclosed
        obtain ⟨hair, hne, -⟩ := offered_eq_some_iff.mp hoffer
        refine Or.inr ⟨j, now, flag, tx, ?_⟩
        rcases (run_accounted st es).traced j tx hair with
          hnone | ⟨i, header, hi⟩
        · -- somebody's own, and so no ACK
          have hmem : (tx.sender, tx.frame) ∈ es.filterMap AckEvent.own := by
            rw [← own_frames st es]
            exact List.mem_map.mpr ⟨tx, List.mem_filter.mpr
              ⟨List.mem_of_getElem? hair, decide_eq_true hnone⟩, rfl⟩
          exact absurd ⟨h, consumed, hparse, hack⟩ (hown _ hmem)
        · refine ⟨i, header, rfl, hair, hne, hi, ?_⟩
          rw [hi.ack, ack_parses] at hparse
          cases hparse
          exact hid
    | _ => exact hev.elim
  · exact Or.inl (timed_out hev hopen hclosed)

/-- Station 0 has packet 7 out; station 1 is handed it and acknowledges,
and station 0's exchange is closed. -/
theorem exchange_closed_by_candidate_one :
    ∃ j now is_candidate tx i header,
      (AckEvent.deliver 1 0 2 false : AckEvent 3)
        = .deliver j 0 now is_candidate
      ∧ (run Network.three_stations
        [.originate 0 MacAddress.broadcast (sample_frame 7 5),
          .AddPending 0 7 (sample_frame 7 5) 50, .deliver 0 1 1 true]).air[j]?
        = some tx ∧ tx.sender ≠ 0
      ∧ Acknowledges Network.three_stations (run Network.three_stations
        [.originate 0 MacAddress.broadcast (sample_frame 7 5),
          .AddPending 0 7 (sample_frame 7 5) 50, .deliver 0 1 1 true])
          j tx i header
      ∧ header.packet_id = 7 := by
  have h := exchange_closed_by_candidate Network.three_stations
    [.originate 0 MacAddress.broadcast (sample_frame 7 5),
      .AddPending 0 7 (sample_frame 7 5) 50, .deliver 0 1 1 true]
    (.deliver 1 0 2 false)
    (by
      intro x hx
      rw [List.mem_singleton.mp hx]
      rintro ⟨header, consumed, hparse, hack⟩
      have hdata := (sample_dataFrame 7 5).parses
      cases hdata.symm.trans hparse
      cases hack)
    (n := 0) (p := 7) (e := ⟨7, sample_frame 7 5, 50, none⟩) rfl (by decide)
  rcases h with ⟨now, hev, -⟩ | h
  · cases hev
  · exact h

end AckNetwork

end Joker
