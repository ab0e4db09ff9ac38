/-
Who sends a packet, and who will.

Beside what it originates a node sends a packet only when a timer it has
set for it goes off while a copy is pending, and a copy is pending only
since the node took it on as a candidate (`Sending`, `mem_air_act`). For
one packet the account is exact. A copy that will be forwarded waits at a
node after an event if the node takes one on in it, or if one waited and
the node neither hears another that is new to its cache nor lets a timer
of the packet go off (`willForward_step`); and the node has forwarded the
packet if it had, or if a copy waited when a timer went off
(`hasForwarded_step`).
-/
import Joker.Proofs.Delivery

namespace Joker

open Transition VectorHeap

variable {N : Nat} {H : WheelHeap ForwardCallback}

/-- The id of the packet a transmission carries. -/
def Transmission.packet_id (tx : Transmission N) : Option PacketId :=
  (deserialize_header tx.frame.data 0).1.map JokerHeader.packet_id

/-- The id of the packet an expiry callback sent it for. -/
def Transmission.forward_of (tx : Transmission N) : Option PacketId :=
  tx.frame.retained.map Prod.fst

-- =================================================== what a node may send

/-- What an event leaves pending was pending or is taken on in it, and
what it sends was pending. -/
structure Sending (s : TimerNode H) (local_mac : MacAddress)
    (config : Config) (ev : NodeEvent) (c : TimerCoordinator H)
    (nic : NicAdapter) : Prop where
  pending : ∀ p e, c.pending.lookup p = some e →
    s.coordinator.pending.lookup p = some e
      ∨ ∃ now header consumed, ev = .receive now e.frame true
        ∧ verdict e.frame local_mac true config s.dedup
          = .candidate header consumed
        ∧ header.packet_id = p
  sent : ∃ more, nic.transmitted = s.nic.transmitted ++ more
    ∧ ∀ f ∈ more, ∃ p e data, s.coordinator.pending.lookup p = some e
      ∧ transmission e.frame = some data
      ∧ f = ⟨MacAddress.broadcast, data, true, some (p, e)⟩

theorem TimerNode.step_sending (s : TimerNode H) (local_mac : MacAddress)
    (config : Config) (ev : NodeEvent) :
    Sending s local_mac config ev (s.step local_mac config ev).coordinator
      (s.step local_mac config ev).nic := by
  have hnone : ∃ more, s.nic.transmitted = s.nic.transmitted ++ more
      ∧ ∀ f ∈ more, ∃ p e data, s.coordinator.pending.lookup p = some e
        ∧ transmission e.frame = some data
        ∧ f = ⟨MacAddress.broadcast, data, true, some (p, e)⟩ :=
    ⟨[], by simp, by simp⟩
  refine TimerNode.step_invariant (Sending s local_mac config ev)
    ?_ ?_ ?_ ⟨fun _ _ he => Or.inl he, hnone⟩
  · intro now frame header consumed hev hv
    refine ⟨fun p e he => ?_, hnone⟩
    rw [lookup_accept] at he
    split at he
    · next hp =>
      injection he with he
      subst he
      exact Or.inr ⟨now, header, consumed, hev, hv, hp.symm⟩
    · exact Or.inl he
  · intro now frame header _ _
    refine ⟨fun p e he => ?_, hnone⟩
    exact Or.inl (lookup_overheard_some_iff.mp he).2
  · intro now _
    refine TimerNode.tick_invariant
      (fun s' => Sending s local_mac config ev s'.coordinator s'.nic
        ∧ ∀ p e, s'.coordinator.pending.lookup p = some e →
          s.coordinator.pending.lookup p = some e) ?_ ?_
      ⟨⟨fun _ _ he => Or.inl he, hnone⟩, fun _ _ he => he⟩ |>.1
    · intro s' t w _ _ h
      exact ⟨⟨h.1.pending, h.1.sent⟩, h.2⟩
    · intro s' t w _ _ ⟨h, hold⟩
      have heq := on_expiry_eq t.callback (s'.withWheel w)
      rw [heq]
      have hpend : ∀ p e, (s'.coordinator.pending.erase
          t.callback.packet_id).lookup p = some e →
          s.coordinator.pending.lookup p = some e := by
        intro p e he
        exact hold p e (lookup_erase_some_iff.mp he).2
      refine ⟨⟨fun p e he => Or.inl (hpend p e he), ?_⟩, hpend⟩
      obtain ⟨more, hmore, hsent⟩ := h.sent
      dsimp only [TimerNode.withWheel]
      unfold NicAdapter.sendFor
      cases he : s'.coordinator.pending.lookup t.callback.packet_id with
      | none => exact ⟨more, hmore, hsent⟩
      | some e =>
          cases hdata : transmission e.frame with
          | none =>
              simp only [hdata]
              exact ⟨more, hmore, hsent⟩
          | some data =>
              simp only [hdata, NicAdapter.TransmitBroadcast, hmore]
              refine ⟨_, List.append_assoc _ _ _, fun f hf => ?_⟩
              rcases List.mem_append.mp hf with hf | hf
              · exact hsent f hf
              · exact ⟨_, e, data, hold _ e he, hdata,
                  List.mem_singleton.mp hf⟩

/-- What an event at a node puts on the air was pending there. -/
theorem Network.mem_air_act {st : Stations N} {net : Network N H}
    {n : Fin N} {now : TimePoint} {ev : NodeEvent} {tx : Transmission N}
    (htx : tx ∈ (net.act st n now ev).air) :
    tx ∈ net.air ∨ ∃ p e data,
      (net.nodes n).coordinator.pending.lookup p = some e
        ∧ transmission e.frame = some data
        ∧ tx.frame ∈ net.sent st n ev
        ∧ tx = ⟨n, ⟨MacAddress.broadcast, data, true, some (p, e)⟩, now,
          net.source n e.timer_id⟩ := by
  obtain ⟨more, hmore, hmem⟩ :=
    ((net.nodes n).step_sending (st.mac n) (st.config n) ev).sent
  have hsent : net.sent st n ev = more := by
    unfold Network.sent
    rw [Network.stepNode_self, hmore, List.drop_left]
  rw [Network.act_air st net n now ev more hmore] at htx
  rcases List.mem_append.mp htx with hold | hnew
  · exact Or.inl hold
  · obtain ⟨f, hf, rfl⟩ := List.mem_map.mp hnew
    obtain ⟨p, e, data, he, hdata, rfl⟩ := hmem f hf
    exact Or.inr ⟨p, e, data, he, hdata, hsent ▸ hf, rfl⟩

-- ===================================================== one packet at a node

/-- What a received frame leaves pending for a packet. -/
theorem TimerNode.receive_pending (s : TimerNode H) (local_mac : MacAddress)
    (config : Config) (now : TimePoint) (frame : Bytes) (is_candidate : Bool)
    (p : PacketId) :
    (s.step local_mac config (.receive now frame is_candidate)
      ).coordinator.pending.lookup p
      = match verdict frame local_mac is_candidate config s.dedup with
        | .candidate header _ =>
            if p = header.packet_id
            then some ⟨s.coordinator.wheel.next_id, frame⟩
            else s.coordinator.pending.lookup p
        | .overheard header =>
            if p = header.packet_id then none
            else s.coordinator.pending.lookup p
        | _ => s.coordinator.pending.lookup p := by
  rw [TimerNode.step_receive]
  dsimp only
  cases verdict frame local_mac is_candidate config s.dedup with
  | candidate header consumed => exact lookup_accept _ _ _ _ _ _ _
  | overheard header =>
      show (s.coordinator.HandleOverheardForward _).pending.lookup p = _
      rw [overheard_pending, lookup_erase_eq]
  | _ => rfl

/-- A live timer for the packet has expired. -/
def TimerNode.Due (s : TimerNode H) (p : PacketId) (now : TimePoint) : Prop :=
  ∃ t ∈ s.coordinator.wheel.timers,
    t.callback = ⟨p⟩ ∧ t.cancelled = false ∧ t.expires_at ≤ now

/-- A tick that finds none expired does nothing for the packet. -/
theorem TimerNode.tick_of_not_due {s : TimerNode H} {p : PacketId}
    {now : TimePoint} (h : ¬ s.Due p now) :
    (TimerNode.Tick now s).coordinator.pending.lookup p
        = s.coordinator.pending.lookup p
      ∧ ∃ more, (TimerNode.Tick now s).nic.transmitted
          = s.nic.transmitted ++ more
        ∧ ∀ f ∈ more, f.retained.map Prod.fst ≠ some p := by
  refine (TimerNode.tick_invariant (fun s' =>
    (∀ t ∈ s'.coordinator.wheel.timers, t ∈ s.coordinator.wheel.timers)
      ∧ s'.coordinator.pending.lookup p = s.coordinator.pending.lookup p
      ∧ ∃ more, s'.nic.transmitted = s.nic.transmitted ++ more
        ∧ ∀ f ∈ more, f.retained.map Prod.fst ≠ some p) ?_ ?_
    ⟨fun _ ht => ht, rfl, [], (List.append_nil _).symm,
      fun _ hf => absurd hf List.not_mem_nil⟩).2
  · intro s' t w hpop _ ⟨hold, hlook, hmore⟩
    exact ⟨fun u hu => hold u (SimpleTimerWheel.mem_of_popExpired hpop hu),
      hlook, hmore⟩
  · intro s' t w hpop hlive ⟨hold, hlook, more, hmore, hnone⟩
    have hne : t.callback.packet_id ≠ p := by
      intro hp
      exact h ⟨t, hold t (SimpleTimerWheel.popExpired_mem hpop), by rw [← hp],
        hlive, (SimpleTimerWheel.popExpired_some hpop).2.2.1⟩
    rw [on_expiry_eq]
    refine ⟨fun u hu => hold u (SimpleTimerWheel.mem_of_popExpired hpop hu),
      ?_, ?_⟩
    · show (s'.coordinator.pending.erase _).lookup p = _
      rw [lookup_erase_eq, if_neg (Ne.symm hne), hlook]
    · dsimp only [TimerNode.withWheel]
      unfold NicAdapter.sendFor
      cases s'.coordinator.pending.lookup t.callback.packet_id with
      | none => exact ⟨more, hmore, hnone⟩
      | some e =>
          cases hdata : transmission e.frame with
          | none =>
              simp only [hdata]
              exact ⟨more, hmore, hnone⟩
          | some data =>
              simp only [hdata, NicAdapter.TransmitBroadcast, hmore]
              refine ⟨_, List.append_assoc _ _ _, fun f hf => ?_⟩
              rcases List.mem_append.mp hf with hf | hf
              · exact hnone f hf
              · obtain rfl := List.mem_singleton.mp hf
                exact fun heq => hne (Option.some.inj heq)

/-- Nothing is pending for the packet any more, and what was is sent. -/
def TimerNode.Served (s s' : TimerNode H) (p : PacketId) : Prop :=
  s'.coordinator.pending.lookup p = none
    ∧ ∃ more, s'.nic.transmitted = s.nic.transmitted ++ more
      ∧ ∀ e data, s.coordinator.pending.lookup p = some e →
        transmission e.frame = some data → ∃ f ∈ more, f.retained = some (p, e)

/-- A tick that has come this far with an expired timer for the packet:
the timer's turn is still to come, or the packet has been served. -/
def TimerNode.Serving (s s' : TimerNode H) (p : PacketId) (now : TimePoint) :
    Prop :=
  s'.Due p now
      ∧ s'.coordinator.pending.lookup p = s.coordinator.pending.lookup p
      ∧ (∃ more, s'.nic.transmitted = s.nic.transmitted ++ more)
    ∨ s.Served s' p

/-- The callback of a live timer, the packet's or another's. -/
theorem TimerNode.Serving.run {s s' : TimerNode H} {p : PacketId}
    {now : TimePoint} (h : s.Serving s' p now)
    {t : TimerEntry ForwardCallback} {w : SimpleTimerWheel ForwardCallback H}
    (hpop : s'.coordinator.wheel.popExpired now = some (t, w)) :
    s.Serving (on_expiry t.callback (s'.withWheel w)) p now := by
  obtain ⟨sent, hsent⟩ := sendFor_transmitted s'.nic t.callback.packet_id
    (s'.coordinator.pending.lookup t.callback.packet_id)
  rw [on_expiry_eq]
  rcases h with ⟨⟨u, hu, hcb, hlive, hdue⟩, hlook, more, hmore⟩
    | ⟨hnone, more, hmore, hall⟩
  · by_cases hp : t.callback.packet_id = p
    · refine Or.inr ⟨?_, more ++ sent, ?_, fun e data he hdata => ?_⟩
      · show (s'.coordinator.pending.erase _).lookup p = none
        rw [lookup_erase_eq, if_pos hp.symm]
      · rw [← List.append_assoc, ← hmore]
        exact hsent
      · have he' : s'.coordinator.pending.lookup t.callback.packet_id
            = some e := by rw [hp, hlook, he]
        rw [he'] at hsent
        simp only [NicAdapter.sendFor, hdata,
          NicAdapter.TransmitBroadcast] at hsent
        rw [← List.append_cancel_left hsent]
        exact ⟨_, List.mem_append_right _ (List.mem_singleton.mpr rfl),
          by rw [hp]⟩
    · refine Or.inl ⟨⟨u, ?_, hcb, hlive, hdue⟩, ?_, more ++ sent, ?_⟩
      · rcases List.mem_cons.mp ((SimpleTimerWheel.popExpired_some hpop
          ).2.1.mem_iff.mp hu) with rfl | hu
        · exact absurd (congrArg ForwardCallback.packet_id hcb) hp
        · exact hu
      · show (s'.coordinator.pending.erase _).lookup p = _
        rw [lookup_erase_eq, if_neg (Ne.symm hp), hlook]
      · rw [← List.append_assoc, ← hmore]
        exact hsent
  · refine Or.inr ⟨?_, more ++ sent, ?_, fun e data he hdata => ?_⟩
    · show (s'.coordinator.pending.erase _).lookup p = none
      rw [lookup_erase_eq]
      split
      · rfl
      · exact hnone
    · rw [← List.append_assoc, ← hmore]
      exact hsent
    · obtain ⟨f, hf, hr⟩ := hall e data he hdata
      exact ⟨f, List.mem_append_left _ hf, hr⟩

/-- A tick that finds one expired serves the packet. -/
theorem TimerNode.tick_of_due {s : TimerNode H} {p : PacketId}
    {now : TimePoint} (h : s.Due p now) :
    s.Served (TimerNode.Tick now s) p := by
  have htick : s.Serving (TimerNode.Tick now s) p now := by
    refine TimerNode.tick_invariant (fun s' => s.Serving s' p now) ?_
      (fun s' t w hpop _ h => h.run hpop)
      (Or.inl ⟨h, rfl, [], (List.append_nil _).symm⟩)
    intro s' t w hpop hcancelled hs
    rcases hs with ⟨⟨u, hu, hcb, hlive, hdue⟩, hlook, hmore⟩ | hs
    · refine Or.inl ⟨⟨u, ?_, hcb, hlive, hdue⟩, hlook, hmore⟩
      rcases List.mem_cons.mp ((SimpleTimerWheel.popExpired_some hpop
        ).2.1.mem_iff.mp hu) with rfl | hu
      · rw [hlive] at hcancelled
        cases hcancelled
      · exact hu
    · exact Or.inr hs
  rcases htick with ⟨⟨u, hu, -, -, hdue⟩, -⟩ | hserved
  · exact absurd hdue (not_le.mpr (TimerNode.tick_complete now s u hu))
  · exact hserved

namespace Network

-- ================================================== one packet in a network

/-- A copy of the packet waits at the node that it will forward. -/
def WillForward (net : Network N H) (p : PacketId) (n : Fin N) : Prop :=
  ∃ e, (net.nodes n).coordinator.pending.lookup p = some e
    ∧ transmission e.frame ≠ none

/-- Has node `n` forwarded packet `p`? -/
def HasForwarded (net : Network N H) (p : PacketId) (n : Fin N) : Prop :=
  ∃ tx ∈ net.air, tx.sender = n ∧ tx.forward_of = some p

instance (net : Network N H) (p : PacketId) (n : Fin N) :
    Decidable (net.HasForwarded p n) :=
  inferInstanceAs (Decidable (∃ tx ∈ _, _))

/-- In the event node `n` is handed a copy of data packet `p`, for another
node and with TTL left, whose id its cache does not hold. -/
def HearsNew (st : Stations N) (net : Network N H) (n : Fin N) (p : PacketId) :
    NetEvent N → Prop
  | .deliver i m _ _ => m = n
      ∧ ∃ tx header consumed, net.CanHand i n tx
        ∧ DataFrame (st.config n) tx.frame.data header consumed
        ∧ header.packet_id = p ∧ header.final_destination ≠ st.mac n
        ∧ header.ttl ≠ 0 ∧ (net.nodes n).dedup.Contains p = false
  | _ => False

/-- In the event node `n` takes on packet `p` as a candidate: a data
packet for another node, flagged, new to the node, and with TTL enough to
be forwarded. -/
def TakesOn (st : Stations N) (net : Network N H) (n : Fin N) (p : PacketId) :
    NetEvent N → Prop
  | .deliver i m _ is_candidate => m = n ∧ is_candidate = true
      ∧ ∃ tx header consumed, net.CanHand i n tx
        ∧ DataFrame (st.config n) tx.frame.data header consumed
        ∧ header.packet_id = p ∧ header.final_destination ≠ st.mac n
        ∧ 2 ≤ header.ttl ∧ (net.nodes n).dedup.Contains p = false
  | _ => False

/-- In the event node `n` is ticked when a timer it has set for packet `p`
and not cancelled has expired. -/
def GoesOff (net : Network N H) (n : Fin N) (p : PacketId) :
    NetEvent N → Prop
  | .tick m now => m = n ∧ (net.nodes n).Due p now
  | _ => False

variable {st : Stations N} {net : Network N H} {n : Fin N} {p : PacketId}

/-- What may be handed over for a place on the air is what is there. -/
theorem CanHand.eq {i : Nat} {m : Fin N} {tx tx' : Transmission N}
    (h : net.CanHand i n tx) (h' : net.CanHand i m tx') : tx' = tx :=
  Option.some.inj (h'.1.symm.trans h.1)

/-- A copy that is new to the node is taken on or counts as overheard. -/
theorem hearsNew_iff {i : Nat} {now : TimePoint} {is_candidate : Bool}
    {tx : Transmission N} (hcan : net.CanHand i n tx) :
    HearsNew st net n p (.deliver i n now is_candidate)
      ↔ (∃ header consumed, verdict tx.frame.data (st.mac n) is_candidate
          (st.config n) (net.nodes n).dedup = .candidate header consumed
          ∧ header.packet_id = p)
        ∨ ∃ header, verdict tx.frame.data (st.mac n) is_candidate
          (st.config n) (net.nodes n).dedup = .overheard header
          ∧ header.packet_id = p := by
  constructor
  · rintro ⟨-, tx', header, consumed, hcan', hf, rfl, hdest, h0, hnew⟩
    obtain rfl := hcan.eq hcan'
    cases is_candidate with
    | true => exact Or.inl ⟨header, consumed,
        verdict_eq_candidate_iff.mpr ⟨hf, hdest, h0, hnew, rfl⟩, rfl⟩
    | false => exact Or.inr ⟨header,
        verdict_eq_overheard_iff.mpr ⟨⟨consumed, hf⟩, hdest, h0, hnew, rfl⟩,
        rfl⟩
  · rintro (⟨header, consumed, hv, rfl⟩ | ⟨header, hv, rfl⟩)
    · obtain ⟨hf, hdest, h0, hnew, -⟩ := verdict_eq_candidate_iff.mp hv
      exact ⟨rfl, tx, header, consumed, hcan, hf, rfl, hdest, h0, hnew⟩
    · obtain ⟨⟨consumed, hf⟩, hdest, h0, hnew, -⟩ :=
        verdict_eq_overheard_iff.mp hv
      exact ⟨rfl, tx, header, consumed, hcan, hf, rfl, hdest, h0, hnew⟩

/-- A copy that is taken on and will be forwarded. -/
theorem takesOn_iff {i : Nat} {now : TimePoint} {is_candidate : Bool}
    {tx : Transmission N} (hcan : net.CanHand i n tx) :
    TakesOn st net n p (.deliver i n now is_candidate)
      ↔ ∃ header consumed, verdict tx.frame.data (st.mac n) is_candidate
          (st.config n) (net.nodes n).dedup = .candidate header consumed
          ∧ header.packet_id = p ∧ transmission tx.frame.data ≠ none := by
  constructor
  · rintro ⟨-, rfl, tx', header, consumed, hcan', hf, rfl, hdest, httl, hnew⟩
    obtain rfl := hcan.eq hcan'
    have h0 : header.ttl ≠ 0 := by
      intro h0
      rw [h0] at httl
      exact absurd httl (by decide)
    refine ⟨header, consumed,
      verdict_eq_candidate_iff.mpr ⟨hf, hdest, h0, hnew, rfl⟩, rfl, ?_⟩
    rw [hf.transmission_some httl]
    exact Option.some_ne_none _
  · rintro ⟨header, consumed, hv, rfl, hdata⟩
    obtain ⟨hf, hdest, -, hnew, hflag⟩ := verdict_eq_candidate_iff.mp hv
    refine ⟨rfl, hflag, tx, header, consumed, hcan, hf, rfl, hdest, ?_, hnew⟩
    rw [hf.transmission_eq] at hdata
    by_cases httl : header.ttl > 1
    · exact ttl_gt_one_iff.mp httl
    · rw [if_neg httl] at hdata
      exact absurd rfl hdata

-- what an event of each kind does to what waits

theorem step_deliver {i : Nat} {m : Fin N} {now : TimePoint}
    {is_candidate : Bool} {tx : Transmission N} (hcan : net.CanHand i m tx) :
    net.step st (.deliver i m now is_candidate)
      = (net.hand i m).act st m now
        (.receive now tx.frame.data is_candidate) := by
  simp only [Network.step, hcan.1, if_pos hcan]

theorem step_deliver_none {i : Nat} {m : Fin N} {now : TimePoint}
    {is_candidate : Bool} (hcan : ¬ ∃ tx, net.CanHand i m tx) :
    net.step st (.deliver i m now is_candidate) = net := by
  rcases deliver_cases st net i m now is_candidate with heq | ⟨tx, htx, -⟩
  · exact heq
  · exact absurd ⟨tx, htx⟩ hcan

theorem willForward_act {m : Fin N} {now : TimePoint} {ev : NodeEvent}
    (hne : n ≠ m) : (net.act st m now ev).WillForward p n
      ↔ net.WillForward p n := by
  unfold WillForward
  rw [act_other st net now ev hne]

theorem willForward_receive {i : Nat} {now : TimePoint} {is_candidate : Bool}
    {tx : Transmission N} (hcan : net.CanHand i n tx) :
    ((net.hand i n).act st n now
        (.receive now tx.frame.data is_candidate)).WillForward p n
      ↔ TakesOn st net n p (.deliver i n now is_candidate)
        ∨ net.WillForward p n
          ∧ ¬ HearsNew st net n p (.deliver i n now is_candidate) := by
  have hnodes : (net.hand i n).nodes n = net.nodes n := rfl
  rw [takesOn_iff hcan, hearsNew_iff hcan]
  unfold WillForward
  rw [act_self, hnodes]
  simp only [TimerNode.receive_pending]
  cases verdict tx.frame.data (st.mac n) is_candidate (st.config n)
    (net.nodes n).dedup with
  | candidate header consumed =>
      by_cases hp : p = header.packet_id
      · simp [hp]
      · simp [hp, Ne.symm hp]
  | overheard header =>
      by_cases hp : p = header.packet_id
      · simp [hp]
      · simp [hp, Ne.symm hp]
  | _ => simp

theorem willForward_tick {now : TimePoint} :
    (net.act st n now (.tick now)).WillForward p n
      ↔ net.WillForward p n ∧ ¬ (net.nodes n).Due p now := by
  unfold WillForward
  rw [act_self]
  show (∃ e, (TimerNode.Tick now (net.nodes n)).coordinator.pending.lookup p
    = some e ∧ _) ↔ _
  by_cases hdue : (net.nodes n).Due p now
  · rw [(TimerNode.tick_of_due hdue).1]
    simp [hdue]
  · rw [(TimerNode.tick_of_not_due hdue).1]
    simp [hdue]

theorem willForward_same {m : Fin N} {now : TimePoint} {ev : NodeEvent}
    (hsame : ((net.nodes m).step (st.mac m) (st.config m) ev).coordinator
      = (net.nodes m).coordinator) :
    (net.act st m now ev).WillForward p n ↔ net.WillForward p n := by
  by_cases hm : n = m
  · subst hm
    unfold WillForward
    rw [act_self, hsame]
  · exact willForward_act hm

/-- What waits to be forwarded after an event is taken on in it, or waited
and neither another copy came nor a timer went off. -/
theorem willForward_step (net : Network N H) (ev : NetEvent N) :
    (net.step st ev).WillForward p n
      ↔ TakesOn st net n p ev
        ∨ net.WillForward p n ∧ ¬ HearsNew st net n p ev
          ∧ ¬ GoesOff net n p ev := by
  cases ev with
  | originate m now destination frame =>
      have hsame : (net.step st (.originate m now destination frame)
        ).WillForward p n ↔ net.WillForward p n := Iff.rfl
      simp only [hsame, TakesOn, HearsNew, GoesOff]
      tauto
  | deliver i m now is_candidate =>
      by_cases hcan : ∃ tx, net.CanHand i m tx
      · obtain ⟨tx, hcan⟩ := hcan
        rw [step_deliver hcan]
        by_cases hm : n = m
        · subst hm
          rw [willForward_receive hcan]
          simp only [GoesOff]
          tauto
        · rw [willForward_act hm]
          have hheld : (net.hand i m).WillForward p n ↔ net.WillForward p n :=
            Iff.rfl
          simp only [hheld, TakesOn, HearsNew, GoesOff, Ne.symm hm]
          tauto
      · rw [step_deliver_none hcan]
        have hnone : ¬ TakesOn st net n p (.deliver i m now is_candidate)
            ∧ ¬ HearsNew st net n p (.deliver i m now is_candidate) := by
          refine ⟨?_, ?_⟩
          · rintro ⟨rfl, -, tx, -, -, htx, -⟩
            exact hcan ⟨tx, htx⟩
          · rintro ⟨rfl, tx, -, -, htx, -⟩
            exact hcan ⟨tx, htx⟩
        simp only [GoesOff]
        tauto
  | tick m now =>
      show (net.act st m now (.tick now)).WillForward p n ↔ _
      by_cases hm : n = m
      · subst hm
        rw [willForward_tick]
        simp only [TakesOn, HearsNew, GoesOff]
        tauto
      · rw [willForward_act hm]
        simp only [TakesOn, HearsNew, GoesOff, Ne.symm hm]
        tauto
  | own_send m now packet_id =>
      rw [show (net.step st (.own_send m now packet_id)).WillForward p n
        ↔ net.WillForward p n from willForward_same rfl]
      simp only [TakesOn, HearsNew, GoesOff]
      tauto
  | evict m now =>
      rw [show (net.step st (.evict m now)).WillForward p n
        ↔ net.WillForward p n from willForward_same rfl]
      simp only [TakesOn, HearsNew, GoesOff]
      tauto

/-- A forward on the air was there, or a node's event puts it there. -/
theorem hasForwarded_act {m : Fin N} {now : TimePoint} {ev : NodeEvent}
    {more : List TransmittedFrame}
    (hmore : ((net.nodes m).step (st.mac m) (st.config m) ev).nic.transmitted
      = (net.nodes m).nic.transmitted ++ more) :
    (net.act st m now ev).HasForwarded p n
      ↔ net.HasForwarded p n
        ∨ m = n ∧ ∃ f ∈ more, f.retained.map Prod.fst = some p := by
  unfold HasForwarded
  rw [act_air st net m now ev more hmore]
  constructor
  · rintro ⟨tx, htx, hsender, hfor⟩
    rcases List.mem_append.mp htx with htx | htx
    · exact Or.inl ⟨tx, htx, hsender, hfor⟩
    · obtain ⟨f, hf, rfl⟩ := List.mem_map.mp htx
      exact Or.inr ⟨hsender, f, hf, hfor⟩
  · rintro (⟨tx, htx, hrest⟩ | ⟨rfl, f, hf, hfor⟩)
    · exact ⟨tx, List.mem_append_left _ htx, hrest⟩
    · exact ⟨_, List.mem_append_right _ (List.mem_map_of_mem hf), rfl, hfor⟩

theorem hasForwarded_tick {now : TimePoint} :
    (net.act st n now (.tick now)).HasForwarded p n
      ↔ net.HasForwarded p n
        ∨ net.WillForward p n ∧ (net.nodes n).Due p now := by
  have htick : (net.nodes n).step (st.mac n) (st.config n) (.tick now)
      = TimerNode.Tick now (net.nodes n) := rfl
  by_cases hdue : (net.nodes n).Due p now
  · obtain ⟨-, more, hmore, hsent⟩ := TimerNode.tick_of_due hdue
    rw [hasForwarded_act (htick ▸ hmore)]
    refine or_congr_right ⟨?_, ?_⟩
    · rintro ⟨-, f, hf, hfor⟩
      -- whatever a node sends for the packet was pending for it
      obtain ⟨more', hmore', hpending⟩ :=
        ((net.nodes n).step_sending (st.mac n) (st.config n) (.tick now)).sent
      obtain rfl := List.append_cancel_left (hmore.symm.trans hmore')
      obtain ⟨q, e, data, he, hdata, rfl⟩ := hpending f hf
      obtain rfl : q = p := Option.some.inj hfor
      exact ⟨⟨e, he, by simp [hdata]⟩, hdue⟩
    · rintro ⟨⟨e, he, hdata⟩, -⟩
      obtain ⟨data, hdata⟩ := Option.ne_none_iff_exists'.mp hdata
      obtain ⟨f, hf, hr⟩ := hsent e data he hdata
      exact ⟨rfl, f, hf, by rw [hr]; rfl⟩
  · obtain ⟨-, more, hmore, hnone⟩ := TimerNode.tick_of_not_due hdue
    rw [hasForwarded_act (htick ▸ hmore)]
    refine or_congr_right (iff_of_false ?_ fun h => hdue h.2)
    rintro ⟨-, f, hf, hfor⟩
    exact hnone f hf hfor

/-- What is forwarded after an event was before, or waited when a timer
went off. -/
theorem hasForwarded_step (net : Network N H) (ev : NetEvent N) :
    (net.step st ev).HasForwarded p n
      ↔ net.HasForwarded p n ∨ net.WillForward p n ∧ GoesOff net n p ev := by
  cases ev with
  | originate m now destination frame =>
      refine ⟨?_, ?_⟩
      · rintro ⟨tx, htx, hsender, hfor⟩
        rcases List.mem_append.mp htx with htx | htx
        · exact Or.inl ⟨tx, htx, hsender, hfor⟩
        · obtain rfl := List.mem_singleton.mp htx
          cases hfor
      · rintro (⟨tx, htx, hrest⟩ | ⟨-, hoff⟩)
        · exact ⟨tx, List.mem_append_left _ htx, hrest⟩
        · exact absurd hoff id
  | deliver i m now is_candidate =>
      rcases deliver_cases st net i m now is_candidate with heq | ⟨tx, -, heq⟩
      · rw [heq]
        simp [GoesOff]
      · have hnic : (((net.hand i m).nodes m).step (st.mac m) (st.config m)
            (.receive now tx.frame.data is_candidate)).nic.transmitted
            = ((net.hand i m).nodes m).nic.transmitted ++ [] := by
          rw [TimerNode.step_receive, List.append_nil]
        rw [heq, hasForwarded_act hnic]
        simp only [GoesOff, List.not_mem_nil, false_and, exists_false,
          and_false, or_false]
        exact Iff.rfl
  | tick m now =>
      show (net.act st m now (.tick now)).HasForwarded p n ↔ _
      by_cases hm : m = n
      · subst hm
        rw [hasForwarded_tick]
        simp [GoesOff]
      · obtain ⟨more, hmore, -⟩ :=
          ((net.nodes m).step_sending (st.mac m) (st.config m) (.tick now)).sent
        rw [hasForwarded_act hmore]
        simp [GoesOff, hm]
  | own_send m now packet_id =>
      refine (hasForwarded_act (List.append_nil _).symm).trans ?_
      simp [GoesOff]
  | evict m now =>
      refine (hasForwarded_act (List.append_nil _).symm).trans ?_
      simp [GoesOff]

-- ============================================================ all senders

/-- The node has sent packet `p`, or will forward it. -/
def Sends (net : Network N H) (p : PacketId) (n : Fin N) : Prop :=
  (∃ tx ∈ net.air, tx.sender = n ∧ tx.packet_id = some p)
    ∨ net.WillForward p n

/-- In the event node `n` puts a frame of its own with packet id `p` on
the air. -/
def Originates (n : Fin N) (p : PacketId) : NetEvent N → Prop
  | .originate m _ _ frame => m = n
      ∧ (deserialize_header frame 0).1.map JokerHeader.packet_id = some p
  | _ => False

/-- What a node sends for an entry of a packet carries the packet's id. -/
theorem Accounted.sends_packet (h : Accounted st net) {n : Fin N}
    {p q : PacketId} {e : PendingForward} {data : Bytes}
    {x : Transmission N}
    (he : (net.nodes n).coordinator.pending.lookup q = some e)
    (hdata : transmission e.frame = some data)
    (hx : x.frame = ⟨MacAddress.broadcast, data, true, some (q, e)⟩)
    (hp : x.packet_id = some p) : q = p := by
  obtain ⟨i, hi⟩ := (h.entries n).pending q e he
  obtain ⟨tx, header, consumed, -, -, -, hf, hid, -⟩ := hi.received
  have hparse := (hf.forwardOf hdata).reparsed.parses
  unfold Transmission.packet_id at hp
  rw [hx] at hp
  simp [hparse] at hp
  exact hid.symm.trans hp

/-- Who sends a packet after an event did before, or took it on or
originated it in the event. -/
theorem Sends.step (h : Accounted st net) {ev : NetEvent N}
    (hs : (net.step st ev).Sends p n) :
    net.Sends p n ∨ TakesOn st net n p ev ∨ Originates n p ev := by
  -- a node's event puts on the air what was pending
  have hact : ∀ m now ev, (∃ tx ∈ (net.act st m now ev).air,
      tx.sender = n ∧ tx.packet_id = some p) → net.Sends p n := by
    intro m now ev hair
    obtain ⟨tx, htx, hsender, hp⟩ := hair
    rcases mem_air_act htx with hold | ⟨q, e, data, he, hdata, -, rfl⟩
    · exact Or.inl ⟨tx, hold, hsender, hp⟩
    · obtain rfl := h.sends_packet he hdata rfl hp
      obtain rfl : m = n := hsender
      exact Or.inr ⟨e, he, by simp [hdata]⟩
  rcases hs with hair | hwill
  · cases ev with
    | originate m now destination frame =>
        obtain ⟨tx, htx, hsender, hp⟩ := hair
        rcases List.mem_append.mp htx with htx | htx
        · exact Or.inl (Or.inl ⟨tx, htx, hsender, hp⟩)
        · obtain rfl := List.mem_singleton.mp htx
          exact Or.inr (Or.inr ⟨hsender, hp⟩)
    | deliver i m now is_candidate =>
        rcases deliver_cases st net i m now is_candidate with
          heq | ⟨tx, -, heq⟩
        · rw [heq] at hair
          exact Or.inl (Or.inl hair)
        · have hair' := act_air st (net.hand i m) m now
            (.receive now tx.frame.data is_candidate) []
            (by rw [TimerNode.step_receive, List.append_nil])
          rw [heq, hair', List.map_nil, List.append_nil] at hair
          exact Or.inl (Or.inl hair)
    | tick m now => exact Or.inl (hact m now _ hair)
    | own_send m now packet_id => exact Or.inl (hact m now _ hair)
    | evict m now => exact Or.inl (hact m now _ hair)
  · rcases (willForward_step net ev).mp hwill with htakes | ⟨hold, -⟩
    · exact Or.inr (Or.inl htakes)
    · exact Or.inl (Or.inr hold)

end Network

end Joker
