/-
Where every forward on the air came from.

A timer of node `n` is scheduled for one transmission, handed to `n` at
the time (`TakenFrom`); its entry, wherever it is found later, holds
that transmission's frame, and what the callback transmits for it goes
on the air with that transmission as its parent. Since nothing is handed
over twice, two timers of a node never have one source, and since no
entry is transmitted twice, a transmission has at most one child at each
node (`child_unique`).

The invariant is kept by the three things a network event is made of: a
frame originated, a transmission handed over, an event at one node.
-/
import Joker.Model.Network
import Joker.Proofs.RetainedFrames

namespace Joker

open Transition

variable {N : Nat} {H : WheelHeap ForwardCallback}

/-- The timer id of the entry a transmission was sent for. -/
def Transmission.timer_id (tx : Transmission N) :
    Option TimerId :=
  tx.frame.retained.map fun r => r.2.timer_id

namespace Network

-- ========================================================== provenance

/-- The next timer id of a node. -/
def nextId (net : Network N H) (n : Fin N) : TimerId :=
  (net.nodes n).coordinator.wheel.next_id

/-- Entry `e` of node `n`, for packet `p`, was taken on for transmission
`i`, a data packet for another node with TTL at least 1. -/
structure TakenFrom (st : Stations N) (net : Network N H) (n : Fin N)
    (p : PacketId) (e : PendingForward) (i : Nat) : Prop where
  drawn : e.timer_id < net.nextId n
  source : net.source n e.timer_id = some i
  handed : (i, n) ∈ net.handed
  received : ∃ tx header consumed, net.air[i]? = some tx ∧ tx.sender ≠ n
    ∧ tx.frame.data = e.frame
    ∧ DataFrame (st.config n) e.frame header consumed
    ∧ header.packet_id = p ∧ header.final_destination ≠ st.mac n
    ∧ header.ttl ≠ 0

/-- Transmission `tx`, in place `j`, is a node's own frame, or the forward
of an entry taken on for an earlier transmission, its parent. -/
def Traced (st : Stations N) (net : Network N H) (j : Nat)
    (tx : Transmission N) : Prop :=
  (tx.frame.retained = none ∧ tx.parent = none)
    ∨ ∃ p e i, tx.frame.retained = some (p, e) ∧ tx.parent = some i ∧ i < j
      ∧ TakenFrom st net tx.sender p e i
      ∧ transmission e.frame = some tx.frame.data

/-- Every entry and every transmission is accounted for. -/
structure Accounted (st : Stations N) (net : Network N H) : Prop where
  fresh : ∀ n, FreshIds (net.nextId n)
    (forwardIds (net.nodes n).coordinator (net.nodes n).nic [])
  sent_ids : ∀ n, (net.air.filter (·.sender = n)).filterMap
    Transmission.timer_id = sentIds (net.nodes n).nic
  entries : ∀ n, Entries (fun p e => ∃ i, TakenFrom st net n p e i)
    (net.nodes n).coordinator (net.nodes n).nic
  source_handed : ∀ n a i, a < net.nextId n → net.source n a = some i →
    (i, n) ∈ net.handed
  source_inj : ∀ n a b i, a < net.nextId n → b < net.nextId n →
    net.source n a = some i → net.source n b = some i → a = b
  traced : ∀ j tx, net.air[j]? = some tx → Traced st net j tx

/-- `net'` has everything `net` has on record, at the same places. -/
structure Extends (net net' : Network N H) : Prop where
  air : ∀ (i : Nat) tx, net.air[i]? = some tx → net'.air[i]? = some tx
  handed : ∀ x ∈ net.handed, x ∈ net'.handed
  next_id : ∀ n, net.nextId n ≤ net'.nextId n
  source : ∀ n a, a < net.nextId n → net'.source n a = net.source n a

theorem TakenFrom.mono {st : Stations N} {net net' : Network N H} {n : Fin N}
    {p : PacketId} {e : PendingForward} {i : Nat}
    (h : TakenFrom st net n p e i) (hext : Extends net net') :
    TakenFrom st net' n p e i := by
  obtain ⟨tx, header, consumed, htx, hrest⟩ := h.received
  refine ⟨lt_of_lt_of_le h.drawn (hext.next_id n), ?_,
    hext.handed _ h.handed, tx, header, consumed, hext.air i tx htx, hrest⟩
  rw [hext.source n _ h.drawn]
  exact h.source

theorem Traced.mono {st : Stations N} {net net' : Network N H} {j : Nat}
    {tx : Transmission N} (h : Traced st net j tx)
    (hext : Extends net net') : Traced st net' j tx := by
  rcases h with hown | ⟨p, e, i, hret, hparent, hlt, htaken, hdata⟩
  · exact Or.inl hown
  · exact Or.inr ⟨p, e, i, hret, hparent, hlt, htaken.mono hext, hdata⟩

theorem accounted_start (H : WheelHeap ForwardCallback) (st : Stations N) :
    Accounted st (start H st) where
  fresh _ := ⟨List.nodup_nil, fun _ h => absurd h List.not_mem_nil⟩
  sent_ids _ := rfl
  entries _ := Entries.start
  source_handed _ _ _ _ h := by cases h
  source_inj _ _ _ _ _ _ h := by cases h
  traced _ _ h := by cases h

-- ================================================= originating a frame

theorem Accounted.originate {st : Stations N} {net : Network N H}
    (h : Accounted st net) (n : Fin N) (now : TimePoint)
    (destination : MacAddress) (frame : Bytes) :
    Accounted st (net.step st (.originate n now destination frame)) := by
  have hext : Extends net
      (net.step st (.originate n now destination frame)) := by
    refine ⟨fun i tx htx => ?_, fun _ hx => hx, fun _ => le_refl _,
      fun _ _ _ => rfl⟩
    exact (List.getElem?_append_left
      (List.getElem?_eq_some_iff.mp htx).1).trans htx
  refine ⟨h.fresh, fun m => ?_, fun m => ?_, h.source_handed, h.source_inj,
    fun j tx htx => ?_⟩
  · have hids := h.sent_ids m
    show ((net.air ++ [_]).filter _).filterMap _ = _
    rw [List.filter_append, List.filterMap_append, hids]
    rw [List.filter_cons]
    split <;> exact List.append_nil _
  · exact (h.entries m).mono fun p e ⟨i, hi⟩ => ⟨i, hi.mono hext⟩
  · rcases Nat.lt_or_ge j net.air.length with hj | hj
    · refine (h.traced j tx ?_).mono hext
      exact (List.getElem?_append_left hj).symm.trans htx
    · have hlast : [(⟨n, ⟨destination, frame, destination.IsBroadcast, none⟩,
          now, none⟩ : Transmission N)][j - net.air.length]? = some tx :=
        (List.getElem?_append_right hj).symm.trans htx
      obtain rfl := List.mem_singleton.mp (List.mem_of_getElem? hlast)
      exact Or.inl ⟨rfl, rfl⟩

-- ========================================================= handing over

/-- A hand-over is on record; nothing is scheduled yet. -/
theorem Accounted.hand {st : Stations N} {net : Network N H}
    (h : Accounted st net) (i : Nat) (n : Fin N) :
    Accounted st (net.hand i n) := by
  have hsource : ∀ m a, a < net.nextId m →
      (net.hand i n).source m a = net.source m a := by
    intro m a ha
    show Function.update net.source n _ m a = _
    by_cases hm : m = n
    · subst hm
      rw [Function.update_self, Function.update_of_ne]
      exact Nat.ne_of_lt ha
    · rw [Function.update_of_ne hm]
  have hext : Extends net (net.hand i n) :=
    ⟨fun _ _ htx => htx, fun _ hx => List.mem_cons_of_mem _ hx,
      fun _ => le_refl _, hsource⟩
  refine ⟨h.fresh, h.sent_ids, fun m => ?_, ?_, ?_, fun j tx htx => ?_⟩
  · exact (h.entries m).mono fun p e ⟨k, hk⟩ => ⟨k, hk.mono hext⟩
  · intro m a k ha hk
    rw [hsource m a ha] at hk
    exact List.mem_cons_of_mem _ (h.source_handed m a k ha hk)
  · intro m a b k ha hb hka hkb
    rw [hsource m a ha] at hka
    rw [hsource m b hb] at hkb
    exact h.source_inj m a b k ha hb hka hkb
  · exact (h.traced j tx htx).mono hext

-- ==================================================== an event at a node

/-- The node steps, and what it transmits is not on the air yet. -/
def stepNode (st : Stations N) (net : Network N H) (n : Fin N)
    (ev : NodeEvent) : Network N H :=
  { net with
    nodes := Function.update net.nodes n
      ((net.nodes n).step (st.mac n) (st.config n) ev) }

theorem stepNode_self (st : Stations N) (net : Network N H) (n : Fin N)
    (ev : NodeEvent) :
    (net.stepNode st n ev).nodes n
      = (net.nodes n).step (st.mac n) (st.config n) ev :=
  Function.update_self _ _ _

theorem stepNode_ne (st : Stations N) (net : Network N H) {n m : Fin N}
    (ev : NodeEvent) (h : m ≠ n) :
    (net.stepNode st n ev).nodes m = net.nodes m :=
  Function.update_of_ne h _ _

/-- The frames a node transmits in an event. -/
def sent (st : Stations N) (net : Network N H) (n : Fin N) (ev : NodeEvent) :
    List TransmittedFrame :=
  ((net.stepNode st n ev).nodes n).nic.transmitted.drop
    (net.nodes n).nic.transmitted.length

theorem transmitted_stepNode (st : Stations N) (net : Network N H)
    (n : Fin N) (ev : NodeEvent) :
    ((net.stepNode st n ev).nodes n).nic.transmitted
      = (net.nodes n).nic.transmitted ++ net.sent st n ev := by
  obtain ⟨more, hmore⟩ :=
    TimerNode.step_transmitted (net.nodes n) (st.mac n) (st.config n) ev
  unfold sent
  rw [stepNode_self, hmore, List.drop_left]

/-- An event at a node: the node steps, then its frames go on the air. -/
theorem act_eq (st : Stations N) (net : Network N H) (n : Fin N)
    (now : TimePoint) (ev : NodeEvent) :
    net.act st n now ev
      = { net.stepNode st n ev with
          air := net.air ++ (net.sent st n ev).map fun f =>
            ⟨n, f, now,
              f.retained.bind fun r => net.source n r.2.timer_id⟩ } := by
  unfold act sent
  rw [stepNode_self]
  rfl

theorem act_self (st : Stations N) (net : Network N H) (n : Fin N)
    (now : TimePoint) (ev : NodeEvent) :
    (net.act st n now ev).nodes n
      = (net.nodes n).step (st.mac n) (st.config n) ev :=
  Function.update_self _ _ _

theorem act_other (st : Stations N) (net : Network N H) {n m : Fin N}
    (now : TimePoint) (ev : NodeEvent) (h : m ≠ n) :
    (net.act st n now ev).nodes m = net.nodes m :=
  Function.update_of_ne h _ _

/-- What an event at a node puts on the air. -/
theorem act_air (st : Stations N) (net : Network N H) (n : Fin N)
    (now : TimePoint) (ev : NodeEvent) (more : List TransmittedFrame)
    (hmore : ((net.nodes n).step (st.mac n) (st.config n) ev).nic.transmitted
      = (net.nodes n).nic.transmitted ++ more) :
    (net.act st n now ev).air = net.air ++ more.map fun f =>
      ⟨n, f, now, f.retained.bind fun r => net.source n r.2.timer_id⟩ := by
  unfold act
  simp [hmore]

theorem extends_stepNode (st : Stations N) (net : Network N H) (n : Fin N)
    (ev : NodeEvent) : Extends net (net.stepNode st n ev) := by
  refine ⟨fun _ _ htx => htx, fun _ hx => hx, fun m => ?_, fun _ _ _ => rfl⟩
  unfold nextId
  by_cases hm : m = n
  · subst hm
    rw [stepNode_self]
    rcases TimerNode.step_next_id (net.nodes m) (st.mac m) (st.config m) ev
      with h | ⟨-, h⟩
    · exact le_of_eq h.symm
    · rw [h]
      exact Nat.le_succ _
  · rw [stepNode_ne st net ev hm]

theorem extends_act (st : Stations N) (net : Network N H) (n : Fin N)
    (now : TimePoint) (ev : NodeEvent) :
    Extends (net.stepNode st n ev) (net.act st n now ev) := by
  rw [act_eq]
  refine ⟨fun i tx htx => ?_, fun _ hx => hx, fun _ => le_refl _,
    fun _ _ _ => rfl⟩
  exact (List.getElem?_append_left
    (List.getElem?_eq_some_iff.mp htx).1).trans htx

/-- What the next timer of a node would be scheduled for: a transmission
handed to the node, and the source of no timer so far. -/
def ReadyFor (net : Network N H) (n : Fin N) (frame : Bytes) : Prop :=
  ∃ (i : Nat) (tx : Transmission N), net.source n (net.nextId n) = some i
    ∧ (i, n) ∈ net.handed
    ∧ (∀ a < net.nextId n, net.source n a ≠ some i)
    ∧ net.air[i]? = some tx ∧ tx.sender ≠ n ∧ tx.frame.data = frame

/-- The entries of the node after an event, before its frames go on the
air. -/
theorem Accounted.entries_stepNode {st : Stations N} {net : Network N H}
    (h : Accounted st net) (n : Fin N) (ev : NodeEvent)
    (hready : ∀ now frame, ev = .receive now frame true →
      net.ReadyFor n frame) (m : Fin N) :
    Entries (fun p e => ∃ i, TakenFrom st (net.stepNode st n ev) m p e i)
      ((net.stepNode st n ev).nodes m).coordinator
      ((net.stepNode st n ev).nodes m).nic := by
  have hext := extends_stepNode st net n ev
  have hold := (h.entries m).mono fun p e ⟨i, hi⟩ =>
    (⟨i, hi.mono hext⟩ : ∃ i, TakenFrom st (net.stepNode st n ev) m p e i)
  by_cases hm : m = n
  · subst hm
    rw [stepNode_self]
    refine hold.step fun now frame header consumed hev hv => ?_
    obtain ⟨i, tx, hsource, hhanded, -, htx, hne, hdata⟩ :=
      hready now frame hev
    obtain ⟨hf, hdest, httl, -, -⟩ := verdict_eq_candidate_iff.mp hv
    refine ⟨i, ?_, hsource, hhanded, tx, header, consumed, htx, hne, hdata,
      hf, rfl, hdest, httl⟩
    show net.nextId m
      < ((net.stepNode st m ev).nodes m).coordinator.wheel.next_id
    rw [stepNode_self, hev, TimerNode.step_candidate hv]
    exact Nat.lt_succ_self _
  · rw [stepNode_ne st net ev hm]
    exact hold

/-- A timer drawn in an event has the source that was made ready for it. -/
theorem drawn_stepNode {st : Stations N} {net : Network N H} {n m : Fin N}
    {ev : NodeEvent} (hready : ∀ now frame, ev = .receive now frame true →
      net.ReadyFor n frame) {a : TimerId} {i : Nat}
    (ha : a < (net.stepNode st n ev).nextId m)
    (hi : net.source m a = some i) :
    a < net.nextId m ∨ (a = net.nextId m ∧ (i, m) ∈ net.handed
      ∧ ∀ b < net.nextId m, net.source m b ≠ some i) := by
  unfold nextId at ha
  by_cases hm : m = n
  · subst hm
    rw [stepNode_self] at ha
    rcases TimerNode.step_next_id (net.nodes m) (st.mac m) (st.config m) ev
      with hid | ⟨⟨t, frame, header, consumed, hev, -⟩, hid⟩
    · rw [hid] at ha
      exact Or.inl ha
    · rw [hid] at ha
      rcases Nat.lt_or_eq_of_le (Nat.lt_succ_iff.mp ha) with ha | ha
      · exact Or.inl ha
      · obtain ⟨i', tx, hsource, hhanded, hnew, -⟩ := hready t frame hev
        have hii : i' = i := by
          have heq : net.source m (net.nextId m) = some i := by
            rw [← hi, ha]
            rfl
          exact Option.some.inj (hsource.symm.trans heq)
        subst hii
        exact Or.inr ⟨ha, hhanded, hnew⟩
  · rw [stepNode_ne st net ev hm] at ha
    exact Or.inl ha

/-- What a node puts on the air is what its adapter was given. -/
theorem sent_ids_act {st : Stations N} {net : Network N H} {m : Fin N}
    (h : (net.air.filter (·.sender = m)).filterMap Transmission.timer_id
      = sentIds (net.nodes m).nic) (n : Fin N) (now : TimePoint)
    (ev : NodeEvent) :
    ((net.act st n now ev).air.filter (·.sender = m)).filterMap
        Transmission.timer_id
      = sentIds ((net.act st n now ev).nodes m).nic := by
  rw [act_eq]
  show ((net.air ++ _).filter _).filterMap _
    = sentIds ((net.stepNode st n ev).nodes m).nic
  rw [List.filter_append, List.filterMap_append, h]
  by_cases hm : m = n
  · subst hm
    unfold sentIds
    rw [transmitted_stepNode, List.filterMap_append]
    congr 1
    rw [List.filter_eq_self.mpr, List.filterMap_map]
    · rfl
    · intro tx htx
      obtain ⟨f, -, rfl⟩ := List.mem_map.mp htx
      exact decide_eq_true rfl
  · rw [stepNode_ne st net ev hm]
    have hnone : ((net.sent st n ev).map fun f => (⟨n, f, now,
        f.retained.bind fun r => net.source n r.2.timer_id⟩ :
        Transmission N)).filter (·.sender = m) = [] := by
      refine List.filter_eq_nil_iff.mpr fun tx htx => ?_
      obtain ⟨f, -, rfl⟩ := List.mem_map.mp htx
      simpa using fun heq : n = m => hm heq.symm
    rw [hnone]
    exact List.append_nil _

/-- What comes on the air in an event goes back to what the node took
on. -/
theorem Accounted.traced_act {st : Stations N} {net : Network N H}
    (h : Accounted st net) {n : Fin N} (now : TimePoint) {ev : NodeEvent}
    (hready : ∀ now frame, ev = .receive now frame true →
      net.ReadyFor n frame) {j : Nat} {tx : Transmission N}
    (htx : (net.act st n now ev).air[j]? = some tx) :
    Traced st (net.act st n now ev) j tx := by
  have hextends := extends_act st net n now ev
  have hair : (net.act st n now ev).air = net.air ++ (net.sent st n ev).map
      fun f => ⟨n, f, now,
        f.retained.bind fun r => net.source n r.2.timer_id⟩ := by
    rw [act_eq]
  rw [hair] at htx
  rcases Nat.lt_or_ge j net.air.length with hj | hj
  · rw [List.getElem?_append_left hj] at htx
    exact ((h.traced j tx htx).mono (extends_stepNode st net n ev)).mono
      hextends
  · rw [List.getElem?_append_right hj] at htx
    obtain ⟨f, hf, rfl⟩ := List.mem_map.mp (List.mem_of_getElem? htx)
    have hmem : f ∈ ((net.stepNode st n ev).nodes n).nic.transmitted := by
      rw [transmitted_stepNode]
      exact List.mem_append_right _ hf
    obtain ⟨p, e, data, ⟨i, hi⟩, hdata, rfl⟩ :=
      (h.entries_stepNode n ev hready n).sent f hmem
    obtain ⟨txi, -, -, htxi, -⟩ := hi.received
    refine Or.inr ⟨p, e, i, rfl, hi.source, ?_, hi.mono hextends, hdata⟩
    exact lt_of_lt_of_le (List.getElem?_eq_some_iff.mp htxi).1 hj

/-- An event at a node keeps everything accounted for, if what the node
takes on was handed to it. -/
theorem Accounted.act {st : Stations N} {net : Network N H}
    (h : Accounted st net) (n : Fin N) (now : TimePoint) (ev : NodeEvent)
    (hready : ∀ now frame, ev = .receive now frame true →
      net.ReadyFor n frame) :
    Accounted st (net.act st n now ev) := by
  have hextends := extends_act st net n now ev
  have hact := act_eq st net n now ev
  have hnodes : (net.act st n now ev).nodes = (net.stepNode st n ev).nodes := by
    rw [hact]
  have hsrc : (net.act st n now ev).source = net.source := by
    rw [hact]
    rfl
  have hhand : (net.act st n now ev).handed = net.handed := by
    rw [hact]
    rfl
  refine ⟨fun m => ?_, fun m => sent_ids_act (h.sent_ids m) n now ev,
    fun m => ?_, ?_, ?_, fun j tx htx => h.traced_act now hready htx⟩
  · unfold nextId
    rw [hnodes]
    by_cases hm : m = n
    · subst hm
      rw [stepNode_self]
      exact TimerNode.step_preserves (fun hid => hid.freshIds) _ _ _ _
        (h.fresh m)
    · rw [stepNode_ne st net ev hm]
      exact h.fresh m
  · rw [hnodes]
    exact (h.entries_stepNode n ev hready m).mono fun p e ⟨i, hi⟩ =>
      ⟨i, hi.mono hextends⟩
  · intro m a i ha hi
    rw [hsrc] at hi
    rw [hhand]
    unfold nextId at ha
    rw [hnodes] at ha
    rcases drawn_stepNode hready ha hi with ha | ⟨-, hhanded, -⟩
    · exact h.source_handed m a i ha hi
    · exact hhanded
  · intro m a b i ha hb hia hib
    rw [hsrc] at hia hib
    unfold nextId at ha hb
    rw [hnodes] at ha hb
    rcases drawn_stepNode hready ha hia with ha | ⟨rfl, -, hnew⟩
    · rcases drawn_stepNode hready hb hib with hb | ⟨rfl, -, hnew⟩
      · exact h.source_inj m a b i ha hb hia hib
      · exact absurd hia (hnew a ha)
    · rcases drawn_stepNode hready hb hib with hb | ⟨rfl, -, -⟩
      · exact absurd hib (hnew b hb)
      · rfl

-- ================================================================= runs

/-- A delivery hands a transmission over, or changes nothing. -/
theorem deliver_cases (st : Stations N) (net : Network N H) (i : Nat)
    (n : Fin N) (now : TimePoint) (is_candidate : Bool) :
    net.step st (.deliver i n now is_candidate) = net
      ∨ ∃ tx, net.CanHand i n tx
        ∧ net.step st (.deliver i n now is_candidate)
          = (net.hand i n).act st n now
            (.receive now tx.frame.data is_candidate) := by
  cases htx : net.air[i]? with
  | none =>
      refine Or.inl ?_
      simp only [Network.step, htx]
  | some tx =>
      by_cases hcan : net.CanHand i n tx
      · refine Or.inr ⟨tx, hcan, ?_⟩
        simp only [Network.step, htx, if_pos hcan]
      · refine Or.inl ?_
        simp only [Network.step, htx, if_neg hcan]

/-- What is on the air stays there. -/
theorem step_air (st : Stations N) (net : Network N H) (ev : NetEvent N) :
    ∃ more, (net.step st ev).air = net.air ++ more := by
  have hact : ∀ (net : Network N H) n now ev,
      ∃ more, (net.act st n now ev).air = net.air ++ more := by
    intro net n now ev
    obtain ⟨more, hmore⟩ :=
      (net.nodes n).step_transmitted (st.mac n) (st.config n) ev
    exact ⟨_, act_air st net n now ev more hmore⟩
  cases ev with
  | originate n now destination frame => exact ⟨_, rfl⟩
  | deliver i n now is_candidate =>
      rcases deliver_cases st net i n now is_candidate with heq | ⟨tx, -, heq⟩
      · exact ⟨[], by simp [heq]⟩
      · rw [heq]
        exact hact (net.hand i n) n now _
  | tick n now => exact hact net n now _
  | own_send n now packet_id => exact hact net n now _
  | evict n now => exact hact net n now _

/-- Every network event keeps everything accounted for. -/
theorem Accounted.step {st : Stations N} {net : Network N H}
    (h : Accounted st net) (ev : NetEvent N) :
    Accounted st (net.step st ev) := by
  cases ev with
  | originate n now destination frame =>
      exact h.originate n now destination frame
  | deliver i n now is_candidate =>
      rcases deliver_cases st net i n now is_candidate with
        heq | ⟨tx, ⟨htx, hne, hnew⟩, heq⟩
      · rw [heq]
        exact h
      · rw [heq]
        refine (h.hand i n).act n now _ fun t frame hev => ?_
        injection hev with _ hframe _
        refine ⟨i, tx, ?_, List.mem_cons_self, fun a ha hi => ?_, htx, hne,
          hframe⟩
        · show Function.update net.source n _ n _ = _
          rw [Function.update_self]
          exact Function.update_self _ _ _
        · replace ha : a < (net.nodes n).coordinator.wheel.next_id := ha
          replace hi : Function.update net.source n _ n a = some i := hi
          rw [Function.update_self,
            Function.update_of_ne (Nat.ne_of_lt ha)] at hi
          exact hnew (h.source_handed n a i ha hi)
  | tick n now =>
      exact h.act n now _ fun _ _ hev => by cases hev
  | own_send n now packet_id =>
      exact h.act n now _ fun _ _ hev => by cases hev
  | evict n now =>
      exact h.act n now _ fun _ _ hev => by cases hev

/-- Everything is accounted for, all through a run. -/
theorem run_accounted (H : WheelHeap ForwardCallback) (st : Stations N)
    (es : List (NetEvent N)) : Accounted st (run H st es) :=
  exec_invariant (Accounted st) (fun _ ev h => h.step ev) es
    (accounted_start H st)

/-- A transmission has at most one child at each node. -/
theorem Accounted.child_unique {st : Stations N} {net : Network N H}
    (h : Accounted st net) {j k : Nat} {a b : Transmission N}
    (hj : net.air[j]? = some a) (hk : net.air[k]? = some b)
    (hsender : a.sender = b.sender) {i : Nat} (ha : a.parent = some i)
    (hb : b.parent = some i) : j = k := by
  -- two transmissions for entries of one node have different timer ids
  have hpairs : net.air.Pairwise fun x y => x.sender = y.sender →
      ∀ s ∈ x.timer_id, ∀ t ∈ y.timer_id, s ≠ t := by
    have hnd : ∀ n, ((net.air.filter (·.sender = n)).filterMap
        Transmission.timer_id).Nodup := by
      intro n
      rw [h.sent_ids n]
      exact (List.nodup_append.mp (List.nodup_append.mp
        (h.fresh n).nodup).2.1).2.1
    have hall : ∀ n, net.air.Pairwise fun x y => x.sender = n →
        y.sender = n → ∀ s ∈ x.timer_id, ∀ t ∈ y.timer_id, s ≠ t := by
      intro n
      have hpw := hnd n
      unfold List.Nodup at hpw
      rw [List.pairwise_filterMap, List.pairwise_filter] at hpw
      refine hpw.imp fun hxy hx hy s hs t ht => ?_
      exact hxy (decide_eq_true hx) (decide_eq_true hy) s hs t ht
    rw [List.pairwise_iff_getElem]
    intro x y hx hy hxy hs
    exact List.pairwise_iff_getElem.mp (hall _) x y hx hy hxy rfl hs.symm
  have hid : ∀ (j : Nat) (x : Transmission N), net.air[j]? = some x →
      x.parent = some i →
      ∃ e : PendingForward, x.timer_id = some e.timer_id
        ∧ e.timer_id < net.nextId x.sender
        ∧ net.source x.sender e.timer_id = some i := by
    intro j x hx hpar
    rcases h.traced j x hx with ⟨-, hnone⟩ | ⟨p, e, i', hret, hpar', -, ht, -⟩
    · rw [hnone] at hpar
      cases hpar
    · obtain rfl : i' = i := Option.some.inj (hpar'.symm.trans hpar)
      refine ⟨e, ?_, ht.drawn, ht.source⟩
      unfold Transmission.timer_id
      rw [hret]
      rfl
  obtain ⟨e, hae, hae_lt, hae_src⟩ := hid j a hj ha
  obtain ⟨e', hbe, hbe_lt, hbe_src⟩ := hid k b hk hb
  rw [hsender] at hae_lt hae_src
  have heq := h.source_inj _ _ _ _ hae_lt hbe_lt hae_src hbe_src
  rw [List.pairwise_iff_getElem] at hpairs
  obtain ⟨hjl, rfl⟩ := List.getElem?_eq_some_iff.mp hj
  obtain ⟨hkl, rfl⟩ := List.getElem?_eq_some_iff.mp hk
  rcases Nat.lt_trichotomy j k with hlt | heqjk | hgt
  · exact absurd heq (hpairs j k hjl hkl hlt hsender _ hae _ hbe)
  · exact heqjk
  · exact absurd heq.symm (hpairs k j hkl hjl hgt hsender.symm _ hbe _ hae)

end Network

end Joker
