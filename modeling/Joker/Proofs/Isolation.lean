/-
Packets do not get in each other's way.

`alone p` leaves of a run what concerns packet `p`: its originations, its
hand-overs, the ticks, and the nodes' recording of its id. Places on the
air are renumbered, since only the packet's transmissions are on it
(Lib/Selection.lean).

Where no cache loses the id, the run with all its traffic does with the
packet what the run left over does (`packets_isolated`). Both networks
consist, for the packet, of the same machines (Proofs/PacketLife.lean), an
event for another packet moves none of them, and what a machine gives out
is what comes on the air. So an account of a single packet is an account
of each packet under any load.
-/
import Joker.Lib.Selection
import Joker.Proofs.EndToEnd
import Joker.Proofs.PacketLife

namespace Joker

open Transition VectorHeap Selection

variable {N : Nat} {H : WheelHeap ForwardCallback}

/-- Does the transmission carry packet `p`? -/
def Transmission.carries (p : PacketId) (tx : Transmission N) : Bool :=
  tx.packet_id = some p

/-- What a transmission is, but for the bookkeeping. -/
def Transmission.core (tx : Transmission N) :
    Fin N × MacAddress × Bytes × TimePoint :=
  (tx.sender, tx.frame.destination, tx.frame.data, tx.sent_at)

namespace Network

-- ====================================================== what is left of a run

/-- What an event leaves of itself when all but packet `p` is left out. -/
def slice (p : PacketId) (net : Network N H) : NetEvent N → List (NetEvent N)
  | .originate n now destination frame =>
      if (deserialize_header frame 0).1.map JokerHeader.packet_id = some p
      then [.originate n now destination frame] else []
  | .deliver i n now is_candidate =>
      match net.air[i]? with
      | none => []
      | some tx =>
          if tx.carries p
          then [.deliver (ordinal (Transmission.carries p) net.air i) n now
            is_candidate]
          else []
  | .tick n now => [.tick n now]
  | .own_send n now packet_id =>
      if packet_id = p then [.own_send n now packet_id] else []
  | .evict _ _ => []

/-- What is left of a run. -/
def alone (H : WheelHeap ForwardCallback) (st : Stations N) (p : PacketId)
    (es : List (NetEvent N)) : List (NetEvent N) :=
  outputs (step st) (slice p) (start H st) es

-- ============================================================= the packet

variable {st : Stations N} {net net' : Network N H} {p : PacketId}

/-- What a node sends for an entry carries the packet of the entry. -/
theorem Accounted.packet_id_of_sent (h : Accounted st net) {n : Fin N}
    {q : PacketId} {e : PendingForward} {data : Bytes} {x : Transmission N}
    (he : (net.nodes n).coordinator.pending.lookup q = some e)
    (hdata : transmission e.frame = some data)
    (hx : x.frame = ⟨MacAddress.broadcast, data, true, some (q, e)⟩) :
    x.packet_id = some q := by
  obtain ⟨i, hi⟩ := (h.entries n).pending q e he
  obtain ⟨tx, header, consumed, -, -, -, hf, hid, -⟩ := hi.received
  unfold Transmission.packet_id
  rw [hx, (hf.forwardOf hdata).reparsed.parses]
  exact congrArg some hid

/-- Of what a node sends for its entries, the frames for packet `p` are
what carries it. -/
theorem Accounted.core_of_sent (h : Accounted st net) {n : Fin N}
    (now : TimePoint) (more : List TransmittedFrame)
    (hmore : ∀ f ∈ more, ∃ q e data,
      (net.nodes n).coordinator.pending.lookup q = some e
        ∧ transmission e.frame = some data
        ∧ f = ⟨MacAddress.broadcast, data, true, some (q, e)⟩)
    (mk : TransmittedFrame → Transmission N)
    (hmk : ∀ f, (mk f).frame = f ∧ (mk f).sender = n ∧ (mk f).sent_at = now) :
    ((more.map mk).filter (Transmission.carries p)).map Transmission.core
      = (framesFor p more).map fun data =>
        (n, MacAddress.broadcast, data, now) := by
  induction more with
  | nil => rfl
  | cons f more ih =>
      obtain ⟨q, e, data, he, hdata, rfl⟩ := hmore f List.mem_cons_self
      obtain ⟨hframe, hsender, hsent⟩ :=
        hmk ⟨MacAddress.broadcast, data, true, some (q, e)⟩
      have hid := h.packet_id_of_sent he hdata hframe
      have hrest := ih fun f hf => hmore f (List.mem_cons_of_mem _ hf)
      have hcore : (mk ⟨MacAddress.broadcast, data, true, some (q, e)⟩).core
          = (n, MacAddress.broadcast, data, now) := by
        unfold Transmission.core
        rw [hframe, hsender, hsent]
      rw [List.map_cons]
      by_cases hq : q = p
      · have hcarries : (mk ⟨MacAddress.broadcast, data, true,
            some (q, e)⟩).carries p = true := by
          unfold Transmission.carries
          rw [hid, hq]
          exact decide_eq_true rfl
        rw [List.filter_cons_of_pos hcarries, List.map_cons, hrest, hcore]
        simp [framesFor, hq]
      · have hcarries : ¬ (mk ⟨MacAddress.broadcast, data, true,
            some (q, e)⟩).carries p = true := by
          unfold Transmission.carries
          rw [hid]
          simpa using hq
        rw [List.filter_cons_of_neg hcarries, hrest]
        simp [framesFor, hq]

/-- What an event at a node puts on the air of packet `p` is what the
machine gives out. -/
theorem Accounted.core_act (h : Accounted st net) {n : Fin N} {l : Life}
    (hliving : Living p (net.nodes n) l) (now : TimePoint) (ev : NodeEvent)
    (hkeep : KeepsPacket (st.mac n) (st.config n) p (net.nodes n) ev) :
    ((net.act st n now ev).air.filter (Transmission.carries p)).map
        Transmission.core
      = (net.air.filter (Transmission.carries p)).map Transmission.core
        ++ (l.sends ev).map fun data =>
          (n, MacAddress.broadcast, data, now) := by
  obtain ⟨-, more, hmore, hframes⟩ :=
    hliving.step (st.mac n) (st.config n) ev hkeep
  obtain ⟨more', hmore', hmem⟩ :=
    ((net.nodes n).step_sending (st.mac n) (st.config n) ev).sent
  obtain rfl := List.append_cancel_left (hmore.symm.trans hmore')
  rw [act_air st net n now ev more hmore, List.filter_append,
    List.map_append, ← hframes, h.core_of_sent now more hmem _
      fun f => ⟨rfl, rfl, rfl⟩]

/-- The machines after an event at a node. -/
theorem living_act {lives : Fin N → Life}
    (h : ∀ m, Living p (net.nodes m) (lives m)) {n : Fin N} (now : TimePoint)
    {ev : NodeEvent}
    (hkeep : KeepsPacket (st.mac n) (st.config n) p (net.nodes n) ev) :
    ∀ m, Living p ((net.act st n now ev).nodes m)
      (Function.update lives n
        ((lives n).step (st.mac n) (st.config n) p ev) m) := by
  intro m
  by_cases hm : m = n
  · subst hm
    rw [act_self, Function.update_self]
    exact ((h m).step _ _ _ hkeep).1
  · rw [act_other st net now ev hm, Function.update_of_ne hm]
    exact h m

-- ===================================================== the two hand-overs

/-- A transmission of the packet was handed to a node if it was in the
other network. -/
def SameHanded (p : PacketId) (net net' : Network N H) : Prop :=
  ∀ i n tx, net.air[i]? = some tx → tx.carries p = true →
    ((i, n) ∈ net.handed
      ↔ (ordinal (Transmission.carries p) net.air i, n) ∈ net'.handed)

/-- Only what was on the air was handed over. -/
def Placed (net : Network N H) : Prop :=
  ∀ i n, (i, n) ∈ net.handed → i < net.air.length

theorem Placed.extend {net₂ : Network N H} (h : Placed net)
    (hair : ∃ more, net₂.air = net.air ++ more)
    (hhanded : net₂.handed = net.handed) : Placed net₂ := by
  obtain ⟨more, hmore⟩ := hair
  intro i n hi
  rw [hhanded] at hi
  have hlt := h i n hi
  rw [hmore, List.length_append]
  omega

/-- New transmissions were handed to nobody. -/
theorem SameHanded.extend {net₂ net₂' : Network N H} (h : SameHanded p net net')
    (hplaced : Placed net) (hplaced' : Placed net')
    (hlen : (net.air.filter (Transmission.carries p)).length = net'.air.length)
    (hair : ∃ more, net₂.air = net.air ++ more)
    (hhanded : net₂.handed = net.handed)
    (hhanded' : net₂'.handed = net'.handed) : SameHanded p net₂ net₂' := by
  obtain ⟨more, hmore⟩ := hair
  intro i n tx htx hp
  rw [hhanded, hhanded', hmore]
  rw [hmore] at htx
  rcases Nat.lt_or_ge i net.air.length with hi | hi
  · rw [ordinal_append more hi.le]
    rw [List.getElem?_append_left hi] at htx
    exact h i n tx htx hp
  · have hplace := le_ordinal_append (P := Transmission.carries p) more hi
    constructor
    · intro hmem
      exact absurd (hplaced i n hmem) (not_lt.mpr hi)
    · intro hmem
      have hlt := hplaced' _ n hmem
      omega

/-- A transmission of the packet is handed over in both. -/
theorem SameHanded.hand (h : SameHanded p net net') {i : Nat}
    {tx : Transmission N} (htx : net.air[i]? = some tx)
    (hp : tx.carries p = true) (n : Fin N) :
    SameHanded p (net.hand i n)
      (net'.hand (ordinal (Transmission.carries p) net.air i) n) := by
  intro j m txj htxj hpj
  replace htxj : net.air[j]? = some txj := htxj
  have hold := h j m txj htxj hpj
  show (j, m) ∈ (i, n) :: net.handed
    ↔ (ordinal (Transmission.carries p) net.air j, m)
      ∈ (ordinal (Transmission.carries p) net.air i, n) :: net'.handed
  rw [List.mem_cons, List.mem_cons, hold, Prod.mk.injEq, Prod.mk.injEq]
  refine or_congr (and_congr_left fun _ => ⟨fun heq => by rw [heq],
    fun heq => ordinal_inj htxj hpj htx hp heq⟩) Iff.rfl

-- ==================================================== events, for one packet

/-- A received frame of another packet is nothing to the machine. -/
theorem receive_other {p : PacketId} {frame : Bytes}
    (hid : (deserialize_header frame 0).1.map JokerHeader.packet_id ≠ some p)
    (l : Life) (local_mac : MacAddress) (config : Config) (now : TimePoint)
    (is_candidate : Bool) :
    l.step local_mac config p (.receive now frame is_candidate) = l := by
  cases l with
  | unseen =>
      refine Life.meet_of_ne fun hrec => hid ?_
      obtain ⟨header, consumed, hf, hp, -⟩ := recorded_eq_some hrec
      rw [hf.parses]
      exact congrArg some hp
  | waiting data due => rfl
  | seen => rfl

/-- Where nothing but the packet is recorded, the packet is kept. -/
theorem keeps_receive {p : PacketId} {frame : Bytes}
    (hid : (deserialize_header frame 0).1.map JokerHeader.packet_id = some p)
    {s : TimerNode H} (hcap : 0 < s.dedup.capacity) (local_mac : MacAddress)
    (config : Config) (now : TimePoint) (is_candidate : Bool) :
    KeepsPacket local_mac config p s (.receive now frame is_candidate) := by
  intro hknown
  rw [TimerNode.step_receive]
  dsimp only
  cases hrec : (verdict frame local_mac is_candidate config
      s.dedup).recorded with
  | none => exact hknown
  | some q =>
      obtain ⟨header, consumed, hf, hq, -⟩ := recorded_eq_some hrec
      rw [hf.parses] at hid
      obtain rfl : q = p := hq.symm.trans (Option.some.inj hid)
      exact DedupCache.contains_Insert_self hcap q now

/-- Where nobody loses the packet, a node that has it keeps it. -/
theorem kept_of_losers {ev : NetEvent N} (h : losers st p net ev = [])
    (n : Fin N) (hknown : (net.nodes n).dedup.Contains p = true) :
    ((net.step st ev).nodes n).dedup.Contains p = true := by
  by_contra hlost
  have hmem : n ∈ losers st p net ev := by
    refine List.mem_filter.mpr ⟨List.mem_finRange n, ?_⟩
    rw [hknown, Bool.eq_false_iff.mpr hlost]
    rfl
  rw [h] at hmem
  cases hmem

theorem keeps_tick (local_mac : MacAddress) (config : Config) (p : PacketId)
    (s : TimerNode H) (now : TimePoint) :
    KeepsPacket local_mac config p s (.tick now) := by
  intro hknown
  show (TimerNode.Tick now s).dedup.Contains p = true
  rw [TimerNode.tick_dedup]
  exact hknown

theorem keeps_own_send {p : PacketId} {s : TimerNode H}
    (hcap : 0 < s.dedup.capacity) (local_mac : MacAddress) (config : Config)
    (now : TimePoint) :
    KeepsPacket local_mac config p s (.own_send now p) :=
  fun _ => DedupCache.contains_Insert_self hcap p now

-- =========================================================== the two runs

/-- A network with all its traffic, and one with packet `p` alone. -/
structure Apart (st : Stations N) (p : PacketId) (net net' : Network N H)
    (lives : Fin N → Life) : Prop where
  accounted : Accounted st net
  accounted' : Accounted st net'
  living : ∀ n, Living p (net.nodes n) (lives n)
  living' : ∀ n, Living p (net'.nodes n) (lives n)
  only : ∀ tx ∈ net'.air, tx.carries p = true
  air : net'.air.map Transmission.core
    = (net.air.filter (Transmission.carries p)).map Transmission.core
  placed : Placed net
  placed' : Placed net'
  handed : SameHanded p net net'

theorem apart_start (H : WheelHeap ForwardCallback) {st : Stations N}
    (hcap : ∀ n, 0 < st.capacity n) (p : PacketId) :
    Apart st p (start H st) (start H st) fun _ => .unseen where
  accounted := accounted_start H st
  accounted' := accounted_start H st
  living n := living_start p (hcap n) (st.ttl n)
  living' n := living_start p (hcap n) (st.ttl n)
  only _ htx := absurd htx List.not_mem_nil
  air := rfl
  placed _ _ h := absurd h List.not_mem_nil
  placed' _ _ h := absurd h List.not_mem_nil
  handed _ _ _ htx := by cases htx

/-- Where only the packet is on the air, only the packet is forwarded. -/
theorem Accounted.only_act (h : Accounted st net)
    (honly : ∀ tx ∈ net.air, tx.carries p = true) (n : Fin N)
    (now : TimePoint) (ev : NodeEvent) :
    ∀ tx ∈ (net.act st n now ev).air, tx.carries p = true := by
  intro tx htx
  rcases mem_air_act htx with hold | ⟨q, e, data, he, hdata, -, rfl⟩
  · exact honly tx hold
  · obtain ⟨i, hi⟩ := (h.entries n).pending q e he
    obtain ⟨txi, header, consumed, htxi, -, hframe, hparsed, hid, -⟩ :=
      hi.received
    have hq : q = p := by
      have hp := of_decide_eq_true (honly txi (List.mem_of_getElem? htxi))
      unfold Transmission.packet_id at hp
      rw [hframe, hparsed.parses] at hp
      exact hid.symm.trans (Option.some.inj hp)
    subst hq
    exact decide_eq_true (h.packet_id_of_sent he hdata rfl)

/-- What is delivered is what was handed over. -/
theorem packet_id_of_delivered {i : Nat} {n : Fin N} {now : TimePoint}
    {is_candidate : Bool} {d : Delivery N}
    (hd : d ∈ delivered st net (.deliver i n now is_candidate))
    {tx : Transmission N} (htx : net.air[i]? = some tx) :
    tx.packet_id = some d.header.packet_id := by
  rcases delivered_cases st net (.deliver i n now is_candidate) with
    heq | ⟨_, _, _, _, txi, header, hev, hcan, hv, heq⟩
  · rw [heq] at hd
    cases hd
  · injection hev with hi hn _ _
    subst hi hn
    rw [heq] at hd
    obtain rfl := List.mem_singleton.mp hd
    obtain rfl := Option.some.inj (htx.symm.trans hcan.1)
    obtain ⟨⟨consumed, hf⟩, -⟩ := verdict_eq_delivered_iff.mp hv
    unfold Transmission.packet_id
    rw [hf.parses]
    rfl

namespace Apart

variable {lives : Fin N → Life}

theorem filter_eq (h : Apart st p net net' lives) :
    net'.air.filter (Transmission.carries p) = net'.air :=
  List.filter_eq_self.mpr h.only

theorem length_eq (h : Apart st p net net' lives) :
    (net.air.filter (Transmission.carries p)).length = net'.air.length := by
  have hlen := congrArg List.length h.air
  rw [List.length_map, List.length_map] at hlen
  exact hlen.symm

/-- An event at a node, in both networks. -/
theorem act (h : Apart st p net net' lives) {n : Fin N} {now : TimePoint}
    {ev : NodeEvent}
    (hkeep : KeepsPacket (st.mac n) (st.config n) p (net.nodes n) ev)
    (hkeep' : KeepsPacket (st.mac n) (st.config n) p (net'.nodes n) ev)
    (hacc : Accounted st (net.act st n now ev))
    (hacc' : Accounted st (net'.act st n now ev)) :
    Apart st p (net.act st n now ev) (net'.act st n now ev)
      (Function.update lives n
        ((lives n).step (st.mac n) (st.config n) p ev)) := by
  have honly := h.accounted'.only_act h.only n now ev
  have hgrow : ∀ net : Network N H,
      ∃ more, (net.act st n now ev).air = net.air ++ more := fun net => ⟨_, rfl⟩
  refine ⟨hacc, hacc', living_act h.living now hkeep,
    living_act h.living' now hkeep', honly, ?_, h.placed.extend (hgrow net) rfl,
    h.placed'.extend (hgrow net') rfl,
    h.handed.extend h.placed h.placed' h.length_eq (hgrow net) rfl rfl⟩
  have hsent := h.accounted.core_act (h.living n) now ev hkeep
  have hsent' := h.accounted'.core_act (h.living' n) now ev hkeep'
  rw [List.filter_eq_self.mpr honly, h.filter_eq, h.air] at hsent'
  rw [hsent, hsent']

/-- An event that is nothing to the packet. -/
theorem act_other (h : Apart st p net net' lives) {n : Fin N}
    {now : TimePoint} {ev : NodeEvent}
    (hkeep : KeepsPacket (st.mac n) (st.config n) p (net.nodes n) ev)
    (hacc : Accounted st (net.act st n now ev))
    (hstep : (lives n).step (st.mac n) (st.config n) p ev = lives n)
    (hsends : (lives n).sends ev = []) :
    Apart st p (net.act st n now ev) net' lives := by
  have hgrow : ∃ more, (net.act st n now ev).air = net.air ++ more := ⟨_, rfl⟩
  have hliving := living_act h.living now hkeep
  rw [hstep, Function.update_eq_self] at hliving
  refine ⟨hacc, h.accounted', hliving, h.living', h.only, ?_,
    h.placed.extend hgrow rfl, h.placed',
    h.handed.extend h.placed h.placed' h.length_eq hgrow rfl rfl⟩
  rw [h.accounted.core_act (h.living n) now ev hkeep, hsends, h.air]
  exact (List.append_nil _).symm

/-- A transmission of the packet is handed over, in both. -/
theorem hand (h : Apart st p net net' lives) {i : Nat} {tx : Transmission N}
    (htx : net.air[i]? = some tx) (hp : tx.carries p = true) (n : Fin N) :
    Apart st p (net.hand i n)
      (net'.hand (ordinal (Transmission.carries p) net.air i) n) lives := by
  have hi := (List.getElem?_eq_some_iff.mp htx).1
  have hplace : ordinal (Transmission.carries p) net.air i
      < net'.air.length := by
    rw [← h.length_eq]
    exact (List.getElem?_eq_some_iff.mp (getElem?_filter_ordinal htx hp)).1
  refine ⟨h.accounted.hand i n, h.accounted'.hand _ n, h.living, h.living',
    h.only, h.air, fun j m hm => ?_, fun j m hm => ?_, h.handed.hand htx hp n⟩
  · rcases List.mem_cons.mp hm with heq | hm
    · injection heq with hj _
      exact hj ▸ hi
    · exact h.placed j m hm
  · rcases List.mem_cons.mp hm with heq | hm
    · injection heq with hj _
      exact hj ▸ hplace
    · exact h.placed' j m hm

/-- A transmission of another packet is handed over. -/
theorem hand_other (h : Apart st p net net' lives) {i : Nat}
    {tx : Transmission N} (htx : net.air[i]? = some tx)
    (hp : ¬ tx.carries p = true) (n : Fin N) :
    Apart st p (net.hand i n) net' lives := by
  have hi := (List.getElem?_eq_some_iff.mp htx).1
  refine ⟨h.accounted.hand i n, h.accounted', h.living, h.living', h.only,
    h.air, fun j m hm => ?_, h.placed', fun j m txj htxj hpj => ?_⟩
  · rcases List.mem_cons.mp hm with heq | hm
    · injection heq with hj _
      exact hj ▸ hi
    · exact h.placed j m hm
  · have hne : (j, m) ≠ (i, n) := by
      intro heq
      injection heq with hj _
      subst hj
      exact hp (Option.some.inj (htxj.symm.trans htx) ▸ hpj)
    refine Iff.trans ?_ (h.handed j m txj htxj hpj)
    show (j, m) ∈ (i, n) :: net.handed ↔ _
    rw [List.mem_cons, or_iff_right hne]

/-- A transmission of the packet is on the air in both. -/
theorem counterpart (h : Apart st p net net' lives) {i : Nat}
    {tx : Transmission N} (htx : net.air[i]? = some tx)
    (hp : tx.carries p = true) :
    ∃ tx', net'.air[ordinal (Transmission.carries p) net.air i]? = some tx'
      ∧ tx'.sender = tx.sender
      ∧ tx'.frame.destination = tx.frame.destination
      ∧ tx'.frame.data = tx.frame.data := by
  have hcore : (net'.air.map Transmission.core)[ordinal
      (Transmission.carries p) net.air i]? = some tx.core := by
    rw [h.air, List.getElem?_map, getElem?_filter_ordinal htx hp]
    rfl
  rw [List.getElem?_map] at hcore
  obtain ⟨tx', htx', heq⟩ := Option.map_eq_some_iff.mp hcore
  exact ⟨tx', htx', congrArg Prod.fst heq, congrArg (fun c => c.2.1) heq,
    congrArg (fun c => c.2.2.1) heq⟩

/-- It may be handed over in both networks, or in neither. -/
theorem canHand (h : Apart st p net net' lives) {i : Nat} {tx : Transmission N}
    (htx : net.air[i]? = some tx) (hp : tx.carries p = true) (n : Fin N) :
    ∃ tx', net'.air[ordinal (Transmission.carries p) net.air i]? = some tx'
      ∧ tx'.frame.data = tx.frame.data
      ∧ (net'.CanHand (ordinal (Transmission.carries p) net.air i) n tx'
        ↔ net.CanHand i n tx) := by
  obtain ⟨tx', htx', hsender, -, hdata⟩ := h.counterpart htx hp
  refine ⟨tx', htx', hdata, ?_⟩
  unfold Network.CanHand
  rw [hsender, h.handed i n tx htx hp]
  exact and_congr_left fun _ => iff_of_true htx' htx

/-- A frame is put on the air. -/
theorem originate (h : Apart st p net net' lives) (n : Fin N)
    (now : TimePoint) (destination : MacAddress) (frame : Bytes) :
    Apart st p (net.step st (.originate n now destination frame))
      (exec (Network.step st) net'
        (slice p net (.originate n now destination frame))) lives := by
  have hgrow : ∀ net : Network N H, ∃ more,
      (net.step st (.originate n now destination frame)).air
        = net.air ++ more := fun net => ⟨_, rfl⟩
  have hair : ∀ net : Network N H,
      (net.step st (.originate n now destination frame)).air = net.air
        ++ [⟨n, ⟨destination, frame, destination.IsBroadcast, none⟩, now,
          none⟩] := fun _ => rfl
  simp only [slice]
  split
  · rename_i hp
    rw [exec_cons, exec_nil]
    have hcarries : (⟨n, ⟨destination, frame, destination.IsBroadcast, none⟩,
        now, none⟩ : Transmission N).carries p = true := decide_eq_true hp
    refine ⟨h.accounted.step _, h.accounted'.step _, h.living, h.living', ?_,
      ?_, h.placed.extend (hgrow net) rfl, h.placed'.extend (hgrow net') rfl,
      h.handed.extend h.placed h.placed' h.length_eq (hgrow net) rfl rfl⟩
    · intro tx htx
      rcases List.mem_append.mp htx with hold | hnew
      · exact h.only tx hold
      · obtain rfl := List.mem_singleton.mp hnew
        exact hcarries
    · rw [hair, hair, List.map_append, h.air,
        List.filter_append, List.map_append,
        List.filter_cons_of_pos hcarries, List.filter_nil]
  · rename_i hp
    have hcarries : ¬ (⟨n, ⟨destination, frame, destination.IsBroadcast, none⟩,
        now, none⟩ : Transmission N).carries p = true :=
      fun hc => hp (of_decide_eq_true hc)
    refine ⟨h.accounted.step _, h.accounted', h.living, h.living', h.only, ?_,
      h.placed.extend (hgrow net) rfl, h.placed',
      h.handed.extend h.placed h.placed' h.length_eq (hgrow net) rfl rfl⟩
    rw [exec_nil, h.air, hair, List.filter_append,
      List.filter_cons_of_neg hcarries, List.filter_nil, List.append_nil]

/-- A transmission of the packet is handed over, if it may be. -/
theorem deliver (h : Apart st p net net' lives) {i : Nat}
    {tx : Transmission N} (htx : net.air[i]? = some tx)
    (hp : tx.carries p = true) (n : Fin N) (now : TimePoint)
    (is_candidate : Bool) :
    ∃ lives', Apart st p (net.step st (.deliver i n now is_candidate))
      (net'.step st (.deliver (ordinal (Transmission.carries p) net.air i) n now
        is_candidate)) lives' := by
  obtain ⟨tx', htx', hdata, hiff⟩ := h.canHand htx hp n
  have hacc := h.accounted.step (.deliver i n now is_candidate)
  have hacc' := h.accounted'.step
    (.deliver (ordinal (Transmission.carries p) net.air i) n now is_candidate)
  by_cases hcan : net.CanHand i n tx
  · simp only [Network.step, htx, htx', if_pos hcan, if_pos (hiff.mpr hcan),
      hdata] at hacc hacc' ⊢
    have hid := of_decide_eq_true hp
    exact ⟨_, (h.hand htx hp n).act
      (keeps_receive hid (h.living n).capacity _ _ now is_candidate)
      (keeps_receive hid (h.living' n).capacity _ _ now is_candidate)
      hacc hacc'⟩
  · simp only [Network.step, htx, htx', if_neg hcan,
      if_neg (mt hiff.mp hcan)]
    exact ⟨lives, h⟩

/-- A transmission of another packet is handed over, if it may be. -/
theorem deliver_other (h : Apart st p net net' lives) {i : Nat}
    {tx : Transmission N} (htx : net.air[i]? = some tx)
    (hp : ¬ tx.carries p = true) {n : Fin N} {now : TimePoint}
    {is_candidate : Bool}
    (hlost : losers st p net (.deliver i n now is_candidate) = []) :
    Apart st p (net.step st (.deliver i n now is_candidate)) net' lives := by
  have hacc := h.accounted.step (.deliver i n now is_candidate)
  have hkept := kept_of_losers hlost n
  by_cases hcan : net.CanHand i n tx
  · simp only [Network.step, htx, if_pos hcan, act_self] at hacc hkept ⊢
    have hid : (deserialize_header tx.frame.data 0).1.map
        JokerHeader.packet_id ≠ some p := fun hid => hp (decide_eq_true hid)
    exact (h.hand_other htx hp n).act_other hkept hacc
      (receive_other hid _ _ _ _ _) rfl
  · simp only [Network.step, htx, if_neg hcan]
    exact h

/-- One event. -/
theorem step (h : Apart st p net net' lives) (ev : NetEvent N)
    (hlost : losers st p net ev = []) :
    ∃ lives', Apart st p (net.step st ev)
      (exec (Network.step st) net' (slice p net ev)) lives' := by
  have hacc := h.accounted.step ev
  cases ev with
  | originate n now destination frame =>
      exact ⟨lives, h.originate n now destination frame⟩
  | deliver i n now is_candidate =>
      cases htx : net.air[i]? with
      | none =>
          simp only [Network.step, slice, htx, exec_nil]
          exact ⟨lives, h⟩
      | some tx =>
          by_cases hp : tx.carries p = true
          · simp only [slice, htx, if_pos hp]
            exact h.deliver htx hp n now is_candidate
          · simp only [slice, htx, if_neg hp]
            exact ⟨lives, h.deliver_other htx hp hlost⟩
  | tick n now =>
      exact ⟨_, h.act (keeps_tick _ _ p _ now) (keeps_tick _ _ p _ now) hacc
        (h.accounted'.step (.tick n now))⟩
  | own_send n now packet_id =>
      simp only [slice]
      split
      · rename_i hp
        subst hp
        exact ⟨_, h.act (keeps_own_send (h.living n).capacity _ _ now)
          (keeps_own_send (h.living' n).capacity _ _ now) hacc
          (h.accounted'.step (.own_send n now packet_id))⟩
      · rename_i hp
        have hkept := kept_of_losers hlost n
        simp only [Network.step, act_self] at hkept
        have hquiet : (lives n).step (st.mac n) (st.config n) p
            (.own_send now packet_id) = lives n := by
          cases lives n with
          | unseen => exact if_neg hp
          | waiting data due => rfl
          | seen => rfl
        exact ⟨lives, h.act_other hkept hacc hquiet rfl⟩
  | evict n now =>
      have hkept := kept_of_losers hlost n
      simp only [Network.step, act_self] at hkept
      have hquiet : (lives n).step (st.mac n) (st.config n) p (.evict now)
          = lives n := by cases lives n <;> rfl
      exact ⟨lives, h.act_other hkept hacc hquiet rfl⟩

/-- What is delivered of the packet in an event. -/
theorem delivered_slice (h : Apart st p net net' lives) (ev : NetEvent N) :
    outputs (Network.step st) (delivered st) net' (slice p net ev)
      = (delivered st net ev).filter fun d => d.header.packet_id = p := by
  cases ev with
  | originate n now destination frame =>
      simp only [slice]
      split <;> rfl
  | deliver i n now is_candidate =>
      cases htx : net.air[i]? with
      | none => simp only [slice, delivered, htx, outputs_nil, List.filter_nil]
      | some tx =>
          have hpacket : ∀ d ∈ delivered st net (.deliver i n now is_candidate),
              decide (d.header.packet_id = p) = tx.carries p := by
            intro d hd
            simp only [Transmission.carries, packet_id_of_delivered hd htx,
              Option.some.injEq]
          by_cases hp : tx.carries p = true
          · obtain ⟨tx', htx', hdata, hiff⟩ := h.canHand htx hp n
            have hsame : ∀ q, (deserialize_header tx.frame.data 0).1.map
                JokerHeader.packet_id = some q →
                (net'.nodes n).dedup.Contains q
                  = (net.nodes n).dedup.Contains q := by
              intro q hq
              obtain rfl : q = p :=
                Option.some.inj (hq.symm.trans (of_decide_eq_true hp))
              rw [(h.living n).known, (h.living' n).known]
            have hverdict := verdict_congr hsame (st.mac n) is_candidate
              (st.config n)
            rw [List.filter_eq_self.mpr fun d hd => (hpacket d hd).trans hp]
            simp only [slice, htx, if_pos hp, outputs_cons, outputs_nil,
              List.append_nil]
            by_cases hcan : net.CanHand i n tx
            · simp only [delivered, htx, htx', if_pos hcan,
                if_pos (hiff.mpr hcan), hdata, hverdict]
            · simp only [delivered, htx, htx', if_neg hcan,
                if_neg (mt hiff.mp hcan)]
          · rw [List.filter_eq_nil_iff.mpr fun d hd => (hpacket d hd) ▸ hp]
            simp only [slice, htx, if_neg hp, outputs_nil]
  | tick n now => rfl
  | own_send n now packet_id =>
      simp only [slice]
      split <;> rfl
  | evict n now => rfl

/-- A run. -/
theorem run (h : Apart st p net net' lives) {es : List (NetEvent N)}
    (hlost : outputs (Network.step st) (losers st p) net es = []) :
    ∃ lives', Apart st p (exec (Network.step st) net es)
        (exec (Network.step st) net'
          (outputs (Network.step st) (slice p) net es)) lives'
      ∧ outputs (Network.step st) (delivered st) net'
          (outputs (Network.step st) (slice p) net es)
        = (outputs (Network.step st) (delivered st) net es).filter
          fun d => d.header.packet_id = p := by
  induction es generalizing net net' lives with
  | nil => exact ⟨lives, h, rfl⟩
  | cons ev es ih =>
      rw [outputs_cons] at hlost
      obtain ⟨hnow, hlater⟩ := List.append_eq_nil_iff.mp hlost
      obtain ⟨lives', hnext⟩ := h.step ev hnow
      obtain ⟨lives'', hrun, hdelivered⟩ := ih hnext hlater
      refine ⟨lives'', ?_, ?_⟩
      · rw [exec_cons, outputs_cons, exec_append]
        exact hrun
      · rw [outputs_cons, outputs_cons, outputs_append, List.filter_append,
          h.delivered_slice ev, hdelivered]

end Apart

/-- Where no cache loses packet `p`, the run with all its traffic does with
the packet what the run left of it for the packet does: the same
transmissions of the packet are on the air, in the same order, from the
same nodes, with the same bytes and at the same times; the same nodes
remember it, and hold the same copies of it, due at the same times; and
the same deliveries of it were made. -/
theorem packets_isolated (H : WheelHeap ForwardCallback) (st : Stations N)
    (hcap : ∀ n, 0 < st.capacity n) (es : List (NetEvent N)) (p : PacketId)
    (hkeep : losses H st p es = []) :
    let whole := run H st es
    let left := run H st (alone H st p es)
    left.air.map Transmission.core
      = (whole.air.filter (Transmission.carries p)).map Transmission.core
    ∧ (∀ n, (left.nodes n).dedup.Contains p = (whole.nodes n).dedup.Contains p)
    ∧ (∀ n frame due, Waits p (left.nodes n).coordinator frame due
      ↔ Waits p (whole.nodes n).coordinator frame due)
    ∧ deliveries H st (alone H st p es)
      = (deliveries H st es).filter fun d => d.header.packet_id = p := by
  obtain ⟨lives, hrun, hdelivered⟩ := (apart_start H hcap p).run hkeep
  refine ⟨hrun.air, fun n => ?_, fun n frame due => ?_, hdelivered⟩
  · exact (hrun.living' n).known.trans (hrun.living n).known.symm
  · exact ((hrun.living' n).waits_iff frame due).trans
      ((hrun.living n).waits_iff frame due).symm

/-- Station `o` sends packets 8 and 7, station `a` takes both on and forwards
them, and station `d` hears both. -/
def two_at_once (o a d : Fin N) : List (NetEvent N) :=
  [.originate o 0 MacAddress.broadcast (sample_frame 8 3),
    .originate o 1 MacAddress.broadcast (sample_frame 7 3),
    .deliver 0 a 2 true, .deliver 1 a 3 true, .tick a 60000000,
    .deliver 2 d 60000001 true, .deliver 3 d 60000002 true]

theorem packets_isolated_two_at_once :
    (alone (sortedHeap _) four_stations 7 (two_at_once 0 1 3)).length = 4
    ∧ deliveries (sortedHeap _) four_stations
        (alone (sortedHeap _) four_stations 7 (two_at_once 0 1 3))
      = (deliveries (sortedHeap _) four_stations (two_at_once 0 1 3)).filter
        fun d => d.header.packet_id = 7 :=
  ⟨by decide +kernel, (packets_isolated (sortedHeap _) four_stations (by decide)
    (two_at_once 0 1 3) 7 (by decide +kernel)).2.2.2⟩

end Network

end Joker
