/-
Is one forwarder elected per transmission?

The timers are to let the first forward of a packet call off the others
within earshot. They do not: a forward heard later is a duplicate to a
node that has taken the packet on (Proofs/Suppression.lean), and a
relay's broadcast is flagged as addressed to every node that hears it,
with the same priority for all that the packet does not list. So of two
nodes that hear each other and both hear a relay, both forward what it
sends (`both_forward`).

What decides is who *contends* for the packet: who is handed a copy of it
that is flagged and new to its cache, and lets a timer of it go off before
another copy comes that is new to its cache again. These and no others
forward (`hasForwarded_iff`), whatever they hear from each other. For a
node whose cache keeps the packet there is no other such copy, and what
remains is the first copy it was handed, its flag, and a tick after the
delay its place in the list of candidates gives it
(`contends_iff_of_kept`). When nothing is left to wait for, the delay is
out of it too: who was sent the packet, by name or by broadcast, before
knowing it contends (`contends_iff_of_settled`). So a transmission has one
forwarder within earshot exactly if no two nodes in earshot that received
it contend, and in a network at rest exactly if no two were sent the
packet before they knew it (`one_forwarder_iff`).
-/
import Joker.Lib.Until
import Joker.Proofs.PacketLife

namespace Joker

open Transition VectorHeap

variable {N : Nat} {H : WheelHeap ForwardCallback}

namespace Network

variable {st : Stations N} {net : Network N H} {n : Fin N} {p : PacketId}

-- ========================================================= who contends

/-- In the run from `net` the node takes the packet on as a candidate, and
a timer it has set for it goes off before it hears another copy that is
new to its cache. -/
def Contends (st : Stations N) (n : Fin N) (p : PacketId)
    (net : Network N H) (es : List (NetEvent N)) : Prop :=
  Since (step st) (fun net ev => TakesOn st net n p ev)
    (fun net ev => HearsNew st net n p ev) (fun net ev => GoesOff net n p ev)
    net es

/-- Those who contend, and no others, have forwarded the packet. -/
theorem hasForwarded_iff (H : WheelHeap ForwardCallback) (st : Stations N)
    (es : List (NetEvent N)) (n : Fin N) (p : PacketId) :
    (run H st es).HasForwarded p n ↔ Contends st n p (start H st) es := by
  have hair : ¬ (start H st).HasForwarded p n := by
    rintro ⟨tx, htx, -⟩
    exact List.not_mem_nil htx
  have hpending : ¬ (start H st).WillForward p n := by
    rintro ⟨e, he, -⟩
    cases he
  have h := @exec_iff_until _ _ (step st)
    (fun net : Network N H => net.WillForward p n)
    (fun net => net.HasForwarded p n) (fun net ev => TakesOn st net n p ev)
    (fun net ev => HearsNew st net n p ev) (fun net ev => GoesOff net n p ev)
    willForward_step hasForwarded_step es (start H st)
  simp only [hair, hpending, false_and, false_or] at h
  exact h

-- ================================================ caches that keep packets

/-- The event leaves packet `p` in the node's cache, if it is there. -/
def KeepsAt (st : Stations N) (n : Fin N) (p : PacketId) (net : Network N H)
    (ev : NetEvent N) : Prop :=
  (net.nodes n).dedup.Contains p = true →
    ((net.step st ev).nodes n).dedup.Contains p = true

instance (st : Stations N) (n : Fin N) (p : PacketId) (net : Network N H) :
    DecidablePred (KeepsAt st n p net) :=
  fun _ => inferInstanceAs (Decidable (_ → _))

/-- When a forward of what is handed over in the event would be due. -/
def forward_due (st : Stations N) (net : Network N H) (n : Fin N) :
    NetEvent N → Option TimePoint
  | .deliver i _ now _ =>
      (net.air[i]?.bind fun tx => (deserialize_header tx.frame.data 0).1).map
        fun header => now + forward_delay header (st.mac n) (st.config n)
  | _ => none

/-- The timer of a copy that waits is the one that may go off. -/
theorem goesOff_iff {frame : Bytes} {due now : TimePoint}
    (h : Living p (net.nodes n) (.waiting frame due)) :
    GoesOff net n p (.tick n now) ↔ due ≤ now := by
  obtain ⟨e, he, rfl, harm, hone⟩ := h.holds
  constructor
  · rintro ⟨-, t, ht, hcb, hlive, hexp⟩
    have heq := h.coherent.eq_of_id ht harm (hone t ht hlive hcb)
    rw [heq] at hexp
    exact hexp
  · intro hdue
    exact ⟨rfl, _, harm, rfl, rfl, hdue⟩

/-- While it does not, the copy goes on waiting. -/
theorem waiting_step {frame : Bytes} {due : TimePoint}
    (h : Living p (net.nodes n) (.waiting frame due)) {ev : NetEvent N}
    (hkeep : KeepsAt st n p net ev) (hoff : ¬ GoesOff net n p ev) :
    Living p ((net.step st ev).nodes n) (.waiting frame due) := by
  have hkept := hkeep h.known
  -- an event at the node, on which the machine goes on waiting
  have hact : ∀ (net' : Network N H) m now ev', net'.nodes = net.nodes →
      net.step st ev = net'.act st m now ev' →
      (m = n → (Life.waiting frame due).step (st.mac n) (st.config n) p ev'
        = .waiting frame due) →
      Living p ((net.step st ev).nodes n) (.waiting frame due) := by
    intro net' m now ev' hnodes heq hwaits
    by_cases hm : n = m
    · subst hm
      have hself : (net.step st ev).nodes n
          = (net.nodes n).step (st.mac n) (st.config n) ev' := by
        rw [heq, act_self, hnodes]
      rw [hself] at hkept ⊢
      have hstep := (h.step (st.mac n) (st.config n) ev' fun _ => hkept).1
      rw [hwaits rfl] at hstep
      exact hstep
    · rw [heq, act_other st net' now ev' hm, hnodes]
      exact h
  cases ev with
  | originate m now destination frame => exact h
  | deliver i m now is_candidate =>
      rcases deliver_cases st net i m now is_candidate with heq | ⟨tx, -, heq⟩
      · rw [heq]
        exact h
      · exact hact (net.hand i m) m now _ rfl heq fun _ => rfl
  | tick m now =>
      refine hact net m now (.tick now) rfl rfl ?_
      rintro rfl
      exact if_neg fun hdue => hoff ((goesOff_iff h).mpr hdue)
  | own_send m now packet_id =>
      exact hact net m now (.own_send now packet_id) rfl rfl fun _ => rfl
  | evict m now => exact hact net m now (.evict now) rfl rfl fun _ => rfl

/-- No copy is new to a node that waits with one. -/
theorem not_hearsNew {frame : Bytes} {due : TimePoint}
    (h : Living p (net.nodes n) (.waiting frame due)) (ev : NetEvent N) :
    ¬ HearsNew st net n p ev := by
  intro hnew
  have hcontains : (net.nodes n).dedup.Contains p = false := by
    cases ev with
    | deliver i m now is_candidate =>
        obtain ⟨-, tx, header, consumed, -, -, -, -, -, hnew⟩ := hnew
        exact hnew
    | _ => exact absurd hnew id
  rw [h.known] at hcontains
  cases hcontains

/-- If no timer goes off, the copy waits in the end. -/
theorem waiting_exec : ∀ {es : List (NetEvent N)} {net : Network N H}
    {frame : Bytes} {due : TimePoint},
    Living p (net.nodes n) (.waiting frame due) →
    Along (step st) (KeepsAt st n p) net es →
    ¬ Until (step st) (fun net ev => HearsNew st net n p ev)
      (fun net ev => GoesOff net n p ev) net es →
    Living p ((exec (step st) net es).nodes n) (.waiting frame due) := by
  intro es
  induction es with
  | nil => intro net frame due h _ _; exact h
  | cons ev es ih =>
      intro net frame due h hkeep hnever
      simp only [Until, not_hearsNew h, not_false_eq_true, true_and, not_or]
        at hnever
      exact ih (waiting_step h hkeep.1 hnever.1) hkeep.2 hnever.2

/-- Nothing but a tick ends the waiting. -/
theorem until_iff_of_kept :
    ∀ {es : List (NetEvent N)} {net : Network N H} {frame : Bytes}
      {due : TimePoint}, Living p (net.nodes n) (.waiting frame due) →
      Along (step st) (KeepsAt st n p) net es →
      (Until (step st) (fun net ev => HearsNew st net n p ev)
          (fun net ev => GoesOff net n p ev) net es
        ↔ ∃ now, .tick n now ∈ es ∧ due ≤ now) := by
  intro es
  induction es with
  | nil =>
      intro net frame due _ _
      refine iff_of_false id ?_
      simp
  | cons ev es ih =>
      intro net frame due h hkeep
      have hold : ¬ HearsNew st net n p ev := not_hearsNew h ev
      by_cases hoff : GoesOff net n p ev
      · refine iff_of_true (Or.inl hoff) ?_
        cases ev with
        | tick m now =>
            obtain rfl := hoff.1
            exact ⟨now, List.mem_cons_self, (goesOff_iff h).mp hoff⟩
        | _ => exact absurd hoff id
      · have hnext := ih (waiting_step h hkeep.1 hoff) hkeep.2
        simp only [Until, hoff, hold, not_false_eq_true, true_and, false_or,
          hnext, List.mem_cons]
        constructor
        · rintro ⟨now, hmem, hdue⟩
          exact ⟨now, Or.inr hmem, hdue⟩
        · rintro ⟨now, rfl | hmem, hdue⟩
          · exact absurd ((goesOff_iff h).mpr hdue) hoff
          · exact ⟨now, hmem, hdue⟩

/-- A copy that is taken on waits until it is due. -/
theorem waiting_of_takesOn {l : Life} (h : Living p (net.nodes n) l)
    {ev : NetEvent N} (htakes : TakesOn st net n p ev) :
    ∃ frame due, forward_due st net n ev = some due
      ∧ Living p ((net.step st ev).nodes n) (.waiting frame due) := by
  cases ev with
  | deliver i m now is_candidate =>
      obtain ⟨rfl, rfl, tx, header, consumed, hcan, hf, rfl, hdest, httl, hnew⟩
        := htakes
      refine ⟨tx.frame.data,
        now + forward_delay header (st.mac m) (st.config m),
        ?_, ?_⟩
      · simp only [forward_due, hcan.1, Option.bind_some, hf.parses,
          Option.map_some]
      · obtain rfl : l = .unseen := by
          have hknown := h.known
          rw [hnew] at hknown
          cases l with
          | unseen => rfl
          | _ => cases hknown
        have h0 : header.ttl ≠ 0 := by
          intro h0
          rw [h0] at httl
          exact absurd httl (by decide)
        have hv : verdict tx.frame.data (st.mac m) true (st.config m)
            Life.empty_cache = .candidate header consumed :=
          verdict_eq_candidate_iff.mpr ⟨hf, hdest, h0, rfl, rfl⟩
        have hstep := (h.step (st.mac m) (st.config m)
          (.receive now tx.frame.data true) fun hknown => absurd
            (hnew.symm.trans hknown) Bool.false_ne_true).1
        rw [step_deliver hcan, act_self]
        simp only [Life.step, hv, Life.meet, if_true] at hstep
        exact hstep
  | _ => exact absurd htakes id

/-- While a node's cache keeps the packet, the node is the machine of the
packet. -/
theorem living_of_kept (H : WheelHeap ForwardCallback)
    (hcap : 0 < st.capacity n) {es : List (NetEvent N)}
    (hkeep : Along (step st) (KeepsAt st n p) (start H st) es) :
    ∃ l, Living p ((run H st es).nodes n) l := by
  refine exec_invariant_along
    (fun net : Network N H => ∃ l, Living p (net.nodes n) l) ?_ es hkeep
    ⟨_, living_start p hcap _⟩
  rintro net ev hkept ⟨l, h⟩
  unfold KeepsAt at hkept
  rcases step_node_cases st net ev n with heq | ⟨ev', heq⟩
  · exact ⟨l, heq ▸ h⟩
  · rw [heq] at hkept ⊢
    exact ⟨_, (h.step (st.mac n) (st.config n) ev' hkept).1⟩

/-- Where a node's cache keeps the packet, the node contends exactly if it
is handed the packet, as a candidate and before it knows it, and ticked
when the delay it computes from the list of candidates is over. -/
theorem contends_iff_of_kept (H : WheelHeap ForwardCallback)
    (hcap : 0 < st.capacity n) {es : List (NetEvent N)}
    (hkeep : Along (step st) (KeepsAt st n p)
      (start H st) es) :
    Contends st n p (start H st) es
      ↔ ∃ pre ev post due now, es = pre ++ ev :: post
        ∧ TakesOn st (run H st pre) n p ev
        ∧ forward_due st (run H st pre) n ev = some due
        ∧ .tick n now ∈ post ∧ due ≤ now := by
  unfold Contends
  rw [since_iff]
  constructor
  · rintro ⟨pre, ev, post, rfl, htakes, huntil⟩
    obtain ⟨l, hl⟩ := living_of_kept H hcap (along_append.mp hkeep).1
    obtain ⟨frame, due, hdue, hwaits⟩ := waiting_of_takesOn hl htakes
    obtain ⟨now, hmem, hle⟩ :=
      (until_iff_of_kept hwaits (along_append.mp hkeep).2.2).mp huntil
    exact ⟨pre, ev, post, due, now, rfl, htakes, hdue, hmem, hle⟩
  · rintro ⟨pre, ev, post, due, now, rfl, htakes, hdue, hmem, hle⟩
    obtain ⟨l, hl⟩ := living_of_kept H hcap (along_append.mp hkeep).1
    obtain ⟨frame, due', hdue', hwaits⟩ := waiting_of_takesOn hl htakes
    obtain rfl := Option.some.inj (hdue.symm.trans hdue')
    exact ⟨pre, ev, post, rfl, htakes,
      (until_iff_of_kept hwaits (along_append.mp hkeep).2.2).mpr
        ⟨now, hmem, hle⟩⟩

/-- In the event node `n` is handed a data packet that was sent to it or to
all, for another node, new to its cache and with TTL to be forwarded. -/
def IsSent (st : Stations N) (net : Network N H) (n : Fin N) (p : PacketId) :
    NetEvent N → Prop
  | .deliver i m _ _ => m = n
      ∧ ∃ tx header consumed, net.CanHand i n tx
        ∧ addressed_to (st.mac n) tx.frame.destination = true
        ∧ DataFrame (st.config n) tx.frame.data header consumed
        ∧ header.packet_id = p ∧ header.final_destination ≠ st.mac n
        ∧ 2 ≤ header.ttl ∧ (net.nodes n).dedup.Contains p = false
  | _ => False

/-- In the run from the start node `n` is sent such a packet. -/
def WasSent (H : WheelHeap ForwardCallback) (st : Stations N)
    (es : List (NetEvent N)) (p : PacketId) (n : Fin N) : Prop :=
  ∃ pre ev post, es = pre ++ ev :: post ∧ IsSent st (run H st pre) n p ev

/-- With the flags the adapters compute it is such packets that are taken
on. -/
theorem takesOn_iff_of_heard {link : Fin N → Fin N → Prop} {ev : NetEvent N}
    (h : Heard st link net ev) :
    TakesOn st net n p ev ↔ IsSent st net n p ev := by
  cases ev with
  | deliver i m now is_candidate =>
      obtain ⟨tx, htx, -, rfl⟩ := h
      have hsame : ∀ {tx'}, net.CanHand i n tx' → tx' = tx := fun hcan =>
        Option.some.inj (hcan.1.symm.trans htx)
      constructor
      · rintro ⟨rfl, hflag, tx', header, consumed, hcan, hrest⟩
        obtain rfl := hsame hcan
        exact ⟨rfl, tx', header, consumed, hcan, hflag, hrest⟩
      · rintro ⟨rfl, tx', header, consumed, hcan, hflag, hrest⟩
        obtain rfl := hsame hcan
        exact ⟨rfl, hflag, tx', header, consumed, hcan, hrest⟩
  | _ => exact Iff.rfl

/-- Where in addition the flags are the adapters' and the node is not left
waiting for the packet, it contends exactly if it is sent the packet, by
name or by broadcast, before it knows it: the list of candidates and what
the node overhears make no difference. -/
theorem contends_iff_of_settled (H : WheelHeap ForwardCallback)
    {link : Fin N → Fin N → Prop} (hcap : 0 < st.capacity n)
    {es : List (NetEvent N)}
    (hkeep : Along (step st) (KeepsAt st n p) (start H st) es)
    (hheard : Along (step st) (Heard st link) (start H st) es)
    (hdone : ((run H st es).nodes n).coordinator.pending.lookup p = none) :
    Contends st n p (start H st) es ↔ WasSent H st es p n := by
  unfold Contends
  rw [since_iff]
  constructor
  · rintro ⟨pre, ev, post, rfl, htakes, -⟩
    have hev := (along_append.mp hheard).2.1
    exact ⟨pre, ev, post, rfl, (takesOn_iff_of_heard hev).mp htakes⟩
  · rintro ⟨pre, ev, post, rfl, hsent⟩
    have hev := (along_append.mp hheard).2.1
    have htakes := (takesOn_iff_of_heard hev).mpr hsent
    obtain ⟨l, hl⟩ := living_of_kept H hcap (along_append.mp hkeep).1
    obtain ⟨frame, due, -, hwaits⟩ := waiting_of_takesOn hl htakes
    refine ⟨pre, ev, post, rfl, htakes, ?_⟩
    -- or it would be waiting still
    by_contra hnever
    have hend := waiting_exec hwaits (along_append.mp hkeep).2.2 hnever
    obtain ⟨e, he, -⟩ := hend.holds
    rw [run, exec_append, exec_cons] at hdone
    exact Option.some_ne_none e (he.symm.trans hdone)

-- ============================================================ the election

/-- Of two nodes that hear each other and were both handed a transmission
of packet `p`, `P` holds of at most one. -/
def AtMostOne (link : Fin N → Fin N → Prop) (net : Network N H)
    (p : PacketId) (P : Fin N → Prop) : Prop :=
  ∀ i tx, net.air[i]? = some tx → tx.packet_id = some p →
    ∀ n m, n ≠ m → (i, n) ∈ net.handed → (i, m) ∈ net.handed →
      link n m → link m n → ¬ (P n ∧ P m)

theorem AtMostOne.congr {link : Fin N → Fin N → Prop} {P Q : Fin N → Prop}
    (h : ∀ n, P n ↔ Q n) : AtMostOne link net p P ↔ AtMostOne link net p Q := by
  unfold AtMostOne
  simp only [h]

/-- Of two nodes that hear each other and were both handed a transmission,
at most one has forwarded its packet. -/
def OneForwarder (link : Fin N → Fin N → Prop) (net : Network N H) : Prop :=
  ∀ p, AtMostOne link net p (net.HasForwarded p)

/-- In every run, with any losses, delays, flags and evictions: no two
nodes that hear each other and were both handed a transmission have
forwarded its packet exactly if no two such nodes contend for it. A node
whose cache keeps the packet contends exactly if it is handed a flagged
copy before it knows the packet, with TTL to be forwarded and for another
node, and ticked when the delay of its place in the list of candidates is
over; and with the flags the adapters compute, and no copy left waiting,
exactly if it is sent such a copy, by name or by broadcast. Where that is
so at every node, the transmissions alone decide: no two nodes in earshot
forward a packet exactly if no transmission of it was handed to two nodes
in earshot that were both sent the packet before they knew it. -/
theorem one_forwarder_iff (H : WheelHeap ForwardCallback) (st : Stations N)
    (link : Fin N → Fin N → Prop) (es : List (NetEvent N)) :
    (OneForwarder link (run H st es) ↔
      ∀ p, AtMostOne link (run H st es) p fun n =>
        Contends st n p (start H st) es)
    ∧ (∀ n p, 0 < st.capacity n →
      Along (step st) (KeepsAt st n p) (start H st) es →
      (Contends st n p (start H st) es
        ↔ ∃ pre ev post due now, es = pre ++ ev :: post
          ∧ TakesOn st (run H st pre) n p ev
          ∧ forward_due st (run H st pre) n ev = some due
          ∧ .tick n now ∈ post ∧ due ≤ now)
      ∧ (Along (step st) (Heard st link) (start H st) es →
        ((run H st es).nodes n).coordinator.pending.lookup p = none →
        (Contends st n p (start H st) es ↔ WasSent H st es p n)))
    ∧ ∀ p, (∀ n, 0 < st.capacity n) →
      (∀ n, Along (step st) (KeepsAt st n p) (start H st) es) →
      Along (step st) (Heard st link) (start H st) es →
      (∀ n, ((run H st es).nodes n).coordinator.pending.lookup p = none) →
      (AtMostOne link (run H st es) p ((run H st es).HasForwarded p)
        ↔ AtMostOne link (run H st es) p (WasSent H st es p)) := by
  have hforwarded : ∀ p, AtMostOne link (run H st es) p
      ((run H st es).HasForwarded p)
        ↔ AtMostOne link (run H st es) p fun n =>
          Contends st n p (start H st) es :=
    fun p => AtMostOne.congr fun n => hasForwarded_iff H st es n p
  refine ⟨forall_congr' hforwarded, fun n p hcap hkeep =>
    ⟨contends_iff_of_kept H hcap hkeep,
      contends_iff_of_settled H hcap hkeep⟩, ?_⟩
  intro p hcap hkeep hheard hdone
  rw [hforwarded p]
  apply AtMostOne.congr
  intro n
  exact contends_iff_of_settled H (hcap n) (hkeep n) hheard (hdone n)

/-- Station `o` unicasts to station `a`, station `n` overhears, and station
`a` forwards. -/
def overheard_run (st : Stations N) (o a n : Fin N) : List (NetEvent N) :=
  [.originate o 0 (st.mac a) (sample_frame 7 5), .deliver 0 a 1 true,
    .deliver 0 n 1 false, .tick a 50000001]

/-- Station 1 is listed as a backup, so that its timer goes off after 50 ms
and no sooner; no other station was sent the packet, and none forwards. -/
theorem one_forwarder_iff_overheard :
    Contends four_stations 1 7 (start (sortedHeap _) four_stations)
        (overheard_run four_stations 0 1 2)
      ∧ WasSent (sortedHeap _) four_stations
        (overheard_run four_stations 0 1 2) 7 1
      ∧ AtMostOne kite
        (run (sortedHeap _) four_stations (overheard_run four_stations 0 1 2))
        7 (WasSent (sortedHeap _) four_stations
          (overheard_run four_stations 0 1 2) 7) := by
  have h := one_forwarder_iff (sortedHeap _) four_stations kite
    (overheard_run four_stations 0 1 2)
  have hkeep : ∀ n, Along (step four_stations) (KeepsAt four_stations n 7)
      (start (sortedHeap _) four_stations)
      (overheard_run four_stations 0 1 2) := by
    decide +kernel
  have hheard : Along (step four_stations) (Heard four_stations kite)
      (start (sortedHeap _) four_stations)
      (overheard_run four_stations 0 1 2) := by
    decide +kernel
  have hdone : ∀ n, ((run (sortedHeap _) four_stations
      (overheard_run four_stations 0 1 2)).nodes n).coordinator.pending.lookup
        7 = none := by
    decide +kernel
  have hcontends := ((h.2.1 1 7 (by decide) (hkeep 1)).1).mpr
    ⟨[.originate 0 0 (four_stations.mac 1) (sample_frame 7 5)],
      .deliver 0 1 1 true, [.deliver 0 2 1 false, .tick 1 50000001],
      50000001, 50000001, rfl,
      ⟨rfl, rfl, _, sample_header 7 5, 19, ⟨rfl, by decide, by decide⟩,
        sample_dataFrame 7 5, rfl, by decide, by decide, by decide⟩,
      by decide +kernel, by simp, by decide⟩
  refine ⟨hcontends, ((h.2.1 1 7 (by decide) (hkeep 1)).2 hheard
    (hdone 1)).mp hcontends, ?_⟩
  refine (h.2.2 7 (by decide) hkeep hheard hdone).mp ?_
  intro i tx _ _ n m hne _ _ _ _ hboth
  have honly : ∀ n, (run (sortedHeap _) four_stations
      (overheard_run four_stations 0 1 2)).HasForwarded 7 n → n = 1 := by
    decide +kernel
  exact hne ((honly n hboth.1).trans (honly m hboth.2).symm)

-- ========================================================== two forwarders

/-- Four stations between origin and destination: numbered addresses, and
none of them address 9. -/
def four_relays : Stations 4 :=
  { four_stations with mac := fun n => station (UInt8.ofNat n) }

/-- Station `o` unicasts to station `a`, which forwards at once. Stations
`n` and `m` hear that and each other; `n` forwards at once, `m` after
50 ms. -/
def twin_run (st : Stations N) (o a n m : Fin N) : List (NetEvent N) :=
  [.own_send o 0 7, .originate o 0 (st.mac a) (sample_frame 7 5),
    .deliver 0 a 1 true, .tick a 1,
    .deliver 1 o 2 true, .deliver 1 n 2 true, .deliver 1 m 2 true, .tick n 2,
    .deliver 2 m 3 true, .deliver 2 a 3 true, .tick m 50000002,
    .deliver 3 n 50000003 true, .deliver 3 a 50000003 true]

/-- Two that take the packet on: station 1 waits, loses the id to another
packet, overhears the origin's second attempt and is called off. -/
example : let st := { four_relays with capacity := fun _ => 1 }
    let net := run (sortedHeap _) st
      [.originate 3 0 (st.mac 2) (sample_frame 7 5), .deliver 0 2 1 true,
        .tick 2 1, .deliver 1 0 2 true, .deliver 1 1 2 true, .own_send 1 3 8,
        .originate 3 4 (st.mac 2) (sample_frame 7 5), .deliver 2 1 5 false,
        .tick 0 6, .tick 1 50000002]
    net.HasForwarded 7 0 ∧ ¬ net.HasForwarded 7 1 := by
  decide +kernel

/-- Station 1 is listed as a backup and waits 50 ms. Nothing is lost,
everything arrives within 1 ns, and station 1 has heard station 0 forward
the packet long before it forwards it itself. -/
theorem both_forward :
    (∀ n, 0 < (four_relays.config n).twait_ms)
      ∧ ((twin_run four_relays 3 2 0 1).map NetEvent.time).Pairwise (· ≤ ·)
      ∧ Along (Network.step four_relays)
        (fun net ev =>
          Heard four_relays kite net ev ∧ Prompt four_relays net ev)
        (start (sortedHeap _) four_relays) (twin_run four_relays 3 2 0 1)
      ∧ ∃ net, run (sortedHeap _) four_relays (twin_run four_relays 3 2 0 1)
          = net
        ∧ Quiescent kite net
        ∧ ∃ tx, net.air[1]? = some tx ∧ tx.packet_id = some 7
        ∧ (1, 0) ∈ net.handed ∧ (1, 1) ∈ net.handed
        ∧ kite 0 1 ∧ kite 1 0
        ∧ net.HasForwarded 7 0 ∧ net.HasForwarded 7 1 :=
  ⟨by decide, by decide, by decide +kernel, _, rfl, by decide +kernel, _, rfl,
    by decide +kernel, by decide +kernel, by decide +kernel, by decide,
    by decide, by decide +kernel, by decide +kernel⟩

end Network

end Joker
