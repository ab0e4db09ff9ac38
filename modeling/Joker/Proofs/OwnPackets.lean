/-
Does a host relay its own packets?

A phone records the id of what it sends before it sends it, so a copy
that comes back is a duplicate for as long as the cache keeps the id. The
laptop does not: the first copy that its adapter hands it, its own
broadcast looped back or a neighbour's relay of it, is taken on like any
other packet. What a host schedules or transmits for an id starts with a
step that takes a copy on (`TakesOn`), and every such step schedules
(`TakesOn.relays`).
-/
import Joker.Proofs.Hosts

namespace Joker

open Transition VectorHeap

variable {H : WheelHeap ForwardCallback}

-- ========================================================= the property

/-- Since the state `s₀` nothing was scheduled and nothing transmitted for
the packet. -/
structure Unrelayed (p : PacketId) (s₀ : TimerNode H)
    (c : TimerCoordinator H) (nic : NicAdapter) : Prop where
  scheduled : ∀ t ∈ c.wheel.timers, t.callback.packet_id = p →
    t.id < s₀.coordinator.wheel.next_id
  transmitted : ∃ sent, nic.transmitted = s₀.nic.transmitted ++ sent
    ∧ ∀ tx ∈ sent, ∀ e, tx.retained ≠ some (p, e)

/-- In no state of the run from `h` on has anything been scheduled or
transmitted for the packet since `h`. -/
def NeverRelays (p : PacketId) (h : Host H) (es : List HostEvent) : Prop :=
  ∀ as, as <+: es → Unrelayed p h.node
    (exec Host.step h as).node.coordinator (exec Host.step h as).node.nic

/-- The event does not evict the id. -/
def KeepsId (p : PacketId) (h : Host H) (ev : HostEvent) : Prop :=
  h.node.dedup.Contains p = true →
    (h.step ev).node.dedup.Contains p = true

/-- The event hands the host a copy it takes on: a flagged data packet
with the id, for another node and with TTL left, while the cache does not
contain the id. -/
def TakesOn (p : PacketId) (h : Host H) (ev : HostEvent) : Prop :=
  ∃ now frame header consumed, ev = .receive now frame true
    ∧ DataFrame h.config frame header consumed ∧ header.packet_id = p
    ∧ header.final_destination ≠ h.mac ∧ header.ttl ≠ 0
    ∧ h.node.dedup.Contains p = false

-- ===================================================== taking a copy on

/-- A step that takes a copy on schedules a forward of it. -/
theorem TakesOn.relays {p : PacketId} {h : Host H} {ev : HostEvent}
    (htakes : TakesOn p h ev) {s₀ : TimerNode H}
    (hle : s₀.coordinator.wheel.next_id
      ≤ h.node.coordinator.wheel.next_id) :
    ¬ Unrelayed p s₀ (h.step ev).node.coordinator (h.step ev).node.nic := by
  obtain ⟨now, frame, header, consumed, rfl, hf, rfl, hdest, httl, hnew⟩ :=
    htakes
  intro hun
  have hv := verdict_eq_candidate_iff.mpr ⟨hf, hdest, httl, hnew, rfl⟩
  have hcoord : (h.step (.receive now frame true)).node.coordinator
      = h.node.coordinator.accept header frame h.mac h.config now := by
    rw [Host.step_node]
    exact TimerNode.step_candidate hv
  have harm := armed_accept h.node.coordinator header frame h.mac h.config now
  rw [← hcoord] at harm
  have hlt := hun.scheduled _ harm rfl
  exact absurd hlt (Nat.not_lt.mpr hle)

/-- Sending leaves the coordinator alone. -/
theorem Host.send_coordinator (h : Host H) (now : TimePoint) (msg : Bytes) :
    (h.step (.send now msg)).node.coordinator = h.node.coordinator := by
  rw [step_node]
  dsimp only
  cases h.originates msg <;> rfl

/-- Timer ids are given out upwards. -/
theorem Host.next_id_le (h : Host H) (ev : HostEvent) :
    h.node.coordinator.wheel.next_id
      ≤ (h.step ev).node.coordinator.wheel.next_id := by
  cases ev with
  | receive now frame is_cand =>
      rw [step_node]
      rcases TimerNode.step_next_id h.node h.mac h.config
        (.receive now frame is_cand) with heq | ⟨-, heq⟩
      · exact Nat.le_of_eq heq.symm
      · exact Nat.le_of_lt (Nat.lt_of_lt_of_eq (Nat.lt_succ_self _) heq.symm)
  | tick now =>
      rw [step_node]
      rcases TimerNode.step_next_id h.node h.mac h.config (.tick now) with
        heq | ⟨-, heq⟩
      · exact Nat.le_of_eq heq.symm
      · exact Nat.le_of_lt (Nat.lt_of_lt_of_eq (Nat.lt_succ_self _) heq.symm)
  | send now msg => rw [h.send_coordinator]

-- ===================================================== taking none on

/-- Nothing is pending for the packet, and it is unrelayed. -/
structure Quiet (p : PacketId) (s₀ : TimerNode H) (c : TimerCoordinator H)
    (nic : NicAdapter) : Prop extends Unrelayed p s₀ c nic where
  pending : c.pending.lookup p = none

/-- Cancelling a timer changes neither its id nor its callback. -/
theorem mem_cancelFirst {κ : Type} {id : TimerId} {v : List (TimerEntry κ)}
    {u : TimerEntry κ} (hu : u ∈ SimpleTimerWheel.cancelFirst id v) :
    ∃ t ∈ v, t.id = u.id ∧ t.callback = u.callback := by
  induction v with
  | nil => cases hu
  | cons e es ih =>
      rw [SimpleTimerWheel.cancelFirst] at hu
      split at hu
      · rcases List.mem_cons.mp hu with rfl | hu
        · exact ⟨e, List.mem_cons_self, rfl, rfl⟩
        · exact ⟨u, List.mem_cons_of_mem _ hu, rfl, rfl⟩
      · rcases List.mem_cons.mp hu with rfl | hu
        · exact ⟨u, List.mem_cons_self, rfl, rfl⟩
        · obtain ⟨t, ht, hall⟩ := ih hu
          exact ⟨t, List.mem_cons_of_mem _ ht, hall⟩

namespace Quiet

variable {p : PacketId} {s₀ : TimerNode H}

/-- Another packet is taken on. -/
theorem accept {c : TimerCoordinator H} {nic : NicAdapter}
    (h : Quiet p s₀ c nic) {header : JokerHeader} (hne : p ≠ header.packet_id)
    (frame : Bytes) (local_mac : MacAddress) (config : Config)
    (now : TimePoint) :
    Quiet p s₀ (c.accept header frame local_mac config now) nic := by
  refine ⟨⟨fun t ht hp => ?_, h.transmitted⟩, ?_⟩
  · rcases mem_accept_iff.mp ht with rfl | ht
    · exact absurd hp.symm hne
    · exact h.scheduled t ht hp
  · rw [lookup_accept, if_neg hne]
    exact h.pending

/-- A packet is suppressed. -/
theorem overheard {c : TimerCoordinator H} {nic : NicAdapter}
    (h : Quiet p s₀ c nic) (q : PacketId) :
    Quiet p s₀ (c.HandleOverheardForward q) nic := by
  refine ⟨⟨fun t ht hp => ?_, h.transmitted⟩, ?_⟩
  · unfold TimerCoordinator.HandleOverheardForward at ht
    cases hq : c.pending.lookup q with
    | none =>
        rw [hq] at ht
        exact h.scheduled t ht hp
    | some it =>
        rw [hq] at ht
        obtain ⟨u, hu, hid, hcb⟩ := mem_cancelFirst ht
        rw [← hid]
        exact h.scheduled u hu (hcb ▸ hp)
  · rw [overheard_pending, lookup_erase_eq, h.pending, ite_self]

/-- A tick. -/
theorem tick {s : TimerNode H} (h : Quiet p s₀ s.coordinator s.nic)
    (now : TimePoint) :
    Quiet p s₀ (TimerNode.Tick now s).coordinator
      (TimerNode.Tick now s).nic := by
  refine TimerNode.tick_invariant
    (fun s => Quiet p s₀ s.coordinator s.nic) ?_ ?_ h
  · intro s t w hpop _ h
    refine ⟨⟨fun u hu => ?_, h.transmitted⟩, h.pending⟩
    exact h.scheduled u (SimpleTimerWheel.mem_of_popExpired hpop hu)
  · intro s t w hpop _ h
    rw [on_expiry_eq]
    refine ⟨⟨fun u hu => ?_, ?_⟩, ?_⟩
    · exact h.scheduled u (SimpleTimerWheel.mem_of_popExpired hpop hu)
    · obtain ⟨sent, hsent, hnot⟩ := h.transmitted
      dsimp only [TimerNode.withWheel]
      cases he : s.coordinator.pending.lookup t.callback.packet_id with
      | none => exact ⟨sent, hsent, hnot⟩
      | some e =>
          have hne : t.callback.packet_id ≠ p := by
            rintro rfl
            rw [h.pending] at he
            cases he
          unfold NicAdapter.sendFor
          dsimp only
          cases transmission e.frame with
          | none => exact ⟨sent, hsent, hnot⟩
          | some data =>
              refine ⟨sent ++ [⟨MacAddress.broadcast, data, true,
                some (t.callback.packet_id, e)⟩], ?_, fun tx htx e' heq => ?_⟩
              · rw [← List.append_assoc, ← hsent]
                rfl
              · rcases List.mem_append.mp htx with htx | htx
                · exact hnot tx htx e' heq
                · rw [List.mem_singleton.mp htx] at heq
                  injection heq with heq
                  injection heq with hp
                  exact hne hp
    · show (s.coordinator.pending.erase _).lookup p = none
      rw [lookup_erase_eq, h.pending, ite_self]

/-- An event of the node that takes no copy on. -/
theorem node_step {s : TimerNode H} (h : Quiet p s₀ s.coordinator s.nic)
    {local_mac : MacAddress} {config : Config} {ev : NodeEvent}
    (hev : ∀ now frame header consumed, ev = .receive now frame true →
      verdict frame local_mac true config s.dedup
        = .candidate header consumed → p ≠ header.packet_id) :
    Quiet p s₀ (s.step local_mac config ev).coordinator
      (s.step local_mac config ev).nic := by
  refine TimerNode.step_invariant (Quiet p s₀) ?_ ?_ ?_ h
  · intro now frame header consumed heq hv
    exact h.accept (hev now frame header consumed heq hv) _ _ _ _
  · intro now frame header _ _
    exact h.overheard header.packet_id
  · intro now _
    exact h.tick now

/-- An event of the host that takes no copy on. -/
theorem step {h : Host H} (hq : Quiet p s₀ h.node.coordinator h.node.nic)
    {ev : HostEvent} (hev : ¬ TakesOn p h ev) :
    Quiet p s₀ (h.step ev).node.coordinator (h.step ev).node.nic := by
  cases ev with
  | receive now frame is_cand =>
      rw [Host.step_node]
      refine hq.node_step fun now' frame' header consumed heq hv hp => ?_
      injection heq with hnow hframe hcand
      subst hnow hframe hcand
      obtain ⟨hf, hdest, httl, hnew, -⟩ := verdict_eq_candidate_iff.mp hv
      exact hev ⟨now, frame, header, consumed, rfl, hf, hp.symm, hdest, httl,
        hp ▸ hnew⟩
  | tick now =>
      rw [Host.step_node]
      refine hq.node_step fun now' frame header consumed heq => ?_
      cases heq
  | send now msg =>
      obtain ⟨sent, hsent, hnone⟩ := h.send_nic now msg
      rw [h.send_coordinator]
      obtain ⟨old, hold, hnot⟩ := hq.transmitted
      refine ⟨⟨hq.scheduled, old ++ sent, ?_, fun tx htx e heq => ?_⟩,
        hq.pending⟩
      · rw [hsent, hold, List.append_assoc]
      · rcases List.mem_append.mp htx with htx | htx
        · exact hnot tx htx e heq
        · rw [hnone tx htx] at heq
          cases heq

end Quiet

-- ================================================================ the runs

/-- A state that a program reaches from its start. -/
def Host.Reached (h : Host H) : Prop :=
  ∃ h₀ before, h₀.Started ∧ h = exec Host.step h₀ before

theorem Host.Reached.coherent {h : Host H} (hh : h.Reached) :
    Coherent h.node.coordinator := by
  obtain ⟨h₀, before, hs, rfl⟩ := hh
  refine exec_invariant (fun g : Host H => Coherent g.node.coordinator)
    (fun g ev hg => ?_) before ?_
  · cases ev with
    | receive now frame is_cand =>
        rw [Host.step_node]
        exact TimerNode.step_coherent hg _ _ _
    | tick now =>
        rw [Host.step_node]
        exact TimerNode.step_coherent hg _ _ _
    | send now msg =>
        rw [g.send_coordinator]
        exact hg
  · rw [hs.node_eq]
    exact coherent_start

theorem Host.Reached.capacity {h : Host H} (hh : h.Reached) :
    h.node.dedup.capacity = 1000 := by
  obtain ⟨h₀, before, hs, rfl⟩ := hh
  rw [Host.dedup_eq hs, after_capacity]

/-- When a packet is sent that nothing is pending for, all is quiet. -/
theorem quiet_of_send {h : Host H} (hh : h.Reached) {p : PacketId}
    (hnone : h.node.coordinator.pending.lookup p = none) (now : TimePoint)
    (msg : Bytes) :
    Quiet p (h.step (.send now msg)).node
      (h.step (.send now msg)).node.coordinator
      (h.step (.send now msg)).node.nic := by
  refine ⟨⟨fun t ht _ => ?_, [], (List.append_nil _).symm,
    fun tx htx => absurd htx List.not_mem_nil⟩, ?_⟩
  · rw [h.send_coordinator] at ht ⊢
    exact hh.coherent.lt t ht
  · rw [h.send_coordinator]
    exact hnone

/-- A phone has recorded what it sends. -/
theorem contains_of_send {h : Host H} (hh : h.Reached)
    (hphone : h.isPhone = true) {msg : Bytes} {p : PacketId}
    (hp : h.originates msg = some p) (now : TimePoint) :
    (h.step (.send now msg)).node.dedup.Contains p = true := by
  have hcap : 0 < h.node.dedup.capacity := by
    rw [hh.capacity]
    exact Nat.zero_lt_succ _
  rw [Host.step_node]
  simp only [hp, hphone, if_true]
  exact DedupCache.contains_Insert_self hcap p now

/-- While the cache keeps the id no copy is taken on. -/
theorem not_takesOn_of_contains {p : PacketId} {h : Host H}
    {es : List HostEvent} (hc : h.node.dedup.Contains p = true)
    (hkeep : Along Host.step (KeepsId p) h es) :
    Along Host.step (fun g ev => ¬ TakesOn p g ev) h es := by
  induction es generalizing h with
  | nil => trivial
  | cons ev es ih =>
      refine ⟨fun htakes => ?_, ih (hkeep.1 hc) hkeep.2⟩
      obtain ⟨_, _, _, _, _, _, _, _, _, hnew⟩ := htakes
      rw [hc] at hnew
      cases hnew

/-- From a quiet state on the packet is never relayed exactly when no copy
is taken on. -/
theorem neverRelays_iff {p : PacketId} {h : Host H} {es : List HostEvent}
    (hq : Quiet p h.node h.node.coordinator h.node.nic) :
    NeverRelays p h es
      ↔ Along Host.step (fun g ev => ¬ TakesOn p g ev) h es := by
  constructor
  · intro hnever
    induction es using List.reverseRecOn with
    | nil => trivial
    | append_singleton es ev ih =>
        have hbefore := ih fun as has => hnever as
          (has.trans (List.prefix_append es [ev]))
        refine along_append.mpr ⟨hbefore, fun htakes => ?_, trivial⟩
        have hle := exec_invariant
          (fun g : Host H => h.node.coordinator.wheel.next_id
            ≤ g.node.coordinator.wheel.next_id)
          (fun g ev hg => Nat.le_trans hg (g.next_id_le ev)) es (Nat.le_refl _)
        have hafter := hnever (es ++ [ev]) List.prefix_rfl
        rw [exec_concat] at hafter
        exact htakes.relays hle hafter
  · intro hnot as has
    obtain ⟨rest, rfl⟩ := has
    have hquiet := exec_invariant_along
      (fun g : Host H => Quiet p h.node g.node.coordinator g.node.nic)
      (fun g ev hev hg => hg.step hev) as (along_append.mp hnot).1 hq
    exact hquiet.toUnrelayed

/-- A host in any state it can reach sends a packet that nothing is
pending for, and its cache never evicts the id afterwards. Then it never
relays the packet exactly when it is a phone, or no copy is taken on. -/
theorem originator_relays_iff (H : WheelHeap ForwardCallback) (h : Host H)
    (now : TimePoint) (msg : Bytes) (p : PacketId) (es : List HostEvent)
    (hh : h.Reached) (hp : h.originates msg = some p)
    (hnone : h.node.coordinator.pending.lookup p = none)
    (hkeep : Along Host.step (KeepsId p) (h.step (.send now msg)) es) :
    NeverRelays p (h.step (.send now msg)) es
      ↔ h.isPhone = true
        ∨ Along Host.step (fun g ev => ¬ TakesOn p g ev)
          (h.step (.send now msg)) es := by
  rw [neverRelays_iff (quiet_of_send hh hnone now msg)]
  constructor
  · intro hnot
    exact Or.inr hnot
  · intro hor
    rcases hor with hphone | hnot
    · exact not_takesOn_of_contains (contains_of_send hh hphone hp now) hkeep
    · exact hnot

/-- "hi", and its first frame from the laptop. -/
def hi : Bytes := [0x68, 0x69]

def hi_frame : Bytes := wire (cli_header hi 1) ++ hi

theorem hi_dataFrame : DataFrame {} hi_frame (cli_header hi 1) 13 :=
  ⟨deserialize_wire _ _ rfl, rfl, rfl⟩

/-- The frame comes back to a phone that has sent "hi" itself, its id is
the same, and it is not relayed. -/
theorem originator_relays_iff_echo :
    NeverRelays (cli_header hi 1).packet_id
      ((Host.start_phone (sortedHeap _) .CLI).step (.send 0 hi))
      [.receive 1 hi_frame true] := by
  refine (originator_relays_iff (sortedHeap _)
    (Host.start_phone (sortedHeap _) .CLI) 0 hi (cli_header hi 1).packet_id
    [.receive 1 hi_frame true] ⟨_, [], Or.inl ⟨.CLI, rfl⟩, rfl⟩ rfl rfl
    ⟨fun _ => ?_, trivial⟩).mpr (Or.inl rfl)
  decide +kernel

/-- The laptop's own broadcast comes back to it, and it relays it. -/
theorem own_broadcast_relayed :
    (Host.start_laptop (sortedHeap _) 5).originates hi
      = some (cli_header hi 1).packet_id
    ∧ ¬ NeverRelays (cli_header hi 1).packet_id
      ((Host.start_laptop (sortedHeap _) 5).step (.send 0 hi))
      [.receive 1 hi_frame true] := by
  refine ⟨rfl, fun hnever => ?_⟩
  have htakes : TakesOn (cli_header hi 1).packet_id
      ((Host.start_laptop (sortedHeap _) 5).step (.send 0 hi))
      (.receive 1 hi_frame true) :=
    ⟨1, hi_frame, _, _, rfl, hi_dataFrame, rfl, by decide, by decide, rfl⟩
  exact htakes.relays (Nat.le_refl _) (hnever _ List.prefix_rfl)

end Joker
