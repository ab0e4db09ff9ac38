/-
What every event of a node preserves.

# Three families of facts

- Ids: whatever `IdStep` preserves holds along the runs of a node
  (`TimerNode.step_preserves`), because a tick is a sequence of critical
  sections and transmissions.
- Timers: every pending entry has a live timer of its own in the wheel
  (`Coherent`). Overwriting an entry leaves the old timer behind, live
  and without an entry, so the converse fails; what saves suppression is
  that ids are distinct, and cancelling one entry's timer marks no other.
- Entries: what holds of an entry when it is accepted holds of it while
  it is pending, when it is transmitted and when its callback ends
  (`Entries`).

Each is proved for the pieces an event is made of — accept, overheard,
a popped timer dropped, a popped timer run — and lifted to events once.
-/
import Joker.Proofs.Forwards

namespace Joker

open Transition

variable {H : WheelHeap ForwardCallback}

-- ========================================================= ticks, turn by turn

/-- The node with its wheel replaced. -/
def TimerNode.withWheel (s : TimerNode H)
    (w : SimpleTimerWheel ForwardCallback H) : TimerNode H :=
  { s with coordinator := { s.coordinator with wheel := w } }

/-- A tick preserves what dropping a cancelled timer and running the
callback of a live one preserve. -/
theorem TimerNode.tick_invariant {now : TimePoint}
    (Inv : TimerNode H → Prop)
    (hdrop : ∀ (s : TimerNode H) t w,
      s.coordinator.wheel.popExpired now = some (t, w) →
      t.cancelled = true → Inv s → Inv (s.withWheel w))
    (hrun : ∀ (s : TimerNode H) t w,
      s.coordinator.wheel.popExpired now = some (t, w) →
      t.cancelled = false → Inv s →
        Inv (on_expiry t.callback (s.withWheel w)))
    {s : TimerNode H} (h : Inv s) : Inv (TimerNode.Tick now s) := by
  refine tickLoop_invariant _ ?_ _ s h
  intro s t w hpop hs
  cases hc : t.cancelled with
  | true => exact hdrop s t w hpop hc hs
  | false => exact hrun s t w hpop hc hs

/-- A tick touches neither the duplicate cache nor the neighbours. -/
theorem TimerNode.tick_dedup (now : TimePoint) (s : TimerNode H) :
    (TimerNode.Tick now s).dedup = s.dedup := by
  refine TimerNode.tick_invariant (fun s' => s'.dedup = s.dedup)
    ?_ ?_ rfl
  · intro s' t w _ _ h
    exact h
  · intro s' t w _ _ h
    have heq := on_expiry_eq t.callback (s'.withWheel w)
    rw [heq]
    exact h

/-- After a tick no timer is left that has expired. -/
theorem TimerNode.tick_complete (now : TimePoint) (s : TimerNode H) :
    ∀ t ∈ (TimerNode.Tick now s).coordinator.wheel.timers,
      now < t.expires_at := by
  refine tickLoop_complete (fun s : TimerNode H =>
    s.coordinator.wheel) (fun w s => rfl) ?_ _ s (le_refl _)
  intro cb s
  have heq := on_expiry_eq cb s
  rw [heq]

/-- A tick at an earlier time and one at a later are the later tick: what
is due earlier is sent first. -/
theorem TimerNode.tick_tick {earlier now : TimePoint} (hle : earlier ≤ now)
    (s : TimerNode H) :
    TimerNode.Tick now (TimerNode.Tick earlier s) = TimerNode.Tick now s := by
  refine tickLoop_split (fun s : TimerNode H => s.coordinator.wheel)
    (fun w s => rfl) ?_ hle _ s (le_refl _) _ (le_refl _)
  intro cb s
  have heq := on_expiry_eq cb s
  rw [heq]

-- ====================================================== events, by kind

/-- A received frame, by the spec of the pipeline. -/
theorem TimerNode.step_receive (local_mac : MacAddress) (config : Config)
    (s : TimerNode H) (now : TimePoint) (frame : Bytes)
    (is_candidate : Bool) :
    s.step local_mac config (.receive now frame is_candidate)
      = let v := verdict frame local_mac is_candidate config s.dedup
        { neighbors := s.neighbors
          dedup := s.dedup.record v.recorded now
          coordinator := v.instruct frame local_mac config now s.coordinator
          nic := s.nic
          metrics := v.counters.foldl Metrics.Increment s.metrics } :=
  process_received_frame_eq frame local_mac is_candidate config now s

/-- An event reaches the coordinator and the adapter in three ways: it
accepts a packet, it suppresses one, or it ticks. -/
theorem TimerNode.step_invariant {local_mac : MacAddress} {config : Config}
    (Inv : TimerCoordinator H → NicAdapter → Prop) {s : TimerNode H}
    {ev : NodeEvent}
    (haccept : ∀ now frame header consumed, ev = .receive now frame true →
      verdict frame local_mac true config s.dedup
        = .candidate header consumed →
      Inv (s.coordinator.accept header frame local_mac config now) s.nic)
    (hoverheard : ∀ now frame header, ev = .receive now frame false →
      verdict frame local_mac false config s.dedup = .overheard header →
      Inv (s.coordinator.HandleOverheardForward header.packet_id) s.nic)
    (htick : ∀ now, ev = .tick now →
      Inv (TimerNode.Tick now s).coordinator (TimerNode.Tick now s).nic)
    (h : Inv s.coordinator s.nic) :
    Inv (s.step local_mac config ev).coordinator
      (s.step local_mac config ev).nic := by
  cases ev with
  | receive now frame is_candidate =>
      rw [TimerNode.step_receive]
      dsimp only
      cases hv : verdict frame local_mac is_candidate config s.dedup with
      | overheard header =>
          obtain rfl := (verdict_eq_overheard_iff.mp hv).2.2.2.2
          exact hoverheard now frame header rfl hv
      | candidate header consumed =>
          obtain rfl := (verdict_eq_candidate_iff.mp hv).2.2.2.2
          exact haccept now frame header consumed rfl hv
      | _ => exact h
  | tick now => exact htick now rfl
  | own_send now packet_id => exact h
  | evict now => exact h

/-- A callback adds to the adapter's record. -/
theorem sendFor_transmitted (nic : NicAdapter) (p : PacketId)
    (it : Option PendingForward) :
    ∃ sent, (nic.sendFor p it).transmitted = nic.transmitted ++ sent := by
  unfold NicAdapter.sendFor
  cases it with
  | none => exact ⟨[], (List.append_nil _).symm⟩
  | some e =>
      dsimp only
      cases transmission e.frame with
      | none => exact ⟨[], (List.append_nil _).symm⟩
      | some data => exact ⟨_, rfl⟩

/-- An adapter's record only grows. -/
theorem TimerNode.step_transmitted (s : TimerNode H)
    (local_mac : MacAddress) (config : Config) (ev : NodeEvent) :
    ∃ sent, (s.step local_mac config ev).nic.transmitted
      = s.nic.transmitted ++ sent := by
  refine TimerNode.step_invariant (fun _ nic => ∃ sent,
    nic.transmitted = s.nic.transmitted ++ sent) ?_ ?_ ?_
    ⟨[], (List.append_nil _).symm⟩
  · intro now frame header consumed _ _
    exact ⟨[], (List.append_nil _).symm⟩
  · intro now frame header _ _
    exact ⟨[], (List.append_nil _).symm⟩
  · intro now _
    refine TimerNode.tick_invariant (fun s' => ∃ sent,
      s'.nic.transmitted = s.nic.transmitted ++ sent) ?_ ?_
      ⟨[], (List.append_nil _).symm⟩
    · intro s' t w _ _ h
      exact h
    · intro s' t w _ _ ⟨sent, hsent⟩
      have heq := on_expiry_eq t.callback (s'.withWheel w)
      rw [heq]
      obtain ⟨more, hmore⟩ := sendFor_transmitted s'.nic t.callback.packet_id
        (s'.coordinator.pending.lookup t.callback.packet_id)
      refine ⟨sent ++ more, ?_⟩
      rw [← List.append_assoc, ← hsent]
      exact hmore

/-- An event draws a timer id only when it accepts a packet. -/
theorem TimerNode.step_next_id (s : TimerNode H)
    (local_mac : MacAddress) (config : Config) (ev : NodeEvent) :
    (s.step local_mac config ev).coordinator.wheel.next_id
        = s.coordinator.wheel.next_id
      ∨ (∃ now frame header consumed, ev = .receive now frame true
          ∧ verdict frame local_mac true config s.dedup
            = .candidate header consumed)
        ∧ (s.step local_mac config ev).coordinator.wheel.next_id
          = s.coordinator.wheel.next_id + 1 := by
  refine TimerNode.step_invariant (fun c _ => c.wheel.next_id
      = s.coordinator.wheel.next_id
    ∨ (∃ now frame header consumed, ev = .receive now frame true
        ∧ verdict frame local_mac true config s.dedup
          = .candidate header consumed)
      ∧ c.wheel.next_id = s.coordinator.wheel.next_id + 1) ?_ ?_ ?_
    (Or.inl rfl)
  · intro now frame header consumed hev hv
    exact Or.inr ⟨⟨now, frame, header, consumed, hev, hv⟩, rfl⟩
  · intro now frame header _ _
    exact Or.inl (overheard_next_id _ _)
  · intro now _
    refine Or.inl (TimerNode.tick_invariant (fun s' =>
      s'.coordinator.wheel.next_id = s.coordinator.wheel.next_id) ?_ ?_ rfl)
    · intro s' t w hpop _ h
      exact (SimpleTimerWheel.popExpired_some hpop).1.trans h
    · intro s' t w hpop _ h
      have heq := on_expiry_eq t.callback (s'.withWheel w)
      rw [heq]
      exact (SimpleTimerWheel.popExpired_some hpop).1.trans h

/-- A frame taken on as a candidate is handed to the coordinator. -/
theorem TimerNode.step_candidate {s : TimerNode H} {local_mac : MacAddress}
    {config : Config} {now : TimePoint} {frame : Bytes}
    {header : JokerHeader} {consumed : Nat}
    (hv : verdict frame local_mac true config s.dedup
      = .candidate header consumed) :
    (s.step local_mac config (.receive now frame true)).coordinator
      = s.coordinator.accept header frame local_mac config now := by
  rw [TimerNode.step_receive]
  dsimp only
  rw [hv]
  rfl

-- =============================================================== the ids

/-- A tick preserves what `IdStep` preserves. -/
theorem TimerNode.tick_preserves {Q : TimerId → List TimerId → Prop}
    (hQ : ∀ {n l n' l'}, IdStep n l n' l' → Q n l → Q n' l')
    (now : TimePoint) (s : TimerNode H)
    (h : Q s.coordinator.wheel.next_id (forwardIds s.coordinator s.nic [])) :
    Q (TimerNode.Tick now s).coordinator.wheel.next_id
      (forwardIds (TimerNode.Tick now s).coordinator
        (TimerNode.Tick now s).nic []) := by
  refine TimerNode.tick_invariant
    (fun s => Q s.coordinator.wheel.next_id
      (forwardIds s.coordinator s.nic [])) ?_ ?_ h
  · intro s t w hpop _ h
    show Q w.next_id _
    rw [(SimpleTimerWheel.popExpired_some hpop).1]
    exact h
  · intro s t w hpop _ h
    have hw : Q (s.withWheel w).coordinator.wheel.next_id
        (forwardIds (s.withWheel w).coordinator (s.withWheel w).nic []) := by
      show Q w.next_id _
      rw [(SimpleTimerWheel.popExpired_some hpop).1]
      exact h
    have htake := hQ (take_pending_idStep (s.withWheel w).coordinator
      (s.withWheel w).nic [] t.callback.packet_id) hw
    have htaken : [(t.callback.packet_id, ((s.withWheel w
        ).coordinator.take_pending t.callback.packet_id).1)][0]? = some _ :=
      rfl
    exact hQ (send_frame_idStep { s.withWheel w with
      coordinator := ((s.withWheel w).coordinator.take_pending
        t.callback.packet_id).2 } htaken) htake

/-- An event preserves what `IdStep` preserves. -/
theorem TimerNode.step_preserves {Q : TimerId → List TimerId → Prop}
    (hQ : ∀ {n l n' l'}, IdStep n l n' l' → Q n l → Q n' l')
    (local_mac : MacAddress) (config : Config) (s : TimerNode H)
    (ev : NodeEvent)
    (h : Q s.coordinator.wheel.next_id (forwardIds s.coordinator s.nic [])) :
    Q (s.step local_mac config ev).coordinator.wheel.next_id
      (forwardIds (s.step local_mac config ev).coordinator
        (s.step local_mac config ev).nic []) := by
  refine TimerNode.step_invariant
    (fun c nic => Q c.wheel.next_id (forwardIds c nic [])) ?_ ?_ ?_ h
  · intro now frame header _ _ _
    exact hQ (accept_idStep s.coordinator s.nic [] header frame local_mac
      config now) h
  · intro _ _ header _ _
    exact hQ (overheard_idStep s.coordinator s.nic [] header.packet_id) h
  · intro now _
    exact TimerNode.tick_preserves hQ now s h

/-- The ids of the forwards of a node are distinct, all through a run. -/
theorem TimerNode.run_freshIds (local_mac : MacAddress) (config : Config)
    (capacity : Nat) (ttl : TimePoint) (es : List NodeEvent) :
    FreshIds (TimerNode.run H local_mac config capacity ttl es
      ).coordinator.wheel.next_id
      (forwardIds (TimerNode.run H local_mac config capacity ttl es).coordinator
        (TimerNode.run H local_mac config capacity ttl es).nic []) := by
  refine exec_invariant
    (fun s : TimerNode H => FreshIds s.coordinator.wheel.next_id
      (forwardIds s.coordinator s.nic []))
    (fun s ev h => TimerNode.step_preserves (fun hid => hid.freshIds)
      local_mac config s ev h) es ?_
  exact ⟨List.nodup_nil, fun i hi => absurd hi List.not_mem_nil⟩

/-- An id that is gone is never transmitted by a continuation. -/
theorem TimerNode.gone_not_sent {local_mac : MacAddress} {config : Config}
    {s : TimerNode H} {i : TimerId}
    (h : Gone i s.coordinator.wheel.next_id
      (forwardIds s.coordinator s.nic [])) (es : List NodeEvent) :
    i ∉ sentIds (exec (TimerNode.step local_mac config) s es).nic := by
  have hrun := exec_invariant
    (fun s : TimerNode H => Gone i s.coordinator.wheel.next_id
      (forwardIds s.coordinator s.nic []))
    (fun s ev h => TimerNode.step_preserves (fun hid => hid.gone)
      local_mac config s ev h) es h
  intro hmem
  exact hrun.2 (List.mem_append_right _ (List.mem_append_right _ hmem))

-- ============================================================ the timers

/-- A live timer with the id, for the packet, set for `T`. -/
def Armed (w : SimpleTimerWheel ForwardCallback H) (p : PacketId)
    (i : TimerId) (T : TimePoint) : Prop :=
  (⟨i, T, ⟨p⟩, false⟩ : TimerEntry ForwardCallback) ∈ w.timers

/-- Every pending entry has a live timer, and ids are distinct. -/
structure Coherent (c : TimerCoordinator H) : Prop where
  nodup : (c.wheel.timers.map TimerEntry.id).Nodup
  lt : ∀ t ∈ c.wheel.timers, t.id < c.wheel.next_id
  live : ∀ p e, c.pending.lookup p = some e →
    ∃ T, Armed c.wheel p e.timer_id T

/-- Two timers with one id are one timer. -/
theorem Coherent.eq_of_id {c : TimerCoordinator H} (hc : Coherent c)
    {t u : TimerEntry ForwardCallback} (ht : t ∈ c.wheel.timers)
    (hu : u ∈ c.wheel.timers) (h : t.id = u.id) : t = u :=
  List.inj_on_of_nodup_map hc.nodup ht hu h

theorem coherent_start :
    Coherent ({} : TimerCoordinator H) :=
  ⟨List.nodup_nil, fun t ht => absurd ht List.not_mem_nil,
    fun p e h => by cases h⟩

/-- Accepting a packet leaves live timers live. -/
theorem Armed.accept {c : TimerCoordinator H} {p : PacketId} {i : TimerId}
    {T : TimePoint} (h : Armed c.wheel p i T) (header : JokerHeader)
    (frame : Bytes) (local_mac : MacAddress) (config : Config)
    (now : TimePoint) :
    Armed (c.accept header frame local_mac config now).wheel p i T :=
  (c.wheel.schedule_perm _ _ _).mem_iff.mpr (List.mem_cons_of_mem _ h)

/-- The delay of the forward of a packet. -/
def forward_delay (header : JokerHeader) (local_mac : MacAddress)
    (config : Config) : TimePoint :=
  milliseconds (config.twait_ms
    * ((local_priority header local_mac).toUInt32 - 1)).toNat

/-- An accepted packet has a live timer, set for its delay. -/
theorem armed_accept (c : TimerCoordinator H) (header : JokerHeader)
    (frame : Bytes) (local_mac : MacAddress) (config : Config)
    (now : TimePoint) :
    Armed (c.accept header frame local_mac config now).wheel header.packet_id
      c.wheel.next_id (now + forward_delay header local_mac config) :=
  (c.wheel.schedule_perm _ _ _).mem_iff.mpr List.mem_cons_self

/-- No other timer is new. -/
theorem mem_accept_iff {c : TimerCoordinator H} {header : JokerHeader}
    {frame : Bytes} {local_mac : MacAddress} {config : Config}
    {now : TimePoint} {t : TimerEntry ForwardCallback} :
    t ∈ (c.accept header frame local_mac config now).wheel.timers
      ↔ t = ⟨c.wheel.next_id, now + forward_delay header local_mac config,
          ⟨header.packet_id⟩, false⟩
        ∨ t ∈ c.wheel.timers :=
  (c.wheel.schedule_perm _ _ _).mem_iff.trans List.mem_cons

/-- What cancelling the timer of one entry does to the timers. -/
theorem overheard_timers {c : TimerCoordinator H} (hc : Coherent c)
    {q : PacketId} {it : PendingForward} (hq : c.pending.lookup q = some it) :
    (c.HandleOverheardForward q).wheel.timers
      = c.wheel.timers.map fun t =>
          if t.id = it.timer_id then { t with cancelled := true } else t := by
  unfold TimerCoordinator.HandleOverheardForward
  rw [hq]
  exact SimpleTimerWheel.cancelFirst_eq_map _ _ hc.nodup

/-- Suppressing one packet leaves the live timers of others live. -/
theorem Armed.overheard {c : TimerCoordinator H} (hc : Coherent c)
    {p q : PacketId} {i : TimerId} {T : TimePoint} (h : Armed c.wheel p i T)
    (hne : p ≠ q) : Armed (c.HandleOverheardForward q).wheel p i T := by
  cases hq : c.pending.lookup q with
  | none =>
      unfold TimerCoordinator.HandleOverheardForward
      rw [hq]
      exact h
  | some it =>
      unfold Armed
      rw [overheard_timers hc hq, List.mem_map]
      refine ⟨_, h, if_neg ?_⟩
      intro hid
      obtain ⟨T', hT'⟩ := hc.live q it hq
      have heq := hc.eq_of_id h hT' hid
      injection heq with _ _ hcb
      injection hcb with hp
      exact hne hp

/-- A popped timer that is cancelled, or for another packet, leaves the
live timers of a packet in the wheel. -/
theorem Armed.pop {w w' : SimpleTimerWheel ForwardCallback H}
    {now : TimePoint} {t : TimerEntry ForwardCallback} {p : PacketId}
    {i : TimerId} {T : TimePoint} (hpop : w.popExpired now = some (t, w'))
    (h : Armed w p i T) (hne : t.cancelled = true ∨ t.callback ≠ ⟨p⟩) :
    Armed w' p i T := by
  have hperm := (SimpleTimerWheel.popExpired_some hpop).2.1
  rcases List.mem_cons.mp (hperm.mem_iff.mp h) with heq | hmem
  · rw [← heq] at hne
    rcases hne with hne | hne
    · cases hne
    · exact absurd rfl hne
  · exact hmem

-- what the four pieces of an event keep

theorem Coherent.accept {c : TimerCoordinator H} (hc : Coherent c)
    (header : JokerHeader) (frame : Bytes) (local_mac : MacAddress)
    (config : Config) (now : TimePoint) :
    Coherent (c.accept header frame local_mac config now) := by
  have hperm := c.wheel.schedule_perm now
    (forward_delay header local_mac config) ⟨header.packet_id⟩
  refine ⟨?_, ?_, ?_⟩
  · refine (hperm.map TimerEntry.id).nodup_iff.mpr ?_
    rw [List.map_cons, List.nodup_cons]
    refine ⟨fun hmem => ?_, hc.nodup⟩
    obtain ⟨t, ht, hid⟩ := List.mem_map.mp hmem
    exact Nat.lt_irrefl _ (hid ▸ hc.lt t ht)
  · intro t ht
    rcases mem_accept_iff.mp ht with rfl | ht
    · exact Nat.lt_succ_self _
    · exact Nat.lt_succ_of_lt (hc.lt t ht)
  · intro p e he
    rw [lookup_accept] at he
    split at he
    · next hp =>
      subst hp
      injection he with he
      subst he
      exact ⟨_, armed_accept c header frame local_mac config now⟩
    · obtain ⟨T, hT⟩ := hc.live p e he
      exact ⟨T, hT.accept header frame local_mac config now⟩

theorem Coherent.overheard {c : TimerCoordinator H} (hc : Coherent c)
    (q : PacketId) : Coherent (c.HandleOverheardForward q) := by
  have hids : (c.HandleOverheardForward q).wheel.timers.map TimerEntry.id
      = c.wheel.timers.map TimerEntry.id := by
    unfold TimerCoordinator.HandleOverheardForward
    cases c.pending.lookup q with
    | none => rfl
    | some it => exact SimpleTimerWheel.cancelFirst_ids _ _
  refine ⟨?_, ?_, ?_⟩
  · rw [hids]
    exact hc.nodup
  · intro t ht
    rw [overheard_next_id]
    have hmem : t.id ∈ c.wheel.timers.map TimerEntry.id :=
      hids ▸ List.mem_map_of_mem ht
    obtain ⟨u, hu, hid⟩ := List.mem_map.mp hmem
    exact hid ▸ hc.lt u hu
  · intro p e he
    obtain ⟨hne, he⟩ := lookup_overheard_some_iff.mp he
    obtain ⟨T, hT⟩ := hc.live p e he
    exact ⟨T, hT.overheard hc hne⟩

/-- The wheel without a popped timer keeps its ids apart. -/
theorem Coherent.pop_ids {c : TimerCoordinator H} (hc : Coherent c)
    {now : TimePoint} {t : TimerEntry ForwardCallback}
    {w : SimpleTimerWheel ForwardCallback H}
    (hpop : c.wheel.popExpired now = some (t, w)) :
    (w.timers.map TimerEntry.id).Nodup ∧ ∀ u ∈ w.timers, u.id < w.next_id := by
  obtain ⟨hid, hperm, -, -⟩ := SimpleTimerWheel.popExpired_some hpop
  have hnd := (hperm.map TimerEntry.id).nodup_iff.mp hc.nodup
  rw [List.map_cons, List.nodup_cons] at hnd
  refine ⟨hnd.2, fun u hu => ?_⟩
  rw [hid]
  exact hc.lt u (SimpleTimerWheel.mem_of_popExpired hpop hu)

theorem Coherent.drop {c : TimerCoordinator H} (hc : Coherent c)
    {now : TimePoint} {t : TimerEntry ForwardCallback}
    {w : SimpleTimerWheel ForwardCallback H}
    (hpop : c.wheel.popExpired now = some (t, w)) (ht : t.cancelled = true) :
    Coherent { c with wheel := w } := by
  obtain ⟨hnd, hlt⟩ := hc.pop_ids hpop
  refine ⟨hnd, hlt, fun p e he => ?_⟩
  obtain ⟨T, hT⟩ := hc.live p e he
  exact ⟨T, hT.pop hpop (Or.inl ht)⟩

theorem Coherent.run {c : TimerCoordinator H} (hc : Coherent c)
    {now : TimePoint} {t : TimerEntry ForwardCallback}
    {w : SimpleTimerWheel ForwardCallback H}
    (hpop : c.wheel.popExpired now = some (t, w)) (x : List Expiry) :
    Coherent { pending := c.pending.erase t.callback.packet_id
               wheel := w
               expiries := x } := by
  obtain ⟨hnd, hlt⟩ := hc.pop_ids hpop
  refine ⟨hnd, hlt, fun p e he => ?_⟩
  obtain ⟨hp, he⟩ := lookup_erase_some_iff.mp he
  obtain ⟨T, hT⟩ := hc.live p e he
  refine ⟨T, hT.pop hpop (Or.inr fun hcb => hp ?_)⟩
  rw [hcb]

/-- A tick keeps the wheel and the pending map coherent. -/
theorem TimerNode.tick_coherent {s : TimerNode H}
    (h : Coherent s.coordinator) (now : TimePoint) :
    Coherent (TimerNode.Tick now s).coordinator := by
  refine TimerNode.tick_invariant (fun s => Coherent s.coordinator)
    ?_ ?_ h
  · intro s t w hpop ht h
    exact h.drop hpop ht
  · intro s t w hpop _ h
    have heq := on_expiry_eq t.callback (s.withWheel w)
    rw [heq]
    exact h.run hpop _

/-- Every event does. -/
theorem TimerNode.step_coherent {s : TimerNode H}
    (h : Coherent s.coordinator) (local_mac : MacAddress) (config : Config)
    (ev : NodeEvent) : Coherent (s.step local_mac config ev).coordinator := by
  refine TimerNode.step_invariant (fun c _ => Coherent c) ?_ ?_ ?_ h
  · intro now frame header _ _ _
    exact h.accept header frame local_mac config now
  · intro _ _ header _ _
    exact h.overheard header.packet_id
  · intro now _
    exact TimerNode.tick_coherent h now

/-- The wheel and the pending map are coherent all through a run. -/
theorem TimerNode.run_coherent (local_mac : MacAddress) (config : Config)
    (capacity : Nat) (ttl : TimePoint) (es : List NodeEvent) :
    Coherent
      (TimerNode.run H local_mac config capacity ttl es).coordinator :=
  exec_invariant (fun s : TimerNode H => Coherent s.coordinator)
    (fun _ ev h => TimerNode.step_coherent h local_mac config ev) es
      coherent_start

end Joker
