/-
Does a timer forward what it was scheduled for?

A callback looks its frame up by packet id. When a packet is accepted
again while an earlier timer for it is in the wheel, the new entry takes
the place of the old one and the old timer is not cancelled: if it expires
first, it sends the new frame, early. So a timer forwards its own frame as
long as no acceptance is overtaken by a timer that is already there
(`NotOvertaken`). Then the entry pending for a packet is that of the live
timer for it that expires first (`OwnTimer.first`), and the timer a `Tick`
pops is the first of all.
-/
import Joker.Lib.Trace
import Joker.Model.CoordinatorRuns
import Joker.Proofs.RetainedFrames

namespace Joker

open Transition VectorHeap Trace

variable {H : WheelHeap ForwardCallback}

-- ========================================================= the property

/-- `twait_ms * (priority - 1)`, in milliseconds and without wrapping
around. -/
def own_delay (header : JokerHeader) (local_mac : MacAddress)
    (config : Config) : Nat :=
  config.twait_ms.toNat * ((local_priority header local_mac).toNat - 1)

/-- If the callback of a timer transmits a frame, it is the frame of the
call that scheduled the timer, and the delay of that call has elapsed. -/
def OwnForward (tr : List CoordinatorItem) (x : CoordinatorItem) : Prop :=
  ∀ now timer e data, x = .expired now timer (some e) →
    transmission e.frame = some data →
    ∃ accepted_at header local_mac config,
      .accepted timer.id accepted_at header e.frame local_mac config ∈ tr
        ∧ header.packet_id = timer.callback.packet_id
        ∧ accepted_at + milliseconds (own_delay header local_mac config) ≤ now

/-- No timer that is in the wheel overtakes the one the call schedules: a
live timer for the same packet expires later, and the delay fits the 32
bits it is computed in. -/
def NotOvertaken (s : TimerNode H) : CoordinatorEvent → Prop
  | .OnCandidateReceivedDataPacket now header _ _ local_mac config =>
      (∀ t ∈ s.coordinator.wheel.timers, t.cancelled = false →
        t.callback.packet_id = header.packet_id →
        now + forward_delay header local_mac config < t.expires_at)
      ∧ own_delay header local_mac config < UInt32.size
  | _ => True

/-- The timer id a call was given. -/
def CoordinatorItem.acceptedId : CoordinatorItem → Option TimerId
  | .accepted timer_id _ _ _ _ _ => some timer_id
  | .expired _ _ _ => none

/-- What a callback hands to the adapter. -/
def CoordinatorItem.sent : CoordinatorItem → Option TransmittedFrame
  | .expired _ timer (some e) => (transmission e.frame).map fun data =>
      ⟨MacAddress.broadcast, data, true, some (timer.callback.packet_id, e)⟩
  | _ => none

/-- A delay that fits is no longer than the one computed. -/
theorem own_delay_le {header : JokerHeader} {local_mac : MacAddress}
    {config : Config}
    (hfit : own_delay header local_mac config < UInt32.size) :
    milliseconds (own_delay header local_mac config)
      ≤ forward_delay header local_mac config := by
  unfold forward_delay own_delay milliseconds at *
  have hle : config.twait_ms.toNat
        * ((local_priority header local_mac).toNat - 1)
      ≤ (config.twait_ms
        * ((local_priority header local_mac).toUInt32 - 1)).toNat := by
    generalize local_priority header local_mac = prio at *
    rcases Nat.eq_zero_or_pos prio.toNat with h0 | hpos
    · rw [h0]
      simp
    · have hsub : (prio.toUInt32 - 1).toNat = prio.toNat - 1 := by
        rw [UInt32.toNat_sub_of_le, UInt8.toNat_toUInt32]
        · rfl
        · rw [UInt32.le_iff_toNat_le, UInt8.toNat_toUInt32]
          exact hpos
      rw [UInt32.toNat_mul, hsub, Nat.mod_eq_of_lt hfit]
  exact Int.mul_le_mul_of_nonneg_right (Int.ofNat_le.mpr hle) (by decide)

-- ========================================================== the invariant

/-- What a run whose acceptances are not overtaken keeps: the entry
pending for a packet is that of the live timer for it that expires first,
and holds the frame that timer was scheduled for. -/
structure OwnTimer (s : TimerNode H) (tr : List CoordinatorItem) : Prop where
  coherent : Coherent s.coordinator
  first : ∀ p e T, s.coordinator.pending.lookup p = some e →
    Armed s.coordinator.wheel p e.timer_id T →
    ∀ t ∈ s.coordinator.wheel.timers, t.cancelled = false →
      t.callback.packet_id = p → t.id ≠ e.timer_id → T < t.expires_at
  accepted : ∀ p e T, s.coordinator.pending.lookup p = some e →
    Armed s.coordinator.wheel p e.timer_id T →
    ∃ accepted_at header local_mac config,
      .accepted e.timer_id accepted_at header e.frame local_mac config ∈ tr
        ∧ header.packet_id = p
        ∧ accepted_at + milliseconds (own_delay header local_mac config) ≤ T
  ids : (tr.filterMap CoordinatorItem.acceptedId).Nodup
    ∧ ∀ i ∈ tr.filterMap CoordinatorItem.acceptedId,
      i < s.coordinator.wheel.next_id
  air : s.nic.transmitted = tr.filterMap CoordinatorItem.sent
  own : AtEvery OwnForward tr

theorem ownTimer_start (capacity : Nat) (ttl : TimePoint) :
    OwnTimer (TimerNode.start H capacity ttl) [] where
  coherent := coherent_start
  first _ _ _ h := by cases h
  accepted _ _ _ h := by cases h
  ids := ⟨List.nodup_nil, fun _ h => absurd h List.not_mem_nil⟩
  air := rfl
  own := atEvery_nil _

/-- A timer popped live is that of the entry pending for its packet. -/
theorem OwnTimer.popped_own {s : TimerNode H} {tr : List CoordinatorItem}
    (h : OwnTimer s tr) {now : TimePoint}
    {t : TimerEntry ForwardCallback}
    {w : SimpleTimerWheel ForwardCallback H}
    (hpop : s.coordinator.wheel.popExpired now = some (t, w))
    (ht : t.cancelled = false) {e : PendingForward}
    (he : s.coordinator.pending.lookup t.callback.packet_id = some e) :
    t.id = e.timer_id ∧ Armed s.coordinator.wheel t.callback.packet_id
      e.timer_id t.expires_at := by
  obtain ⟨-, -, -, hleast⟩ := SimpleTimerWheel.popExpired_some hpop
  have hmem := SimpleTimerWheel.popExpired_mem hpop
  obtain ⟨T, hT⟩ := h.coherent.live _ e he
  have hid : t.id = e.timer_id := by
    apply Decidable.byContradiction
    intro hne
    have hlt := h.first _ e T he hT t hmem ht rfl hne
    exact absurd (hleast _ hT) (Int.not_le.mpr hlt)
  refine ⟨hid, ?_⟩
  have heq := h.coherent.eq_of_id hmem hT hid
  rw [heq]
  exact hT

/-- A turn that drops a cancelled timer. -/
theorem OwnTimer.drop {s : TimerNode H} {tr : List CoordinatorItem}
    (h : OwnTimer s tr) {now : TimePoint}
    {t : TimerEntry ForwardCallback}
    {w : SimpleTimerWheel ForwardCallback H}
    (hpop : s.coordinator.wheel.popExpired now = some (t, w))
    (ht : t.cancelled = true) : OwnTimer (s.withWheel w) tr := by
  obtain ⟨hnext, -, -, -⟩ := SimpleTimerWheel.popExpired_some hpop
  have hold : ∀ {u}, u ∈ w.timers → u ∈ s.coordinator.wheel.timers :=
    SimpleTimerWheel.mem_of_popExpired hpop
  constructor
  · exact h.coherent.drop hpop ht
  · intro p e T he hT u hu
    exact h.first p e T he (hold hT) u (hold hu)
  · intro p e T he hT
    exact h.accepted p e T he (hold hT)
  · show _ ∧ ∀ i ∈ _, i < w.next_id
    rw [hnext]
    exact h.ids
  · exact h.air
  · exact h.own

/-- What a callback hands to the adapter is what its record says. -/
theorem sendFor_eq_sent (nic : NicAdapter) (now : TimePoint)
    (t : TimerEntry ForwardCallback) (it : Option PendingForward) :
    (nic.sendFor t.callback.packet_id it).transmitted
      = nic.transmitted
        ++ [CoordinatorItem.expired now t it].filterMap
            CoordinatorItem.sent := by
  unfold NicAdapter.sendFor
  cases it with
  | none => simp [CoordinatorItem.sent]
  | some e =>
      dsimp only
      cases hdata : transmission e.frame with
      | none => simp [CoordinatorItem.sent, hdata]
      | some data =>
          simp [CoordinatorItem.sent, hdata, NicAdapter.TransmitBroadcast]

/-- A turn that runs a callback. -/
theorem OwnTimer.run {s : TimerNode H} {tr : List CoordinatorItem}
    (h : OwnTimer s tr) {now : TimePoint}
    {t : TimerEntry ForwardCallback}
    {w : SimpleTimerWheel ForwardCallback H}
    (hpop : s.coordinator.wheel.popExpired now = some (t, w))
    (ht : t.cancelled = false) :
    OwnTimer (on_expiry t.callback (s.withWheel w))
      (tr ++ [.expired now t
        (s.coordinator.pending.lookup t.callback.packet_id)]) := by
  obtain ⟨hnext, -, hexp, -⟩ := SimpleTimerWheel.popExpired_some hpop
  have hold : ∀ {u}, u ∈ w.timers → u ∈ s.coordinator.wheel.timers :=
    SimpleTimerWheel.mem_of_popExpired hpop
  have hless : ∀ {p e}, (s.coordinator.pending.erase
      t.callback.packet_id).lookup p = some e →
      s.coordinator.pending.lookup p = some e :=
    fun he => (lookup_erase_some_iff.mp he).2
  rw [on_expiry_eq]
  constructor
  · exact h.coherent.run hpop _
  · intro p e T he hT u hu
    exact h.first p e T (hless he) (hold hT) u (hold hu)
  · intro p e T he hT
    obtain ⟨a, header, m, config, hmem, hall⟩ :=
      h.accepted p e T (hless he) (hold hT)
    exact ⟨a, header, m, config, List.mem_append_left _ hmem, hall⟩
  · have hsame : (tr ++ [CoordinatorItem.expired now t
        (s.coordinator.pending.lookup t.callback.packet_id)]).filterMap
          CoordinatorItem.acceptedId
        = tr.filterMap CoordinatorItem.acceptedId := by
      rw [List.filterMap_append]
      exact List.append_nil _
    rw [hsame]
    show _ ∧ ∀ i ∈ _, i < w.next_id
    rw [hnext]
    exact h.ids
  · rw [List.filterMap_append, ← h.air]
    exact sendFor_eq_sent s.nic now t _
  · refine atEvery_concat.mpr ⟨h.own, ?_⟩
    intro now' t' e data heq _
    injection heq with hnow htimer he
    subst hnow htimer
    obtain ⟨hid, harm⟩ := h.popped_own hpop ht he
    obtain ⟨a, header, m, config, hmem, hp, hle⟩ :=
      h.accepted _ e _ he harm
    rw [hid]
    exact ⟨a, header, m, config, hmem, hp, Int.le_trans hle hexp⟩

/-- A tick. -/
theorem OwnTimer.tick {s : TimerNode H} {tr : List CoordinatorItem}
    (h : OwnTimer s tr) (now : TimePoint) :
    OwnTimer (TimerNode.Tick now s) (tr ++ TimerNode.expired now s) := by
  refine tickOutputs_invariant _ ?_ ?_ _ s tr h
  · intro s t w tr hpop ht h
    exact h.drop hpop ht
  · intro s t w tr hpop ht h
    exact h.run hpop ht

/-- A packet suppressed. -/
theorem OwnTimer.overheard {s : TimerNode H} {tr : List CoordinatorItem}
    (h : OwnTimer s tr) (q : PacketId) :
    OwnTimer (s.coordinate (.HandleOverheardForward q)) tr := by
  have hlive : ∀ {u}, u ∈ (s.coordinator.HandleOverheardForward q
      ).wheel.timers → u.cancelled = false →
      u ∈ s.coordinator.wheel.timers := by
    intro u hu hc
    cases hq : s.coordinator.pending.lookup q with
    | none =>
        unfold TimerCoordinator.HandleOverheardForward at hu
        rw [hq] at hu
        exact hu
    | some it =>
        rw [overheard_timers h.coherent hq, List.mem_map] at hu
        obtain ⟨v, hv, rfl⟩ := hu
        split at hc
        · cases hc
        · next hne =>
          rw [if_neg hne]
          exact hv
  have hless : ∀ {p e}, (s.coordinator.HandleOverheardForward q
      ).pending.lookup p = some e →
      s.coordinator.pending.lookup p = some e :=
    fun he => (lookup_overheard_some_iff.mp he).2
  constructor
  · exact h.coherent.overheard q
  · intro p e T he hT u hu hc
    exact h.first p e T (hless he) (hlive hT rfl) u (hlive hu hc) hc
  · intro p e T he hT
    exact h.accepted p e T (hless he) (hlive hT rfl)
  · show _ ∧ ∀ i ∈ _, i < (s.coordinator.HandleOverheardForward q
      ).wheel.next_id
    rw [overheard_next_id]
    exact h.ids
  · exact h.air
  · exact h.own

/-- After an acceptance an entry is the new one with the new timer, or it
was there with its timer before. -/
theorem Coherent.accept_cases {c : TimerCoordinator H} (hc : Coherent c)
    {header : JokerHeader} {frame : Bytes} {local_mac : MacAddress}
    {config : Config} {now T : TimePoint} {p : PacketId} {e : PendingForward}
    (he : (c.accept header frame local_mac config now).pending.lookup p
      = some e)
    (hT : Armed (c.accept header frame local_mac config now).wheel p
      e.timer_id T) :
    (p = header.packet_id ∧ e = ⟨c.wheel.next_id, frame⟩
        ∧ T = now + forward_delay header local_mac config)
      ∨ (p ≠ header.packet_id ∧ c.pending.lookup p = some e
        ∧ Armed c.wheel p e.timer_id T) := by
  rw [lookup_accept] at he
  split at he
  · next hp =>
    injection he with he
    subst he
    have hnew := armed_accept c header frame local_mac config now
    have hc' := hc.accept header frame local_mac config now
    injection hc'.eq_of_id hT hnew rfl with _ hT'
    exact Or.inl ⟨hp, rfl, hT'⟩
  · next hp =>
    refine Or.inr ⟨hp, he, ?_⟩
    rcases mem_accept_iff.mp hT with heq | hT
    · injection heq with hid
      obtain ⟨T', hT'⟩ := hc.live p e he
      exact absurd (hc.lt _ hT') (hid ▸ Nat.lt_irrefl _)
    · exact hT

/-- A packet accepted, not overtaken. -/
theorem OwnTimer.accept {s : TimerNode H} {tr : List CoordinatorItem}
    (h : OwnTimer s tr) {now : TimePoint} {header : JokerHeader}
    (frame : Bytes) (header_offset : Nat) {local_mac : MacAddress}
    {config : Config}
    (hfree : NotOvertaken s (.OnCandidateReceivedDataPacket now header frame
      header_offset local_mac config)) :
    OwnTimer (s.coordinate (.OnCandidateReceivedDataPacket now header frame
        header_offset local_mac config))
      (tr ++ [.accepted s.coordinator.wheel.next_id now header frame
        local_mac config]) := by
  obtain ⟨hlater, hfit⟩ := hfree
  constructor
  · exact h.coherent.accept header frame local_mac config now
  · intro p e T he hT u hu hcu hp hid
    rcases h.coherent.accept_cases he hT with
      ⟨hpe, rfl, rfl⟩ | ⟨hpe, he, hT⟩
    · rcases mem_accept_iff.mp hu with rfl | hu
      · exact absurd rfl hid
      · exact hlater u hu hcu (hp.trans hpe)
    · rcases mem_accept_iff.mp hu with rfl | hu
      · exact absurd hp.symm hpe
      · exact h.first p e T he hT u hu hcu hp hid
  · intro p e T he hT
    rcases h.coherent.accept_cases he hT with
      ⟨hpe, rfl, rfl⟩ | ⟨hpe, he, hT⟩
    · exact ⟨now, header, local_mac, config,
        List.mem_append_right _ List.mem_cons_self, hpe.symm,
        Int.add_le_add_left (own_delay_le hfit) now⟩
    · obtain ⟨a, header', m, config', hmem, hall⟩ :=
        h.accepted p e T he hT
      exact ⟨a, header', m, config', List.mem_append_left _ hmem, hall⟩
  · rw [List.filterMap_append]
    obtain ⟨hnd, hlt⟩ := h.ids
    constructor
    · refine List.nodup_append.mpr ⟨hnd, List.nodup_singleton _, ?_⟩
      intro a ha b hb hab
      rw [List.mem_singleton.mp hb] at hab
      exact absurd (hlt a ha) (hab ▸ Nat.lt_irrefl _)
    · intro i hi
      show i < s.coordinator.wheel.next_id + 1
      rcases List.mem_append.mp hi with hi | hi
      · exact Nat.lt_succ_of_lt (hlt i hi)
      · rw [List.mem_singleton.mp hi]
        exact Nat.lt_succ_self _
  · rw [List.filterMap_append]
    exact h.air.trans (List.append_nil _).symm
  · refine atEvery_concat.mpr ⟨h.own, ?_⟩
    intro now' t e data heq
    cases heq

-- ============================================================== the runs

/-- A call keeps the invariant, if it is an acceptance that is not
overtaken or no acceptance. -/
theorem OwnTimer.step {s : TimerNode H} {tr : List CoordinatorItem}
    (h : OwnTimer s tr) {ev : CoordinatorEvent} (hev : NotOvertaken s ev) :
    OwnTimer (s.coordinate ev) (tr ++ s.logged ev) := by
  cases ev with
  | OnCandidateReceivedDataPacket now header frame off local_mac config =>
      exact h.accept frame off hev
  | HandleOverheardForward packet_id =>
      show OwnTimer _ (tr ++ [])
      rw [List.append_nil]
      exact h.overheard packet_id
  | Tick now => exact h.tick now

/-- In every run in which no acceptance is overtaken by a timer that is
already in the wheel: whatever a callback transmits is the frame of the
one call that scheduled its timer, transmitted when the delay of that call
has elapsed; and nothing else is transmitted. -/
theorem timers_forward_their_own (H : WheelHeap ForwardCallback)
    (capacity : Nat) (ttl : TimePoint) (es : List CoordinatorEvent)
    (hes : Along TimerNode.coordinate NotOvertaken
      (TimerNode.start H capacity ttl) es) :
    AtEvery OwnForward ((TimerNode.start H capacity ttl).log es)
    ∧ (((TimerNode.start H capacity ttl).log es).filterMap
        CoordinatorItem.acceptedId).Nodup
    ∧ (exec TimerNode.coordinate (TimerNode.start H capacity ttl) es
        ).nic.transmitted
      = ((TimerNode.start H capacity ttl).log es).filterMap
        CoordinatorItem.sent := by
  have hrun : OwnTimer
      (exec TimerNode.coordinate (TimerNode.start H capacity ttl) es)
      ((TimerNode.start H capacity ttl).log es) := by
    induction es using List.reverseRecOn with
    | nil => exact ownTimer_start capacity ttl
    | append_singleton es ev ih =>
        obtain ⟨hes, hev⟩ := along_append.mp hes
        unfold TimerNode.log at ih ⊢
        rw [outputs_concat, exec_concat]
        exact (ih hes).step hev.1
  exact ⟨hrun.own, hrun.ids.1, hrun.air⟩

/-- Packet 7 is taken on as first backup at 0, and again at 30 ms, when the
timer set for 50 ms has been cancelled. -/
def accepted_after_overheard : List CoordinatorEvent :=
  [.OnCandidateReceivedDataPacket 0 (sample_header 7 5) (sample_frame 7 5) 19
      (station 1) {},
    .HandleOverheardForward 7,
    .OnCandidateReceivedDataPacket 30000000 (sample_header 7 4)
      (sample_frame 7 4) 19 (station 1) {},
    .Tick 60000000, .Tick 80000000]

/-- The second copy is sent by its own timer. -/
theorem timers_forward_their_own_cancelled :
    AtEvery OwnForward ((TimerNode.start (sortedHeap _) 1000 0).log
      accepted_after_overheard) := by
  refine (timers_forward_their_own (sortedHeap _) 1000 0
    accepted_after_overheard ?_).1
  refine ⟨⟨?_, ?_⟩, trivial, ⟨?_, ?_⟩, trivial, trivial, trivial⟩ <;> decide

/-- Packet 7 is taken on at 0 and again at 30 ms, each time as first
backup with 50 ms to wait. -/
def accepted_twice : List CoordinatorEvent :=
  [.OnCandidateReceivedDataPacket 0 (sample_header 7 5) (sample_frame 7 5) 19
      (station 1) {},
    .OnCandidateReceivedDataPacket 30000000 (sample_header 7 4)
      (sample_frame 7 4) 19 (station 1) {},
    .Tick 60000000]

/-- The timer of the first copy sends the second, 20 ms early. -/
theorem overtaken_copy_sent_early :
    (accepted_twice.filterMap CoordinatorEvent.reading).Pairwise (· ≤ ·)
    ∧ ¬ AtEvery OwnForward ((TimerNode.start (sortedHeap _) 1000 0).log
      accepted_twice) := by
  have hlog : (TimerNode.start (sortedHeap _) 1000 0).log accepted_twice
      = [.accepted 1 0 (sample_header 7 5) (sample_frame 7 5) (station 1) {},
        .accepted 2 30000000 (sample_header 7 4) (sample_frame 7 4)
          (station 1) {}]
        ++ .expired 60000000 ⟨1, 50000000, ⟨7⟩, false⟩
          (some ⟨2, sample_frame 7 4⟩) :: [] := by
    rfl
  refine ⟨by decide, fun h => ?_⟩
  obtain ⟨accepted_at, header, m, config, hmem, -⟩ := h _ _ [] hlog _ _ _
    (sample_frame 7 3) rfl (by decide)
  simp only [List.mem_cons, CoordinatorItem.accepted.injEq, List.not_mem_nil,
    or_false] at hmem
  rcases hmem with hfirst | hsecond
  · exact absurd hfirst.2.2.2.1 (by decide)
  · exact absurd hsecond.1 (by decide)

end Joker
