/-
The life of a packet at a node.

To a node whose cache keeps its id a packet is unseen, or waits to be
forwarded, or is done with. It leaves the first state with the first copy
the node hears or the node's own sending of it, and the second with the
tick that finds its timer expired; nothing leads back. `Life` is that
machine, for one packet, with nothing of the node's other business in it.

A node is, for each packet, such a machine (`Living.step`): what it
records, holds and has timers for of other packets makes no difference.
The proof goes through the coordinator, where packets meet: `Waits` and
`Absent` say what is pending and set for one packet, and each thing a
coordinator does for another keeps them.
-/
import Joker.Proofs.LoopFree

namespace Joker

open Transition VectorHeap

variable {H : WheelHeap ForwardCallback}

-- ========================================================== the machine

/-- What a packet is to a node. -/
inductive Life where
  | unseen
  /-- A copy is pending, to be forwarded when its timer expires. -/
  | waiting (frame : Bytes) (due : TimePoint)
  | seen
deriving DecidableEq

namespace Life

/-- Has the node the id in its cache? -/
def known : Life → Bool
  | unseen => false
  | _ => true

/-- The first copy of a packet: what becomes of it depends on the exit of
the pipeline. -/
def meet (frame : Bytes) (local_mac : MacAddress) (config : Config)
    (now : TimePoint) (p : PacketId) : Verdict → Life
  | .delivered header => if header.packet_id = p then seen else unseen
  | .overheard header => if header.packet_id = p then seen else unseen
  | .candidate header _ =>
      if header.packet_id = p
      then waiting frame (now + forward_delay header local_mac config)
      else unseen
  | _ => unseen

/-- A cache that holds nothing. -/
def empty_cache : DedupCache := { capacity := 0, ttl := 0 }

/-- What an event makes of packet `p`. -/
def step (local_mac : MacAddress) (config : Config) (p : PacketId)
    (l : Life) : NodeEvent → Life
  | .receive now frame is_candidate =>
      match l with
      | unseen => meet frame local_mac config now p
          (verdict frame local_mac is_candidate config empty_cache)
      | l => l
  | .tick now =>
      match l with
      | waiting frame due => if due ≤ now then seen else waiting frame due
      | l => l
  | .own_send _ packet_id =>
      match l with
      | unseen => if packet_id = p then seen else unseen
      | l => l
  | .evict _ => l

/-- What the node transmits of the packet in an event. -/
def sends (l : Life) : NodeEvent → List Bytes
  | .tick now =>
      match l with
      | waiting frame due =>
          if due ≤ now then (transmission frame).toList else []
      | _ => []
  | _ => []

end Life

-- ======================================================= the coordinator

/-- Nothing is pending for the packet, and no live timer is set for it. -/
def Absent (p : PacketId) (c : TimerCoordinator H) : Prop :=
  c.pending.lookup p = none
    ∧ ∀ t ∈ c.wheel.timers, t.cancelled = false → t.callback ≠ ⟨p⟩

/-- The frame is pending for the packet, with the one live timer that is
set for it. -/
def Waits (p : PacketId) (c : TimerCoordinator H) (frame : Bytes)
    (due : TimePoint) : Prop :=
  ∃ e, c.pending.lookup p = some e ∧ e.frame = frame
    ∧ Armed c.wheel p e.timer_id due
    ∧ ∀ t ∈ c.wheel.timers, t.cancelled = false → t.callback = ⟨p⟩ →
      t.id = e.timer_id

/-- What the coordinator has of the packet. -/
def Holds (p : PacketId) (c : TimerCoordinator H) : Life → Prop
  | .waiting frame due => Waits p c frame due
  | _ => Absent p c

theorem Absent.accept {p : PacketId} {c : TimerCoordinator H} (h : Absent p c)
    {header : JokerHeader} (hp : header.packet_id ≠ p) (frame : Bytes)
    (local_mac : MacAddress) (config : Config) (now : TimePoint) :
    Absent p (c.accept header frame local_mac config now) := by
  refine ⟨?_, fun t ht hlive hcb => ?_⟩
  · rw [lookup_accept, if_neg (Ne.symm hp)]
    exact h.1
  · rcases mem_accept_iff.mp ht with rfl | ht
    · injection hcb with hid
      exact hp hid
    · exact h.2 t ht hlive hcb

theorem Waits.accept {p : PacketId} {c : TimerCoordinator H} {data : Bytes}
    {due : TimePoint} (h : Waits p c data due) {header : JokerHeader}
    (hp : header.packet_id ≠ p) (frame : Bytes) (local_mac : MacAddress)
    (config : Config) (now : TimePoint) :
    Waits p (c.accept header frame local_mac config now) data due := by
  obtain ⟨e, he, hframe, harm, hone⟩ := h
  refine ⟨e, ?_, hframe, harm.accept header frame local_mac config now,
    fun t ht hlive hcb => ?_⟩
  · rw [lookup_accept, if_neg (Ne.symm hp)]
    exact he
  · rcases mem_accept_iff.mp ht with rfl | ht
    · injection hcb with hid
      exact absurd hid hp
    · exact hone t ht hlive hcb

/-- A packet of which there was nothing is taken on. -/
theorem Absent.waits {c : TimerCoordinator H} {header : JokerHeader}
    (h : Absent header.packet_id c) (frame : Bytes) (local_mac : MacAddress)
    (config : Config) (now : TimePoint) :
    Waits header.packet_id (c.accept header frame local_mac config now) frame
      (now + forward_delay header local_mac config) := by
  refine ⟨⟨c.wheel.next_id, frame⟩, ?_, rfl,
    armed_accept c header frame local_mac config now,
    fun t ht hlive hcb => ?_⟩
  · rw [lookup_accept, if_pos rfl]
  · rcases mem_accept_iff.mp ht with rfl | ht
    · rfl
    · exact absurd hcb (h.2 t ht hlive)

/-- Calling off another packet leaves this one as it is. -/
theorem overheard_live {c : TimerCoordinator H} (hc : Coherent c)
    {q : PacketId} {t : TimerEntry ForwardCallback}
    (ht : t ∈ (c.HandleOverheardForward q).wheel.timers)
    (hlive : t.cancelled = false) : t ∈ c.wheel.timers := by
  cases hq : c.pending.lookup q with
  | none =>
      unfold TimerCoordinator.HandleOverheardForward at ht
      rw [hq] at ht
      exact ht
  | some it =>
      rw [overheard_timers hc hq] at ht
      obtain ⟨u, hu, rfl⟩ := List.mem_map.mp ht
      by_cases hid : u.id = it.timer_id
      · rw [if_pos hid] at hlive
        cases hlive
      · rw [if_neg hid]
        exact hu

theorem Holds.overheard {p q : PacketId} {c : TimerCoordinator H} {l : Life}
    (h : Holds p c l) (hc : Coherent c) (hp : p ≠ q) :
    Holds p (c.HandleOverheardForward q) l := by
  have habsent : Absent p c → Absent p (c.HandleOverheardForward q) := by
    intro h
    refine ⟨?_, fun t ht hlive => h.2 t (overheard_live hc ht hlive) hlive⟩
    rw [overheard_pending, lookup_erase_eq, if_neg hp]
    exact h.1
  cases l with
  | unseen => exact habsent h
  | seen => exact habsent h
  | waiting frame due =>
      obtain ⟨e, he, hframe, harm, hone⟩ := h
      refine ⟨e, ?_, hframe, harm.overheard hc hp,
        fun t ht hlive => hone t (overheard_live hc ht hlive) hlive⟩
      rw [overheard_pending, lookup_erase_eq, if_neg hp]
      exact he

/-- Calling off a packet of which there is nothing. -/
theorem Absent.overheard {p : PacketId} {c : TimerCoordinator H}
    (h : Absent p c) : Absent p (c.HandleOverheardForward p) := by
  unfold TimerCoordinator.HandleOverheardForward
  rw [h.1]
  exact h

-- ================================================================ a tick

/-- The frames that were transmitted for the packet. -/
def framesFor (p : PacketId) (l : List TransmittedFrame) : List Bytes :=
  l.filterMap fun f =>
    if f.retained.map Prod.fst = some p then some f.data else none

theorem framesFor_sendFor (nic : NicAdapter) (p q : PacketId)
    (it : Option PendingForward) :
    ∃ more, (nic.sendFor q it).transmitted = nic.transmitted ++ more
      ∧ framesFor p more
        = if q = p then (it.bind fun e => transmission e.frame).toList
          else [] := by
  unfold NicAdapter.sendFor
  cases it with
  | none => exact ⟨[], (List.append_nil _).symm, by simp [framesFor]⟩
  | some e =>
      dsimp only
      cases hdata : transmission e.frame with
      | none => exact ⟨[], (List.append_nil _).symm, by simp [framesFor, hdata]⟩
      | some data =>
          refine ⟨[⟨MacAddress.broadcast, data, true, some (q, e)⟩], rfl, ?_⟩
          by_cases hq : q = p <;> simp [framesFor, hq, hdata]

/-- A tick that has come this far, for a packet: as it was, or forwarded. -/
def Ticking (now : TimePoint) (p : PacketId) (l : Life) (s s' : TimerNode H) :
    Prop :=
  Coherent s'.coordinator
    ∧ ∃ more, s'.nic.transmitted = s.nic.transmitted ++ more
      ∧ ((Holds p s'.coordinator l ∧ framesFor p more = [])
        ∨ ∃ frame due, l = .waiting frame due ∧ due ≤ now
          ∧ Absent p s'.coordinator
          ∧ framesFor p more = (transmission frame).toList)

theorem Absent.pop {p : PacketId} {c : TimerCoordinator H} (h : Absent p c)
    {now : TimePoint} {t : TimerEntry ForwardCallback}
    {w : SimpleTimerWheel ForwardCallback H}
    (hpop : c.wheel.popExpired now = some (t, w)) :
    ∀ u ∈ w.timers, u.cancelled = false → u.callback ≠ ⟨p⟩ :=
  fun u hu => h.2 u (SimpleTimerWheel.mem_of_popExpired hpop hu)

theorem Holds.pop {p : PacketId} {c : TimerCoordinator H} {l : Life}
    (h : Holds p c l) {now : TimePoint} {t : TimerEntry ForwardCallback}
    {w : SimpleTimerWheel ForwardCallback H}
    (hpop : c.wheel.popExpired now = some (t, w))
    (hne : t.cancelled = true ∨ t.callback ≠ ⟨p⟩)
    {c' : TimerCoordinator H} (hwheel : c'.wheel = w)
    (hlook : c'.pending.lookup p = c.pending.lookup p) : Holds p c' l := by
  have habsent : Absent p c → Absent p c' := by
    intro h
    refine ⟨hlook.trans h.1, ?_⟩
    rw [hwheel]
    exact h.pop hpop
  cases l with
  | unseen => exact habsent h
  | seen => exact habsent h
  | waiting frame due =>
      obtain ⟨e, he, hframe, harm, hone⟩ := h
      refine ⟨e, hlook.trans he, hframe, ?_, ?_⟩
      · rw [hwheel]
        exact harm.pop hpop hne
      · rw [hwheel]
        exact fun u hu => hone u (SimpleTimerWheel.mem_of_popExpired hpop hu)

theorem callback_ne {t : TimerEntry ForwardCallback} {p : PacketId}
    (h : t.callback.packet_id ≠ p) : t.callback ≠ ⟨p⟩ :=
  fun heq => h (congrArg ForwardCallback.packet_id heq)

/-- The timer of the packet that waits is popped: nothing is left of it. -/
theorem Waits.pop {p : PacketId} {c : TimerCoordinator H} {frame : Bytes}
    {due now : TimePoint} (h : Waits p c frame due) (hc : Coherent c)
    {t : TimerEntry ForwardCallback}
    {w : SimpleTimerWheel ForwardCallback H}
    (hpop : c.wheel.popExpired now = some (t, w)) (hlive : t.cancelled = false)
    (hp : t.callback = ⟨p⟩) :
    due ≤ now
      ∧ ∀ u ∈ w.timers, u.cancelled = false → u.callback ≠ ⟨p⟩ := by
  obtain ⟨e, -, -, harm, hone⟩ := h
  obtain ⟨-, hperm, hdue, -⟩ := SimpleTimerWheel.popExpired_some hpop
  have ht := SimpleTimerWheel.popExpired_mem hpop
  have hid := hone t ht hlive hp
  have heq := hc.eq_of_id ht harm hid
  rw [heq] at hdue
  refine ⟨hdue, fun u hu hulive hucb => ?_⟩
  have huid := hone u (SimpleTimerWheel.mem_of_popExpired hpop hu) hulive hucb
  have hnd := (hperm.map TimerEntry.id).nodup_iff.mp hc.nodup
  rw [List.map_cons, List.nodup_cons] at hnd
  exact hnd.1 (List.mem_map.mpr ⟨u, hu, huid.trans hid.symm⟩)

/-- The callback of a live timer, for any packet. -/
theorem Ticking.run {now : TimePoint} {p : PacketId} {l : Life}
    {s s' : TimerNode H} (h : Ticking now p l s s')
    {t : TimerEntry ForwardCallback}
    {w : SimpleTimerWheel ForwardCallback H}
    (hpop : s'.coordinator.wheel.popExpired now = some (t, w))
    (hlive : t.cancelled = false) :
    Ticking now p l s (on_expiry t.callback (s'.withWheel w)) := by
  obtain ⟨hc, more, hmore, hlife⟩ := h
  have ht := SimpleTimerWheel.popExpired_mem hpop
  obtain ⟨more', hmore', hframes⟩ := framesFor_sendFor s'.nic p
    t.callback.packet_id (s'.coordinator.pending.lookup t.callback.packet_id)
  rw [on_expiry_eq]
  refine ⟨hc.run hpop _, more ++ more', ?_, ?_⟩
  · exact hmore'.trans (by rw [hmore, List.append_assoc])
  have happend : framesFor p (more ++ more')
      = framesFor p more ++ framesFor p more' := List.filterMap_append
  rw [happend]
  dsimp only [TimerNode.withWheel]
  by_cases hp : t.callback.packet_id = p
  · have hcb : t.callback = ⟨p⟩ := by
      rw [← hp]
    rcases hlife with ⟨hholds, hnone⟩ | ⟨frame, due, -, -, habsent, -⟩
    · cases l with
      | unseen => exact absurd hcb (hholds.2 t ht hlive)
      | seen => exact absurd hcb (hholds.2 t ht hlive)
      | waiting frame due =>
          obtain ⟨hdue, hothers⟩ := Waits.pop hholds hc hpop hlive hcb
          obtain ⟨e, he, hframe, -⟩ := hholds
          rw [if_pos hp, hp, he] at hframes
          refine Or.inr ⟨frame, due, rfl, hdue, ⟨?_, hothers⟩, ?_⟩
          · dsimp only
            rw [lookup_erase_eq, if_pos hp.symm]
          · rw [hnone, hframes, ← hframe]
            rfl
    · exact absurd hcb (habsent.2 t ht hlive)
  · rw [if_neg hp] at hframes
    rw [hframes, List.append_nil]
    have hlook : (s'.coordinator.pending.erase t.callback.packet_id).lookup p
        = s'.coordinator.pending.lookup p := by
      rw [lookup_erase_eq, if_neg (Ne.symm hp)]
    rcases hlife with ⟨hholds, hnone⟩ | ⟨frame, due, hl, hdue, habsent, hsent⟩
    · exact Or.inl ⟨hholds.pop hpop (Or.inr (callback_ne hp)) rfl hlook, hnone⟩
    · exact Or.inr ⟨frame, due, hl, hdue,
        ⟨hlook.trans habsent.1, habsent.pop hpop⟩, hsent⟩

/-- A tick, for one packet. -/
theorem Holds.tick {p : PacketId} {s : TimerNode H} {l : Life}
    (h : Holds p s.coordinator l) (hc : Coherent s.coordinator)
    (local_mac : MacAddress) (config : Config) (now : TimePoint) :
    Holds p (TimerNode.Tick now s).coordinator
        (l.step local_mac config p (.tick now))
      ∧ ∃ more, (TimerNode.Tick now s).nic.transmitted
          = s.nic.transmitted ++ more
        ∧ framesFor p more = l.sends (.tick now) := by
  have hticking : Ticking now p l s (TimerNode.Tick now s) := by
    refine TimerNode.tick_invariant (Ticking now p l s) ?_ ?_
      ⟨hc, [], (List.append_nil _).symm, Or.inl ⟨h, rfl⟩⟩
    · rintro s' t w hpop ht ⟨hc', more, hmore, hlife⟩
      refine ⟨hc'.drop hpop ht, more, hmore, ?_⟩
      rcases hlife with ⟨hholds, hnone⟩ | ⟨frame, due, hl, hdue, habsent, hsent⟩
      · exact Or.inl ⟨hholds.pop hpop (Or.inl ht) rfl rfl, hnone⟩
      · exact Or.inr ⟨frame, due, hl, hdue,
          ⟨habsent.1, habsent.pop hpop⟩, hsent⟩
    · intro s' t w hpop ht h
      exact h.run hpop ht
  obtain ⟨-, more, hmore, hlife⟩ := hticking
  rcases hlife with ⟨hholds, hnone⟩ | ⟨frame, due, rfl, hdue, habsent, hsent⟩
  · cases l with
    | unseen => exact ⟨hholds, more, hmore, hnone⟩
    | seen => exact ⟨hholds, more, hmore, hnone⟩
    | waiting frame due =>
        -- what is left after a tick is not due
        obtain ⟨e, -, -, harm, -⟩ := id hholds
        have hlate : ¬ due ≤ now :=
          not_le.mpr (TimerNode.tick_complete now s _ harm)
        simp only [Life.step, Life.sends, if_neg hlate]
        exact ⟨hholds, more, hmore, hnone⟩
  · simp only [Life.step, Life.sends, if_pos hdue]
    exact ⟨habsent, more, hmore, hsent⟩

-- ============================================================== the cache

namespace DedupCache

theorem contains_of_pop_front {c : DedupCache} {p : PacketId}
    (h : c.pop_front.Contains p = true) : c.Contains p = true := by
  unfold pop_front at h
  cases hl : c.lru_order with
  | nil =>
      rw [hl] at h
      exact h
  | cons oldest rest =>
      rw [hl] at h
      unfold Contains at h ⊢
      dsimp only at h
      rw [lookup_erase_eq] at h
      split at h
      · cases h
      · exact h

/-- Recording an id brings no other into the cache. -/
theorem contains_of_Insert {c : DedupCache} {p q : PacketId} {now : TimePoint}
    (h : (c.Insert q now).Contains p = true) (hp : p ≠ q) :
    c.Contains p = true := by
  unfold Insert at h
  split at h
  · exact h
  · split at h
    · exact h
    · dsimp only at h
      have hpop : ∀ c' : DedupCache, (c'.index.insert q c'.next_addr).lookup p
          = c'.index.lookup p := fun c' => AList.lookup_insert_ne hp
      unfold Contains at h
      dsimp only at h
      rw [hpop] at h
      split at h
      · exact contains_of_pop_front h
      · exact h

/-- A sweep brings none. -/
theorem contains_of_EvictExpired {c : DedupCache} {p : PacketId}
    {now : TimePoint} (h : (c.EvictExpired now).Contains p = true) :
    c.Contains p = true := by
  have hloop : ∀ fuel (c : DedupCache),
      (evictLoop now fuel c).Contains p = true → c.Contains p = true := by
    intro fuel
    induction fuel with
    | zero => intro c h; exact h
    | succ fuel ih =>
        intro c h
        unfold evictLoop at h
        split at h
        · exact h
        · split at h
          · exact contains_of_pop_front (ih _ h)
          · exact h
  exact hloop _ c h

end DedupCache

-- ============================================================== the node

/-- Of the cache, a verdict depends on what it says of the frame's packet. -/
theorem verdict_congr {frame : Bytes} {dedup dedup' : DedupCache}
    (hsame : ∀ p, (deserialize_header frame 0).1.map JokerHeader.packet_id
      = some p → dedup'.Contains p = dedup.Contains p)
    (local_mac : MacAddress) (is_candidate : Bool) (config : Config) :
    verdict frame local_mac is_candidate config dedup'
      = verdict frame local_mac is_candidate config dedup := by
  unfold verdict
  rcases hparse : deserialize_header frame 0 with ⟨_ | header, consumed⟩
  · rfl
  · rw [hparse] at hsame
    dsimp only [dataVerdict]
    rw [hsame header.packet_id rfl]

/-- Exits that record the packet, read from any cache that knows as much of
it. -/
theorem verdict_of_same {frame : Bytes} {local_mac : MacAddress}
    {is_candidate : Bool} {config : Config} {dedup dedup' : DedupCache}
    {p : PacketId} (hsame : dedup'.Contains p = dedup.Contains p)
    (hp : (verdict frame local_mac is_candidate config dedup).recorded
      = some p) :
    verdict frame local_mac is_candidate config dedup'
      = verdict frame local_mac is_candidate config dedup := by
  obtain ⟨header, consumed, hf, hid, -⟩ := recorded_eq_some hp
  refine verdict_congr (fun q hq => ?_) local_mac is_candidate config
  rw [hf.parses] at hq
  obtain rfl : p = q := hid.symm.trans (Option.some.inj hq)
  exact hsame

namespace Life

theorem meet_of_ne {frame : Bytes} {local_mac : MacAddress} {config : Config}
    {now : TimePoint} {p : PacketId} {v : Verdict} (h : v.recorded ≠ some p) :
    meet frame local_mac config now p v = unseen := by
  cases v with
  | delivered header => exact if_neg fun hp => h (congrArg some hp)
  | overheard header => exact if_neg fun hp => h (congrArg some hp)
  | candidate header consumed => exact if_neg fun hp => h (congrArg some hp)
  | _ => rfl

/-- A cache that does not hold the packet is as good as an empty one. -/
theorem meet_verdict (frame : Bytes) (local_mac : MacAddress)
    (is_candidate : Bool) (config : Config) (now : TimePoint) {p : PacketId}
    {dedup : DedupCache} (hnew : dedup.Contains p = false) :
    meet frame local_mac config now p
        (verdict frame local_mac is_candidate config empty_cache)
      = meet frame local_mac config now p
        (verdict frame local_mac is_candidate config dedup) := by
  have hsame : empty_cache.Contains p = dedup.Contains p := hnew.symm
  by_cases hp : (verdict frame local_mac is_candidate config dedup).recorded
      = some p
  · rw [verdict_of_same hsame hp]
  · have hne : (verdict frame local_mac is_candidate config
        empty_cache).recorded ≠ some p := by
      intro h
      rw [verdict_of_same hsame.symm h] at hp
      exact hp h
    rw [meet_of_ne hp, meet_of_ne hne]

theorem known_step {l : Life} (h : l.known = true) (local_mac : MacAddress)
    (config : Config) (p : PacketId) (ev : NodeEvent) :
    (l.step local_mac config p ev).known = true := by
  cases l with
  | unseen => cases h
  | seen => cases ev <;> rfl
  | waiting frame due =>
      cases ev with
      | tick now =>
          unfold step
          dsimp only
          split <;> rfl
      | _ => rfl

end Life

/-- The node is, for packet `p`, the machine in state `l`. -/
structure Living (p : PacketId) (s : TimerNode H) (l : Life) : Prop where
  capacity : 0 < s.dedup.capacity
  coherent : Coherent s.coordinator
  known : s.dedup.Contains p = l.known
  holds : Holds p s.coordinator l

theorem living_start (p : PacketId) {capacity : Nat} (hcap : 0 < capacity)
    (ttl : TimePoint) :
    Living p (TimerNode.start H capacity ttl) .unseen where
  capacity := hcap
  coherent := coherent_start
  known := rfl
  holds := ⟨rfl, fun _ ht => absurd ht List.not_mem_nil⟩

namespace Living

variable {p : PacketId} {s : TimerNode H} {l : Life}

/-- What the packet waits with, the machine waits with. -/
theorem waits_iff (h : Living p s l) (frame : Bytes) (due : TimePoint) :
    Waits p s.coordinator frame due ↔ l = .waiting frame due := by
  have habsent : Absent p s.coordinator →
      ¬ Waits p s.coordinator frame due := by
    rintro habsent ⟨e, he, -⟩
    rw [habsent.1] at he
    cases he
  have hholds := h.holds
  cases l with
  | unseen => exact iff_of_false (habsent hholds) (fun heq => by cases heq)
  | seen => exact iff_of_false (habsent hholds) (fun heq => by cases heq)
  | waiting frame' due' =>
      refine ⟨?_, fun heq => ?_⟩
      · rintro ⟨e, he, rfl, harm, -⟩
        obtain ⟨e', he', rfl, harm', -⟩ := hholds
        obtain rfl := Option.some.inj (he.symm.trans he')
        have hentry := h.coherent.eq_of_id harm' harm rfl
        injection hentry with _ hdue _
        rw [hdue]
      · injection heq with hframe hdue
        rw [← hframe, ← hdue]
        exact hholds

/-- What is pending waits. -/
theorem waits_of_pending (h : Living p s l) {e : PendingForward}
    (he : s.coordinator.pending.lookup p = some e) :
    ∃ frame due, Waits p s.coordinator frame due := by
  have hholds := h.holds
  cases l with
  | unseen =>
      rw [hholds.1] at he
      cases he
  | seen =>
      rw [hholds.1] at he
      cases he
  | waiting frame due => exact ⟨frame, due, hholds⟩

/-- A packet other than `p` is taken on, called off or recorded. -/
theorem instruct_ne (h : Living p s l) {v : Verdict}
    (hp : v.recorded ≠ some p) (frame : Bytes) (local_mac : MacAddress)
    (config : Config) (now : TimePoint) :
    Holds p (v.instruct frame local_mac config now s.coordinator) l := by
  cases v with
  | overheard header =>
      exact h.holds.overheard h.coherent fun heq => hp (congrArg some heq.symm)
  | candidate header consumed =>
      have hne : header.packet_id ≠ p := fun heq => hp (congrArg some heq)
      have hholds := h.holds
      cases l with
      | unseen => exact Absent.accept hholds hne frame local_mac config now
      | seen => exact Absent.accept hholds hne frame local_mac config now
      | waiting data due =>
          exact Waits.accept hholds hne frame local_mac config now
  | _ => exact h.holds

/-- The first copy. -/
theorem meet (h : Living p s .unseen) {frame : Bytes} {local_mac : MacAddress}
    {is_candidate : Bool} {config : Config} {now : TimePoint}
    (hp : (verdict frame local_mac is_candidate config s.dedup).recorded
      = some p) :
    (Life.meet frame local_mac config now p
        (verdict frame local_mac is_candidate config s.dedup)).known = true
      ∧ Holds p ((verdict frame local_mac is_candidate config s.dedup).instruct
          frame local_mac config now s.coordinator)
        (Life.meet frame local_mac config now p
          (verdict frame local_mac is_candidate config s.dedup)) := by
  have habsent : Absent p s.coordinator := h.holds
  cases hv : verdict frame local_mac is_candidate config s.dedup with
  | delivered header =>
      rw [hv] at hp
      obtain rfl : header.packet_id = p := Option.some.inj hp
      simp only [Life.meet, if_true]
      exact ⟨rfl, habsent⟩
  | overheard header =>
      rw [hv] at hp
      obtain rfl : header.packet_id = p := Option.some.inj hp
      simp only [Life.meet, if_true]
      exact ⟨rfl, habsent.overheard⟩
  | candidate header consumed =>
      rw [hv] at hp
      obtain rfl : header.packet_id = p := Option.some.inj hp
      simp only [Life.meet, if_true]
      exact ⟨rfl, habsent.waits frame local_mac config now⟩
  | _ =>
      rw [hv] at hp
      cases hp

/-- A frame comes in. -/
theorem receive (h : Living p s l) (local_mac : MacAddress) (config : Config)
    (now : TimePoint) (frame : Bytes) (is_candidate : Bool)
    (hkeep : s.dedup.Contains p = true →
      (s.step local_mac config (.receive now frame is_candidate)
        ).dedup.Contains p = true) :
    Living p (s.step local_mac config (.receive now frame is_candidate))
      (l.step local_mac config p (.receive now frame is_candidate)) := by
  have hcap := TimerNode.step_capacity s local_mac config
    (.receive now frame is_candidate)
  refine ⟨hcap ▸ h.capacity, TimerNode.step_coherent h.coherent _ _ _, ?_, ?_⟩
  · cases hl : l.known with
    | true =>
        rw [Life.known_step hl]
        exact hkeep (h.known.trans hl)
    | false =>
        obtain rfl : l = .unseen := by
          cases l with
          | unseen => rfl
          | _ => cases hl
        have hnew : s.dedup.Contains p = false := h.known
        show _ = (Life.meet _ _ _ _ _ _).known
        rw [Life.meet_verdict _ _ _ _ _ hnew, TimerNode.step_receive]
        dsimp only
        by_cases hp : (verdict frame local_mac is_candidate config
            s.dedup).recorded = some p
        · rw [(h.meet hp).1, hp]
          exact DedupCache.contains_Insert_self h.capacity p now
        · rw [Life.meet_of_ne hp]
          cases hr : (verdict frame local_mac is_candidate config
              s.dedup).recorded with
          | none => exact hnew
          | some q =>
              refine Bool.eq_false_iff.mpr fun hin => ?_
              have hne : p ≠ q := fun heq => hp (heq ▸ hr)
              exact Bool.false_ne_true
                (hnew.symm.trans (DedupCache.contains_of_Insert hin hne))
  · rw [TimerNode.step_receive]
    dsimp only
    by_cases hp : (verdict frame local_mac is_candidate config
        s.dedup).recorded = some p
    · obtain ⟨-, -, -, -, hnew⟩ := recorded_eq_some hp
      obtain rfl : l = .unseen := by
        have hknown := h.known
        rw [hnew] at hknown
        cases l with
        | unseen => rfl
        | _ => cases hknown
      show Holds p _ (Life.meet _ _ _ _ _ _)
      rw [Life.meet_verdict _ _ _ _ _ hnew]
      exact (h.meet hp).2
    · have hstep : l.step local_mac config p (.receive now frame is_candidate)
          = l := by
        cases l with
        | unseen =>
            have hnew : s.dedup.Contains p = false := h.known
            show Life.meet _ _ _ _ _ _ = _
            rw [Life.meet_verdict _ _ _ _ _ hnew, Life.meet_of_ne hp]
        | _ => rfl
      rw [hstep]
      exact h.instruct_ne hp frame local_mac config now

/-- An event at a node that does not lose the packet: the machine makes the
same of it, and transmits the same. -/
theorem step (h : Living p s l) (local_mac : MacAddress) (config : Config)
    (ev : NodeEvent)
    (hkeep : s.dedup.Contains p = true →
      (s.step local_mac config ev).dedup.Contains p = true) :
    Living p (s.step local_mac config ev) (l.step local_mac config p ev)
      ∧ ∃ more, (s.step local_mac config ev).nic.transmitted
          = s.nic.transmitted ++ more ∧ framesFor p more = l.sends ev := by
  have hcap := TimerNode.step_capacity s local_mac config ev
  have hcoherent := TimerNode.step_coherent h.coherent local_mac config ev
  cases ev with
  | receive now frame is_candidate =>
      refine ⟨h.receive local_mac config now frame is_candidate hkeep, [], ?_,
        rfl⟩
      rw [TimerNode.step_receive, List.append_nil]
  | tick now =>
      obtain ⟨hholds, hsent⟩ :=
        h.holds.tick h.coherent local_mac config now
      refine ⟨⟨hcap ▸ h.capacity, hcoherent, ?_, hholds⟩, hsent⟩
      show (TimerNode.Tick now s).dedup.Contains p = _
      rw [TimerNode.tick_dedup, h.known]
      cases l with
      | waiting frame due =>
          simp only [Life.step]
          split <;> rfl
      | _ => rfl
  | own_send now packet_id =>
      refine ⟨⟨hcap ▸ h.capacity, hcoherent, ?_, ?_⟩, [],
        (List.append_nil _).symm, rfl⟩
      · cases l with
        | unseen =>
            have hnew : s.dedup.Contains p = false := h.known
            show (s.dedup.Insert packet_id now).Contains p = _
            simp only [Life.step]
            by_cases hp : packet_id = p
            · rw [if_pos hp, hp]
              exact DedupCache.contains_Insert_self h.capacity p now
            · rw [if_neg hp]
              refine Bool.eq_false_iff.mpr fun hin => ?_
              exact Bool.false_ne_true (hnew.symm.trans
                (DedupCache.contains_of_Insert hin (Ne.symm hp)))
        | waiting frame due => exact hkeep h.known
        | seen => exact hkeep h.known
      · have hholds := h.holds
        cases l with
        | unseen =>
            simp only [Life.step]
            split <;> exact hholds
        | waiting frame due => exact hholds
        | seen => exact hholds
  | evict now =>
      refine ⟨⟨hcap ▸ h.capacity, hcoherent, ?_, h.holds⟩, [],
        (List.append_nil _).symm, rfl⟩
      show (s.dedup.EvictExpired now).Contains p = l.known
      cases hl : l.known with
      | true => exact hkeep (h.known.trans hl)
      | false =>
          refine Bool.eq_false_iff.mpr fun hin => ?_
          exact Bool.false_ne_true ((h.known.trans hl).symm.trans
            (DedupCache.contains_of_EvictExpired hin))

end Living

/-- The event leaves packet `p` in the cache, if it is there. -/
def KeepsPacket (local_mac : MacAddress) (config : Config) (p : PacketId)
    (s : TimerNode H) (ev : NodeEvent) : Prop :=
  s.dedup.Contains p = true →
    (s.step local_mac config ev).dedup.Contains p = true

instance (local_mac : MacAddress) (config : Config) (p : PacketId)
    (s : TimerNode H) : DecidablePred (KeepsPacket local_mac config p s) :=
  fun _ => inferInstanceAs (Decidable (_ → _))

/-- A node whose cache keeps packet `p` is, for that packet, the machine of
three states, in every run and whatever else it receives, holds and
forwards: it remembers the packet when the machine does, has pending and
set what the machine waits with, and has transmitted for the packet what
the machine gives out. -/
theorem life_of_packet (H : WheelHeap ForwardCallback)
    (local_mac : MacAddress) (config : Config) {capacity : Nat}
    (hcap : 0 < capacity) (ttl : TimePoint) (p : PacketId)
    (es : List NodeEvent)
    (hkeep : Along (TimerNode.step local_mac config)
      (KeepsPacket local_mac config p) (TimerNode.start H capacity ttl) es) :
    let s := TimerNode.run H local_mac config capacity ttl es
    let l := exec (Life.step local_mac config p) .unseen es
    s.dedup.Contains p = l.known
    ∧ Holds p s.coordinator l
    ∧ framesFor p s.nic.transmitted
      = outputs (Life.step local_mac config p) Life.sends .unseen es := by
  have hrun : ∀ (es : List NodeEvent) {s : TimerNode H} {l : Life},
      Living p s l → Along (TimerNode.step local_mac config)
        (KeepsPacket local_mac config p) s es →
      Living p (exec (TimerNode.step local_mac config) s es)
          (exec (Life.step local_mac config p) l es)
        ∧ framesFor p
            (exec (TimerNode.step local_mac config) s es).nic.transmitted
          = framesFor p s.nic.transmitted
            ++ outputs (Life.step local_mac config p) Life.sends l es := by
    intro es
    induction es with
    | nil => intro s l h _; exact ⟨h, (List.append_nil _).symm⟩
    | cons ev es ih =>
        intro s l h hkeep
        obtain ⟨hnext, more, hmore, hsent⟩ :=
          h.step local_mac config ev hkeep.1
        obtain ⟨hliving, hframes⟩ := ih hnext hkeep.2
        have happend : framesFor p (s.nic.transmitted ++ more)
            = framesFor p s.nic.transmitted ++ framesFor p more :=
          List.filterMap_append
        refine ⟨hliving, ?_⟩
        rw [exec_cons, outputs_cons, hframes, hmore, happend, hsent,
          List.append_assoc]
  obtain ⟨hliving, hframes⟩ := hrun es (living_start p hcap ttl) hkeep
  exact ⟨hliving.known, hliving.holds, hframes⟩

/-- Station 1 takes on packets 7 and 8, hears 7 again, and forwards both. -/
def two_packets : List NodeEvent :=
  [.receive 0 (sample_frame 7 5) true, .receive 1 (sample_frame 8 5) true,
    .receive 2 (sample_frame 7 4) true, .tick 60000000]

theorem life_of_packet_two_packets :
    framesFor 7 (TimerNode.run (sortedHeap _) (station 1) {} 1000 0 two_packets
        ).nic.transmitted
      = outputs (Life.step (station 1) {} 7) Life.sends .unseen two_packets :=
  (life_of_packet (sortedHeap _) (station 1) {} (by decide) 0 7 two_packets
    (by decide +kernel)).2.2

end Joker
