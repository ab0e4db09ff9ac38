/-
Which of several due timers comes first makes no difference.

The standard leaves open where `push_heap` and `pop_heap` put elements
with equal keys, so two conforming libraries run the callbacks of one
tick in different orders. `BagNode` is the node without the order: its
timers are a bag, and so are its transmissions. A tick runs the callbacks
of all that is due, in no order; that it may is the one fact about the
code in this file (`pop_comm`): a callback takes what is pending for its
own packet and adds to the record.

Every node is such a node, whatever heap its wheel is compiled against
(`bag_step`), and so nodes compiled against different libraries do the
same (`heap_choice_unobservable`). Nor may they differ in more than the
order of what falls due together: a tick is the ticks before it, one
after the other (`TimerNode.tick_tick`).
-/
import Mathlib.Data.List.Induction
import Mathlib.Data.Multiset.Filter
import Joker.Proofs.Interference

namespace Joker

open Transition

variable {H : WheelHeap ForwardCallback}

-- ===================================================== a node without order

/-- A timer-mode node, up to the order of its timers and of what it has
transmitted. -/
structure BagNode where
  neighbors : NeighborTable
  dedup : DedupCache
  pending : UnorderedMap PacketId PendingForward
  next_id : TimerId
  timers : Multiset (TimerEntry ForwardCallback)
  transmitted : Multiset TransmittedFrame
  expiries : Multiset Expiry
  metrics : Metrics

namespace BagNode

/-- The expiry callback of a packet. -/
def expire (b : BagNode) (packet_id : PacketId) : BagNode :=
  let it := b.pending.lookup packet_id
  { b with
    pending := b.pending.erase packet_id
    transmitted :=
      b.transmitted + (({} : NicAdapter).sendFor packet_id it).transmitted
    expiries := Expiry.of packet_id it ::ₘ b.expiries
    metrics := (Expiry.of packet_id it).counters.foldl
      Metrics.Increment b.metrics }

/-- A popped timer runs its callback unless it is cancelled. -/
def pop (b : BagNode) (t : TimerEntry ForwardCallback) : BagNode :=
  if t.cancelled then b else b.expire t.callback.packet_id

theorem increment_comm (m : Metrics) (c d : Counter) :
    (m.Increment c).Increment d = (m.Increment d).Increment c := by
  by_cases hcd : c = d
  · rw [hcd]
  unfold Metrics.Increment
  congr 1
  funext n
  by_cases hc : n = c
  · simp [hc, hcd]
  · simp [hc]

instance : RightCommutative Metrics.Increment := ⟨increment_comm⟩

/-- Two callbacks, in either order. -/
theorem expire_comm (b : BagNode) (p q : PacketId) :
    (b.expire p).expire q = (b.expire q).expire p := by
  by_cases hpq : p = q
  · rw [hpq]
  unfold expire
  simp only [AList.lookup_erase_ne hpq, AList.lookup_erase_ne (Ne.symm hpq),
    AList.erase_erase p q, Multiset.cons_swap (Expiry.of p _),
    ← List.foldl_append]
  congr 1
  · rw [Multiset.add_assoc, Multiset.add_assoc]
    exact congrArg _ (Multiset.add_comm _ _)
  · exact List.perm_append_comm.foldl_eq _

instance : RightCommutative pop where
  right_comm b t u := by
    unfold pop
    cases t.cancelled <;> cases u.cancelled
    · exact expire_comm b _ _
    · rfl
    · rfl
    · rfl

/-- A tick: the callbacks of all timers that are due. -/
def Tick (now : TimePoint) (b : BagNode) : BagNode :=
  { (b.timers.filter (·.expires_at ≤ now)).foldl pop b with
    timers := b.timers.filter fun t => ¬ t.expires_at ≤ now }

/-- What the coordinator is told at an exit of the pipeline. -/
def instruct (frame : Bytes) (local_mac : MacAddress) (config : Config)
    (now : TimePoint) (b : BagNode) : Verdict → BagNode
  | .candidate header _ =>
      { b with
        next_id := b.next_id + 1
        timers := ⟨b.next_id, now + forward_delay header local_mac config,
          ⟨header.packet_id⟩, false⟩ ::ₘ b.timers
        pending := b.pending.insert header.packet_id ⟨b.next_id, frame⟩ }
  | .overheard header =>
      match b.pending.lookup header.packet_id with
      | none => b
      | some it =>
          { b with
            timers := b.timers.map fun t =>
              if t.id = it.timer_id then { t with cancelled := true } else t
            pending := b.pending.erase header.packet_id }
  | _ => b

/-- One event at a node with the given address and configuration. -/
def step (local_mac : MacAddress) (config : Config) (b : BagNode) :
    NodeEvent → BagNode
  | .receive now frame is_candidate =>
      let v := verdict frame local_mac is_candidate config b.dedup
      instruct frame local_mac config now
        { b with
          dedup := b.dedup.record v.recorded now
          metrics := v.counters.foldl Metrics.Increment b.metrics } v
  | .tick now => b.Tick now
  | .own_send now packet_id =>
      { b with dedup := b.dedup.Insert packet_id now }
  | .evict now => { b with dedup := b.dedup.EvictExpired now }

end BagNode

-- ========================================================== the refinement

/-- A node, its orders forgotten. -/
def TimerNode.bag (s : TimerNode H) : BagNode where
  neighbors := s.neighbors
  dedup := s.dedup
  pending := s.coordinator.pending
  next_id := s.coordinator.wheel.next_id
  timers := s.coordinator.wheel.timers
  transmitted := s.nic.transmitted
  expiries := s.coordinator.expiries
  metrics := s.metrics

namespace BagNode

theorem sendFor_transmitted_eq (nic : NicAdapter) (p : PacketId)
    (it : Option PendingForward) :
    (nic.sendFor p it).transmitted
      = nic.transmitted ++ (({} : NicAdapter).sendFor p it).transmitted := by
  unfold NicAdapter.sendFor
  cases it with
  | none => exact (List.append_nil _).symm
  | some e =>
      dsimp only
      cases transmission e.frame with
      | none => exact (List.append_nil _).symm
      | some data => rfl

/-- A callback, with its orders forgotten. -/
theorem bag_on_expiry (cb : ForwardCallback) (s : TimerNode H) :
    TimerNode.bag (on_expiry cb s) = (TimerNode.bag s).expire cb.packet_id := by
  rw [on_expiry_eq]
  unfold TimerNode.bag expire
  dsimp only
  rw [sendFor_transmitted_eq, ← Multiset.coe_add, ← Multiset.coe_add,
    Multiset.add_comm (s.coordinator.expiries : Multiset Expiry)]
  rfl

/-- A popped timer reads no timers. -/
theorem pop_timers (b : BagNode) (t : TimerEntry ForwardCallback)
    (timers : Multiset (TimerEntry ForwardCallback)) :
    pop { b with timers := timers } t = { pop b t with timers := timers } := by
  unfold pop
  cases t.cancelled <;> rfl

theorem foldl_pop_timers (l : Multiset (TimerEntry ForwardCallback)) :
    ∀ (b : BagNode) (timers : Multiset (TimerEntry ForwardCallback)),
      l.foldl pop { b with timers := timers }
        = { l.foldl pop b with timers := timers } := by
  induction l using Multiset.induction_on with
  | empty => intro b timers; rfl
  | cons t l ih =>
      intro b timers
      rw [Multiset.foldl_cons, Multiset.foldl_cons, ← ih, pop_timers]

/-- Nothing is due. -/
theorem tick_of_not_due {now : TimePoint} {b : BagNode}
    (h : ∀ t ∈ b.timers, now < t.expires_at) : b.Tick now = b := by
  have hdue : b.timers.filter (·.expires_at ≤ now) = 0 :=
    Multiset.filter_eq_nil.mpr fun t ht => not_le.mpr (h t ht)
  have hrest : (b.timers.filter fun t => ¬ t.expires_at ≤ now) = b.timers :=
    Multiset.filter_eq_self.mpr fun t ht => not_le.mpr (h t ht)
  unfold Tick
  rw [hdue, hrest]
  rfl

/-- Any timer that is due may go first. -/
theorem tick_cons {now : TimePoint} {b : BagNode}
    {e : TimerEntry ForwardCallback}
    {rest : Multiset (TimerEntry ForwardCallback)}
    (htimers : b.timers = e ::ₘ rest) (hdue : e.expires_at ≤ now) :
    b.Tick now = (pop { b with timers := rest } e).Tick now := by
  have hleft : (pop { b with timers := rest } e).timers = rest := by
    rw [pop_timers]
  have hfirst : (e ::ₘ rest).filter (·.expires_at ≤ now)
      = e ::ₘ rest.filter (·.expires_at ≤ now) :=
    Multiset.filter_cons_of_pos _ hdue
  have hothers : ((e ::ₘ rest).filter fun t => ¬ t.expires_at ≤ now)
      = rest.filter fun t => ¬ t.expires_at ≤ now :=
    Multiset.filter_cons_of_neg _ (not_not.mpr hdue)
  unfold Tick
  rw [hleft, htimers, hfirst, hothers, Multiset.foldl_cons, pop_timers b e rest,
    foldl_pop_timers _ (pop b e) rest]

/-- The loop of a tick, with its orders forgotten: a turn pops a timer
that is due, and which one makes no difference to the whole. -/
theorem bag_tickLoop (now : TimePoint) (fuel : Nat) :
    ∀ s : TimerNode H, s.coordinator.wheel.timers.length ≤ fuel →
      TimerNode.bag (tickLoop (fun s : TimerNode H => s.coordinator.wheel)
          (fun w s => s.withWheel w) on_expiry now fuel s)
        = (TimerNode.bag s).Tick now := by
  induction fuel with
  | zero =>
      intro s hlen
      refine (tick_of_not_due fun t ht => ?_).symm
      have hempty := List.length_eq_zero_iff.mp (Nat.le_zero.mp hlen)
      change t ∈ (s.coordinator.wheel.timers : Multiset _) at ht
      rw [hempty] at ht
      cases ht
  | succ fuel ih =>
      intro s hlen
      unfold tickLoop
      cases hpop : s.coordinator.wheel.popExpired now with
      | none =>
          have hlate := SimpleTimerWheel.popExpired_none hpop
          exact (tick_of_not_due fun t ht => hlate t ht).symm
      | some p =>
          obtain ⟨e, w⟩ := p
          obtain ⟨hid, hperm, hdue, -⟩ := SimpleTimerWheel.popExpired_some hpop
          have hshort := hperm.length_eq
          rw [List.length_cons] at hshort
          have hbag : TimerNode.bag (s.withWheel w)
              = { TimerNode.bag s with
                  timers :=
                    (w.timers : Multiset (TimerEntry ForwardCallback)) } := by
            unfold TimerNode.bag TimerNode.withWheel
            dsimp only
            rw [hid]
          have hturn : TimerNode.bag (if e.cancelled then s.withWheel w
                else on_expiry e.callback (s.withWheel w))
              = pop { TimerNode.bag s with timers := w.timers } e := by
            rw [← hbag]
            unfold pop
            cases e.cancelled with
            | true => rfl
            | false => exact bag_on_expiry e.callback (s.withWheel w)
          dsimp only
          rw [ih, hturn]
          · exact (tick_cons (Multiset.coe_eq_coe.mpr hperm) hdue).symm
          · split
            · show w.timers.length ≤ fuel
              omega
            · rw [on_expiry_eq]
              show w.timers.length ≤ fuel
              omega

/-- What the coordinator is told, with its orders forgotten. -/
theorem bag_instruct {s : TimerNode H} (hs : Coherent s.coordinator)
    (frame : Bytes) (local_mac : MacAddress) (config : Config)
    (now : TimePoint) (v : Verdict) :
    TimerNode.bag { s with
        coordinator := v.instruct frame local_mac config now s.coordinator }
      = (TimerNode.bag s).instruct frame local_mac config now v := by
  cases v with
  | candidate header consumed =>
      have hperm := s.coordinator.wheel.schedule_perm now
        (forward_delay header local_mac config) ⟨header.packet_id⟩
      unfold TimerNode.bag instruct
      dsimp only
      rw [Multiset.cons_coe, ← Multiset.coe_eq_coe.mpr hperm]
      rfl
  | overheard header =>
      unfold TimerNode.bag instruct Verdict.instruct
      cases hlook : s.coordinator.pending.lookup header.packet_id with
      | none =>
          simp only [hlook, TimerCoordinator.HandleOverheardForward]
      | some it =>
          simp only [hlook, Multiset.map_coe, ← overheard_timers hs hlook]
          simp only [hlook, TimerCoordinator.HandleOverheardForward]
          rfl
  | _ => rfl

/-- An event, with its orders forgotten. -/
theorem bag_step {s : TimerNode H} (hs : Coherent s.coordinator)
    (local_mac : MacAddress) (config : Config) (ev : NodeEvent) :
    TimerNode.bag (s.step local_mac config ev)
      = (TimerNode.bag s).step local_mac config ev := by
  cases ev with
  | receive now frame is_candidate =>
      rw [TimerNode.step_receive]
      let v := verdict frame local_mac is_candidate config s.dedup
      exact bag_instruct (s := { s with
        dedup := s.dedup.record v.recorded now
        metrics := v.counters.foldl Metrics.Increment s.metrics })
        hs frame local_mac config now v
  | tick now => exact bag_tickLoop now _ s (le_refl _)
  | own_send now packet_id => rfl
  | evict now => rfl

-- ============================================================ the choice

/-- The bag node at start-up. -/
def start (capacity : Nat) (ttl : TimePoint) : BagNode where
  neighbors := {}
  dedup := { capacity := capacity, ttl := ttl }
  pending := ∅
  next_id := 1
  timers := 0
  transmitted := 0
  expiries := 0
  metrics := {}

/-- A run, with its orders forgotten. -/
theorem bag_run (H : WheelHeap ForwardCallback) (local_mac : MacAddress)
    (config : Config) (capacity : Nat) (ttl : TimePoint)
    (es : List NodeEvent) :
    TimerNode.bag (TimerNode.run H local_mac config capacity ttl es)
      = exec (step local_mac config) (start capacity ttl) es := by
  induction es using List.reverseRecOn with
  | nil => rfl
  | append_singleton es ev ih =>
      have hstep : TimerNode.run H local_mac config capacity ttl (es ++ [ev])
          = (TimerNode.run H local_mac config capacity ttl es).step local_mac
            config ev := exec_concat _ _ _ _
      rw [hstep, exec_concat, ← ih]
      exact bag_step (TimerNode.run_coherent local_mac config capacity ttl es)
        local_mac config ev

end BagNode

/-- What a node sends in a tick: what was due by an earlier time, and then
the rest. -/
theorem TimerNode.tick_transmitted (local_mac : MacAddress) (config : Config)
    (s : TimerNode H) {earlier now : TimePoint} (hle : earlier ≤ now) :
    ∃ due late, (TimerNode.Tick earlier s).nic.transmitted
        = s.nic.transmitted ++ due
      ∧ (TimerNode.Tick now s).nic.transmitted
        = s.nic.transmitted ++ due ++ late := by
  obtain ⟨due, hdue⟩ := s.step_transmitted local_mac config (.tick earlier)
  obtain ⟨late, hlate⟩ := (TimerNode.Tick earlier s).step_transmitted local_mac
    config (.tick now)
  refine ⟨due, late, hdue, ?_⟩
  rw [← hdue, ← TimerNode.tick_tick hle s]
  exact hlate

/-- Two nodes that sent the same, in whatever order, and send the same in
every tick, send the same first. -/
theorem ticks_perm {H' : WheelHeap ForwardCallback} (local_mac : MacAddress)
    (config : Config) {s : TimerNode H} {s' : TimerNode H'}
    {earlier now : TimePoint} (hle : earlier ≤ now)
    (h : s'.nic.transmitted.Perm s.nic.transmitted)
    (htick : ∀ t, (TimerNode.Tick t s').nic.transmitted.Perm
      (TimerNode.Tick t s).nic.transmitted) :
    ∃ due late due' late',
      (TimerNode.Tick earlier s).nic.transmitted = s.nic.transmitted ++ due
      ∧ (TimerNode.Tick now s).nic.transmitted
        = s.nic.transmitted ++ due ++ late
      ∧ (TimerNode.Tick earlier s').nic.transmitted = s'.nic.transmitted ++ due'
      ∧ (TimerNode.Tick now s').nic.transmitted
        = s'.nic.transmitted ++ due' ++ late'
      ∧ due'.Perm due ∧ late'.Perm late := by
  obtain ⟨due, late, hdue, hlate⟩ := s.tick_transmitted local_mac config hle
  obtain ⟨due', late', hdue', hlate'⟩ :=
    s'.tick_transmitted local_mac config hle
  -- what follows on lists with the same members has the same members
  have hrest : ∀ {l l' m m' : List TransmittedFrame}, l'.Perm l →
      (l' ++ m').Perm (l ++ m) → m'.Perm m := by
    intro l l' m m' hl hm
    exact (List.perm_append_left_iff l).mp
      ((hl.symm.append_right m').trans hm)
  have hearly := htick earlier
  have hlast := htick now
  rw [hdue, hdue'] at hearly
  rw [hlate, hlate'] at hlast
  exact ⟨due, late, due', late', hdue, hlate, hdue', hlate', hrest h hearly,
    hrest hearly hlast⟩

open BagNode in
/-- Nodes that are told the same do the same, whatever heaps their wheels
are compiled against: they remember the same packets, have the same
pending under the same timer ids, the same timers set for the same times
and the same counters, and have transmitted the same frames for the same
entries, up to the order of what falls due together: in a tick each sends
what was due by an earlier time first, and the same. -/
theorem heap_choice_unobservable (H H' : WheelHeap ForwardCallback)
    (local_mac : MacAddress) (config : Config) (capacity : Nat)
    (ttl : TimePoint) (es : List NodeEvent) :
    let s := TimerNode.run H local_mac config capacity ttl es
    let s' := TimerNode.run H' local_mac config capacity ttl es
    s'.dedup = s.dedup
    ∧ s'.coordinator.pending = s.coordinator.pending
    ∧ s'.coordinator.wheel.timers.Perm s.coordinator.wheel.timers
    ∧ s'.metrics = s.metrics
    ∧ s'.nic.transmitted.Perm s.nic.transmitted
    ∧ s'.coordinator.expiries.Perm s.coordinator.expiries
    ∧ deliveries local_mac config (TimerNode.start H' capacity ttl) es
      = deliveries local_mac config (TimerNode.start H capacity ttl) es
    ∧ ∀ earlier now, earlier ≤ now → ∃ due late due' late',
      (TimerNode.Tick earlier s).nic.transmitted = s.nic.transmitted ++ due
      ∧ (TimerNode.Tick now s).nic.transmitted
        = s.nic.transmitted ++ due ++ late
      ∧ (TimerNode.Tick earlier s').nic.transmitted = s'.nic.transmitted ++ due'
      ∧ (TimerNode.Tick now s').nic.transmitted
        = s'.nic.transmitted ++ due' ++ late'
      ∧ due'.Perm due ∧ late'.Perm late := by
  have hsame : ∀ es,
      TimerNode.bag (TimerNode.run H' local_mac config capacity ttl es)
        = TimerNode.bag (TimerNode.run H local_mac config capacity ttl es) := by
    intro es
    rw [bag_run, bag_run]
  intro s s'
  have heq : TimerNode.bag s' = TimerNode.bag s := hsame es
  refine ⟨congrArg dedup heq, congrArg pending heq,
    Multiset.coe_eq_coe.mp (congrArg timers heq), congrArg metrics heq,
    Multiset.coe_eq_coe.mp (congrArg transmitted heq),
    Multiset.coe_eq_coe.mp (congrArg expiries heq), ?_,
    fun earlier now hle => ticks_perm local_mac config hle
      (Multiset.coe_eq_coe.mp (congrArg transmitted heq)) fun t => ?_⟩
  rotate_left
  · -- a tick more is a run, too
    have htick := hsame (es ++ [.tick t])
    simp only [TimerNode.run, exec_concat] at htick
    exact Multiset.coe_eq_coe.mp (congrArg transmitted htick)
  -- what is delivered is decided by the cache alone
  have hdeliver : ∀ es ev, delivery local_mac config
      (TimerNode.run H' local_mac config capacity ttl es) ev
        = delivery local_mac config
          (TimerNode.run H local_mac config capacity ttl es) ev := by
    intro es ev
    unfold delivery
    rw [show (TimerNode.run H' local_mac config capacity ttl es).dedup
      = (TimerNode.run H local_mac config capacity ttl es).dedup from
        congrArg dedup (hsame es)]
  clear heq s s'
  induction es using List.reverseRecOn with
  | nil => rfl
  | append_singleton es ev ih =>
      unfold deliveries at ih ⊢
      rw [outputs_concat, outputs_concat, ih]
      exact congrArg _ (hdeliver es ev)

end Joker
