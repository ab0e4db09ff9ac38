/-
How much a node holds.

Nothing limits the pending map or the wheel: a node takes on every
candidate copy that is new to it, as many as arrive. What bounds them is
time. A timer is set for no later than the configuration lets a node wait
after the packet was taken on (`forward_delay_le_max_wait`), and a tick
leaves no expired timer behind. So what a node holds was taken on that
long before its last tick, or since; cancelled timers, which stay in the
wheel until they expire, are counted in (`holds_recent_only`).
-/
import Joker.Proofs.Latency
import Mathlib.Data.List.Perm.Subperm

namespace Joker

open Transition VectorHeap

variable {H : WheelHeap ForwardCallback}

/-- How many timers are set for a time that meets `P`. -/
def TimerCoordinator.timersAt (c : TimerCoordinator H) (P : TimePoint → Prop)
    [DecidablePred P] : Nat :=
  (c.wheel.timers.map TimerEntry.expires_at).countP fun T => P T

/-- The clock reading at which a packet is taken on in an event, if one
is. -/
def taken_on (local_mac : MacAddress) (config : Config) (s : TimerNode H) :
    NodeEvent → List TimePoint
  | .receive now frame is_candidate =>
      match verdict frame local_mac is_candidate config s.dedup with
      | .candidate _ _ => [now]
      | _ => []
  | _ => []

/-- The clock readings at which packets are taken on in a run. -/
def TimerNode.takenOn (local_mac : MacAddress) (config : Config)
    (s : TimerNode H) (es : List NodeEvent) : List TimePoint :=
  outputs (TimerNode.step local_mac config) (taken_on local_mac config) s es

-- ============================================================= the timers

variable {P Q : TimePoint → Prop} [DecidablePred P] [DecidablePred Q]

theorem timersAt_accept (c : TimerCoordinator H) (header : JokerHeader)
    (frame : Bytes) (local_mac : MacAddress) (config : Config)
    (now : TimePoint) :
    (c.accept header frame local_mac config now).timersAt P
      = c.timersAt P
        + if P (now + forward_delay header local_mac config) then 1 else 0 := by
  have hperm := c.wheel.schedule_perm now
    (forward_delay header local_mac config) ⟨header.packet_id⟩
  have hcount := (hperm.map TimerEntry.expires_at).countP_eq fun T => P T
  refine hcount.trans ?_
  rw [List.map_cons, List.countP_cons]
  simp [TimerCoordinator.timersAt]

/-- Cancelling moves no timer. -/
theorem timersAt_overheard (c : TimerCoordinator H) (q : PacketId) :
    (c.HandleOverheardForward q).timersAt P = c.timersAt P := by
  unfold TimerCoordinator.HandleOverheardForward
  cases c.pending.lookup q with
  | none => rfl
  | some it =>
      unfold TimerCoordinator.timersAt
      exact congrArg (List.countP _)
        (SimpleTimerWheel.map_expires_at_cancelFirst _ _)

theorem timersAt_pop {w w' : SimpleTimerWheel ForwardCallback H}
    {now : TimePoint} {t : TimerEntry ForwardCallback}
    (hpop : w.popExpired now = some (t, w')) :
    (w'.timers.map TimerEntry.expires_at).countP (fun T => P T)
      ≤ (w.timers.map TimerEntry.expires_at).countP fun T => P T := by
  have hperm := (SimpleTimerWheel.popExpired_some hpop).2.1
  rw [(hperm.map TimerEntry.expires_at).countP_eq, List.map_cons,
    List.countP_cons]
  exact Nat.le_add_right _ _

theorem TimerNode.tick_timersAt (now : TimePoint) (s : TimerNode H) :
    (TimerNode.Tick now s).coordinator.timersAt P
      ≤ s.coordinator.timersAt P := by
  refine TimerNode.tick_invariant
    (fun s' => s'.coordinator.timersAt P ≤ s.coordinator.timersAt P) ?_ ?_
    le_rfl
  · intro s' t w hpop _ h
    exact (timersAt_pop hpop).trans h
  · intro s' t w hpop _ h
    rw [on_expiry_eq]
    exact (timersAt_pop hpop).trans h

/-- The timers set for a time that meets `P` grow by what is taken on at a
time that meets `Q`, if no packet taken on at another time gets one. -/
theorem TimerNode.step_timersAt (s : TimerNode H) {local_mac : MacAddress}
    {config : Config}
    (hPQ : ∀ now header, validate_header header config.candidate_count = true →
      P (now + forward_delay header local_mac config) → Q now)
    (ev : NodeEvent) :
    (s.step local_mac config ev).coordinator.timersAt P
      ≤ s.coordinator.timersAt P
        + (taken_on local_mac config s ev).countP fun a => Q a := by
  refine TimerNode.step_invariant (fun c _ => c.timersAt P
    ≤ s.coordinator.timersAt P
      + (taken_on local_mac config s ev).countP fun a => Q a) ?_ ?_ ?_
    (Nat.le_add_right _ _)
  · intro now frame header consumed hev hv
    have htaken : taken_on local_mac config s ev = [now] := by
      subst hev
      simp only [taken_on, hv]
    rw [timersAt_accept, htaken, List.countP_singleton]
    have hvalid := (verdict_eq_candidate_iff.mp hv).1.valid
    by_cases hP : P (now + forward_delay header local_mac config)
    · rw [if_pos hP, if_pos (decide_eq_true (hPQ now header hvalid hP))]
    · rw [if_neg hP]
      omega
  · intro now frame header _ _
    rw [timersAt_overheard]
    exact Nat.le_add_right _ _
  · intro now _
    exact (TimerNode.tick_timersAt now s).trans (Nat.le_add_right _ _)

theorem TimerNode.exec_timersAt (local_mac : MacAddress) (config : Config)
    (hPQ : ∀ now header, validate_header header config.candidate_count = true →
      P (now + forward_delay header local_mac config) → Q now)
    (es : List NodeEvent) : ∀ s : TimerNode H,
    (exec (TimerNode.step local_mac config) s es).coordinator.timersAt P
      ≤ s.coordinator.timersAt P
        + (s.takenOn local_mac config es).countP fun a => Q a := by
  induction es with
  | nil => intro s; exact Nat.le_refl _
  | cons ev es ih =>
      intro s
      have hstep := s.step_timersAt hPQ ev
      have hrest := ih (s.step local_mac config ev)
      unfold TimerNode.takenOn at hrest ⊢
      rw [exec_cons, outputs_cons, List.countP_append]
      omega

-- ============================================================ the account

/-- Each pending packet has a timer. -/
theorem Coherent.pending_le {c : TimerCoordinator H} (h : Coherent c) :
    c.pending.entries.length ≤ c.wheel.timers.length := by
  have hsub : c.pending.keys
      ⊆ c.wheel.timers.map fun t => t.callback.packet_id := by
    intro p hp
    obtain ⟨e, he⟩ := Option.isSome_iff_exists.mp (AList.lookup_isSome.mpr hp)
    obtain ⟨T, hT⟩ := h.live p e he
    exact List.mem_map.mpr ⟨_, hT, rfl⟩
  have hle := (c.pending.keys_nodup.subperm hsub).length_le
  rw [List.length_map] at hle
  exact (List.length_map _).symm.le.trans hle

/-- In every run of a node, whatever is received and whatever the clock
reads: after a tick at `t` the node holds no more pending packets than
timers, and no more timers, cancelled ones included, than it took on
packets later than the longest wait before `t`, and since the tick. -/
theorem holds_recent_only (H : WheelHeap ForwardCallback)
    (local_mac : MacAddress) (config : Config) (capacity : Nat)
    (ttl : TimePoint) (before after : List NodeEvent) (t : TimePoint) :
    let s := TimerNode.run H local_mac config capacity ttl before
    let s' := TimerNode.run H local_mac config capacity ttl
      (before ++ .tick t :: after)
    s'.coordinator.pending.entries.length ≤ s'.coordinator.wheel.timers.length
    ∧ s'.coordinator.wheel.timers.length
      ≤ ((TimerNode.start H capacity ttl).takenOn local_mac config
            before).countP (fun a => t < a + milliseconds config.max_wait_ms)
        + ((TimerNode.Tick t s).takenOn local_mac config after).length := by
  intro s s'
  have hs' : s' = exec (TimerNode.step local_mac config) (TimerNode.Tick t s)
      after := by
    show exec _ _ _ = _
    rw [exec_append]
    rfl
  refine ⟨(TimerNode.run_coherent local_mac config capacity ttl _).pending_le,
    ?_⟩
  have hbefore : s.coordinator.timersAt (fun T => t < T)
      ≤ 0 + ((TimerNode.start H capacity ttl).takenOn local_mac config
        before).countP fun a => t < a + milliseconds config.max_wait_ms := by
    refine TimerNode.exec_timersAt local_mac config
      (fun now header hv hlt => ?_) before _
    have hmax := forward_delay_le_max_wait hv local_mac
    linarith
  have htick : (TimerNode.Tick t s).coordinator.wheel.timers.length
      ≤ s.coordinator.timersAt fun T => t < T := by
    refine le_trans ?_ (TimerNode.tick_timersAt t s)
    unfold TimerCoordinator.timersAt
    rw [List.countP_eq_length.mpr, List.length_map]
    intro T hT
    obtain ⟨u, hu, rfl⟩ := List.mem_map.mp hT
    exact decide_eq_true (TimerNode.tick_complete t s u hu)
  have hafter := TimerNode.exec_timersAt (P := fun _ => True)
    (Q := fun _ => True) local_mac config (fun _ _ _ _ => trivial) after
    (TimerNode.Tick t s)
  unfold TimerCoordinator.timersAt at hafter
  simp only [decide_true, List.countP_true, List.length_map] at hafter
  rw [hs']
  omega

end Joker
