/-
OGM broadcasts keep to their interval.

Each broadcast schedules the next, so what could go wrong is that the
chain is lost, doubles, or runs away within one `Tick`. None of it
happens (`OnSchedule`): the wheel holds one timer of the broadcast, which
nobody can cancel; it expires between the least and the greatest interval
after the `Reschedule` that set it; and so it is not due again in the
`Tick` that popped it. The throughput chooses the interval between the
two bounds, and whatever else the wheel is used for makes no difference
(`broadcasts_on_schedule`).
-/
import Joker.Model.Cmsi
import Joker.Proofs.Metrics
import Joker.Proofs.TimerWheel

namespace Joker

open Transition VectorHeap

-- ========================================================== the interval

theorem truncate_mono {p q : Rat} (h : p ≤ q) : truncate p ≤ truncate q := by
  unfold truncate
  by_cases hp : 0 ≤ p
  · rw [if_pos hp, if_pos (hp.trans h)]
    exact Int.floor_mono h
  · rw [if_neg hp]
    by_cases hq : 0 ≤ q
    · rw [if_pos hq]
      calc ⌈p⌉ ≤ 0 := Int.ceil_le.mpr (by simpa using (not_le.mp hp).le)
        _ ≤ ⌊q⌋ := Int.floor_nonneg.mpr hq
    · rw [if_neg hq]
      exact Int.ceil_mono h

theorem whole_milliseconds_mono {p q : Rat} (h : p ≤ q) :
    whole_milliseconds p ≤ whole_milliseconds q :=
  Int.mul_le_mul_of_nonneg_right
    (truncate_mono (mul_le_mul_of_nonneg_right h (by norm_num))) (by decide)

namespace CmsiScheduler

/-- The least and the greatest delay. -/
def min_delay (c : CmsiScheduler) : TimePoint := whole_milliseconds c.min_s

def max_delay (c : CmsiScheduler) : TimePoint := whole_milliseconds c.max_s

theorem delay_bounds {c : CmsiScheduler} (h : c.min_s ≤ c.max_s)
    (throughput_kbps : Rat) :
    c.min_delay ≤ c.delay throughput_kbps
      ∧ c.delay throughput_kbps ≤ c.max_delay :=
  ⟨whole_milliseconds_mono (le_clamp h), whole_milliseconds_mono (clamp_le h)⟩

end CmsiScheduler

namespace CmsiState

variable {κ : Type} {H : WheelHeap (SharedCallback κ)} {c : CmsiScheduler}
  {s : CmsiState κ H}

-- =========================================================== the invariant

/-- The timers of the broadcast. -/
def onFire (v : List (TimerEntry (SharedCallback κ))) :
    List (TimerEntry (SharedCallback κ)) :=
  v.filter fun t => t.callback.isOnFire

/-- Timer `t` is the broadcast's next. -/
structure Next (c : CmsiScheduler) (s : CmsiState κ H)
    (t : TimerEntry (SharedCallback κ)) : Prop where
  only : onFire s.wheel.timers = [t]
  live : t.cancelled = false
  unknown : t.id ∉ s.returned
  earliest : s.rescheduled_at + c.min_delay ≤ t.expires_at
  latest : t.expires_at ≤ s.rescheduled_at + c.max_delay

/-- The chain of broadcasts is intact. -/
structure OnSchedule (c : CmsiScheduler) (s : CmsiState κ H) : Prop where
  next : ∃ t, Next c s t
  ids_nodup : (s.wheel.timers.map TimerEntry.id).Nodup
  ids_lt : ∀ t ∈ s.wheel.timers, t.id < s.wheel.next_id
  returned_lt : ∀ id ∈ s.returned, id < s.wheel.next_id
  clock : s.rescheduled_at ≤ s.clock
  ticking : ∀ now ∈ s.ticking, now ≤ s.clock
  /-- In a `Tick` that has broadcast the next one is not due. -/
  done : ∀ b ∈ s.broadcasts, b.2 ≤ s.rescheduled_at ∧ b.1 ≤ s.ticks
    ∧ (b.1 = s.ticks → ∀ now ∈ s.ticking, now ≤ s.rescheduled_at)
  spaced : s.broadcasts.Pairwise fun a b => a.1 < b.1 ∧ a.2 + c.min_delay ≤ b.2

theorem onFire_cons (t : TimerEntry (SharedCallback κ))
    (v : List (TimerEntry (SharedCallback κ))) :
    onFire (t :: v) = if t.callback.isOnFire then t :: onFire v else onFire v :=
  List.filter_cons

theorem onFire_perm {v w : List (TimerEntry (SharedCallback κ))}
    (h : v.Perm w) : (onFire v).Perm (onFire w) :=
  h.filter _

/-- `Cancel` takes no timer from the broadcast. -/
theorem onFire_cancelFirst (id : TimerId)
    {v : List (TimerEntry (SharedCallback κ))}
    (hv : (v.map TimerEntry.id).Nodup) :
    onFire (SimpleTimerWheel.cancelFirst id v) = (onFire v).map
      fun e => if e.id = id then { e with cancelled := true } else e := by
  rw [SimpleTimerWheel.cancelFirst_eq_map id v hv]
  unfold onFire
  rw [List.filter_map]
  refine congrArg _ (List.filter_congr fun e _ => ?_)
  by_cases he : e.id = id <;> simp [he]

/-- What is the broadcast's next is in the wheel. -/
theorem Next.mem {t : TimerEntry (SharedCallback κ)} (h : Next c s t) :
    t ∈ s.wheel.timers ∧ t.callback.isOnFire = true := by
  have hmem : t ∈ onFire s.wheel.timers := by
    rw [h.only]
    exact List.mem_singleton.mpr rfl
  exact List.mem_filter.mp hmem

-- ================================================================ the steps

/-- A call of `Reschedule` on a wheel without a timer of the broadcast. -/
theorem onSchedule_reschedule (hle : c.min_s ≤ c.max_s)
    {w : SimpleTimerWheel (SharedCallback κ) H} (hnone : onFire w.timers = [])
    (hnd : (w.timers.map TimerEntry.id).Nodup)
    (hlt : ∀ t ∈ w.timers, t.id < w.next_id) {s : CmsiState κ H}
    (hreturned : ∀ id ∈ s.returned, id < w.next_id) (now : TimePoint)
    (throughput_kbps : Rat)
    (hwheel : s.wheel = c.Reschedule throughput_kbps .on_fire now w)
    (hnow : s.rescheduled_at = now) (hclock : s.clock = now)
    (hticking : ∀ t ∈ s.ticking, t ≤ now)
    (hdone : ∀ b ∈ s.broadcasts, b.2 ≤ now ∧ b.1 ≤ s.ticks)
    (hspaced : s.broadcasts.Pairwise
      fun a b => a.1 < b.1 ∧ a.2 + c.min_delay ≤ b.2) :
    OnSchedule c s := by
  have hperm := SimpleTimerWheel.schedule_perm w now (c.delay throughput_kbps)
    SharedCallback.on_fire
  obtain ⟨hmin, hmax⟩ := CmsiScheduler.delay_bounds hle throughput_kbps
  have hid : s.wheel.next_id = w.next_id + 1 := by rw [hwheel]; rfl
  have hone := onFire_perm hperm
  rw [onFire_cons,
    if_pos (show SharedCallback.isOnFire .on_fire = true from rfl),
    hnone, List.perm_singleton] at hone
  refine ⟨⟨⟨w.next_id, now + c.delay throughput_kbps, .on_fire, false⟩, ?_, rfl,
    fun hmem => ?_, ?_, ?_⟩, ?_, fun t ht => ?_, fun id hmem => ?_, ?_, ?_,
    fun b hb => ?_, hspaced⟩
  · rw [hwheel]
    exact hone
  · exact Nat.lt_irrefl _ (hreturned _ hmem)
  · rw [hnow]
    exact Int.add_le_add_left hmin now
  · rw [hnow]
    exact Int.add_le_add_left hmax now
  · rw [hwheel]
    refine (hperm.map TimerEntry.id).nodup_iff.mpr
      (List.nodup_cons.mpr ⟨fun hmem => ?_, hnd⟩)
    obtain ⟨t, ht, heq⟩ := List.mem_map.mp hmem
    exact Nat.ne_of_lt (hlt t ht) heq
  · rw [hwheel] at ht
    rw [hid]
    rcases List.mem_cons.mp (hperm.mem_iff.mp ht) with rfl | ht
    · exact Nat.lt_succ_self _
    · exact Nat.lt_succ_of_lt (hlt t ht)
  · rw [hid]
    exact Nat.lt_succ_of_lt (hreturned id hmem)
  · rw [hnow, hclock]
  · rw [hclock]
    exact hticking
  · rw [hnow]
    obtain ⟨hle, hticks⟩ := hdone b hb
    exact ⟨hle, hticks, fun _ => hticking⟩

namespace OnSchedule

/-- Somebody else's timer. -/
theorem schedule (h : OnSchedule c s) (elapsed : Nat) (delay : TimePoint)
    (callback : κ) :
    OnSchedule c (s.step c (.Schedule elapsed delay callback)) := by
  have hperm := SimpleTimerWheel.schedule_perm s.wheel (s.clock + elapsed) delay
    (SharedCallback.other callback)
  have hlater : s.clock ≤ s.clock + elapsed :=
    Int.le_add_of_nonneg_right (Int.natCast_nonneg elapsed)
  obtain ⟨t, hnext⟩ := h.next
  have hsame := onFire_perm hperm
  rw [onFire_cons,
    if_neg (show ¬ (SharedCallback.other callback).isOnFire = true
    from Bool.false_ne_true), hnext.only, List.perm_singleton] at hsame
  refine ⟨⟨t, hsame, hnext.live, fun hmem => ?_, hnext.earliest, hnext.latest⟩,
    ?_, fun u hu => ?_, fun id hid => ?_, h.clock.trans hlater,
    fun now hnow => (h.ticking now hnow).trans hlater, h.done, h.spaced⟩
  · rcases List.mem_cons.mp hmem with heq | hmem
    · exact Nat.ne_of_lt (h.ids_lt t hnext.mem.1) heq
    · exact hnext.unknown hmem
  · refine (hperm.map TimerEntry.id).nodup_iff.mpr
      (List.nodup_cons.mpr ⟨fun hmem => ?_, h.ids_nodup⟩)
    obtain ⟨u, hu, heq⟩ := List.mem_map.mp hmem
    exact Nat.ne_of_lt (h.ids_lt u hu) heq
  · rcases List.mem_cons.mp (hperm.mem_iff.mp hu) with rfl | hu
    · exact Nat.lt_succ_self _
    · exact Nat.lt_succ_of_lt (h.ids_lt u hu)
  · rcases List.mem_cons.mp hid with rfl | hid
    · exact Nat.lt_succ_self _
    · exact Nat.lt_succ_of_lt (h.returned_lt id hid)

/-- A `Cancel` of somebody else's timer. -/
theorem cancel (h : OnSchedule c s) (id : TimerId) :
    OnSchedule c (s.step c (.Cancel id)) := by
  by_cases hreturned : id ∈ s.returned
  · simp only [step, if_pos hreturned]
    obtain ⟨t, hnext⟩ := h.next
    have hne : t.id ≠ id := fun heq => hnext.unknown (heq ▸ hreturned)
    have hids := SimpleTimerWheel.cancelFirst_ids id s.wheel.timers
    refine ⟨⟨t, ?_, hnext.live, hnext.unknown, hnext.earliest, hnext.latest⟩,
      ?_, fun u hu => ?_, h.returned_lt, h.clock, h.ticking, h.done, h.spaced⟩
    · show onFire (SimpleTimerWheel.cancelFirst id s.wheel.timers) = [t]
      rw [onFire_cancelFirst id h.ids_nodup, hnext.only, List.map_singleton,
        if_neg hne]
    · show ((SimpleTimerWheel.cancelFirst id s.wheel.timers).map
        TimerEntry.id).Nodup
      rw [hids]
      exact h.ids_nodup
    · have hmem : u.id ∈ (SimpleTimerWheel.cancelFirst id s.wheel.timers).map
          TimerEntry.id := List.mem_map_of_mem hu
      rw [hids] at hmem
      obtain ⟨v, hv, heq⟩ := List.mem_map.mp hmem
      rw [← heq]
      exact h.ids_lt v hv
  · simp only [step, if_neg hreturned]
    exact h

/-- `Tick` is called. -/
theorem tick (h : OnSchedule c s) (elapsed : Nat) :
    OnSchedule c (s.step c (.Tick elapsed)) := by
  cases hticking : s.ticking with
  | some now =>
      simp only [step, hticking]
      exact h
  | none =>
      simp only [step, hticking]
      have hlater : s.clock ≤ s.clock + elapsed :=
        Int.le_add_of_nonneg_right (Int.natCast_nonneg elapsed)
      obtain ⟨t, hnext⟩ := h.next
      refine ⟨⟨t, hnext.only, hnext.live, hnext.unknown, hnext.earliest,
        hnext.latest⟩, h.ids_nodup, h.ids_lt, h.returned_lt,
        h.clock.trans hlater, fun now hnow => ?_, fun b hb => ?_, h.spaced⟩
      · exact (Option.some.inj hnow).ge
      · obtain ⟨hle, hticks, -⟩ := h.done b hb
        exact ⟨hle, Nat.le_succ_of_le hticks,
          fun heq => absurd heq (Nat.ne_of_lt (Nat.lt_succ_of_le hticks))⟩

/-- What a pop leaves of the ids. -/
theorem popped (h : OnSchedule c s) {now : TimePoint}
    {entry : TimerEntry (SharedCallback κ)}
    {w : SimpleTimerWheel (SharedCallback κ) H}
    (hpop : s.wheel.popExpired now = some (entry, w)) :
    (w.timers.map TimerEntry.id).Nodup ∧ (∀ u ∈ w.timers, u.id < w.next_id)
      ∧ ∀ id ∈ s.returned, id < w.next_id := by
  obtain ⟨hid, hperm, -, -⟩ := SimpleTimerWheel.popExpired_some hpop
  have hnd : (entry.id :: w.timers.map TimerEntry.id).Nodup :=
    (hperm.map TimerEntry.id).nodup_iff.mp h.ids_nodup
  rw [hid]
  exact ⟨(List.nodup_cons.mp hnd).2,
    fun u hu => h.ids_lt u (SimpleTimerWheel.mem_of_popExpired hpop hu),
    h.returned_lt⟩

/-- The loop pops the broadcast's timer, which is then the only one. -/
theorem turn_on_fire (h : OnSchedule c s) (hle : c.min_s ≤ c.max_s)
    (hpos : 0 < c.min_delay) (elapsed : Nat) (throughput_kbps : Rat)
    {now : TimePoint} (hticking : s.ticking = some now)
    {entry : TimerEntry (SharedCallback κ)}
    {w : SimpleTimerWheel (SharedCallback κ) H}
    (hpop : s.wheel.popExpired now = some (entry, w))
    (hfire : entry.callback.isOnFire = true) :
    OnSchedule c (s.step c (.turn elapsed throughput_kbps)) := by
  obtain ⟨t, hnext⟩ := h.next
  obtain ⟨-, hperm, hdue, -⟩ := SimpleTimerWheel.popExpired_some hpop
  obtain ⟨hnd, hlt, hreturned⟩ := h.popped hpop
  have hsame := onFire_perm hperm
  rw [onFire_cons, hnext.only, if_pos hfire, List.singleton_perm] at hsame
  injection hsame with hentry hrest
  subst hentry
  simp only [step, hticking, hpop, hnext.live, hfire, Bool.not_true,
    Bool.or_self, Bool.false_eq_true, if_false]
  have hnow := h.ticking now hticking
  have hlater : s.clock ≤ s.clock + elapsed :=
    Int.le_add_of_nonneg_right (Int.natCast_nonneg elapsed)
  have hearliest := hnext.earliest
  -- it was not due in the `Tick` of the broadcast before
  have hnew : ∀ b ∈ s.broadcasts,
      b.1 < s.ticks ∧ b.2 + c.min_delay ≤ s.clock := by
    intro b hb
    obtain ⟨hbefore, hticks, hover⟩ := h.done b hb
    refine ⟨Nat.lt_of_le_of_ne hticks fun heq => ?_, by linarith⟩
    have hearly := hover heq now hticking
    linarith
  refine onSchedule_reschedule hle hrest.symm hnd hlt hreturned
    (s.clock + elapsed) throughput_kbps rfl rfl rfl (fun u hu => ?_)
    (fun b hb => ?_) ?_
  · obtain rfl := Option.some.inj hu
    exact hnow.trans hlater
  · rcases List.mem_append.mp hb with hb | hb
    · obtain ⟨hbefore, hticks, -⟩ := h.done b hb
      exact ⟨hbefore.trans (h.clock.trans hlater), hticks⟩
    · obtain rfl := List.mem_singleton.mp hb
      exact ⟨hlater, le_refl _⟩
  · refine List.pairwise_append.mpr ⟨h.spaced, List.pairwise_singleton _ _,
      fun b hb b' hb' => ?_⟩
    obtain rfl := List.mem_singleton.mp hb'
    exact hnew b hb

/-- The loop pops somebody else's timer. -/
theorem turn_other (h : OnSchedule c s) (elapsed : Nat) (throughput_kbps : Rat)
    {now : TimePoint} (hticking : s.ticking = some now)
    {entry : TimerEntry (SharedCallback κ)}
    {w : SimpleTimerWheel (SharedCallback κ) H}
    (hpop : s.wheel.popExpired now = some (entry, w))
    (hfire : ¬ entry.callback.isOnFire = true) :
    OnSchedule c (s.step c (.turn elapsed throughput_kbps)) := by
  obtain ⟨t, hnext⟩ := h.next
  obtain ⟨-, hperm, -, -⟩ := SimpleTimerWheel.popExpired_some hpop
  obtain ⟨hnd, hlt, hreturned⟩ := h.popped hpop
  have hsame := onFire_perm hperm
  rw [onFire_cons, hnext.only, if_neg hfire, List.singleton_perm] at hsame
  have hskip : (entry.cancelled || !entry.callback.isOnFire) = true := by
    simp [hfire]
  simp only [step, hticking, hpop, if_pos hskip]
  refine ⟨⟨t, hsame.symm, hnext.live, hnext.unknown, hnext.earliest,
    hnext.latest⟩, hnd, hlt, hreturned, h.clock, fun u hu => ?_,
    fun b hb => ?_, h.spaced⟩
  · obtain rfl := Option.some.inj hu
    exact h.ticking _ hticking
  · obtain ⟨hbefore, hticks, hover⟩ := h.done b hb
    exact ⟨hbefore, hticks, fun heq u hu => hover heq u (hticking.trans hu)⟩

/-- A turn of the loop. -/
theorem turn (h : OnSchedule c s) (hle : c.min_s ≤ c.max_s)
    (hpos : 0 < c.min_delay) (elapsed : Nat) (throughput_kbps : Rat) :
    OnSchedule c (s.step c (.turn elapsed throughput_kbps)) := by
  cases hticking : s.ticking with
  | none =>
      simp only [step, hticking]
      exact h
  | some now =>
      cases hpop : s.wheel.popExpired now with
      | none =>
          simp only [step, hticking, hpop]
          obtain ⟨t, hnext⟩ := h.next
          refine ⟨⟨t, hnext.only, hnext.live, hnext.unknown, hnext.earliest,
            hnext.latest⟩, h.ids_nodup, h.ids_lt, h.returned_lt, h.clock,
            fun _ hnone => (nomatch hnone), fun b hb => ?_, h.spaced⟩
          obtain ⟨hbefore, hticks, -⟩ := h.done b hb
          exact ⟨hbefore, hticks, fun _ _ hnone => nomatch hnone⟩
      | some popped =>
          by_cases hfire : popped.1.callback.isOnFire = true
          · exact h.turn_on_fire hle hpos elapsed throughput_kbps hticking hpop
              hfire
          · exact h.turn_other elapsed throughput_kbps hticking hpop hfire

theorem step (h : OnSchedule c s) (hle : c.min_s ≤ c.max_s)
    (hpos : 0 < c.min_delay) (ev : CmsiEvent κ) :
    OnSchedule c (s.step c ev) := by
  cases ev with
  | Schedule elapsed delay callback => exact h.schedule elapsed delay callback
  | Cancel id => exact h.cancel id
  | Tick elapsed => exact h.tick elapsed
  | turn elapsed throughput_kbps =>
      exact h.turn hle hpos elapsed throughput_kbps

end OnSchedule

end CmsiState

end Joker
