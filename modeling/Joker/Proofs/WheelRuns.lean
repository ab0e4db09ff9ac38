/-
What holds of every run of a timer wheel, whatever its callbacks call.

# Two invariants

- `Tracking`: the timers in the wheel and the timers popped are those
  that were scheduled, each once and as it was scheduled, and a timer is
  marked exactly if `Cancel` was called with its id since.
- `Ordered`: nothing left in the wheel expires before what the `Tick` in
  progress has popped. The heap gives this for the timers that were there,
  and a timer added by a callback expires no earlier than the clock, which
  the popped ones do not pass.

Both are kept by `Schedule`, `Cancel` and a turn of the loop, and so hold
between any two of them, re-entrant or not. `wheel_runs_correct` reads
the guarantees of the interface off them.

# The loop

`Tick` as the other models run it, a loop with fuel, is such a run: from
the call to the return, if fuel was enough to leave no expired timer
(`tick_is_run`).
-/
import Joker.Lib.Trace
import Joker.Model.WheelRuns
import Joker.Proofs.TimerWheel

namespace Joker

open Transition Trace WheelItem

variable {κ : Type} {H : WheelHeap (Option κ)}

-- ============================================================ the trace

/-- `Cancel` was called with the id after a timer got it. -/
def CancelledSince (id : TimerId) (tr : List (WheelItem κ)) : Prop :=
  ∃ T callback, Before (.scheduled id T callback) (.cancelled id) tr

/-- The ids given out. -/
def scheduledIds (tr : List (WheelItem κ)) : List TimerId :=
  tr.filterMap scheduledId

/-- The ids of the timers popped. -/
def poppedIds (tr : List (WheelItem κ)) : List TimerId :=
  tr.filterMap poppedId

/-- The ids of the timers whose callback ran. -/
def ranIds (tr : List (WheelItem κ)) : List TimerId :=
  tr.filterMap ranId

theorem mem_scheduledIds {id : TimerId} {tr : List (WheelItem κ)} :
    id ∈ scheduledIds tr ↔ ∃ T callback, .scheduled id T callback ∈ tr := by
  unfold scheduledIds
  rw [List.mem_filterMap]
  constructor
  · intro h
    obtain ⟨x, hx, hid⟩ := h
    cases x with
    | scheduled i T callback =>
        injection hid with hid
        exact ⟨T, callback, hid ▸ hx⟩
    | cancelled i => cases hid
    | popped n now e => cases hid
  · intro h
    obtain ⟨T, callback, hx⟩ := h
    exact ⟨_, hx, rfl⟩

theorem mem_poppedIds {id : TimerId} {tr : List (WheelItem κ)} :
    id ∈ poppedIds tr ↔ ∃ n now e, .popped n now e ∈ tr ∧ e.id = id := by
  unfold poppedIds
  rw [List.mem_filterMap]
  constructor
  · intro h
    obtain ⟨x, hx, hid⟩ := h
    cases x with
    | scheduled i T callback => cases hid
    | cancelled i => cases hid
    | popped n now e =>
        injection hid with hid
        exact ⟨n, now, e, hx, hid⟩
  · intro h
    obtain ⟨n, now, e, hx, rfl⟩ := h
    exact ⟨_, hx, rfl⟩

/-- A callback runs only when its timer is popped. -/
theorem ranIds_sublist (tr : List (WheelItem κ)) :
    (ranIds tr).Sublist (poppedIds tr) := by
  induction tr with
  | nil => exact List.Sublist.refl _
  | cons x tr ih =>
      unfold ranIds poppedIds at ih ⊢
      cases x with
      | scheduled i T callback => exact ih
      | cancelled i => exact ih
      | popped n now e =>
          rw [List.filterMap_cons, List.filterMap_cons]
          dsimp only [ranId, poppedId]
          split
          · exact ih.cons _
          · next h =>
            split at h
            · injection h with h
              rw [← h]
              exact ih.cons_cons _
            · cases h

theorem cancelledSince_concat {id : TimerId} {tr : List (WheelItem κ)}
    {x : WheelItem κ} :
    CancelledSince id (tr ++ [x])
      ↔ CancelledSince id tr ∨ (id ∈ scheduledIds tr ∧ x = .cancelled id) := by
  unfold CancelledSince
  rw [mem_scheduledIds]
  simp only [before_concat]
  constructor
  · intro h
    obtain ⟨T, callback, h | ⟨hmem, rfl⟩⟩ := h
    · exact Or.inl ⟨T, callback, h⟩
    · exact Or.inr ⟨⟨T, callback, hmem⟩, rfl⟩
  · intro h
    rcases h with ⟨T, callback, h⟩ | ⟨⟨T, callback, hmem⟩, rfl⟩
    · exact ⟨T, callback, Or.inl h⟩
    · exact ⟨T, callback, Or.inr ⟨hmem, rfl⟩⟩

/-- Only ids given out are cancelled since. -/
theorem CancelledSince.scheduled {id : TimerId} {tr : List (WheelItem κ)}
    (h : CancelledSince id tr) : id ∈ scheduledIds tr := by
  obtain ⟨T, callback, h⟩ := h
  exact mem_scheduledIds.mpr ⟨T, callback, h.mem_left⟩

-- ========================================================== the tracking

/-- The timer is as the trace has it: as it was scheduled, and marked if
it was cancelled since. -/
structure Tracked (tr : List (WheelItem κ)) (e : TimerEntry (Option κ)) :
    Prop where
  born : .scheduled e.id e.expires_at e.callback ∈ tr
  marked : e.cancelled = true ↔ CancelledSince e.id tr

/-- An item that cancels nothing keeps a timer as the trace has it. -/
theorem Tracked.concat {tr : List (WheelItem κ)} {e : TimerEntry (Option κ)}
    (h : Tracked tr e) {x : WheelItem κ} (hx : x ≠ .cancelled e.id) :
    Tracked (tr ++ [x]) e := by
  refine ⟨List.mem_append_left _ h.born, ?_⟩
  rw [cancelledSince_concat, h.marked]
  exact ⟨Or.inl, fun hor => hor.resolve_right fun hall => hx hall.2⟩

/-- What was popped, read with the trace before it: a timer as the trace
has it, expired at the reading of its `Tick`. -/
def PoppedRight (tr : List (WheelItem κ)) (x : WheelItem κ) : Prop :=
  ∀ n now e, x = .popped n now e → Tracked tr e ∧ e.expires_at ≤ now

/-- The timers popped and the timers left are those scheduled. -/
structure Tracking (w : SimpleTimerWheel (Option κ) H)
    (tr : List (WheelItem κ)) : Prop where
  nodup : (scheduledIds tr).Nodup
  lt : ∀ id ∈ scheduledIds tr, id < w.next_id
  split : (poppedIds tr ++ w.timers.map TimerEntry.id).Perm (scheduledIds tr)
  tracked : ∀ t ∈ w.timers, Tracked tr t
  popped : AtEvery PoppedRight tr

namespace Tracking

variable {w : SimpleTimerWheel (Option κ) H} {tr : List (WheelItem κ)}

theorem start : Tracking (.empty : SimpleTimerWheel (Option κ) H) [] where
  nodup := List.nodup_nil
  lt _ hid := absurd hid List.not_mem_nil
  split := List.Perm.refl _
  tracked _ ht := absurd ht List.not_mem_nil
  popped := atEvery_nil _

theorem ids_nodup (h : Tracking w tr) :
    (poppedIds tr ++ w.timers.map TimerEntry.id).Nodup :=
  h.split.nodup_iff.mpr h.nodup

/-- No timer left was popped. -/
theorem notMem_popped (h : Tracking w tr) {t : TimerEntry (Option κ)}
    (ht : t ∈ w.timers) : t.id ∉ poppedIds tr := fun hmem =>
  (List.nodup_append.mp h.ids_nodup).2.2 _ hmem _ (List.mem_map_of_mem ht) rfl

/-- What was scheduled under an id is one timer. -/
theorem scheduled_inj (h : Tracking w tr) {id : TimerId}
    {T T' : TimePoint} {callback callback' : Option κ}
    (hs : .scheduled id T callback ∈ tr)
    (hs' : .scheduled id T' callback' ∈ tr) :
    T = T' ∧ callback = callback' := by
  have heq := eq_of_nodup_filterMap h.nodup hs hs' rfl rfl
  injection heq with _ hT hcb
  exact ⟨hT, hcb⟩

/-- `Schedule` keeps the tracking. -/
theorem schedule (h : Tracking w tr) (now delay : TimePoint)
    (callback : Option κ) :
    Tracking (w.Schedule now delay callback).2
      (tr ++ [.scheduled w.next_id (now + delay) callback]) := by
  have hids : scheduledIds (tr ++ [.scheduled w.next_id (now + delay) callback])
      = scheduledIds tr ++ [w.next_id] := List.filterMap_append
  have hpopped : poppedIds (tr ++ [.scheduled w.next_id (now + delay) callback])
      = poppedIds tr := by
    simp [poppedIds, List.filterMap_append, poppedId]
  have hfresh : w.next_id ∉ scheduledIds tr := fun hmem =>
    absurd (h.lt _ hmem) (Nat.lt_irrefl _)
  have hperm := w.schedule_perm now delay callback
  constructor
  · rw [hids, List.nodup_append]
    refine ⟨h.nodup, List.nodup_singleton _, fun a ha b hb hab => hfresh ?_⟩
    rw [← List.mem_singleton.mp hb, ← hab]
    exact ha
  · intro id hid
    rw [hids, List.mem_append, List.mem_singleton] at hid
    show id < w.next_id + 1
    rcases hid with hid | rfl
    · exact Nat.lt_succ_of_lt (h.lt id hid)
    · exact Nat.lt_succ_self _
  · rw [hids, hpopped]
    refine ((hperm.map TimerEntry.id).append_left _).trans ?_
    rw [List.map_cons]
    refine List.perm_middle.trans ((h.split.cons _).trans ?_)
    exact (List.perm_append_singleton _ _).symm
  · intro t ht
    rcases List.mem_cons.mp (hperm.mem_iff.mp ht) with rfl | ht
    · refine ⟨List.mem_append_right _ List.mem_cons_self, ?_⟩
      refine iff_of_false Bool.false_ne_true fun hc => ?_
      rcases cancelledSince_concat.mp hc with hc | ⟨hmem, -⟩
      · exact hfresh hc.scheduled
      · exact hfresh hmem
    · exact (h.tracked t ht).concat (by simp)
  · refine atEvery_concat.mpr ⟨h.popped, ?_⟩
    intro n t e heq
    cases heq

/-- `Cancel` keeps the tracking. -/
theorem cancel (h : Tracking w tr) (id : TimerId) :
    Tracking (w.Cancel id) (tr ++ [.cancelled id]) := by
  have hids : scheduledIds (tr ++ [.cancelled id]) = scheduledIds tr := by
    simp [scheduledIds, List.filterMap_append, scheduledId]
  have hpopped : poppedIds (tr ++ [.cancelled id]) = poppedIds tr := by
    simp [poppedIds, List.filterMap_append, poppedId]
  have hmap := SimpleTimerWheel.cancelFirst_eq_map id w.timers
    (List.nodup_append.mp h.ids_nodup).2.1
  constructor
  · rw [hids]
    exact h.nodup
  · rw [hids]
    exact h.lt
  · rw [hids, hpopped]
    show (_ ++ (SimpleTimerWheel.cancelFirst id w.timers).map _).Perm _
    rw [SimpleTimerWheel.cancelFirst_ids]
    exact h.split
  · intro t ht
    change t ∈ SimpleTimerWheel.cancelFirst id w.timers at ht
    rw [hmap, List.mem_map] at ht
    obtain ⟨u, hu, rfl⟩ := ht
    have htr := h.tracked u hu
    by_cases hid : u.id = id
    · rw [if_pos hid]
      refine ⟨List.mem_append_left _ htr.born, ?_⟩
      refine iff_of_true rfl (cancelledSince_concat.mpr (Or.inr ⟨?_, ?_⟩))
      · exact mem_scheduledIds.mpr ⟨_, _, htr.born⟩
      · rw [hid]
    · rw [if_neg hid]
      refine htr.concat fun heq => hid ?_
      injection heq with heq
      exact heq.symm
  · refine atEvery_concat.mpr ⟨h.popped, ?_⟩
    intro n t e heq
    cases heq

/-- A turn that pops keeps the tracking. -/
theorem pop (h : Tracking w tr) {now : TimePoint}
    {e : TimerEntry (Option κ)} {w' : SimpleTimerWheel (Option κ) H}
    (hpop : w.popExpired now = some (e, w')) (n : Nat) :
    Tracking w' (tr ++ [.popped n now e]) := by
  obtain ⟨hnext, hperm, hexp, -⟩ := SimpleTimerWheel.popExpired_some hpop
  have hids : scheduledIds (tr ++ [.popped n now e]) = scheduledIds tr := by
    simp [scheduledIds, List.filterMap_append, scheduledId]
  have hpopped : poppedIds (tr ++ [.popped n now e]) = poppedIds tr ++ [e.id] :=
    List.filterMap_append
  constructor
  · rw [hids]
    exact h.nodup
  · rw [hids, hnext]
    exact h.lt
  · rw [hids, hpopped, List.append_assoc, List.singleton_append]
    exact ((hperm.map TimerEntry.id).append_left _).symm.trans h.split
  · intro t ht
    have hold := SimpleTimerWheel.mem_of_popExpired hpop ht
    exact (h.tracked t hold).concat (by simp)
  · refine atEvery_concat.mpr ⟨h.popped, ?_⟩
    intro n' now' e' heq
    injection heq with _ hnow he
    rw [← he, ← hnow]
    exact ⟨h.tracked e (SimpleTimerWheel.popExpired_mem hpop), hexp⟩

end Tracking

-- ============================================================= the order

/-- A timer popped by a `Tick` expires no earlier than what the `Tick`
popped before it. -/
def PoppedInOrder (tr : List (WheelItem κ)) (x : WheelItem κ) : Prop :=
  ∀ n now e now' e', x = .popped n now e → .popped n now' e' ∈ tr →
    e'.expires_at ≤ e.expires_at

/-- While a `Tick` is in progress nothing left in the wheel, and nothing
that will be added to it, expires before what that `Tick` has popped. -/
structure Ordered (s : WheelState κ H) : Prop where
  clock_le : ∀ now, s.ticking = some now → now ≤ s.clock
  tick_le : ∀ n now e, .popped n now e ∈ s.trace → n ≤ s.ticks
  floor : ∀ t, s.ticking = some t → ∀ now e, .popped s.ticks now e ∈ s.trace →
    e.expires_at ≤ t ∧ ∀ u ∈ s.wheel.timers, e.expires_at ≤ u.expires_at
  order : AtEvery PoppedInOrder s.trace

namespace Ordered

variable {s : WheelState κ H}

/-- A step that pops nothing keeps the order, if what it leaves in the wheel
is as due as before, or not due yet. -/
theorem not_popping (h : Ordered s) {s' : WheelState κ H} {x : WheelItem κ}
    (hx : ∀ n now e, x ≠ .popped n now e) (hclock : s.clock ≤ s'.clock)
    (hticking : s'.ticking = s.ticking) (hticks : s'.ticks = s.ticks)
    (htrace : s'.trace = s.trace ++ [x])
    (htimers : ∀ u ∈ s'.wheel.timers, s.clock ≤ u.expires_at
      ∨ ∃ v ∈ s.wheel.timers, v.expires_at = u.expires_at) :
    Ordered s' := by
  have hold : ∀ {n now e}, .popped n now e ∈ s'.trace →
      .popped n now e ∈ s.trace := by
    intro n now e hmem
    rw [htrace] at hmem
    rcases List.mem_append.mp hmem with hmem | hmem
    · exact hmem
    · exact absurd (List.mem_singleton.mp hmem).symm (hx n now e)
  constructor
  · intro now hnow
    exact Int.le_trans (h.clock_le now (hticking ▸ hnow)) hclock
  · intro n now e hmem
    rw [hticks]
    exact h.tick_le n now e (hold hmem)
  · intro t ht now e hmem
    rw [hticking] at ht
    rw [hticks] at hmem
    obtain ⟨hle, hall⟩ := h.floor t ht now e (hold hmem)
    refine ⟨hle, fun u hu => ?_⟩
    rcases htimers u hu with hlate | ⟨v, hv, hkey⟩
    · exact Int.le_trans (Int.le_trans hle (h.clock_le t ht)) hlate
    · rw [← hkey]
      exact hall v hv
  · rw [htrace]
    refine atEvery_concat.mpr ⟨h.order, ?_⟩
    intro n now e now' e' heq
    exact absurd heq (hx n now e)

/-- A timer scheduled now expires no earlier than what the `Tick` in
progress has popped. -/
theorem schedule (h : Ordered s) (elapsed delay : Nat)
    (callback : Option κ) :
    Ordered (s.step (.Schedule elapsed delay callback)) := by
  have hlater : s.clock ≤ s.clock + elapsed :=
    Int.le_add_of_nonneg_right (Int.natCast_nonneg elapsed)
  have hdelay : 0 ≤ milliseconds delay :=
    Int.mul_nonneg (Int.natCast_nonneg delay) (by decide)
  refine h.not_popping (fun _ _ _ heq => by cases heq) hlater rfl rfl rfl ?_
  intro u hu
  rcases List.mem_cons.mp
    ((s.wheel.schedule_perm _ _ _).mem_iff.mp hu) with rfl | hu
  · refine Or.inl ?_
    show s.clock ≤ s.clock + elapsed + milliseconds delay
    exact Int.le_trans hlater (Int.le_add_of_nonneg_right hdelay)
  · exact Or.inr ⟨u, hu, rfl⟩

/-- Cancelling moves no expiry. -/
theorem cancel (h : Ordered s) (id : TimerId) :
    Ordered (s.step (.Cancel id)) := by
  refine h.not_popping (fun _ _ _ heq => by cases heq) (Int.le_refl _) rfl rfl
    rfl ?_
  intro u hu
  have hkey : u.expires_at ∈ s.wheel.timers.map TimerEntry.expires_at := by
    rw [← SimpleTimerWheel.map_expires_at_cancelFirst id]
    exact List.mem_map_of_mem hu
  exact Or.inr (List.mem_map.mp hkey)

/-- A `Tick` that starts has popped nothing. -/
theorem tick (h : Ordered s) (elapsed : Nat) :
    Ordered (s.step (.Tick elapsed)) := by
  unfold WheelState.step
  cases hticking : s.ticking with
  | some t =>
      dsimp only
      exact h
  | none =>
      constructor
      · intro now hnow
        injection hnow with hnow
        exact Int.le_of_eq hnow.symm
      · intro n now e hmem
        exact Nat.le_succ_of_le (h.tick_le n now e hmem)
      · intro t _ now e hmem
        exact absurd (h.tick_le _ now e hmem) (Nat.not_succ_le_self _)
      · exact h.order

/-- The timer a turn pops expires first of all that are left. -/
theorem turn (h : Ordered s) : Ordered (s.step .turn) := by
  unfold WheelState.step
  cases hticking : s.ticking with
  | none => exact h
  | some now =>
      dsimp only
      cases hpop : s.wheel.popExpired now with
      | none =>
          constructor
          · intro t ht
            cases ht
          · exact h.tick_le
          · intro t ht
            cases ht
          · exact h.order
      | some p =>
          obtain ⟨e, w⟩ := p
          obtain ⟨-, -, hexp, hleast⟩ :=
            SimpleTimerWheel.popExpired_some hpop
          have he := SimpleTimerWheel.popExpired_mem hpop
          have hrest : ∀ u ∈ w.timers, u ∈ s.wheel.timers := fun _ hu =>
            SimpleTimerWheel.mem_of_popExpired hpop hu
          constructor
          · intro t ht
            exact h.clock_le t (hticking.trans ht)
          · intro n t e' hmem
            rcases List.mem_append.mp hmem with hmem | hmem
            · exact h.tick_le n t e' hmem
            · injection List.mem_singleton.mp hmem with hn
              exact Nat.le_of_eq hn
          · intro t ht now' e' hmem
            injection ht with ht
            rcases List.mem_append.mp hmem with hmem | hmem
            · obtain ⟨hle, hall⟩ := h.floor now hticking now' e' hmem
              exact ⟨ht ▸ hle, fun u hu => hall u (hrest u hu)⟩
            · injection List.mem_singleton.mp hmem with _ _ heq
              rw [heq]
              exact ⟨ht ▸ hexp, fun u hu => hleast u (hrest u hu)⟩
          · refine atEvery_concat.mpr ⟨h.order, ?_⟩
            intro n t e₁ now' e' heq hmem
            injection heq with hn _ he₁
            rw [← hn] at hmem
            rw [← he₁]
            exact (h.floor now hticking now' e' hmem).2 e he

end Ordered

namespace WheelState

/-- An event keeps the order. -/
theorem step_ordered {s : WheelState κ H} (h : Ordered s)
    (ev : WheelEvent κ) : Ordered (s.step ev) := by
  cases ev with
  | Schedule elapsed delay callback => exact h.schedule elapsed delay callback
  | Cancel id => exact h.cancel id
  | Tick elapsed => exact h.tick elapsed
  | turn => exact h.turn

/-- An event keeps the tracking. -/
theorem step_tracking {s : WheelState κ H} (h : Tracking s.wheel s.trace)
    (ev : WheelEvent κ) : Tracking (s.step ev).wheel (s.step ev).trace := by
  cases ev with
  | Schedule elapsed delay callback => exact h.schedule _ _ callback
  | Cancel id => exact h.cancel id
  | Tick elapsed =>
      unfold step
      cases s.ticking with
      | some t => exact h
      | none => exact h
  | turn =>
      unfold step
      cases s.ticking with
      | none => exact h
      | some now =>
          dsimp only
          cases hpop : s.wheel.popExpired now with
          | none => exact h
          | some p =>
              obtain ⟨e, w⟩ := p
              exact h.pop hpop s.ticks

variable (H) in
theorem after_tracking (clock : TimePoint) (es : List (WheelEvent κ)) :
    Tracking (after H clock es).wheel (after H clock es).trace :=
  exec_invariant (fun s : WheelState κ H => Tracking s.wheel s.trace)
    (fun _ ev h => step_tracking h ev) es Tracking.start

variable (H) in
theorem after_ordered (clock : TimePoint) (es : List (WheelEvent κ)) :
    Ordered (after H clock es) := by
  refine exec_invariant Ordered (fun _ ev h => step_ordered h ev) es ?_
  constructor
  · intro now hnow
    cases hnow
  · intro n now e hmem
    cases hmem
  · intro t ht
    cases ht
  · exact atEvery_nil _

end WheelState

-- ======================================================== the guarantees

/-- `Cancel` of an id no live timer of the vector has changes nothing. -/
theorem SimpleTimerWheel.cancelFirst_of_dead (id : TimerId)
    (v : List (TimerEntry (Option κ)))
    (h : ∀ e ∈ v, e.id = id → e.cancelled = true) : cancelFirst id v = v := by
  induction v with
  | nil => rfl
  | cons e es ih =>
      rw [cancelFirst]
      split
      · next hid =>
        have hmark := h e List.mem_cons_self hid
        congr 1
        rw [← hmark]
      · rw [ih fun t ht => h t (List.mem_cons_of_mem _ ht)]

/-- `Cancel` of an unknown, popped or already cancelled id changes
nothing. -/
theorem Tracking.cancel_eq_self {w : SimpleTimerWheel (Option κ) H}
    {tr : List (WheelItem κ)} (h : Tracking w tr) {id : TimerId}
    (hid : id ∉ scheduledIds tr ∨ id ∈ poppedIds tr ∨ CancelledSince id tr) :
    w.Cancel id = w := by
  have hdead : ∀ e ∈ w.timers, e.id = id → e.cancelled = true := by
    intro e he heq
    subst heq
    have htr := h.tracked e he
    rcases hid with hunknown | hpopped | hcancelled
    · exact absurd (mem_scheduledIds.mpr ⟨_, _, htr.born⟩) hunknown
    · exact absurd hpopped (h.notMem_popped he)
    · exact htr.marked.mpr hcancelled
  unfold SimpleTimerWheel.Cancel
  congr 1
  exact SimpleTimerWheel.cancelFirst_of_dead id w.timers hdead

/-- What was scheduled and is not in the wheel was popped, as it was. -/
theorem Tracking.popped_of_scheduled {w : SimpleTimerWheel (Option κ) H}
    {tr : List (WheelItem κ)} (h : Tracking w tr) {id : TimerId}
    {T : TimePoint} {callback : Option κ}
    (hs : .scheduled id T callback ∈ tr)
    (hgone : ∀ t ∈ w.timers, t.expires_at ≠ T) :
    ∃ n now pre post cancelled,
      tr = pre ++ .popped n now ⟨id, T, callback, cancelled⟩ :: post
        ∧ (cancelled = true ↔ CancelledSince id pre) := by
  have hmem := h.split.mem_iff.mpr (mem_scheduledIds.mpr ⟨T, callback, hs⟩)
  rcases List.mem_append.mp hmem with hpopped | hleft
  · obtain ⟨n, now, e, he, hid⟩ := mem_poppedIds.mp hpopped
    obtain ⟨pre, post, htr, hright⟩ := h.popped.of_mem he
    obtain ⟨htracked, -⟩ := hright n now e rfl
    have hborn : WheelItem.scheduled e.id e.expires_at e.callback ∈ tr := by
      rw [htr]
      exact List.mem_append_left _ htracked.born
    rw [hid] at hborn
    obtain ⟨hT, hcb⟩ := h.scheduled_inj hborn hs
    refine ⟨n, now, pre, post, e.cancelled, ?_, hid ▸ htracked.marked⟩
    rw [htr, ← hT, ← hcb, ← hid]
  · obtain ⟨t, ht, hid⟩ := List.mem_map.mp hleft
    have hborn := (h.tracked t ht).born
    rw [hid] at hborn
    exact absurd (h.scheduled_inj hborn hs).1 (hgone t ht)

/-- What was popped unmarked, with a callback, has run. -/
theorem mem_ranIds_of_popped {tr pre post : List (WheelItem κ)} {n : Nat}
    {now T : TimePoint} {id : TimerId} {callback : Option κ}
    {cancelled : Bool}
    (htr : tr = pre ++ .popped n now ⟨id, T, callback, cancelled⟩ :: post)
    (hmark : cancelled = true ↔ CancelledSince id pre)
    (hcb : callback.isSome = true) (hlive : ¬ CancelledSince id tr) :
    id ∈ ranIds tr := by
  have hc : cancelled = false := by
    rw [← Bool.not_eq_true, hmark]
    intro hpre
    obtain ⟨T', cb', hbefore⟩ := hpre
    apply hlive
    exact ⟨T', cb', hbefore.mono (htr ▸ List.sublist_append_left pre _)⟩
  refine List.mem_filterMap.mpr ⟨.popped n now ⟨id, T, callback, cancelled⟩,
    ?_, ?_⟩
  · rw [htr]
    exact List.mem_append_right _ List.mem_cons_self
  · simp [ranId, hc, hcb]

/-- In every run, whatever callbacks schedule and cancel: a callback runs
at most once, as it was scheduled, in no `Tick` before its expiry, and
not if its id was cancelled before it was popped; `Cancel` of an unknown,
fired or cancelled id changes nothing; one `Tick` runs callbacks in order
of expiry; and when a `Tick` returns no expired timer is left, and every
expired one was popped, marked if it was cancelled before and run if it
was not. -/
theorem wheel_runs_correct (H : WheelHeap (Option κ)) (clock : TimePoint)
    (es : List (WheelEvent κ)) :
    (scheduledIds (WheelState.after H clock es).trace).Nodup
    ∧ (ranIds (WheelState.after H clock es).trace).Nodup
    ∧ (∀ pre n now e post,
        (WheelState.after H clock es).trace = pre ++ .popped n now e :: post →
        .scheduled e.id e.expires_at e.callback ∈ pre
          ∧ e.expires_at ≤ now
          ∧ (e.cancelled = true ↔ CancelledSince e.id pre)
          ∧ ∀ now' e', .popped n now' e' ∈ pre → e'.expires_at ≤ e.expires_at)
    ∧ (∀ id, id ∉ scheduledIds (WheelState.after H clock es).trace
          ∨ id ∈ poppedIds (WheelState.after H clock es).trace
          ∨ CancelledSince id (WheelState.after H clock es).trace →
        ((WheelState.after H clock es).step (.Cancel id)).wheel
          = (WheelState.after H clock es).wheel)
    ∧ ∀ now, (WheelState.after H clock es).ticking = some now →
        ((WheelState.after H clock es).step .turn).ticking = none →
        (∀ t ∈ (WheelState.after H clock es).wheel.timers, now < t.expires_at)
        ∧ ∀ id T callback,
          .scheduled id T callback ∈ (WheelState.after H clock es).trace →
          T ≤ now →
          ∃ n now' pre post cancelled, (WheelState.after H clock es).trace
              = pre ++ .popped n now' ⟨id, T, callback, cancelled⟩ :: post
            ∧ (cancelled = true ↔ CancelledSince id pre)
            ∧ (callback.isSome = true →
                ¬ CancelledSince id (WheelState.after H clock es).trace →
                id ∈ ranIds (WheelState.after H clock es).trace) := by
  have htrack := WheelState.after_tracking H clock es
  have hord := WheelState.after_ordered H clock es
  generalize WheelState.after H clock es = s at *
  refine ⟨htrack.nodup, ?_, ?_, ?_, ?_⟩
  · exact (List.nodup_append.mp htrack.ids_nodup).1.sublist
      (ranIds_sublist s.trace)
  · intro pre n now e post htr
    obtain ⟨htracked, hexp⟩ := htrack.popped pre _ post htr n now e rfl
    refine ⟨htracked.born, hexp, htracked.marked, fun now' e' hmem => ?_⟩
    exact hord.order pre _ post htr n now e now' e' rfl hmem
  · intro id hid
    exact htrack.cancel_eq_self hid
  · intro now hticking hreturn
    have hnone : s.wheel.popExpired now = none := by
      unfold WheelState.step at hreturn
      rw [hticking] at hreturn
      dsimp only at hreturn
      cases hpop : s.wheel.popExpired now with
      | none => rfl
      | some p =>
          rw [hpop] at hreturn
          obtain ⟨e, w⟩ := p
          cases hreturn
    have hlate := SimpleTimerWheel.popExpired_none hnone
    refine ⟨hlate, fun id T callback hs hT => ?_⟩
    have hgone : ∀ t ∈ s.wheel.timers, t.expires_at ≠ T := fun t ht heq =>
      absurd (hlate t ht) (Int.not_lt.mpr (heq ▸ hT))
    obtain ⟨n, now', pre, post, cancelled, htr, hmark⟩ :=
      htrack.popped_of_scheduled hs hgone
    exact ⟨n, now', pre, post, cancelled, htr, hmark,
      mem_ranIds_of_popped htr hmark⟩

/-- Two timers expire in one `Tick`, and the callback of the first cancels
the second. -/
example : ranIds (WheelState.after (VectorHeap.sortedHeap _) 0
    [.Schedule 0 50 (some ()), .Schedule 0 60 (some ()), .Tick 70000000,
      .turn, .Cancel 2, .turn, .turn]).trace = [1] := by decide

-- ==================================================== the loop is a run

/-- What a callback calls leaves the `Tick` in progress. -/
theorem WheelState.exec_calls_ticking {calls : List (WheelEvent κ)}
    (hcalls : ∀ c ∈ calls, c.IsCall) :
    ∀ r : WheelState κ H, (exec step r calls).ticking = r.ticking := by
  induction calls with
  | nil => intro r; rfl
  | cons c calls ih =>
      intro r
      rw [exec_cons, ih fun d hd => hcalls d (List.mem_cons_of_mem _ hd)]
      cases c with
      | Schedule elapsed delay callback => rfl
      | Cancel id => rfl
      | Tick elapsed => exact (hcalls _ List.mem_cons_self).elim
      | turn => exact (hcalls _ List.mem_cons_self).elim

/-- The loop of `Tick`, over any state that holds a wheel and whose
callbacks reach the wheel through `Schedule` and `Cancel` only, is a run
of turns and of what the callbacks call. -/
theorem tickLoop_is_run {σ : Type} (wheel : σ → SimpleTimerWheel (Option κ) H)
    (clock : σ → TimePoint)
    (setWheel : SimpleTimerWheel (Option κ) H → σ → σ)
    (run : Option κ → σ → σ) (now : TimePoint)
    (hset : ∀ w s, wheel (setWheel w s) = w
      ∧ clock (setWheel w s) = clock s)
    (hrun : ∀ callback s, ∃ calls : List (WheelEvent κ),
      (∀ c ∈ calls, c.IsCall)
        ∧ ∀ r : WheelState κ H, r.wheel = wheel s → r.clock = clock s →
          (exec WheelState.step r calls).wheel = wheel (run callback s)
            ∧ (exec WheelState.step r calls).clock = clock (run callback s))
    (fuel : Nat) : ∀ (s : σ) (r : WheelState κ H), r.wheel = wheel s →
      r.clock = clock s → r.ticking = some now →
      ∃ es, (exec WheelState.step r es).ticking = some now
        ∧ (exec WheelState.step r es).wheel
          = wheel (tickLoop wheel setWheel run now fuel s)
        ∧ (exec WheelState.step r es).clock
          = clock (tickLoop wheel setWheel run now fuel s) := by
  induction fuel with
  | zero => intro s r hw hc ht; exact ⟨[], ht, hw, hc⟩
  | succ fuel ih =>
      intro s r hw hc ht
      unfold tickLoop
      cases hpop : (wheel s).popExpired now with
      | none => exact ⟨[], ht, hw, hc⟩
      | some p =>
          obtain ⟨e, w⟩ := p
          dsimp only
          have hturn : r.step .turn = { r with
              wheel := w
              trace := r.trace ++ [.popped r.ticks now e] } := by
            simp only [WheelState.step, ht, hw, hpop]
          obtain ⟨hw', hc'⟩ := hset w s
          cases e.cancelled with
          | true =>
              obtain ⟨es, hall⟩ := ih (setWheel w s) (r.step .turn)
                (by rw [hturn, hw']) (by rw [hturn, hc']; exact hc)
                (by rw [hturn]; exact ht)
              exact ⟨.turn :: es, hall⟩
          | false =>
              obtain ⟨calls, hcalls, hmatch⟩ := hrun e.callback (setWheel w s)
              obtain ⟨hwheel, hclock⟩ := hmatch (r.step .turn)
                (by rw [hturn, hw']) (by rw [hturn, hc']; exact hc)
              obtain ⟨es, hall⟩ := ih (run e.callback (setWheel w s))
                (exec WheelState.step (r.step .turn) calls) hwheel hclock
                (by rw [WheelState.exec_calls_ticking hcalls, hturn]; exact ht)
              refine ⟨.turn :: (calls ++ es), ?_⟩
              rw [exec_cons, exec_append]
              exact hall

/-- With fuel enough that no expired timer is left, the turn after the
loop's returns: the whole `Tick`, from its call, is a run. -/
theorem tick_is_run {σ : Type} (wheel : σ → SimpleTimerWheel (Option κ) H)
    (clock : σ → TimePoint)
    (setWheel : SimpleTimerWheel (Option κ) H → σ → σ)
    (run : Option κ → σ → σ)
    (hset : ∀ w s, wheel (setWheel w s) = w
      ∧ clock (setWheel w s) = clock s)
    (hrun : ∀ callback s, ∃ calls : List (WheelEvent κ),
      (∀ c ∈ calls, c.IsCall)
        ∧ ∀ r : WheelState κ H, r.wheel = wheel s → r.clock = clock s →
          (exec WheelState.step r calls).wheel = wheel (run callback s)
            ∧ (exec WheelState.step r calls).clock = clock (run callback s))
    (fuel : Nat) (s : σ) (r : WheelState κ H) (elapsed : Nat)
    (hwheel : r.wheel = wheel s) (hclock : r.clock + elapsed = clock s)
    (hidle : r.ticking = none)
    (hfuel : ∀ t ∈ (wheel (tickLoop wheel setWheel run (clock s) fuel s)
      ).timers, clock s < t.expires_at) :
    ∃ es, (exec WheelState.step r (.Tick elapsed :: es)).ticking = none
      ∧ (exec WheelState.step r (.Tick elapsed :: es)).wheel
        = wheel (tickLoop wheel setWheel run (clock s) fuel s)
      ∧ (exec WheelState.step r (.Tick elapsed :: es)).clock
        = clock (tickLoop wheel setWheel run (clock s) fuel s) := by
  have hcall : r.step (.Tick elapsed)
      = { r with
          clock := clock s
          ticking := some (clock s)
          ticks := r.ticks + 1 } := by
    simp only [WheelState.step, hidle, hclock]
  obtain ⟨es, hticking, hw, hc⟩ := tickLoop_is_run wheel clock setWheel run
    (clock s) hset hrun fuel s (r.step (.Tick elapsed))
    (by rw [hcall]; exact hwheel) (by rw [hcall]) (by rw [hcall])
  have hstop : (wheel (tickLoop wheel setWheel run (clock s) fuel s)
      ).popExpired (clock s) = none := by
    cases hpop : (wheel (tickLoop wheel setWheel run (clock s) fuel s)
        ).popExpired (clock s) with
    | none => rfl
    | some popped =>
        obtain ⟨e, w⟩ := popped
        have hlate := hfuel e (SimpleTimerWheel.popExpired_mem hpop)
        exact absurd (SimpleTimerWheel.popExpired_some hpop).2.2.1
          (not_le.mpr hlate)
  generalize hend : exec WheelState.step (r.step (.Tick elapsed)) es = s'
    at hticking hw hc
  have hturn : s'.step .turn = { s' with ticking := none } := by
    simp only [WheelState.step, hticking, hw, hstop]
  refine ⟨es ++ [.turn], ?_⟩
  rw [exec_cons, exec_concat, hend, hturn]
  exact ⟨rfl, hw, hc⟩

end Joker
