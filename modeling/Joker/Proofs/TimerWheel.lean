/-
What each operation of the timer wheel does to the timers it holds, as
a collection: `Schedule` adds one, `Cancel` marks one, a turn of `Tick`
removes an expired one with the earliest expiry, and a `Tick` whose
callbacks leave the wheel alone ends with no expired timer.

Nothing here looks at the order of the vector beyond its heap property,
so the facts hold for every conforming pair of heap algorithms.
-/
import Joker.Model.TimerWheel

namespace Joker

open VectorHeap

namespace SimpleTimerWheel

variable {κ : Type} {H : WheelHeap κ}

-- ======================================================= the operations

/-- `Schedule` adds one timer, under the id it returns. -/
theorem schedule_perm (w : SimpleTimerWheel κ H) (now delay : TimePoint)
    (callback : κ) :
    (w.Schedule now delay callback).2.timers.Perm
      (⟨w.next_id, now + delay, callback, false⟩ :: w.timers) :=
  (H.push_perm _ _ w.heap).trans List.perm_append_comm

/-- With distinct ids, `Cancel` marks the timer with the id and no
other. -/
theorem cancelFirst_eq_map (id : TimerId) (v : List (TimerEntry κ))
    (hv : (v.map TimerEntry.id).Nodup) :
    cancelFirst id v
      = v.map fun e =>
          if e.id = id then { e with cancelled := true } else e := by
  induction v with
  | nil => rfl
  | cons e es ih =>
      rw [List.map_cons, List.nodup_cons] at hv
      rw [cancelFirst, List.map_cons]
      by_cases he : e.id = id
      · rw [if_pos he, if_pos he]
        have hrest : es.map (fun e =>
            if e.id = id then { e with cancelled := true } else e)
            = es.map fun e => e := by
          refine List.map_congr_left fun t ht => if_neg ?_
          intro hid
          exact hv.1 (he ▸ hid ▸ List.mem_map_of_mem ht)
        rw [hrest, List.map_id']
      · rw [if_neg he, if_neg he, ih hv.2]

/-- `Cancel` renames no timer. -/
theorem cancelFirst_ids (id : TimerId) (v : List (TimerEntry κ)) :
    (cancelFirst id v).map TimerEntry.id = v.map TimerEntry.id := by
  induction v with
  | nil => rfl
  | cons e es ih =>
      rw [cancelFirst]
      split
      · rfl
      · rw [List.map_cons, List.map_cons, ih]

/-- A turn of `Tick` that pops: the popped timer has expired, no timer
expires before it, and the others stay. -/
theorem popExpired_some {w w' : SimpleTimerWheel κ H} {now : TimePoint}
    {e : TimerEntry κ} (h : w.popExpired now = some (e, w')) :
    w'.next_id = w.next_id ∧ w.timers.Perm (e :: w'.timers)
      ∧ e.expires_at ≤ now
      ∧ ∀ t ∈ w.timers, e.expires_at ≤ t.expires_at := by
  unfold popExpired at h
  split at h
  · cases h
  · next front rest hw =>
    split at h
    · next hexp =>
      have hheap : IsHeap TimerEntry.expires_at (front :: rest) :=
        hw ▸ w.heap
      obtain ⟨v, hv, hperm, -⟩ := H.pop_spec front rest hheap
      dsimp only at h
      rw [Option.map_eq_some_iff] at h
      obtain ⟨e', he', heq⟩ := h
      injection heq with h1 h2
      subst h1 h2
      rw [hv, List.getLast?_concat] at he'
      injection he' with he'
      subst he'
      refine ⟨rfl, ?_, hexp, ?_⟩
      · show w.timers.Perm (front :: (H.pop_heap (front :: rest)).dropLast)
        rw [hv, List.dropLast_concat, hw]
        exact hperm.symm.cons front
      · rw [hw]
        exact hheap.front_le
    · cases h

/-- What is popped at a reading of the clock is popped at every later one:
the front does not depend on the time. -/
theorem popExpired_of_le {w : SimpleTimerWheel κ H} {earlier now : TimePoint}
    {p : TimerEntry κ × SimpleTimerWheel κ H}
    (h : w.popExpired earlier = some p) (hle : earlier ≤ now) :
    w.popExpired now = some p := by
  unfold popExpired at h ⊢
  split at h
  · cases h
  · next front rest hw =>
    split at h
    · next hexp => rw [if_pos (le_trans hexp hle)]; exact h
    · cases h

/-- The popped timer was in the wheel. -/
theorem popExpired_mem {w w' : SimpleTimerWheel κ H} {now : TimePoint}
    {e : TimerEntry κ} (h : w.popExpired now = some (e, w')) :
    e ∈ w.timers :=
  (popExpired_some h).2.1.mem_iff.mpr List.mem_cons_self

/-- So was every timer that stays. -/
theorem mem_of_popExpired {w w' : SimpleTimerWheel κ H} {now : TimePoint}
    {e t : TimerEntry κ} (h : w.popExpired now = some (e, w'))
    (ht : t ∈ w'.timers) : t ∈ w.timers :=
  (popExpired_some h).2.1.mem_iff.mpr (List.mem_cons_of_mem _ ht)

/-- A turn of `Tick` that stops: no timer left has expired. -/
theorem popExpired_none {w : SimpleTimerWheel κ H} {now : TimePoint}
    (h : w.popExpired now = none) : ∀ t ∈ w.timers, now < t.expires_at := by
  unfold popExpired at h
  split at h
  · next hw =>
    rw [hw]
    intro t ht
    cases ht
  · next front rest hw =>
    have hheap : IsHeap TimerEntry.expires_at (front :: rest) := hw ▸ w.heap
    split at h
    · obtain ⟨v, hv, -, -⟩ := H.pop_spec front rest hheap
      dsimp only at h
      rw [Option.map_eq_none_iff, hv, List.getLast?_concat] at h
      cases h
    · next hexp =>
      intro t ht
      rw [hw] at ht
      exact lt_of_lt_of_le (not_le.mp hexp) (hheap.front_le t ht)

end SimpleTimerWheel

-- ============================================================ the loop

section Loop

variable {κ σ : Type} {H : WheelHeap κ} (wheel : σ → SimpleTimerWheel κ H)
  {setWheel : SimpleTimerWheel κ H → σ → σ} {run : κ → σ → σ}
  {now : TimePoint}

/-- What every turn of the loop preserves, the loop preserves. -/
theorem tickLoop_invariant {Inv : σ → Prop}
    (hturn : ∀ s e w, (wheel s).popExpired now = some (e, w) → Inv s →
      Inv (if e.cancelled then setWheel w s else run e.callback (setWheel w s)))
    (fuel : Nat) :
    ∀ s, Inv s → Inv (tickLoop wheel setWheel run now fuel s) := by
  induction fuel with
  | zero => intro s h; exact h
  | succ fuel ih =>
      intro s h
      unfold tickLoop
      cases hpop : (wheel s).popExpired now with
      | none => exact h
      | some p =>
          obtain ⟨e, w⟩ := p
          exact ih _ (hturn s e w hpop h)

/-- What every turn preserves of the state and of what was given out so
far holds after the loop, of the state and of all that was given out. -/
theorem tickOutputs_invariant {β : Type} {out : TimerEntry κ → σ → List β}
    {Inv : σ → List β → Prop}
    (hdrop : ∀ s e w os, (wheel s).popExpired now = some (e, w) →
      e.cancelled = true → Inv s os → Inv (setWheel w s) os)
    (hrun : ∀ s e w os, (wheel s).popExpired now = some (e, w) →
      e.cancelled = false → Inv s os →
      Inv (run e.callback (setWheel w s)) (os ++ out e (setWheel w s)))
    (fuel : Nat) : ∀ s os, Inv s os →
      Inv (tickLoop wheel setWheel run now fuel s)
        (os ++ tickOutputs wheel setWheel run out now fuel s) := by
  induction fuel with
  | zero =>
      intro s os h
      rw [tickOutputs, List.append_nil]
      exact h
  | succ fuel ih =>
      intro s os h
      unfold tickLoop tickOutputs
      cases hpop : (wheel s).popExpired now with
      | none =>
          rw [List.append_nil]
          exact h
      | some p =>
          obtain ⟨e, w⟩ := p
          dsimp only
          cases hc : e.cancelled with
          | true => exact ih _ _ (hdrop s e w os hpop hc h)
          | false =>
              rw [if_neg Bool.false_ne_true, if_neg Bool.false_ne_true,
                ← List.append_assoc]
              exact ih _ _ (hrun s e w os hpop hc h)

/-- Two loops over related states that hold one wheel stay related, if
replacing the wheel and running a callback on both sides keep the
relation. -/
theorem tickLoop_related {τ : Type} (wheel' : τ → SimpleTimerWheel κ H)
    {setWheel' : SimpleTimerWheel κ H → τ → τ} {run' : κ → τ → τ}
    {R : σ → τ → Prop} (hwheel : ∀ s t, R s t → wheel s = wheel' t)
    (hset : ∀ s t w, R s t → R (setWheel w s) (setWheel' w t))
    (hrun : ∀ s t cb, R s t → R (run cb s) (run' cb t)) (fuel : Nat) :
    ∀ s t, R s t → R (tickLoop wheel setWheel run now fuel s)
      (tickLoop wheel' setWheel' run' now fuel t) := by
  induction fuel with
  | zero => intro s t h; exact h
  | succ fuel ih =>
      intro s t h
      unfold tickLoop
      rw [hwheel s t h]
      cases hpop : (wheel' t).popExpired now with
      | none => exact h
      | some p =>
          obtain ⟨e, w⟩ := p
          dsimp only
          have hw := hset s t w h
          cases e.cancelled with
          | true => exact ih _ _ hw
          | false => exact ih _ _ (hrun _ _ e.callback hw)

/-- Nothing has expired: the loop ends. -/
theorem tickLoop_stop {s : σ} (hpop : (wheel s).popExpired now = none)
    (fuel : Nat) : tickLoop wheel setWheel run now fuel s = s := by
  cases fuel with
  | zero => rfl
  | succ fuel => simp only [tickLoop, hpop]

/-- A turn, and the rest of the loop. -/
theorem tickLoop_turn {s : σ} {e : TimerEntry κ} {w : SimpleTimerWheel κ H}
    (hpop : (wheel s).popExpired now = some (e, w)) (fuel : Nat) :
    tickLoop wheel setWheel run now (fuel + 1) s
      = tickLoop wheel setWheel run now fuel
        (if e.cancelled then setWheel w s
          else run e.callback (setWheel w s)) := by
  simp only [tickLoop, hpop]

/-- If callbacks leave the wheel alone, a turn takes the popped timer off
it and no more. -/
theorem length_turn (hset : ∀ w s, wheel (setWheel w s) = w)
    (hrun : ∀ cb s, wheel (run cb s) = wheel s) {s : σ} {e : TimerEntry κ}
    {w : SimpleTimerWheel κ H}
    (hpop : (wheel s).popExpired now = some (e, w)) :
    (wheel s).timers.length = (wheel (if e.cancelled then setWheel w s
      else run e.callback (setWheel w s))).timers.length + 1 := by
  have hturn : wheel (if e.cancelled then setWheel w s
      else run e.callback (setWheel w s)) = w := by
    split
    · rw [hset]
    · rw [hrun, hset]
  rw [hturn, (SimpleTimerWheel.popExpired_some hpop).2.1.length_eq,
    List.length_cons]

/-- If callbacks leave the wheel alone, fuel for every timer it holds
runs the loop to its end: no expired timer is left. -/
theorem tickLoop_complete (hset : ∀ w s, wheel (setWheel w s) = w)
    (hrun : ∀ cb s, wheel (run cb s) = wheel s) (fuel : Nat) :
    ∀ s, (wheel s).timers.length ≤ fuel →
      ∀ t ∈ (wheel (tickLoop wheel setWheel run now fuel s)).timers,
        now < t.expires_at := by
  induction fuel with
  | zero =>
      intro s hlen t ht
      rw [tickLoop, List.length_eq_zero_iff.mp (Nat.le_zero.mp hlen)] at ht
      cases ht
  | succ fuel ih =>
      intro s hlen
      cases hpop : (wheel s).popExpired now with
      | none =>
          rw [tickLoop_stop wheel hpop]
          exact SimpleTimerWheel.popExpired_none hpop
      | some p =>
          have hshort := length_turn (e := p.1) (w := p.2) wheel hset hrun hpop
          rw [tickLoop_turn wheel hpop]
          exact ih _ (by omega)

/-- More fuel than timers makes no difference. -/
theorem tickLoop_fuel (hset : ∀ w s, wheel (setWheel w s) = w)
    (hrun : ∀ cb s, wheel (run cb s) = wheel s) (fuel : Nat) :
    ∀ s fuel', (wheel s).timers.length ≤ fuel →
      (wheel s).timers.length ≤ fuel' →
      tickLoop wheel setWheel run now fuel' s
        = tickLoop wheel setWheel run now fuel s := by
  induction fuel with
  | zero =>
      intro s fuel' hlen _
      cases hpop : (wheel s).popExpired now with
      | none => rw [tickLoop_stop wheel hpop, tickLoop_stop wheel hpop]
      | some p =>
          have hshort := length_turn (e := p.1) (w := p.2) wheel hset hrun hpop
          omega
  | succ fuel ih =>
      intro s fuel' hlen hlen'
      cases hpop : (wheel s).popExpired now with
      | none => rw [tickLoop_stop wheel hpop, tickLoop_stop wheel hpop]
      | some p =>
          have hshort := length_turn (e := p.1) (w := p.2) wheel hset hrun hpop
          obtain ⟨left, rfl⟩ : ∃ left, fuel' = left + 1 :=
            ⟨fuel' - 1, by omega⟩
          rw [tickLoop_turn wheel hpop, tickLoop_turn wheel hpop]
          exact ih _ left (by omega) (by omega)

/-- A loop up to an earlier time and then on is the loop: what is due
earlier goes first. -/
theorem tickLoop_split (hset : ∀ w s, wheel (setWheel w s) = w)
    (hrun : ∀ cb s, wheel (run cb s) = wheel s) {earlier : TimePoint}
    (hle : earlier ≤ now) (fuel : Nat) :
    ∀ s, (wheel s).timers.length ≤ fuel →
      ∀ fuel',
        (wheel (tickLoop wheel setWheel run earlier fuel s)).timers.length
          ≤ fuel' →
        tickLoop wheel setWheel run now fuel'
            (tickLoop wheel setWheel run earlier fuel s)
          = tickLoop wheel setWheel run now fuel s := by
  induction fuel with
  | zero =>
      intro s hlen fuel' hlen'
      exact tickLoop_fuel wheel hset hrun 0 s fuel' hlen hlen'
  | succ fuel ih =>
      intro s hlen fuel' hlen'
      cases hpop : (wheel s).popExpired earlier with
      | none =>
          rw [tickLoop_stop wheel hpop] at hlen' ⊢
          exact tickLoop_fuel wheel hset hrun (fuel + 1) s fuel' hlen hlen'
      | some p =>
          have hshort := length_turn (e := p.1) (w := p.2) wheel hset hrun hpop
          rw [tickLoop_turn wheel hpop] at hlen' ⊢
          rw [tickLoop_turn wheel
            (SimpleTimerWheel.popExpired_of_le hpop hle)]
          exact ih _ (by omega) fuel' hlen'

end Loop

end Joker
