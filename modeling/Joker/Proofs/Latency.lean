/-
How long forwarding takes.

A network is on time when whatever is handed over arrives within `ε`
milliseconds and a timer that expires is ticked within `δ`. A forward
then leaves its node at most `ε + D + δ` after the transmission it
forwards, where `D` bounds what the configurations let a node wait
(`Punctual.forwards`): `ε` to arrive, `D` in the wheel, and `δ` until the
tick that finds the timer expired. A timer for an older copy of the
packet may send the frame before that, never after. Nodes with nothing to
wait for need no ticks, and clocks may go back.

TTL bounds the number of forwards in a chain (Proofs/HopBound.lean), so
all that descends from a transmission with TTL `t` is over after `t - 1`
times that (`flood_over_in_time`).
-/
import Joker.Proofs.DelayOrder
import Joker.Proofs.Senders
import Joker.Proofs.HopBound
import Mathlib.Tactic.Linarith

namespace Joker

open Transition VectorHeap

variable {N : Nat} {H : WheelHeap ForwardCallback}

theorem milliseconds_add (m n : Nat) :
    milliseconds (m + n) = milliseconds m + milliseconds n := by
  show ((m + n : Nat) : Int) * 1000000
    = (m : Int) * 1000000 + (n : Int) * 1000000
  omega

-- ============================================================= the delays

/-- The longest a configuration lets a node wait, in milliseconds:
`twait_ms` for every candidate but the first. -/
def Config.max_wait_ms (config : Config) : Nat :=
  config.twait_ms.toNat * (config.candidate_count.toNat - 1)

/-- What the validation accepts is not delayed longer. -/
theorem forward_delay_le_max_wait {header : JokerHeader} {config : Config}
    (hv : validate_header header config.candidate_count = true)
    (local_mac : MacAddress) :
    forward_delay header local_mac config
      ≤ milliseconds config.max_wait_ms := by
  have hlen := ((validate_header_iff _ _).mp hv).2.2.1
  have hall : ∀ p, AtPosition header local_mac p →
      forward_delay header local_mac config
        ≤ milliseconds config.max_wait_ms := by
    intro p hp
    rw [hp.delay_eq hv, milliseconds_le_iff]
    calc config.twait_ms.toNat * (p - 1) % UInt32.size
        ≤ config.twait_ms.toNat * (p - 1) := Nat.mod_le _ _
      _ ≤ config.max_wait_ms :=
          Nat.mul_le_mul_left _ (by have := hp.bounds; omega)
  by_cases hm : local_mac ∈ header.other_candidates
  · obtain ⟨i, hi⟩ := List.getElem?_of_mem hm
    exact hall _ (Or.inr ⟨i, hi, rfl⟩)
  · exact hall 1 (Or.inl ⟨hm, rfl⟩)

-- ================================================== one event at one node

/-- What is pending after an event was pending before, with the same
timer, or was taken on in it. -/
def Kept (s : TimerNode H) (local_mac : MacAddress) (config : Config)
    (ev : NodeEvent) (c : TimerCoordinator H) : Prop :=
  ∀ p e, c.pending.lookup p = some e →
    (s.coordinator.pending.lookup p = some e
      ∧ ∀ T, Armed s.coordinator.wheel p e.timer_id T →
        Armed c.wheel p e.timer_id T)
    ∨ ∃ now header consumed, ev = .receive now e.frame true
      ∧ verdict e.frame local_mac true config s.dedup
        = .candidate header consumed
      ∧ e.timer_id = s.coordinator.wheel.next_id
      ∧ Armed c.wheel p e.timer_id
        (now + forward_delay header local_mac config)

theorem TimerNode.step_kept {s : TimerNode H} (hs : Coherent s.coordinator)
    (local_mac : MacAddress) (config : Config) (ev : NodeEvent) :
    Kept s local_mac config ev (s.step local_mac config ev).coordinator := by
  refine TimerNode.step_invariant
    (fun c _ => Kept s local_mac config ev c) ?_ ?_ ?_
    (fun p e he => Or.inl ⟨he, fun _ hT => hT⟩)
  · intro now frame header consumed hev hv p e he
    rw [lookup_accept] at he
    split at he
    · next hp =>
      injection he with he
      subst he hp
      exact Or.inr ⟨now, header, consumed, hev, hv, rfl,
        armed_accept s.coordinator header frame local_mac config now⟩
    · exact Or.inl ⟨he, fun T hT => hT.accept header frame local_mac config now⟩
  · intro now frame header _ _ p e he
    obtain ⟨hne, he⟩ := lookup_overheard_some_iff.mp he
    exact Or.inl ⟨he, fun T hT => hT.overheard hs hne⟩
  · intro now _ p e he
    refine Or.inl ((TimerNode.tick_invariant
      (fun s' => ∀ p e, s'.coordinator.pending.lookup p = some e →
        s.coordinator.pending.lookup p = some e
          ∧ ∀ T, Armed s.coordinator.wheel p e.timer_id T →
            Armed s'.coordinator.wheel p e.timer_id T) ?_ ?_
      (fun p e he => ⟨he, fun _ hT => hT⟩)) p e he)
    · intro s' t w hpop ht h p e he
      obtain ⟨hold, harm⟩ := h p e he
      exact ⟨hold, fun T hT => (harm T hT).pop hpop (Or.inl ht)⟩
    · intro s' t w hpop ht h
      have heq := on_expiry_eq t.callback (s'.withWheel w)
      rw [heq]
      intro p e he
      obtain ⟨hne, he⟩ := lookup_erase_some_iff.mp he
      obtain ⟨hold, harm⟩ := h p e he
      refine ⟨hold, fun T hT => (harm T hT).pop hpop (Or.inr fun hcb => ?_)⟩
      rw [hcb] at hne
      exact hne rfl

namespace Network

-- ======================================================= being on time

/-- What is handed over was sent at most `ε` milliseconds ago. -/
def Within (ε : Nat) (net : Network N H) : NetEvent N → Prop
  | .deliver i _ now _ =>
      ∃ tx ∈ net.air[i]?, now ≤ tx.sent_at + milliseconds ε
  | _ => True

instance (ε : Nat) (net : Network N H) : DecidablePred (Within ε net)
  | .originate .. => isTrue trivial
  | .deliver i _ now _ => inferInstanceAs (Decidable (∃ tx ∈ net.air[i]?,
      now ≤ tx.sent_at + milliseconds ε))
  | .tick .. => isTrue trivial
  | .own_send .. => isTrue trivial
  | .evict .. => isTrue trivial

/-- No live timer expired more than `δ` milliseconds ago. -/
def NotOverdue (δ : Nat) (now : TimePoint)
    (w : SimpleTimerWheel ForwardCallback H) : Prop :=
  ∀ t ∈ w.timers, t.cancelled = false → now ≤ t.expires_at + milliseconds δ

instance (δ : Nat) (now : TimePoint)
    (w : SimpleTimerWheel ForwardCallback H) : Decidable (NotOverdue δ now w) :=
  inferInstanceAs (Decidable (∀ t ∈ w.timers, _))

/-- A tick comes at most `δ` milliseconds after a timer it finds expired
did so. -/
def Ticked (δ : Nat) (net : Network N H) : NetEvent N → Prop
  | .tick n now => NotOverdue δ now (net.nodes n).coordinator.wheel
  | _ => True

instance (δ : Nat) (net : Network N H) : DecidablePred (Ticked δ net)
  | .originate .. => isTrue trivial
  | .deliver .. => isTrue trivial
  | .tick n now => inferInstanceAs (Decidable
      (NotOverdue δ now (net.nodes n).coordinator.wheel))
  | .own_send .. => isTrue trivial
  | .evict .. => isTrue trivial

/-- What is pending was sent at most `ε + D` before its timer expires, and
forwards left in time. -/
structure Punctual (ε δ D : Nat) (net : Network N H) : Prop where
  coherent : ∀ n, Coherent (net.nodes n).coordinator
  pending : ∀ n p e, (net.nodes n).coordinator.pending.lookup p = some e →
    ∃ (T : TimePoint) (i : Nat) (tx : Transmission N),
      Armed (net.nodes n).coordinator.wheel p e.timer_id T
      ∧ net.source n e.timer_id = some i ∧ net.air[i]? = some tx
      ∧ T ≤ tx.sent_at + milliseconds (ε + D)
  forwards : ∀ (j i : Nat) (tx : Transmission N), net.air[j]? = some tx →
    tx.parent = some i → ∃ txi, net.air[i]? = some txi
      ∧ tx.sent_at ≤ txi.sent_at + milliseconds (ε + D + δ)

theorem punctual_start (H : WheelHeap ForwardCallback) (st : Stations N)
    (ε δ D : Nat) : Punctual ε δ D (start H st) where
  coherent _ := coherent_start
  pending _ _ _ h := by cases h
  forwards _ _ _ h := by cases h

namespace Punctual

variable {ε δ D : Nat} {st : Stations N} {net : Network N H}

/-- A frame of a node's own waits for nothing. -/
theorem originate (h : Punctual ε δ D net) (n : Fin N) (now : TimePoint)
    (destination : MacAddress) (frame : Bytes) :
    Punctual ε δ D (net.step st (.originate n now destination frame)) := by
  have hair : ∀ (i : Nat) tx, net.air[i]? = some tx →
      (net.step st (.originate n now destination frame)).air[i]? = some tx :=
    fun i tx htx => (List.getElem?_append_left
      (List.getElem?_eq_some_iff.mp htx).1).trans htx
  refine ⟨h.coherent, fun m p e he => ?_, fun j i tx htx hpar => ?_⟩
  · obtain ⟨T, i, tx, harm, hsource, htx, hT⟩ := h.pending m p e he
    exact ⟨T, i, tx, harm, hsource, hair i tx htx, hT⟩
  · rcases Nat.lt_or_ge j net.air.length with hj | hj
    · obtain ⟨txi, htxi, hle⟩ := h.forwards j i tx
        ((List.getElem?_append_left hj).symm.trans htx) hpar
      exact ⟨txi, hair i txi htxi, hle⟩
    · have hlast : [(⟨n, ⟨destination, frame, destination.IsBroadcast, none⟩,
          now, none⟩ : Transmission N)][j - net.air.length]? = some tx :=
        (List.getElem?_append_right hj).symm.trans htx
      obtain rfl := List.mem_singleton.mp (List.mem_of_getElem? hlast)
      cases hpar

/-- Handing over gives no entry another source. -/
theorem hand (h : Punctual ε δ D net) (i : Nat) (n : Fin N) :
    Punctual ε δ D (net.hand i n) := by
  refine ⟨h.coherent, fun m p e he => ?_, h.forwards⟩
  obtain ⟨T, k, tx, harm, hsource, htx, hT⟩ := h.pending m p e he
  refine ⟨T, k, tx, harm, ?_, htx, hT⟩
  show Function.update net.source n _ m e.timer_id = some k
  by_cases hm : m = n
  · subst hm
    have hlt : e.timer_id < (net.nodes m).coordinator.wheel.next_id :=
      (h.coherent m).lt _ harm
    rw [Function.update_self, Function.update_of_ne (Nat.ne_of_lt hlt)]
    exact hsource
  · rw [Function.update_of_ne hm]
    exact hsource

/-- An event at a node, if what it takes on was handed over in time and
what it sends was not overdue. -/
theorem act (h : Punctual ε δ D net) {n : Fin N} {now : TimePoint}
    {ev : NodeEvent} (hD : (st.config n).max_wait_ms ≤ D)
    (hnew : ∀ at_ frame, ev = .receive at_ frame true →
      ∃ (i : Nat) (tx : Transmission N), net.source n (net.nextId n) = some i
        ∧ net.air[i]? = some tx ∧ at_ ≤ tx.sent_at + milliseconds ε)
    (hsent : ∀ f ∈ net.sent st n ev,
      NotOverdue δ now (net.nodes n).coordinator.wheel) :
    Punctual ε δ D (net.act st n now ev) := by
  have hair : ∀ (i : Nat) tx, net.air[i]? = some tx →
      (net.act st n now ev).air[i]? = some tx := by
    intro i tx htx
    rw [act_eq]
    exact (List.getElem?_append_left
      (List.getElem?_eq_some_iff.mp htx).1).trans htx
  refine ⟨fun m => ?_, fun m p e he => ?_, fun j i tx htx hpar => ?_⟩
  · by_cases hm : m = n
    · subst hm
      rw [act_self]
      exact TimerNode.step_coherent (h.coherent m) _ _ _
    · rw [act_other st net now ev hm]
      exact h.coherent m
  · by_cases hm : m = n
    · subst hm
      rw [act_self] at he ⊢
      rcases TimerNode.step_kept (h.coherent m) (st.mac m) (st.config m) ev p e
        he with ⟨hbefore, harm⟩ | ⟨t, header, consumed, hev, hv, hid, harm⟩
      · obtain ⟨T, i, tx, hT, hsource, htx, hle⟩ := h.pending m p e hbefore
        exact ⟨T, i, tx, harm T hT, hsource, hair i tx htx, hle⟩
      · obtain ⟨i, tx, hsource, htx, hle⟩ := hnew t e.frame hev
        have hvalid := (verdict_eq_candidate_iff.mp hv).1.valid
        have hmax := forward_delay_le_max_wait hvalid (st.mac m)
        have hDms := (milliseconds_le_iff _ _).mpr hD
        refine ⟨_, i, tx, harm, ?_, hair i tx htx, ?_⟩
        · rw [hid]
          exact hsource
        · rw [milliseconds_add]
          linarith
    · rw [act_other st net now ev hm] at he ⊢
      obtain ⟨T, i, tx, harm, hsource, htx, hle⟩ := h.pending m p e he
      exact ⟨T, i, tx, harm, hsource, hair i tx htx, hle⟩
  · rcases mem_air_act (List.mem_of_getElem? htx) with
      hold | ⟨p, e, data, he, -, hf, rfl⟩
    · obtain ⟨k, hk⟩ := List.getElem?_of_mem hold
      obtain ⟨txi, htxi, hle⟩ := h.forwards k i tx hk hpar
      exact ⟨txi, hair i txi htxi, hle⟩
    · obtain ⟨T, k, txi, harm, hsource, htxi, hle⟩ := h.pending n p e he
      have hki : k = i := Option.some.inj (hsource.symm.trans hpar)
      subst hki
      refine ⟨txi, hair k txi htxi, ?_⟩
      -- the entry's own timer is live, whichever timer sent its frame
      have hdue : now ≤ T + milliseconds δ := hsent _ hf _ harm rfl
      show now ≤ _
      rw [milliseconds_add]
      linarith

theorem tick (h : Punctual ε δ D net) {n : Fin N} {now : TimePoint}
    (hD : (st.config n).max_wait_ms ≤ D)
    (hticked : Ticked δ net (.tick n now)) :
    Punctual ε δ D (net.step st (.tick n now)) := by
  refine h.act hD ?_ ?_
  · intro t frame hev
    cases hev
  · intro f _
    exact hticked

theorem receive (h : Punctual ε δ D net) {i : Nat} {n : Fin N}
    {tx : Transmission N} {now : TimePoint} {is_candidate : Bool}
    (hD : (st.config n).max_wait_ms ≤ D) (htx : net.air[i]? = some tx)
    (hwithin : now ≤ tx.sent_at + milliseconds ε) :
    Punctual ε δ D ((net.hand i n).act st n now
      (.receive now tx.frame.data is_candidate)) := by
  refine (h.hand i n).act hD ?_ ?_
  · rintro at_ frame hev
    injection hev with hat
    subst hat
    refine ⟨i, tx, ?_, htx, hwithin⟩
    show Function.update net.source n _ n _ = _
    rw [Function.update_self]
    exact Function.update_self _ _ _
  · intro f hf
    have hnone : (net.hand i n).sent st n
        (.receive now tx.frame.data is_candidate) = [] := by
      unfold sent
      rw [stepNode_self, TimerNode.step_receive]
      exact List.drop_length
    rw [hnone] at hf
    cases hf

/-- Events of the cache alone. -/
theorem cache (h : Punctual ε δ D net) {n : Fin N} (now : TimePoint)
    {ev : NodeEvent} (hD : (st.config n).max_wait_ms ≤ D)
    (hev : ∀ t frame is_candidate, ev ≠ .receive t frame is_candidate)
    (hnode : ((net.nodes n).step (st.mac n) (st.config n) ev).nic
      = (net.nodes n).nic) :
    Punctual ε δ D (net.act st n now ev) := by
  refine h.act hD ?_ ?_
  · intro t frame heq
    exact absurd heq (hev t frame true)
  · intro f hf
    have hnone : net.sent st n ev = [] := by
      unfold sent
      rw [stepNode_self, hnode]
      exact List.drop_length
    rw [hnone] at hf
    cases hf

/-- An event that is in time. -/
theorem step (h : Punctual ε δ D net) {ev : NetEvent N}
    (hD : ∀ n, (st.config n).max_wait_ms ≤ D) (hwithin : Within ε net ev)
    (hticked : Ticked δ net ev) : Punctual ε δ D (net.step st ev) := by
  cases ev with
  | originate n now destination frame =>
      exact h.originate n now destination frame
  | deliver i n now is_candidate =>
      obtain ⟨tx, htx, hnow⟩ := hwithin
      rcases deliver_cases st net i n now is_candidate with
        heq | ⟨tx', ⟨htx', -⟩, heq⟩
      · rw [heq]
        exact h
      · obtain rfl := Option.some.inj (htx'.symm.trans htx)
        rw [heq]
        exact h.receive (hD n) htx hnow
  | tick n now => exact h.tick (hD n) hticked
  | own_send n now packet_id => exact h.cache now (hD n) (by simp) rfl
  | evict n now => exact h.cache now (hD n) (by simp) rfl

/-- A run that is in time throughout. -/
theorem run (es : List (NetEvent N)) : ∀ {net : Network N H},
    Punctual ε δ D net → (∀ n, (st.config n).max_wait_ms ≤ D) →
    Along (Network.step st) (Within ε) net es →
    Along (Network.step st) (Ticked δ) net es →
    Punctual ε δ D (exec (Network.step st) net es) := by
  induction es with
  | nil => intro net h _ _ _; exact h
  | cons ev es ih =>
      intro net h hD hwithin hticked
      exact ih (h.step hD hwithin.1 hticked.1) hD hwithin.2 hticked.2

open Descent in
/-- `k` forwards take `k` times as long as one. -/
theorem below (h : Punctual ε δ D net) {i j k : Nat}
    {tx : Transmission N} (htx : net.air[i]? = some tx)
    (hbelow : Below net.parentOf i k j) : ∃ txj, net.air[j]? = some txj
      ∧ txj.sent_at ≤ tx.sent_at + milliseconds (k * (ε + D + δ)) := by
  induction hbelow with
  | root => exact ⟨tx, htx, by simp [milliseconds]⟩
  | @child u v k hpar _ ih =>
      obtain ⟨txu, htxu, hle⟩ := ih
      obtain ⟨txv, htxv, hparent⟩ := Option.bind_eq_some_iff.mp hpar
      obtain ⟨txu', htxu', hlast⟩ := h.forwards v u txv htxv hparent
      obtain rfl := Option.some.inj (htxu'.symm.trans htxu)
      refine ⟨txv, htxv, ?_⟩
      rw [Nat.succ_mul, milliseconds_add]
      linarith

end Punctual

-- ============================================================== the flood

open Descent in
/-- In every run that is on time, whatever is lost, evicted or taken on
again: each forward leaves at most `ε + D + δ` milliseconds after what it
forwards, and what descends from a transmission with TTL `t` has left
`(t - 1) * (ε + D + δ)` milliseconds after it. -/
theorem flood_over_in_time (H : WheelHeap ForwardCallback) (st : Stations N)
    (es : List (NetEvent N)) (ε δ D : Nat)
    (hD : ∀ n, (st.config n).max_wait_ms ≤ D)
    (hwithin : Along (Network.step st) (Within ε) (start H st) es)
    (hticked : Along (Network.step st) (Ticked δ) (start H st) es)
    {i t : Nat} {tx : Transmission N}
    (htx : (run H st es).air[i]? = some tx)
    (ht : (run H st es).CarriesTTL i t) :
    (∀ (j : Nat) (txj : Transmission N), (run H st es).air[j]? = some txj →
      txj.parent = some i →
      txj.sent_at ≤ tx.sent_at + milliseconds (ε + D + δ))
    ∧ ∀ j ∈ descendants (run H st es).parentOf (run H st es).places i,
      ∃ txj, (run H st es).air[j]? = some txj
        ∧ txj.sent_at ≤ tx.sent_at + milliseconds ((t - 1) * (ε + D + δ)) := by
  have h : Punctual ε δ D (run H st es) :=
    Punctual.run es (punctual_start H st ε δ D) hD hwithin hticked
  constructor
  · intro j txj htxj hpar
    obtain ⟨tx', htx', hle⟩ := h.forwards j i txj htxj hpar
    obtain rfl := Option.some.inj (htx'.symm.trans htx)
    exact hle
  · classical
    intro j hj
    obtain ⟨-, k, hbelow⟩ := Finset.mem_filter.mp hj
    obtain ⟨txj, htxj, hle⟩ := h.below htx hbelow
    obtain ⟨u, -, hsum, hpos⟩ := (run_accounted H st es).ttl_below ht hbelow
    refine ⟨txj, htxj, hle.trans ?_⟩
    have hk : k * (ε + D + δ) ≤ (t - 1) * (ε + D + δ) :=
      Nat.mul_le_mul_right _ (by omega)
    have hms := (milliseconds_le_iff _ _).mpr hk
    linarith

/-- Station 0 broadcasts packet 7 with TTL 3, and stations 1 and 2 forward
what they hear: each within 1 + 50 + 50 milliseconds. -/
def relayed_twice : List (NetEvent 3) :=
  [.originate 0 0 MacAddress.broadcast (sample_frame 7 3),
    .deliver 0 1 1000000 true, .tick 1 51000000, .deliver 1 2 52000000 true,
    .tick 2 90000000]

theorem flood_over_in_time_twice :
    (∀ (j : Nat) (txj : Transmission 3),
      (run (sortedHeap _) three_stations relayed_twice).air[j]? = some txj →
      txj.parent = some 0 → txj.sent_at ≤ 0 + milliseconds (1 + 50 + 50))
    ∧ ∀ j ∈ Descent.descendants
        (run (sortedHeap _) three_stations relayed_twice).parentOf
        (run (sortedHeap _) three_stations relayed_twice).places 0,
      ∃ txj,
        (run (sortedHeap _) three_stations relayed_twice).air[j]? = some txj
        ∧ txj.sent_at ≤ 0 + milliseconds ((3 - 1) * (1 + 50 + 50)) :=
  flood_over_in_time (sortedHeap _) three_stations relayed_twice 1 50 50
    (by decide +kernel) (by decide +kernel) (by decide +kernel)
    (show (run (sortedHeap _) three_stations relayed_twice).air[0]?
      = some ⟨0, ⟨MacAddress.broadcast, sample_frame 7 3, true, none⟩, 0, none⟩
      by decide +kernel)
    ⟨_, sample_header 7 3, 19, rfl, rfl, rfl⟩

end Network

end Joker
