/-
One packet on its way through a network.

A node meets a packet once: the first copy it hears makes it the
destination, a forwarder that holds a retained frame, or, when the copy
was addressed to another, a node that has merely recorded the id; every
later copy is a duplicate to it. What the node then does is one
transmission or none. `StationOk` is the account of one node in these
terms, against what is on the air, and the two ways a node acts, hearing
a copy and ticking, keep it (`StationOk.hear`, `StationOk.tick`).
-/
import Joker.Proofs.DedupCache
import Joker.Proofs.NetworkRuns

namespace Joker

open Transition DedupCache

variable {N : Nat} {H : WheelHeap ForwardCallback}

-- ======================================================== one node, one id

/-- The node's deliveries so far. -/
def TimerNode.deliveries (s : TimerNode H) : UInt64 :=
  s.metrics.GetCounter .packets_delivered_lucky_or_direct

/-- What follows the critical section of the callback delivers nothing. -/
theorem send_frame_deliveries (p : PacketId) (it : Option PendingForward)
    (s : TimerNode H) : (send_frame p it s).deliveries = s.deliveries := by
  unfold send_frame TimerNode.deliveries
  cases it with
  | none => rfl
  | some e =>
      dsimp only
      split
      · rfl
      · split
        · split <;> simp [handle_forward_timer_expiry]
        · simp [handle_forward_timer_expiry]

/-- Nor does a tick. -/
theorem TimerNode.tick_deliveries (now : TimePoint) (s : TimerNode H) :
    (TimerNode.Tick now s).deliveries = s.deliveries := by
  refine TimerNode.tick_invariant (fun s' => s'.deliveries = s.deliveries)
    ?_ ?_ rfl
  · intro s' t w _ _ h
    exact h
  · intro s' t w _ _ h
    unfold on_expiry
    rw [send_frame_deliveries]
    exact h

/-- A tick of a node that has at most packet `p` pending changes nothing
on the air and in `pending_`, or takes the entry and sends for it. -/
theorem TimerNode.tick_only {p : PacketId} {s : TimerNode H}
    (h : ∀ q ≠ p, s.coordinator.pending.lookup q = none) (now : TimePoint) :
    ((TimerNode.Tick now s).coordinator.pending = s.coordinator.pending
        ∧ (TimerNode.Tick now s).nic = s.nic)
      ∨ ∃ e, s.coordinator.pending.lookup p = some e
        ∧ (∀ q, (TimerNode.Tick now s).coordinator.pending.lookup q = none)
        ∧ (TimerNode.Tick now s).nic = s.nic.sendFor p (some e) := by
  refine TimerNode.tick_invariant (fun s' =>
    (s'.coordinator.pending = s.coordinator.pending ∧ s'.nic = s.nic)
      ∨ ∃ e, s.coordinator.pending.lookup p = some e
        ∧ (∀ q, s'.coordinator.pending.lookup q = none)
        ∧ s'.nic = s.nic.sendFor p (some e)) ?_ ?_ (Or.inl ⟨rfl, rfl⟩)
  · intro s' t w _ _ h'
    exact h'
  · intro s' t w _ _ h'
    have heq := on_expiry_eq t.callback (s'.withWheel w)
    rw [heq]
    dsimp only [TimerNode.withWheel]
    -- a callback that finds no entry changes neither
    have hskip : s'.coordinator.pending.lookup t.callback.packet_id = none →
        s'.coordinator.pending.erase t.callback.packet_id
            = s'.coordinator.pending
          ∧ s'.nic.sendFor t.callback.packet_id
            (s'.coordinator.pending.lookup t.callback.packet_id) = s'.nic := by
      intro hnone
      rw [hnone]
      exact ⟨erase_of_lookup_none hnone, rfl⟩
    rcases h' with ⟨hpend, hnic⟩ | ⟨e, he, hnone, hnic⟩
    · rw [hpend] at hskip ⊢
      by_cases hp : t.callback.packet_id = p
      · rw [hp] at hskip ⊢
        cases he : s.coordinator.pending.lookup p with
        | none =>
            obtain ⟨herase, hsend⟩ := hskip he
            rw [he] at hsend
            exact Or.inl ⟨herase, hsend.trans hnic⟩
        | some e =>
            refine Or.inr ⟨e, rfl, fun q => ?_, by rw [hnic]⟩
            rw [lookup_erase_eq]
            by_cases hq : q = p
            · simp [hq]
            · simp [hq, h q hq]
      · obtain ⟨herase, hsend⟩ := hskip (h _ hp)
        exact Or.inl ⟨herase, hsend.trans hnic⟩
    · obtain ⟨herase, hsend⟩ := hskip (hnone _)
      refine Or.inr ⟨e, he, ?_, hsend.trans hnic⟩
      rw [herase]
      exact hnone

-- ============================================================= the copies

namespace Network

/-- The frame is a copy of packet `p` for node `d`, with the TTL. -/
def Copy (st : Stations N) (d : Fin N) (p : PacketId) (frame : Bytes)
    (ttl : Nat) : Prop :=
  ∃ header consumed, (∀ n, DataFrame (st.config n) frame header consumed)
    ∧ header.packet_id = p ∧ header.final_destination = st.mac d
    ∧ header.ttl.toNat = ttl

/-- The forward of a copy is a copy, with the TTL one less. -/
theorem Copy.forward {st : Stations N} {d : Fin N} {p : PacketId}
    {frame : Bytes} {t : Nat} (h : Copy st d p frame t) (ht : 2 ≤ t) :
    ∃ data, transmission frame = some data ∧ Copy st d p data (t - 1) := by
  obtain ⟨header, consumed, hf, hid, hdest, httl⟩ := h
  have hle : 2 ≤ header.ttl := by
    rw [UInt8.le_iff_toNat_le, httl]
    exact ht
  have hsub : (header.ttl - 1).toNat = t - 1 := by
    rw [ttl_sub_one_toNat hle, httl]
  exact ⟨_, (hf d).transmission_some hle, { header with ttl := header.ttl - 1 },
    consumed, fun n => (hf n).set_ttl _, hid, hdest, hsub⟩

/-- Has the node recorded the packet's id? -/
def Knows (p : PacketId) (s : TimerNode H) : Prop :=
  s.dedup.Contains p = true

/-- Does every copy that node `v` hears come flagged as addressed to it?
Node `a` is addressed by the origin `o`; the origin's other neighbours
overhear that transmission. -/
def Clear (link : Fin N → Fin N → Prop) (o a v : Fin N) : Prop :=
  v ≠ o ∧ (v = a ∨ ¬ link o v)

/-- The account of node `n`: nothing but packet `p` is pending, with TTL
enough to be forwarded; a node that took the packet on has it pending or
has sent it; the destination delivers it when it learns of it. -/
structure StationOk (st : Stations N) (link : Fin N → Fin N → Prop)
    (o a d : Fin N) (p : PacketId) (ttl : Nat) (air : List (Transmission N))
    (n : Fin N) (s : TimerNode H) : Prop where
  cache : ∃ r : Recency PacketId TimePoint (st.capacity n),
    Represents s.dedup r
  only : ∀ q ≠ p, s.coordinator.pending.lookup q = none
  pending : ∀ e, s.coordinator.pending.lookup p = some e →
    Knows p s ∧ n ≠ d ∧ (∀ tx ∈ air, tx.sender ≠ n)
      ∧ ∃ t, Copy st d p e.frame t ∧ ttl < t + air.length
  forwards : Knows p s → n ≠ d → Clear link o a n →
    (∃ e, s.coordinator.pending.lookup p = some e) ∨ ∃ tx ∈ air, tx.sender = n
  delivered : n = d →
    (Knows p s → s.deliveries = 1) ∧ (¬ Knows p s → s.deliveries = 0)

/-- What is to hold after the node heard a copy: its account is in order,
it knows the packet, and it has transmitted nothing. -/
structure HearsOk (st : Stations N) (link : Fin N → Fin N → Prop)
    (o a d : Fin N) (p : PacketId) (ttl : Nat) (air : List (Transmission N))
    (n : Fin N) (s s' : TimerNode H) : Prop where
  station : StationOk st link o a d p ttl air n s'
  knows : Knows p s'
  nic : s'.nic = s.nic

variable {st : Stations N} {link : Fin N → Fin N → Prop} {o a d n : Fin N}
  {p : PacketId} {ttl : Nat} {air : List (Transmission N)} {s : TimerNode H}

/-- The account of a node that sends nothing outlasts what others send. -/
theorem StationOk.others (h : StationOk st link o a d p ttl air n s)
    {tx : Transmission N} (htx : tx.sender ≠ n) :
    StationOk st link o a d p ttl (air ++ [tx]) n s where
  cache := h.cache
  only := h.only
  pending e he := by
    obtain ⟨hknows, hd, hsend, t, hcopy, ht⟩ := h.pending e he
    refine ⟨hknows, hd, ?_, t, hcopy, ?_⟩
    · intro x hx
      rcases List.mem_append.mp hx with hx | hx
      · exact hsend x hx
      · simpa [List.mem_singleton.mp hx] using htx
    · simp
      omega
  forwards hknows hd hclear := by
    rcases h.forwards hknows hd hclear with he | ⟨x, hx, hn⟩
    · exact Or.inl he
    · exact Or.inr ⟨x, List.mem_append_left _ hx, hn⟩
  delivered := h.delivered

/-- A node that records the id knows it. -/
theorem StationOk.knows_insert (h : StationOk st link o a d p ttl air n s)
    (hcap : 0 < st.capacity n) (now : TimePoint) :
    (s.dedup.Insert p now).Contains p = true
      ∧ ∃ r : Recency PacketId TimePoint (st.capacity n),
        Represents (s.dedup.Insert p now) r := by
  obtain ⟨r, hr⟩ := h.cache
  have hins := hr.insert hcap p now
  refine ⟨(hins.contains_iff p).mpr ?_, _, hins⟩
  exact (Recency.heldSince_touch_self hcap r p (le_refl now) ∅).mem

/-- A node that has something pending for the packet knows it. -/
theorem StationOk.not_pending (h : StationOk st link o a d p ttl air n s)
    (hnew : ¬ Knows p s) : s.coordinator.pending.lookup p = none := by
  cases he : s.coordinator.pending.lookup p with
  | none => rfl
  | some e => exact absurd (h.pending e he).1 hnew

section hearing

variable {frame : Bytes} {is_candidate : Bool} {header : JokerHeader}
  {consumed : Nat}

/-- A copy of a known packet is a duplicate, and changes counters only. -/
theorem StationOk.hear_duplicate (h : StationOk st link o a d p ttl air n s)
    (hin : Knows p s)
    (hv : verdict frame (st.mac n) is_candidate (st.config n) s.dedup
      = .duplicate) (now : TimePoint) :
    HearsOk st link o a d p ttl air n s
      (s.step (st.mac n) (st.config n) (.receive now frame is_candidate)) := by
  rw [TimerNode.step_receive, hv]
  refine ⟨⟨h.cache, h.only, h.pending, h.forwards, fun hd => ?_⟩, hin, rfl⟩
  refine ⟨fun _ => ?_, fun hnew => absurd hin hnew⟩
  have hdel := (h.delivered hd).1 hin
  simpa [TimerNode.deliveries, Verdict.counters] using hdel

/-- The destination delivers the first copy. -/
theorem StationOk.hear_delivered (h : StationOk st link o a d p ttl air n s)
    (hcap : 0 < st.capacity n) (hnew : ¬ Knows p s) (hd : n = d)
    (hid : header.packet_id = p)
    (hv : verdict frame (st.mac n) is_candidate (st.config n) s.dedup
      = .delivered header) (now : TimePoint) :
    HearsOk st link o a d p ttl air n s
      (s.step (st.mac n) (st.config n) (.receive now frame is_candidate)) := by
  subst hid
  obtain ⟨hknows, hcache⟩ := h.knows_insert hcap now
  rw [TimerNode.step_receive, hv]
  refine ⟨⟨hcache, h.only, fun e he => ?_, fun _ hne => absurd hd hne,
    fun _ => ⟨fun _ => ?_, fun hnew => absurd hknows hnew⟩⟩, hknows, rfl⟩
  · exact absurd ((h.not_pending hnew).symm.trans he) (by simp)
  · have hdel := (h.delivered hd).2 hnew
    simpa [TimerNode.deliveries, Verdict.counters] using hdel

/-- Another node takes the first copy on, if it comes flagged. -/
theorem StationOk.hear_candidate (h : StationOk st link o a d p ttl air n s)
    (hcap : 0 < st.capacity n) (hnew : ¬ Knows p s) (hd : n ≠ d) {t : Nat}
    (hcopy : Copy st d p frame t) (hroom : ttl < t + air.length)
    (hsender : (∃ tx ∈ air, tx.sender = n) → Knows p s)
    (hid : header.packet_id = p)
    (hv : verdict frame (st.mac n) is_candidate (st.config n) s.dedup
      = .candidate header consumed) (now : TimePoint) :
    HearsOk st link o a d p ttl air n s
      (s.step (st.mac n) (st.config n) (.receive now frame is_candidate)) := by
  subst hid
  obtain ⟨hknows, hcache⟩ := h.knows_insert hcap now
  have hlook := lookup_accept s.coordinator header frame (st.mac n)
    (st.config n) now
  rw [TimerNode.step_receive, hv]
  refine ⟨⟨hcache, fun q hq => ?_, fun e he => ?_, fun _ _ _ => ?_,
    fun hd' => absurd hd' hd⟩, hknows, rfl⟩
  · exact (hlook q).trans ((if_neg hq).trans (h.only q hq))
  · have heq : some _ = some e :=
      ((hlook header.packet_id).trans (if_pos rfl)).symm.trans he
    obtain rfl := Option.some.inj heq
    refine ⟨hknows, hd, fun tx htx hn => ?_, _, hcopy, hroom⟩
    exact absurd (hsender ⟨tx, htx, hn⟩) hnew
  · exact Or.inl ⟨_, (hlook header.packet_id).trans (if_pos rfl)⟩

/-- And merely records the id, if it does not. -/
theorem StationOk.hear_overheard (h : StationOk st link o a d p ttl air n s)
    (hcap : 0 < st.capacity n) (hnew : ¬ Knows p s) (hd : n ≠ d)
    (hclear : ¬ Clear link o a n) (hid : header.packet_id = p)
    (hv : verdict frame (st.mac n) is_candidate (st.config n) s.dedup
      = .overheard header) (now : TimePoint) :
    HearsOk st link o a d p ttl air n s
      (s.step (st.mac n) (st.config n) (.receive now frame is_candidate)) := by
  subst hid
  obtain ⟨hknows, hcache⟩ := h.knows_insert hcap now
  have hnone := h.not_pending hnew
  have hpend : (s.coordinator.HandleOverheardForward
      header.packet_id).pending = s.coordinator.pending := by
    rw [overheard_pending, erase_of_lookup_none hnone]
  rw [TimerNode.step_receive, hv]
  refine ⟨⟨hcache, fun q hq => ?_, fun e he => ?_, fun _ _ hclear' => ?_,
    fun hd' => absurd hd' hd⟩, hknows, rfl⟩
  · exact (congrArg (AList.lookup q) hpend).trans (h.only q hq)
  · have he' := (congrArg (AList.lookup header.packet_id) hpend).symm.trans he
    exact absurd (hnone.symm.trans he') (by simp)
  · exact absurd hclear' hclear

end hearing

/-- Hearing a copy: afterwards the node knows the packet, and its account
is in order if a clear node hears it flagged. -/
theorem StationOk.hear (h : StationOk st link o a d p ttl air n s)
    (hcap : 0 < st.capacity n) (hmac : st.mac n = st.mac d ↔ n = d)
    {frame : Bytes} {t : Nat} (hcopy : Copy st d p frame t) (ht : 0 < t)
    (hroom : ttl < t + air.length) {is_candidate : Bool}
    (hflag : Clear link o a n → is_candidate = true)
    (hsender : (∃ tx ∈ air, tx.sender = n) → Knows p s) (now : TimePoint) :
    HearsOk st link o a d p ttl air n s
      (s.step (st.mac n) (st.config n) (.receive now frame is_candidate)) := by
  obtain ⟨header, consumed, hf, hid, hdest, httl⟩ := id hcopy
  have h0 : header.ttl ≠ 0 := by
    intro h0
    rw [← httl] at ht
    simp [h0] at ht
  by_cases hin : Knows p s
  · refine h.hear_duplicate hin ?_ now
    unfold Knows at hin
    rw [(hf n).verdict_eq]
    simp [dataVerdict, hid, hin, h0]
  have hfresh : s.dedup.Contains header.packet_id = false := by
    rw [hid]
    exact Bool.eq_false_iff.mpr hin
  by_cases hd : n = d
  · exact h.hear_delivered hcap hin hd hid (verdict_eq_delivered_iff.mpr
      ⟨⟨consumed, hf n⟩, hdest.trans (hmac.mpr hd).symm, hfresh⟩) now
  have hother : header.final_destination ≠ st.mac n := by
    rw [hdest]
    exact fun heq => hd (hmac.mp heq.symm)
  cases is_candidate with
  | true =>
      exact h.hear_candidate hcap hin hd hcopy hroom hsender hid
        (verdict_eq_candidate_iff.mpr ⟨hf n, hother, h0, hfresh, rfl⟩) now
  | false =>
      refine h.hear_overheard hcap hin hd (fun hclear => ?_) hid
        (verdict_eq_overheard_iff.mpr ⟨⟨consumed, hf n⟩, hother, h0, hfresh,
          rfl⟩) now
      exact Bool.false_ne_true (hflag hclear)

/-- Ticking: the node sends nothing, or the forward of what it has
pending. -/
theorem StationOk.tick (h : StationOk st link o a d p ttl air n s)
    (hroom : ∀ e, s.coordinator.pending.lookup p = some e →
      air.length + 2 ≤ ttl) (now : TimePoint) :
    ((TimerNode.Tick now s).nic = s.nic
        ∧ StationOk st link o a d p ttl air n (TimerNode.Tick now s))
      ∨ ∃ e data t, s.coordinator.pending.lookup p = some e
        ∧ (TimerNode.Tick now s).nic
          = s.nic.TransmitBroadcast data (some (p, e))
        ∧ Copy st d p data t ∧ ttl ≤ t + air.length
        ∧ ∀ tx : Transmission N, tx.sender = n →
          StationOk st link o a d p ttl (air ++ [tx]) n
            (TimerNode.Tick now s) := by
  have hdedup := TimerNode.tick_dedup now s
  have hknows : Knows p (TimerNode.Tick now s) ↔ Knows p s := by
    unfold Knows
    rw [hdedup]
  have hcache : ∃ r : Recency PacketId TimePoint (st.capacity n),
      Represents (TimerNode.Tick now s).dedup r := by
    rw [hdedup]
    exact h.cache
  have hdel : n = d → (Knows p (TimerNode.Tick now s) →
        (TimerNode.Tick now s).deliveries = 1)
      ∧ (¬ Knows p (TimerNode.Tick now s) →
        (TimerNode.Tick now s).deliveries = 0) := by
    rw [hknows, TimerNode.tick_deliveries]
    exact h.delivered
  rcases TimerNode.tick_only h.only now with
    ⟨hpend, hnic⟩ | ⟨e, he, hnone, hnic⟩
  · refine Or.inl ⟨hnic, hcache, ?_, ?_, ?_, hdel⟩
    · rw [hpend]
      exact h.only
    · rw [hpend, hknows]
      exact h.pending
    · rw [hpend, hknows]
      exact h.forwards
  · obtain ⟨hk, hd, hsend, t, hcopy, ht⟩ := h.pending e he
    have hlen := hroom e he
    obtain ⟨data, hdata, hfwd⟩ := hcopy.forward (by omega)
    refine Or.inr ⟨e, data, t - 1, he, ?_, hfwd, by omega, fun tx htx => ?_⟩
    · rw [hnic]
      unfold NicAdapter.sendFor
      simp only [hdata]
    · refine ⟨hcache, fun q _ => hnone q, fun e' he' => ?_, fun _ _ _ => ?_,
        hdel⟩
      · exact absurd ((hnone p).symm.trans he') (by simp)
      · exact Or.inr ⟨tx, List.mem_append_right _ List.mem_cons_self, htx⟩

end Network

end Joker
