/-
How long a node remembers a packet.

Both programs give the cache an age limit of five seconds and neither ever
sweeps it, and a lookup does not look at ages: an id stays until 1000
others have come after it. So a lookup finds an id that was recorded more
than five seconds ago exactly when the id comes back before that many
others (`duplicates_recent_iff`).

The cache of a host is the cache after the insertions in its history
(`dedup_eq`), and what it contains is read off the history by the
characterisation of the cache (`contains_after_iff`).
-/
import Joker.Lib.Trace
import Joker.Model.Cli
import Joker.Proofs.DedupLog
import Joker.Proofs.Suppression
import Joker.Proofs.UiDispatch

namespace Joker

open Transition VectorHeap Trace

variable {H : WheelHeap ForwardCallback}

-- ======================================================= the spec lemmas

namespace Host

/-- A host hands frames to the core and ticks its wheel; what it sends it
broadcasts, and a phone records it. -/
theorem step_node (h : Host H) (ev : HostEvent) :
    (h.step ev).node = match ev with
      | .receive now frame is_cand =>
          h.node.step h.mac h.config (.receive now frame is_cand)
      | .tick now => h.node.step h.mac h.config (.tick now)
      | .send now msg =>
          match h.originates msg with
          | none => h.node
          | some p =>
              { h.node with
                dedup := if h.isPhone then h.node.dedup.Insert p now
                  else h.node.dedup
                nic := (h.step (.send now msg)).node.nic } := by
  cases h with
  | phone p =>
      cases ev with
      | receive now frame is_cand =>
          show (p.g_node.receive_callback frame is_cand now).node = _
          rw [JokerInstance.receive_callback_eq]
          rfl
      | send now msg => rfl
      | tick now => rfl
  | laptop p =>
      cases ev with
      | receive now frame is_cand => rfl
      | send now msg =>
          cases hs : sends_line msg with
          | true => simp [step, originates, send_line, hs, node, isPhone]
          | false => simp [step, originates, send_line, hs, node]
      | tick now => rfl

/-- What a host sends itself is broadcast, on behalf of no pending
entry. -/
theorem send_nic (h : Host H) (now : TimePoint) (msg : Bytes) :
    ∃ sent, (h.step (.send now msg)).node.nic.transmitted
        = h.node.nic.transmitted ++ sent
      ∧ ∀ tx ∈ sent, tx.retained = none := by
  cases h with
  | phone p =>
      refine ⟨_, rfl, fun tx htx => ?_⟩
      rw [List.mem_singleton.mp htx]
  | laptop p =>
      show ∃ sent, (send_line p msg).node.node.nic.transmitted = _ ∧ _
      unfold send_line
      split
      · refine ⟨_, rfl, fun tx htx => ?_⟩
        rw [List.mem_singleton.mp htx]
      · exact ⟨[], (List.append_nil _).symm, fun tx htx =>
          absurd htx List.not_mem_nil⟩

/-- A phone or a laptop just started. -/
def Started (h : Host H) : Prop :=
  (∃ name, h = start_phone H name) ∨ ∃ rand_byte, h = start_laptop H rand_byte

theorem Started.node_eq {h : Host H} (hs : h.Started) :
    h.node = TimerNode.start H 1000 (milliseconds 5000) := by
  rcases hs with ⟨name, rfl⟩ | ⟨rand_byte, rfl⟩
  · rfl
  · rfl

end Host

-- ========================================================== the lookups

/-- The counter of duplicates is moved by duplicates. -/
theorem duplicates_mem_counters_iff (v : Verdict) :
    .duplicates ∈ v.counters ↔ v = .duplicate := by
  cases v <;> simp [Verdict.counters]

/-- A frame whose id is looked up is a duplicate if the id is found, and
recorded if it is not; any other frame is neither. -/
theorem verdict_consulted (frame : Bytes) (local_mac : MacAddress)
    (is_candidate : Bool) (config : Config) (dedup : DedupCache) :
    match consulted frame local_mac config with
    | none =>
        (verdict frame local_mac is_candidate config dedup).recorded = none
          ∧ verdict frame local_mac is_candidate config dedup ≠ .duplicate
    | some p =>
        (verdict frame local_mac is_candidate config dedup).recorded
            = (if dedup.Contains p then none else some p)
          ∧ (verdict frame local_mac is_candidate config dedup = .duplicate
            ↔ dedup.Contains p = true) := by
  unfold consulted verdict
  rcases deserialize_header frame 0 with ⟨_ | header, consumed⟩
  · simp [Verdict.recorded]
  · dsimp only
    cases validate_header header config.candidate_count with
    | false => simp [Verdict.recorded]
    | true =>
        cases ht : header.type with
        | kAck => simp [Verdict.recorded]
        | kForwarding => simp [Verdict.recorded]
        | kUnicast =>
            simp only [if_true, true_and, dataVerdict]
            by_cases hd : header.final_destination = local_mac
            · cases hc : dedup.Contains header.packet_id <;>
                simp [hd, hc, Verdict.recorded]
            · by_cases h0 : header.ttl = 0
              · simp [hd, h0, Verdict.recorded]
              · cases hc : dedup.Contains header.packet_id <;>
                  cases is_candidate <;> simp [hd, h0, hc, Verdict.recorded]

/-- The pipeline looks an id up at most once, and then either finds it or
records it. -/
theorem verdict_of_consulted (frame : Bytes) (local_mac : MacAddress)
    (is_candidate : Bool) (config : Config) (dedup : DedupCache) :
    (verdict frame local_mac is_candidate config dedup).recorded
      = (consulted frame local_mac config).bind fun p =>
        if dedup.Contains p then none else some p := by
  have h := verdict_consulted frame local_mac is_candidate config dedup
  cases hcons : consulted frame local_mac config with
  | none =>
      rw [hcons] at h
      exact h.1
  | some p =>
      rw [hcons] at h
      exact h.1

/-- A frame is treated as a duplicate exactly when its id is looked up
and found. -/
theorem verdict_eq_duplicate_iff (frame : Bytes) (local_mac : MacAddress)
    (is_candidate : Bool) (config : Config) (dedup : DedupCache) :
    Counter.duplicates
        ∈ (verdict frame local_mac is_candidate config dedup).counters
      ↔ ∃ p, consulted frame local_mac config = some p
        ∧ dedup.Contains p = true := by
  rw [duplicates_mem_counters_iff]
  have h := verdict_consulted frame local_mac is_candidate config dedup
  cases hcons : consulted frame local_mac config with
  | none =>
      rw [hcons] at h
      simp [h.2]
  | some p =>
      rw [hcons] at h
      simp [h.2]

-- ========================================================== the history

/-- The cache call of a use. -/
def CacheUse.call : CacheUse → Option CacheCall
  | .inserted packet_id now => some (.Insert now packet_id)
  | .looked_up _ _ _ => none

/-- The cache calls of a history. -/
def cacheCalls (tr : List CacheUse) : List CacheCall :=
  tr.filterMap CacheUse.call

/-- The uses of the cache in a run. -/
def Host.cacheLog (h : Host H) (es : List HostEvent) : List CacheUse :=
  outputs Host.step Host.uses h es

namespace Host

/-- A frame is not looked up, is found, or is new and recorded. -/
theorem uses_receive_cases (h : Host H) (now : TimePoint) (frame : Bytes)
    (is_cand : Bool) :
    (consulted frame h.mac h.config = none
        ∧ h.uses (.receive now frame is_cand) = [])
      ∨ ∃ p, consulted frame h.mac h.config = some p
        ∧ ((h.node.dedup.Contains p = true
            ∧ h.uses (.receive now frame is_cand) = [.looked_up p now true])
          ∨ (h.node.dedup.Contains p = false
            ∧ h.uses (.receive now frame is_cand)
              = [.looked_up p now false, .inserted p now])) := by
  cases hcons : consulted frame h.mac h.config with
  | none => simp [uses, hcons]
  | some p => cases hc : h.node.dedup.Contains p <;> simp [uses, hcons, hc]

/-- A text is recorded by a phone that sends it. -/
theorem uses_send_cases (h : Host H) (now : TimePoint) (msg : Bytes) :
    ((h.isPhone = false ∨ h.originates msg = none)
        ∧ h.uses (.send now msg) = [])
      ∨ ∃ p, h.isPhone = true ∧ h.originates msg = some p
        ∧ h.uses (.send now msg) = [.inserted p now] := by
  cases hphone : h.isPhone with
  | false => simp [uses, hphone]
  | true => cases hsend : h.originates msg <;> simp [uses, hphone, hsend]

/-- An event changes the cache by the insertions among its uses. -/
theorem step_dedup (h : Host H) (ev : HostEvent) :
    (h.step ev).node.dedup
      = exec DedupCache.call h.node.dedup (cacheCalls (h.uses ev)) := by
  rw [step_node]
  cases ev with
  | receive now frame is_cand =>
      dsimp only
      rw [TimerNode.step_receive]
      dsimp only
      rw [verdict_of_consulted]
      rcases h.uses_receive_cases now frame is_cand with
        ⟨hcons, huses⟩ | ⟨p, hcons, ⟨hc, huses⟩ | ⟨hc, huses⟩⟩
      · rw [hcons, huses]
        rfl
      · rw [hcons, huses, Option.bind_some, if_pos hc]
        rfl
      · rw [hcons, huses, Option.bind_some, if_neg (by rw [hc]; simp)]
        rfl
  | tick now => exact TimerNode.tick_dedup now h.node
  | send now msg =>
      dsimp only
      rcases h.uses_send_cases now msg with
        ⟨hnone | hnone, huses⟩ | ⟨p, hphone, hsend, huses⟩
      · rw [huses, hnone]
        cases h.originates msg <;> rfl
      · rw [huses, hnone]
        rfl
      · rw [huses, hphone, hsend]
        rfl

/-- The cache of a host is what its history leaves. -/
theorem dedup_eq {h : Host H} (hs : h.Started) (es : List HostEvent) :
    (exec step h es).node.dedup
      = DedupCache.after 1000 (milliseconds 5000)
        (cacheCalls (h.cacheLog es)) := by
  induction es using List.reverseRecOn with
  | nil =>
      show h.node.dedup = _
      rw [hs.node_eq]
      rfl
  | append_singleton es ev ih =>
      unfold cacheLog cacheCalls DedupCache.after at ih ⊢
      rw [exec_concat, step_dedup, ih, outputs_concat, List.filterMap_append,
        exec_append]
      rfl

/-- A lookup finds what the history before it leaves in the cache. -/
theorem cacheLog_found {h : Host H} (hs : h.Started) (es : List HostEvent) :
    AtEvery (fun tr x => ∀ p t found, x = .looked_up p t found →
      found = (DedupCache.after 1000 (milliseconds 5000)
        (cacheCalls tr)).Contains p) (h.cacheLog es) := by
  induction es using List.reverseRecOn with
  | nil => exact atEvery_nil _
  | append_singleton es ev ih =>
      have hdedup := dedup_eq hs es
      unfold cacheLog at ih hdedup ⊢
      rw [outputs_concat]
      generalize outputs step uses h es = tr at ih hdedup
      generalize exec step h es = g at hdedup
      have hlook : ∀ p t found, found = g.node.dedup.Contains p →
          AtEvery (fun tr x => ∀ p t found, x = .looked_up p t found →
            found = (DedupCache.after 1000 (milliseconds 5000)
              (cacheCalls tr)).Contains p)
            (tr ++ [.looked_up p t found]) := by
        intro p t found hfound
        refine atEvery_concat.mpr ⟨ih, ?_⟩
        intro q u found' heq
        injection heq with hq _ hfound'
        rw [← hq, ← hfound', hfound, hdedup]
      cases ev with
      | tick now =>
          show AtEvery _ (tr ++ [])
          rw [List.append_nil]
          exact ih
      | send now msg =>
          rcases g.uses_send_cases now msg with ⟨-, huses⟩ | ⟨p, -, -, huses⟩
          · rw [huses, List.append_nil]
            exact ih
          · rw [huses]
            refine atEvery_concat.mpr ⟨ih, ?_⟩
            intro q t found heq
            cases heq
      | receive now frame is_cand =>
          rcases g.uses_receive_cases now frame is_cand with
            ⟨-, huses⟩ | ⟨p, -, ⟨hc, huses⟩ | ⟨hc, huses⟩⟩
          · rw [huses, List.append_nil]
            exact ih
          · rw [huses]
            exact hlook p now true hc.symm
          · rw [huses, List.append_cons]
            refine atEvery_concat.mpr ⟨hlook p now false hc.symm, ?_⟩
            intro q t found heq
            cases heq

/-- Insertions are made at readings of the run's clock, in its order. -/
theorem insertions_sublist (h : Host H) (es : List HostEvent) :
    ((insertions (cacheCalls (h.cacheLog es))).map Prod.snd).Sublist
      (es.map HostEvent.now) := by
  induction es generalizing h with
  | nil => exact List.Sublist.refl _
  | cons ev es ih =>
      have hone : ((insertions (cacheCalls (h.uses ev))).map Prod.snd).Sublist
          [ev.now] := by
        cases ev with
        | tick now => exact List.nil_sublist _
        | send now msg =>
            rcases h.uses_send_cases now msg with
              ⟨-, huses⟩ | ⟨p, -, -, huses⟩
            · rw [huses]
              exact List.nil_sublist _
            · rw [huses]
              exact List.Sublist.refl _
        | receive now frame is_cand =>
            rcases h.uses_receive_cases now frame is_cand with
              ⟨-, huses⟩ | ⟨p, -, ⟨-, huses⟩ | ⟨-, huses⟩⟩
            · rw [huses]
              exact List.nil_sublist _
            · rw [huses]
              exact List.nil_sublist _
            · rw [huses]
              exact List.Sublist.refl _
      unfold cacheLog insertions cacheCalls at ih hone ⊢
      rw [outputs_cons, List.filterMap_append, List.filterMap_append,
        List.map_append]
      exact hone.append (ih (h.step ev))

end Host

-- ======================================================= the age limit

/-- An id that is found was inserted at most five seconds ago. -/
def Recent (tr : List CacheUse) (x : CacheUse) : Prop :=
  ∀ p t, x = .looked_up p t true →
    ∃ t', .inserted p t' ∈ tr ∧ t - milliseconds 5000 ≤ t'

/-- An id that is looked up was inserted last at most five seconds ago, or
1000 distinct other ids were inserted since. -/
def NoStaleRepeat (tr : List CacheUse) (x : CacheUse) : Prop :=
  ∀ p t found, x = .looked_up p t found →
    ∀ t' bs, LastInsert (cacheCalls tr) p t' bs →
      t - milliseconds 5000 ≤ t' ∨ 1000 ≤ (insertedIds bs).toFinset.card

theorem mem_cacheCalls_iff {tr : List CacheUse} {p : PacketId}
    {t : TimePoint} : .Insert t p ∈ cacheCalls tr ↔ .inserted p t ∈ tr := by
  unfold cacheCalls
  rw [List.mem_filterMap]
  constructor
  · intro hall
    obtain ⟨x, hx, hcall⟩ := hall
    cases x with
    | inserted q u =>
        injection hcall with hcall
        injection hcall with ht hp
        exact ht ▸ hp ▸ hx
    | looked_up q u found => cases hcall
  · intro hx
    exact ⟨_, hx, rfl⟩

/-- Nothing is ever swept. -/
theorem evict_notMem_cacheCalls (tr : List CacheUse) (t : TimePoint) :
    .EvictExpired t ∉ cacheCalls tr := by
  unfold cacheCalls
  rw [List.mem_filterMap]
  intro hall
  obtain ⟨x, -, hcall⟩ := hall
  cases x <;> cases hcall

/-- The last insertion is no earlier than any. -/
theorem LastInsert.le {calls : List CacheCall} {p : PacketId}
    {t t' : TimePoint} {bs : List CacheCall} (h : LastInsert calls p t' bs)
    (hcalls : InsertedInOrder calls) (hmem : .Insert t p ∈ calls) : t ≤ t' := by
  obtain ⟨⟨as, rfl⟩, hp⟩ := h
  have horder : ((insertions as ++ (p, t') :: insertions bs).map
      Prod.snd).Pairwise (· ≤ ·) := by
    unfold InsertedInOrder insertions at hcalls
    rw [List.filterMap_append] at hcalls
    exact hcalls
  rw [List.map_append, List.pairwise_append] at horder
  rcases List.mem_append.mp hmem with has | hbs
  · refine horder.2.2 t ?_ t' List.mem_cons_self
    exact List.mem_map.mpr ⟨(p, t), List.mem_filterMap.mpr ⟨_, has, rfl⟩, rfl⟩
  · rcases List.mem_cons.mp hbs with heq | hbs
    · injection heq with ht
      exact le_of_eq ht
    · refine absurd ?_ hp
      exact List.mem_map.mpr ⟨(p, t), List.mem_filterMap.mpr ⟨_, hbs, rfl⟩, rfl⟩

/-- At one lookup: it finds no id that was inserted too long ago exactly
when the id is no stale repeat. -/
theorem recent_iff_noStaleRepeat {tr : List CacheUse} {x : CacheUse}
    (horder : InsertedInOrder (cacheCalls tr))
    (hfound : ∀ p t found, x = .looked_up p t found →
      found = (DedupCache.after 1000 (milliseconds 5000)
        (cacheCalls tr)).Contains p) :
    Recent tr x ↔ NoStaleRepeat tr x := by
  have hmem := @contains_after_iff 1000 (milliseconds 5000) _ horder
  constructor
  · intro h p t found hx t' bs hlast
    by_cases hcard : 1000 ≤ (insertedIds bs).toFinset.card
    · exact Or.inr hcard
    · refine Or.inl ?_
      have htrue : found = true := by
        rw [hfound p t found hx, hmem]
        refine ⟨by decide, t', bs, hlast, Nat.not_le.mp hcard, ?_⟩
        intro u hu
        obtain ⟨⟨as, hsplit⟩, -⟩ := hlast
        refine absurd ?_ (evict_notMem_cacheCalls tr u)
        rw [hsplit]
        exact List.mem_append_right _ (List.mem_cons_of_mem _ hu)
      rw [htrue] at hx
      obtain ⟨t'', hins, hle⟩ := h p t hx
      have hlate := hlast.le horder (mem_cacheCalls_iff.mpr hins)
      exact Int.le_trans hle hlate
  · intro h p t hx
    have hcontains := hfound p t true hx
    obtain ⟨-, t', bs, hlast, hcard, -⟩ := (hmem p).mp hcontains.symm
    refine ⟨t', ?_, ?_⟩
    · obtain ⟨⟨as, hsplit⟩, -⟩ := hlast
      refine mem_cacheCalls_iff.mp ?_
      rw [hsplit]
      exact List.mem_append_right _ List.mem_cons_self
    · exact (h p t true hx t' bs hlast).resolve_right (Nat.not_le.mpr hcard)

/-- The log says which frames are treated as duplicates: those that move
the counter. -/
theorem Host.counts_duplicate_iff (h : Host H) (now : TimePoint)
    (frame : Bytes) (is_cand : Bool) :
    (h.step (.receive now frame is_cand)).node.metrics.GetCounter .duplicates
        ≠ h.node.metrics.GetCounter .duplicates
      ↔ ∃ p, .looked_up p now true ∈ h.uses (.receive now frame is_cand) := by
  rw [step_node]
  show (process_received_frame frame h.mac is_cand h.config now
    h.node).metrics.GetCounter .duplicates ≠ _ ↔ _
  rw [GetCounter_process_ne_iff, verdict_eq_duplicate_iff]
  rcases h.uses_receive_cases now frame is_cand with
    ⟨hcons, huses⟩ | ⟨p, hcons, ⟨hc, huses⟩ | ⟨hc, huses⟩⟩
  · simp [hcons, huses]
  · simp [hcons, huses, hc]
  · simp [hcons, huses, hc]

/-- In every run of a phone or a laptop: a frame is treated as a duplicate
only within five seconds of an insertion of its id exactly when no id is
looked up that was inserted last more than five seconds ago and followed
by fewer than 1000 distinct others. -/
theorem duplicates_recent_iff (H : WheelHeap ForwardCallback) (h : Host H)
    (es : List HostEvent) (hs : h.Started)
    (hclock : (es.map HostEvent.now).Pairwise (· ≤ ·)) :
    (∀ (g : Host H) now frame is_cand,
      (g.step (.receive now frame is_cand)).node.metrics.GetCounter .duplicates
          ≠ g.node.metrics.GetCounter .duplicates
        ↔ ∃ p, .looked_up p now true ∈ g.uses (.receive now frame is_cand))
    ∧ (AtEvery Recent (h.cacheLog es)
      ↔ AtEvery NoStaleRepeat (h.cacheLog es)) := by
  refine ⟨Host.counts_duplicate_iff, ?_⟩
  have hinserts := hclock.sublist (h.insertions_sublist es)
  have hiff : ∀ pre x post, h.cacheLog es = pre ++ x :: post →
      (Recent pre x ↔ NoStaleRepeat pre x) := by
    intro pre x post hlog
    refine recent_iff_noStaleRepeat ?_
      (Host.cacheLog_found hs es pre x post hlog)
    have hpre : ((insertions (cacheCalls pre)).map Prod.snd).Sublist
        ((insertions (cacheCalls (h.cacheLog es))).map Prod.snd) := by
      rw [hlog]
      exact (((List.sublist_append_left pre _).filterMap _).filterMap _).map _
    exact hinserts.sublist hpre
  constructor
  · intro hall pre x post hlog
    exact (hiff pre x post hlog).mp (hall pre x post hlog)
  · intro hall pre x post hlog
    exact (hiff pre x post hlog).mpr (hall pre x post hlog)

/-- Packet 7 reaches the group owner at 0 and again after `delay`. -/
def heard_again (delay : TimePoint) : List HostEvent :=
  [.receive 0 (sample_frame 7 5) true,
    .receive delay (sample_frame 7 5) true]

theorem cacheLog_heard_again (delay : TimePoint) :
    (Host.start_phone (sortedHeap _) .GO).cacheLog (heard_again delay)
      = [] ++ [.looked_up 7 0 false] ++ [.inserted 7 0]
        ++ [.looked_up 7 delay true] :=
  rfl

/-- A second after, the repeat is a duplicate as it should be. -/
theorem duplicates_recent_iff_heard_again :
    AtEvery Recent ((Host.start_phone (sortedHeap _) .GO).cacheLog
      (heard_again (milliseconds 1000))) := by
  refine (duplicates_recent_iff (sortedHeap _) _ _ (Or.inl ⟨.GO, rfl⟩)
    (by decide)).2.mpr ?_
  rw [cacheLog_heard_again, atEvery_concat, atEvery_concat, atEvery_concat]
  refine ⟨⟨⟨atEvery_nil _, ?_⟩, ?_⟩, ?_⟩
  · intro p t found _ t' bs hlast
    obtain ⟨⟨as, hsplit⟩, -⟩ := hlast
    cases as <;> cases hsplit
  · intro p t found heq
    cases heq
  · intro p t found heq t' bs hlast
    injection heq with _ ht _
    obtain ⟨⟨as, hsplit⟩, -⟩ := hlast
    have hmem : CacheCall.Insert t' p ∈ [CacheCall.Insert 0 7] := by
      show _ ∈ cacheCalls ([] ++ [.looked_up 7 0 false] ++ [.inserted 7 0])
      rw [hsplit]
      exact List.mem_append_right _ List.mem_cons_self
    injection List.mem_singleton.mp hmem with ht'
    rw [← ht, ht']
    exact Or.inl (by decide)

/-- Six seconds after, it is still one. -/
theorem stale_repeat_is_duplicate :
    (Host.start_phone (sortedHeap _) .GO).Started
    ∧ ((heard_again (milliseconds 6000)).map HostEvent.now).Pairwise (· ≤ ·)
    ∧ ¬ AtEvery Recent ((Host.start_phone (sortedHeap _) .GO).cacheLog
      (heard_again (milliseconds 6000))) := by
  refine ⟨Or.inl ⟨.GO, rfl⟩, by decide, fun h => ?_⟩
  obtain ⟨t', hmem, hle⟩ := h _ _ [] (cacheLog_heard_again _) 7 _ rfl
  simp only [List.nil_append, List.cons_append, List.mem_cons, reduceCtorEq,
    CacheUse.inserted.injEq, true_and, List.not_mem_nil, or_false,
    false_or] at hmem
  rw [hmem] at hle
  exact absurd hle (by decide)

end Joker
