/-
Suppression is final, and no forward is sent twice.

Timers race with cancellation: an entry can be overwritten while its
timer lives on, and a callback already popped runs whatever is cancelled
after. Neither matters, because the callback holds a packet id and not a
frame: it transmits the entry it finds under the id, once, and an entry
that has left `pending_` is found by no one. What makes this an argument
about instances is the timer id, drawn anew by each call and carried by
its entry (Proofs/Forwards.lean). Here the ids are tied to the calls: an
entry that is pending, taken or transmitted is the entry of a call
(`Handed`), so counting transmissions is counting calls.
-/
import Joker.Proofs.Forwards

namespace Joker

open Transition

variable {H : WheelHeap ForwardCallback}

-- ========================================================== the invariant

/-- Every entry in circulation is the entry of one call. -/
structure Handed (s : AtomicState H) : Prop where
  fresh : FreshIds s.ids.1 s.ids.2
  calls_fresh : FreshIds s.ids.1 (s.calls.map fun c => c.2.timer_id)
  pending : ∀ p e, s.node.coordinator.pending.lookup p = some e →
    (p, e) ∈ s.calls
  taken : ∀ p e, (p, some e) ∈ s.taken → (p, e) ∈ s.calls
  sent : ∀ tx ∈ s.node.nic.transmitted, ∃ c ∈ s.calls,
    tx.retained = some c ∧ transmission c.2.frame = some tx.data

theorem Handed.start (H : WheelHeap ForwardCallback) (capacity : Nat)
    (ttl : TimePoint) : Handed (AtomicState.start H capacity ttl) :=
  ⟨⟨List.nodup_nil, fun _ h => absurd h List.not_mem_nil⟩,
    ⟨List.nodup_nil, fun _ h => absurd h List.not_mem_nil⟩,
    fun _ _ h => (by cases h), fun _ _ h => absurd h List.not_mem_nil,
    fun _ h => absurd h List.not_mem_nil⟩

/-- A call hands over one new entry. -/
theorem Handed.on_candidate {s : AtomicState H} (h : Handed s)
    (now : TimePoint) (header : JokerHeader) (frame : Bytes)
    (local_mac : MacAddress) (config : Config) :
    Handed (s.step (.on_candidate now header frame local_mac config)) := by
  refine ⟨(AtomicState.step_idStep s _).freshIds h.fresh, ?_, ?_, ?_, ?_⟩
  · have hids : IdStep s.ids.1 (s.calls.map fun c => c.2.timer_id)
        (s.ids.1 + 1) ((s.calls.map fun c => c.2.timer_id) ++ [s.ids.1]) :=
      Or.inr ⟨rfl, List.perm_append_comm.subperm⟩
    have hfresh := hids.freshIds h.calls_fresh
    simp only [AtomicState.step, List.map_append]
    exact hfresh
  · intro p e he
    replace he := (lookup_accept s.node.coordinator header frame local_mac
      config now p).symm.trans he
    split at he
    · next hp =>
      injection he with he
      subst hp he
      exact List.mem_append_right _ List.mem_cons_self
    · exact List.mem_append_left _ (h.pending p e he)
  · intro p e he
    exact List.mem_append_left _ (h.taken p e he)
  · intro tx htx
    obtain ⟨c, hc, hrest⟩ := h.sent tx htx
    exact ⟨c, List.mem_append_left _ hc, hrest⟩

/-- Every atomic action keeps entries tied to calls. -/
theorem Handed.step {s : AtomicState H} (h : Handed s) (a : AtomicStep) :
    Handed (s.step a) := by
  have hfresh := (AtomicState.step_idStep s a).freshIds h.fresh
  cases a with
  | on_candidate now header frame local_mac config =>
      exact h.on_candidate now header frame local_mac config
  | overheard q =>
      refine ⟨hfresh, ?_, ?_, h.taken, h.sent⟩
      · have hnext := overheard_next_id s.node.coordinator q
        refine ⟨h.calls_fresh.nodup, fun i hi => ?_⟩
        show i < (s.node.coordinator.HandleOverheardForward q).wheel.next_id
        rw [hnext]
        exact h.calls_fresh.lt i hi
      · intro p e he
        exact h.pending p e (lookup_overheard_some_iff.mp he).2
  | pop now =>
      cases hpop : s.node.coordinator.wheel.popExpired now with
      | none =>
          simp only [AtomicState.step, hpop]
          exact h
      | some r =>
          obtain ⟨t, w⟩ := r
          have hid := (SimpleTimerWheel.popExpired_some hpop).1
          simp only [AtomicState.step, hpop] at hfresh ⊢
          refine ⟨hfresh, ?_, h.pending, h.taken, h.sent⟩
          refine ⟨h.calls_fresh.nodup, fun i hi => ?_⟩
          show i < w.next_id
          rw [hid]
          exact h.calls_fresh.lt i hi
  | enter k =>
      cases hk : s.popped[k]? with
      | none =>
          simp only [AtomicState.step, hk]
          exact h
      | some cb =>
          simp only [AtomicState.step, hk, take_pending_eq] at hfresh ⊢
          refine ⟨hfresh, h.calls_fresh, ?_, ?_, h.sent⟩
          · intro p e he
            exact h.pending p e (lookup_erase_some_iff.mp he).2
          · intro p e he
            rcases List.mem_append.mp he with he | he
            · exact h.taken p e he
            · injection List.mem_singleton.mp he with hp hlook
              subst hp
              exact h.pending _ e hlook.symm
  | transmit k =>
      cases hk : s.taken[k]? with
      | none =>
          simp only [AtomicState.step, hk]
          exact h
      | some t =>
          obtain ⟨p, it⟩ := t
          have hsend := send_frame_eq p it s.node
          simp only [AtomicState.step, hk, hsend] at hfresh ⊢
          refine ⟨hfresh, h.calls_fresh, h.pending, ?_, ?_⟩
          · intro p' e he
            exact h.taken p' e (List.mem_of_mem_eraseIdx he)
          · intro tx htx
            rcases mem_sendFor_iff.mp htx with htx | ⟨e, data, rfl, hd, rfl⟩
            · exact h.sent tx htx
            · have hmem := h.taken p e (List.mem_of_getElem? hk)
              exact ⟨(p, e), hmem, rfl, hd⟩

/-- Entries are tied to calls all through a run. -/
theorem AtomicState.run_handed (H : WheelHeap ForwardCallback)
    (capacity : Nat) (ttl : TimePoint) (as : List AtomicStep) :
    Handed (AtomicState.run H capacity ttl as) :=
  exec_invariant Handed (fun _ a h => h.step a) as
    (Handed.start H capacity ttl)

-- =========================================================== the counting

/-- The entries that were transmitted, in order. -/
def NicAdapter.entries (nic : NicAdapter) :
    List (PacketId × PendingForward) :=
  nic.transmitted.filterMap TransmittedFrame.retained

/-- No entry is transmitted twice. -/
theorem Handed.entries_nodup {s : AtomicState H} (h : Handed s) :
    s.node.nic.entries.Nodup := by
  have hsent : (sentIds s.node.nic).Nodup :=
    (List.nodup_append.mp (List.nodup_append.mp h.fresh.nodup).2.1).2.1
  have hmap : sentIds s.node.nic
      = s.node.nic.entries.map fun r => r.2.timer_id := by
    unfold sentIds NicAdapter.entries
    rw [List.map_filterMap]
  rw [hmap] at hsent
  exact List.Nodup.of_map _ hsent

/-- What is transmitted was handed over. -/
theorem Handed.entries_subset {s : AtomicState H} (h : Handed s) :
    s.node.nic.entries ⊆ s.calls := by
  intro c hc
  obtain ⟨tx, htx, hret⟩ := List.mem_filterMap.mp hc
  obtain ⟨c', hc', heq, -⟩ := h.sent tx htx
  cases heq.symm.trans hret
  exact hc'

/-- Counting transmissions is counting entries. -/
theorem countP_transmitted (nic : NicAdapter)
    (P : PacketId × PendingForward → Bool) :
    nic.transmitted.countP (fun tx => tx.retained.any P)
      = nic.entries.countP P := by
  unfold NicAdapter.entries
  rw [List.countP_filterMap]
  refine List.countP_congr fun tx _ => ?_
  cases tx.retained <;> rfl

/-- An entry that was suppressed is transmitted by no continuation. -/
theorem AtomicState.suppressed_not_sent {s : AtomicState H} (h : Handed s)
    {p : PacketId} {e : PendingForward}
    (he : s.node.coordinator.pending.lookup p = some e)
    (bs : List AtomicStep) :
    ∀ tx ∈ (exec AtomicState.step (s.step (.overheard p)) bs
      ).node.nic.transmitted, tx.retained ≠ some (p, e) := by
  have hgone : Gone e.timer_id (s.step (.overheard p)).ids.1
      (s.step (.overheard p)).ids.2 := overheard_gone he h.fresh
  have hrun := exec_invariant
    (fun s : AtomicState H => Gone e.timer_id s.ids.1 s.ids.2)
    (fun s a h => (AtomicState.step_idStep s a).gone h) bs hgone
  refine retained_ne_of_not_sent fun hmem => hrun.2 ?_
  exact List.mem_append_right _ (List.mem_append_right _ hmem)

/-- Forwards of a coordinator, under every interleaving of critical
sections, pops and transmissions: each is of a frame handed over, calls
are told apart by their entries, each call's frame is sent at most once,
an id is sent at most as often as it was handed over, and a suppressed
entry is never sent. -/
theorem coordinator_forwards (H : WheelHeap ForwardCallback)
    (capacity : Nat) (ttl : TimePoint) (as : List AtomicStep) :
    (∀ tx ∈ (AtomicState.run H capacity ttl as).node.nic.transmitted,
      ∃ c ∈ (AtomicState.run H capacity ttl as).calls,
        tx.retained = some c ∧ transmission c.2.frame = some tx.data)
    ∧ (AtomicState.run H capacity ttl as).calls.Nodup
    ∧ (∀ c, (AtomicState.run H capacity ttl as).node.nic.transmitted.countP
        (fun tx => tx.retained.any fun r => r == c) ≤ 1)
    ∧ (∀ p, (AtomicState.run H capacity ttl as).node.nic.transmitted.countP
          (fun tx => tx.retained.any fun r => r.1 = p)
        ≤ (AtomicState.run H capacity ttl as).calls.countP fun c => c.1 = p)
    ∧ ∀ p e, (AtomicState.run H capacity ttl as
        ).node.coordinator.pending.lookup p = some e →
      ∀ bs, ∀ tx ∈ (exec AtomicState.step
          ((AtomicState.run H capacity ttl as).step (.overheard p)) bs
        ).node.nic.transmitted, tx.retained ≠ some (p, e) := by
  have h := AtomicState.run_handed H capacity ttl as
  refine ⟨h.sent, h.calls_fresh.nodup.of_map _, ?_, ?_, ?_⟩
  · intro c
    rw [countP_transmitted]
    exact List.nodup_iff_count_le_one.mp h.entries_nodup c
  · intro p
    rw [countP_transmitted]
    exact (List.Nodup.subperm h.entries_nodup h.entries_subset).countP_le _
  · intro p e he bs
    exact AtomicState.suppressed_not_sent h he bs

end Joker
