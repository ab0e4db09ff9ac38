/-
One forward, one id. Every pending entry carries the timer id of the
`OnCandidateReceivedDataPacket` call that made it, and keeps it when an
expiry callback takes it out of `pending_` and when it is transmitted.
This module follows those ids through the five atomic actions of the
coordinator.

# The argument

`forwardIds` collects the ids of the entries that are pending, taken by
a callback, or already transmitted. An action either leaves the timer
counter alone and loses or moves ids (`IdStep`, first case), or draws
the next value of the counter for one new entry (second case). So ids
never repeat (`FreshIds`), and an id that has left the three places
never comes back (`Gone`) — the two facts behind "transmitted at most
once" and "suppression is final". Both are instances of one rule: what
`IdStep` preserves holds of every state of every run, at the atomic
level here and at the level of whole calls in Proofs/NodeRuns.lean.
-/
import Joker.Lib.Selection
import Joker.Model.Atomic
import Joker.Proofs.Callback
import Joker.Proofs.TimerWheel
import Mathlib.Data.List.Sigma
import Mathlib.Data.List.Perm.Subperm

namespace Joker

open Transition

-- ================================================== association lists

/-- Taking the entry for a key out of a map loses that entry alone. -/
theorem entries_perm_of_lookup {α β : Type} [DecidableEq α]
    {m : UnorderedMap α β} {a : α} {b : β} (h : m.lookup a = some b) :
    m.entries.Perm (⟨a, b⟩ :: (m.erase a).entries) := by
  have hmem : a ∈ m.entries.keys :=
    List.dlookup_isSome.mp (by rw [show m.entries.dlookup a = _ from h]; rfl)
  obtain ⟨b', l₁, l₂, hl₁, hl, herase⟩ := List.exists_of_kerase hmem
  have hb : b' = b := by
    have hlook : m.entries.dlookup a = some b' := by
      refine List.mem_dlookup m.nodupKeys ?_
      rw [hl]
      exact List.mem_append_right _ List.mem_cons_self
    exact Option.some.inj (hlook.symm.trans h)
  subst hb
  show m.entries.Perm (⟨a, b'⟩ :: m.entries.kerase a)
  rw [herase]
  conv_lhs => rw [hl]
  exact List.perm_middle

-- ============================================= the two critical sections

variable {H : WheelHeap ForwardCallback}

/-- Accepting a packet retains its frame under the next id. -/
theorem lookup_accept (c : TimerCoordinator H) (header : JokerHeader)
    (frame : Bytes) (local_mac : MacAddress) (config : Config)
    (now : TimePoint) (p : PacketId) :
    (c.accept header frame local_mac config now).pending.lookup p
      = if p = header.packet_id then some ⟨c.wheel.next_id, frame⟩
        else c.pending.lookup p := by
  show (c.pending.insert header.packet_id _).lookup p = _
  split
  · next h =>
    rw [h]
    exact AList.lookup_insert _
  · next h => exact AList.lookup_insert_ne h

/-- Suppressing a packet drops what is pending for it. -/
theorem overheard_pending (c : TimerCoordinator H) (q : PacketId) :
    (c.HandleOverheardForward q).pending = c.pending.erase q := by
  unfold TimerCoordinator.HandleOverheardForward
  cases hq : c.pending.lookup q with
  | none => exact (erase_of_lookup_none hq).symm
  | some it => rfl

theorem lookup_overheard_some_iff {c : TimerCoordinator H} {q p : PacketId}
    {e : PendingForward} :
    (c.HandleOverheardForward q).pending.lookup p = some e
      ↔ p ≠ q ∧ c.pending.lookup p = some e := by
  rw [overheard_pending]
  exact lookup_erase_some_iff

/-- Suppressing a packet draws no timer id. -/
theorem overheard_next_id (c : TimerCoordinator H) (q : PacketId) :
    (c.HandleOverheardForward q).wheel.next_id = c.wheel.next_id := by
  unfold TimerCoordinator.HandleOverheardForward
  cases c.pending.lookup q <;> rfl

-- ============================================================== the ids

/-- Timer ids of the pending entries. -/
def pendingIds (c : TimerCoordinator H) : List TimerId :=
  c.pending.entries.map fun e => e.2.timer_id

/-- Timer ids of the entries callbacks have taken and not yet sent. -/
def takenIds (taken : List (PacketId × Option PendingForward)) :
    List TimerId :=
  taken.filterMap fun t => t.2.map PendingForward.timer_id

/-- Timer ids of the entries that were transmitted. -/
def sentIds (nic : NicAdapter) : List TimerId :=
  nic.transmitted.filterMap fun t => t.retained.map fun r => r.2.timer_id

/-- An entry whose id was never transmitted was never transmitted. -/
theorem retained_ne_of_not_sent {nic : NicAdapter} {p : PacketId}
    {e : PendingForward} (h : e.timer_id ∉ sentIds nic) :
    ∀ tx ∈ nic.transmitted, tx.retained ≠ some (p, e) := by
  intro tx htx heq
  refine h (List.mem_filterMap.mpr ⟨tx, htx, ?_⟩)
  rw [heq]
  rfl

/-- Timer ids of all entries that are pending, taken or transmitted. -/
def forwardIds (c : TimerCoordinator H) (nic : NicAdapter)
    (taken : List (PacketId × Option PendingForward)) : List TimerId :=
  pendingIds c ++ (takenIds taken ++ sentIds nic)

/-- What an action does to the timer counter and the ids of forwards. -/
def IdStep (n : TimerId) (l : List TimerId) (n' : TimerId)
    (l' : List TimerId) : Prop :=
  (n' = n ∧ l'.Subperm l) ∨ (n' = n + 1 ∧ l'.Subperm (n :: l))

/-- Ids are distinct and below the counter. -/
structure FreshIds (n : TimerId) (l : List TimerId) : Prop where
  nodup : l.Nodup
  lt : ∀ i ∈ l, i < n

/-- The id was drawn and no forward carries it any more. -/
def Gone (i n : TimerId) (l : List TimerId) : Prop := i < n ∧ i ∉ l

/-- Part of a list without repetitions has none, in any order. -/
theorem nodup_of_subperm {α : Type} {l l' : List α} (h : l'.Subperm l)
    (hl : l.Nodup) : l'.Nodup := by
  obtain ⟨m, hperm, hsub⟩ := h
  exact hperm.nodup_iff.mp (hl.sublist hsub)

theorem IdStep.refl (n : TimerId) (l : List TimerId) : IdStep n l n l :=
  Or.inl ⟨rfl, List.Subperm.refl l⟩

/-- Ids stay distinct and below the counter. -/
theorem IdStep.freshIds {n n' : TimerId} {l l' : List TimerId}
    (h : IdStep n l n' l') (hl : FreshIds n l) : FreshIds n' l' := by
  rcases h with ⟨rfl, hsub⟩ | ⟨rfl, hsub⟩
  · exact ⟨nodup_of_subperm hsub hl.nodup, fun i hi => hl.lt i (hsub.subset hi)⟩
  · have hn : n ∉ l := fun hmem => Nat.lt_irrefl n (hl.lt n hmem)
    refine ⟨nodup_of_subperm hsub (List.nodup_cons.mpr ⟨hn, hl.nodup⟩),
      fun i hi => ?_⟩
    rcases List.mem_cons.mp (hsub.subset hi) with rfl | hi
    · exact Nat.lt_succ_self _
    · exact Nat.lt_succ_of_lt (hl.lt i hi)

/-- An id that is gone stays gone. -/
theorem IdStep.gone {i n n' : TimerId} {l l' : List TimerId}
    (h : IdStep n l n' l') (hi : Gone i n l) : Gone i n' l' := by
  rcases h with ⟨rfl, hsub⟩ | ⟨rfl, hsub⟩
  · exact ⟨hi.1, fun hmem => hi.2 (hsub.subset hmem)⟩
  · refine ⟨Nat.lt_succ_of_lt hi.1, fun hmem => ?_⟩
    rcases List.mem_cons.mp (hsub.subset hmem) with rfl | hmem
    · exact Nat.lt_irrefl _ hi.1
    · exact hi.2 hmem

-- ========================================================== the actions

/-- Dropping the entry for a key drops its id alone. -/
theorem pendingIds_erase {c : TimerCoordinator H} {p : PacketId}
    {it : PendingForward} (h : c.pending.lookup p = some it) :
    (pendingIds c).Perm
      (it.timer_id :: (c.pending.erase p).entries.map fun e => e.2.timer_id) :=
  List.Perm.map (fun e : Sigma fun _ : PacketId => PendingForward =>
    e.2.timer_id) (entries_perm_of_lookup h)

/-- Accepting a packet draws one id, over whatever was pending. -/
theorem accept_idStep (c : TimerCoordinator H) (nic : NicAdapter)
    (taken : List (PacketId × Option PendingForward)) (header : JokerHeader)
    (frame : Bytes) (local_mac : MacAddress) (config : Config)
    (now : TimePoint) :
    IdStep c.wheel.next_id (forwardIds c nic taken)
      (c.accept header frame local_mac config now).wheel.next_id
      (forwardIds (c.accept header frame local_mac config now) nic taken) := by
  refine Or.inr ⟨rfl, ?_⟩
  show ((c.wheel.next_id :: (c.pending.entries.kerase header.packet_id).map
    fun e => e.2.timer_id) ++ _).Subperm _
  refine (List.subperm_cons _).mpr (List.Sublist.subperm ?_)
  exact ((List.kerase_sublist _ _).map _).append_right _

/-- Suppressing a packet draws no id. -/
theorem overheard_idStep (c : TimerCoordinator H) (nic : NicAdapter)
    (taken : List (PacketId × Option PendingForward)) (p : PacketId) :
    IdStep c.wheel.next_id (forwardIds c nic taken)
      (c.HandleOverheardForward p).wheel.next_id
      (forwardIds (c.HandleOverheardForward p) nic taken) := by
  refine Or.inl ⟨overheard_next_id c p, List.Sublist.subperm ?_⟩
  unfold forwardIds pendingIds
  rw [overheard_pending]
  exact ((List.kerase_sublist _ _).map _).append_right _

/-- The id of a suppressed entry is gone. -/
theorem overheard_gone {c : TimerCoordinator H} {nic : NicAdapter}
    {taken : List (PacketId × Option PendingForward)} {p : PacketId}
    {it : PendingForward} (h : c.pending.lookup p = some it)
    (hc : FreshIds c.wheel.next_id (forwardIds c nic taken)) :
    Gone it.timer_id (c.HandleOverheardForward p).wheel.next_id
      (forwardIds (c.HandleOverheardForward p) nic taken) := by
  have hperm : (forwardIds c nic taken).Perm (it.timer_id ::
      ((c.pending.erase p).entries.map (fun e => e.2.timer_id)
        ++ (takenIds taken ++ sentIds nic))) :=
    (pendingIds_erase h).append_right _
  have hnd := List.nodup_cons.mp (hperm.nodup_iff.mp hc.nodup)
  have hlt := hc.lt it.timer_id (hperm.mem_iff.mpr List.mem_cons_self)
  rw [overheard_next_id]
  unfold forwardIds pendingIds
  rw [overheard_pending]
  exact ⟨hlt, hnd.1⟩

/-- The critical section of a callback moves an id from pending to
taken. -/
theorem take_pending_idStep (c : TimerCoordinator H) (nic : NicAdapter)
    (taken : List (PacketId × Option PendingForward)) (p : PacketId) :
    IdStep c.wheel.next_id (forwardIds c nic taken)
      (c.take_pending p).2.wheel.next_id
      (forwardIds (c.take_pending p).2 nic
        (taken ++ [(p, (c.take_pending p).1)])) := by
  rw [take_pending_eq]
  refine Or.inl ⟨rfl, ?_⟩
  unfold forwardIds takenIds
  rw [List.filterMap_append]
  cases h : c.pending.lookup p with
  | none =>
      rw [erase_of_lookup_none h]
      simp only [List.filterMap_cons, List.filterMap_nil, Option.map_none,
        List.append_nil]
      exact List.Subperm.refl _
  | some it =>
      refine List.Perm.subperm ?_
      have hperm := (pendingIds_erase h).append_right
        (takenIds taken ++ sentIds nic)
      refine List.Perm.trans ?_ hperm.symm
      show (pendingIds _ ++ ((_ ++ [it.timer_id]) ++ sentIds nic)).Perm _
      rw [List.append_assoc, ← List.append_assoc]
      refine List.perm_middle.trans ?_
      rw [List.append_assoc]
      rfl

/-- Ids of a record that appends one transmission. -/
theorem sentIds_transmit (nic : NicAdapter) (frame : Bytes)
    (r : Option (PacketId × PendingForward)) :
    sentIds (nic.TransmitBroadcast frame r)
      = sentIds nic ++ (r.map fun r => r.2.timer_id).toList := by
  unfold sentIds NicAdapter.TransmitBroadcast
  rw [List.filterMap_append]
  cases r <;> rfl

/-- Sending moves an id from taken to transmitted, or drops it. -/
theorem send_frame_idStep (s : TimerNode H)
    {taken : List (PacketId × Option PendingForward)} {k : Nat}
    {p : PacketId} {it : Option PendingForward}
    (hk : taken[k]? = some (p, it)) :
    IdStep s.coordinator.wheel.next_id
      (forwardIds s.coordinator s.nic taken)
      (send_frame p it s).coordinator.wheel.next_id
      (forwardIds (send_frame p it s).coordinator (send_frame p it s).nic
        (taken.eraseIdx k)) := by
  have hsend := send_frame_eq p it s
  have htaken : (takenIds taken).Perm
      ((it.map PendingForward.timer_id).toList
        ++ takenIds (taken.eraseIdx k)) := by
    refine ((Selection.perm_cons_rest hk).filterMap _).trans ?_
    cases it <;> exact List.Perm.refl _
  rw [hsend]
  refine Or.inl ⟨rfl, (List.subperm_append_left _).mpr ?_⟩
  refine List.Subperm.trans ?_ (htaken.append_right _).symm.subperm
  dsimp only
  unfold NicAdapter.sendFor
  cases it with
  | none => exact List.Subperm.refl _
  | some e =>
      dsimp only
      cases transmission e.frame with
      | none =>
          rw [List.append_assoc]
          exact (List.sublist_append_right _ _).subperm
      | some data =>
          rw [sentIds_transmit]
          refine List.Perm.subperm ?_
          rw [← List.append_assoc]
          exact List.perm_append_comm

-- ========================================================= atomic runs

/-- Timer counter and ids of forwards of a coordinator in flight. -/
def AtomicState.ids (s : AtomicState H) : TimerId × List TimerId :=
  (s.node.coordinator.wheel.next_id,
    forwardIds s.node.coordinator s.node.nic s.taken)

/-- Every atomic action is an `IdStep`. -/
theorem AtomicState.step_idStep (s : AtomicState H) (a : AtomicStep) :
    IdStep s.ids.1 s.ids.2 (s.step a).ids.1 (s.step a).ids.2 := by
  cases a with
  | on_candidate now header frame local_mac config =>
      exact accept_idStep _ _ _ header frame local_mac config now
  | overheard p => exact overheard_idStep _ _ _ p
  | pop now =>
      cases hpop : s.node.coordinator.wheel.popExpired now with
      | none =>
          have hstep : s.step (.pop now) = s := by
            simp only [AtomicState.step, hpop]
          rw [hstep]
          exact IdStep.refl _ _
      | some r =>
          obtain ⟨e, w⟩ := r
          have hid := (SimpleTimerWheel.popExpired_some hpop).1
          simp only [AtomicState.step, hpop]
          exact Or.inl ⟨hid, List.Subperm.refl _⟩
  | enter k =>
      cases hk : s.popped[k]? with
      | none =>
          have hstep : s.step (.enter k) = s := by
            simp only [AtomicState.step, hk]
          rw [hstep]
          exact IdStep.refl _ _
      | some cb =>
          simp only [AtomicState.step, hk]
          exact take_pending_idStep _ _ _ cb.packet_id
  | transmit k =>
      cases hk : s.taken[k]? with
      | none =>
          have hstep : s.step (.transmit k) = s := by
            simp only [AtomicState.step, hk]
          rw [hstep]
          exact IdStep.refl _ _
      | some t =>
          simp only [AtomicState.step, hk]
          exact send_frame_idStep s.node hk

end Joker
