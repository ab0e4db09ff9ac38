/-
Runs of the acknowledgement-based coordinator, transmitter's side.

What is pending under an id is a function of the history
(`lookup_after_eq_some`): the last `AddPending` of the id, unless an ACK
for it came since, or a sweep at its deadline or later. One call changes
one id, or, as a sweep, each id by its own deadline
(`lookup_call_eq_some`); the run is the induction over the calls, last
call first.

No entry ever records who acknowledged it. `HandleAck` writes the sender
down and erases the entry in the same call, so its "already resolved"
branch is never taken (`Unresolved`).
-/
import Mathlib.Data.List.Induction
import Joker.Model.AckCoordinator
import Joker.Proofs.Callback

namespace Joker

open Transition

-- ================================================================= maps

/-- What a replacement put there is gone with the key. -/
theorem erase_replace {α β : Type} [DecidableEq α] (m : UnorderedMap α β)
    (a : α) (b : β) : (m.replace a b).erase a = m.erase a := by
  apply AList.ext
  show (m.entries.kreplace a b).kerase a = m.entries.kerase a
  induction m.entries with
  | nil => rfl
  | cons e rest ih =>
      by_cases h : a = e.1
      · simp [List.kreplace, List.lookmap_cons_some, h]
      · rw [List.kreplace, List.lookmap_cons_none _ _ (by simp [h]),
          List.kerase_cons_ne h, List.kerase_cons_ne h]
        exact congrArg _ ih

-- ============================================================== one call

namespace AckCoordinator

/-- An exchange is open under the id: nobody has acknowledged it. -/
def Awaits (c : AckCoordinator) (id : PacketId) : Prop :=
  ∃ it, c.pending.lookup id = some it ∧ it.first_ack_sender = none

theorem handleAck_of_awaits {c : AckCoordinator} {header : JokerHeader}
    (h : c.Awaits header.packet_id) (frame : Bytes) (offset : Nat) :
    c.HandleAck header frame offset
      = { pending := c.pending.erase header.packet_id } := by
  obtain ⟨it, hlook, hnone⟩ := h
  unfold HandleAck
  simp only [hlook, hnone, erase_replace]

theorem handleAck_of_not_awaits {c : AckCoordinator} {header : JokerHeader}
    (h : ¬ c.Awaits header.packet_id) (frame : Bytes) (offset : Nat) :
    c.HandleAck header frame offset = c := by
  unfold HandleAck
  cases hlook : c.pending.lookup header.packet_id with
  | none => rfl
  | some it =>
      cases hsender : it.first_ack_sender with
      | none => exact absurd ⟨it, hlook, hsender⟩ h
      | some sender => simp only [hsender]

/-- An ACK for an id that is not pending changes nothing. -/
theorem handleAck_of_lookup_none {c : AckCoordinator} {header : JokerHeader}
    (h : c.pending.lookup header.packet_id = none) (frame : Bytes)
    (offset : Nat) : c.HandleAck header frame offset = c := by
  apply handleAck_of_not_awaits
  rintro ⟨it, hlook, -⟩
  rw [h] at hlook
  cases hlook

/-- An ACK leaves the entries of other ids alone. -/
theorem lookup_handleAck_ne (c : AckCoordinator) {header : JokerHeader}
    (frame : Bytes) (offset : Nat) {q : PacketId}
    (hq : q ≠ header.packet_id) :
    (c.HandleAck header frame offset).pending.lookup q
      = c.pending.lookup q := by
  by_cases h : c.Awaits header.packet_id
  · rw [handleAck_of_awaits h]
    exact AList.lookup_erase_ne hq
  · rw [handleAck_of_not_awaits h]

/-- The sweep keeps what is not due. -/
theorem lookup_processTimeouts {c : AckCoordinator} {now : TimePoint}
    {q : PacketId} {e : PendingCoordination} :
    (c.ProcessTimeouts now).pending.lookup q = some e
      ↔ c.pending.lookup q = some e ∧ now < e.deadline := by
  unfold ProcessTimeouts
  rw [Sweep.lookup_sweep_eq_some]
  simp

/-- No entry has recorded an acknowledgement. -/
def Unresolved (c : AckCoordinator) : Prop :=
  ∀ q e, c.pending.lookup q = some e → e.first_ack_sender = none

/-- On such entries an ACK is an erasure. -/
theorem Unresolved.handleAck_eq {c : AckCoordinator} (h : c.Unresolved)
    (header : JokerHeader) (frame : Bytes) (offset : Nat) :
    c.HandleAck header frame offset
      = { pending := c.pending.erase header.packet_id } := by
  cases hlook : c.pending.lookup header.packet_id with
  | none => rw [handleAck_of_lookup_none hlook, erase_of_lookup_none hlook]
  | some it => exact handleAck_of_awaits ⟨it, hlook, h _ _ hlook⟩ frame offset

end AckCoordinator

-- ============================================================ the history

/-- The call adds an entry for the id. -/
def AckCall.Adds (id : PacketId) : AckCall → Prop
  | .AddPending packet_id _ _ => packet_id = id
  | .HandleAck _ _ _ => False
  | .ProcessTimeouts _ => False

/-- The call ends an exchange under the id with the given deadline. -/
def AckCall.Ends (id : PacketId) (deadline : TimePoint) : AckCall → Prop
  | .AddPending _ _ _ => False
  | .HandleAck header _ _ => header.packet_id = id
  | .ProcessTimeouts now => now ≥ deadline

/-- The last `AddPending` for the id, with this frame and deadline, is
followed by no call that ends the exchange. -/
def Outstanding (calls : List AckCall) (id : PacketId) (frame : Bytes)
    (deadline : TimePoint) : Prop :=
  ∃ pre post, calls = pre ++ .AddPending id frame deadline :: post
    ∧ ∀ k ∈ post, ¬ k.Adds id ∧ ¬ k.Ends id deadline

theorem not_outstanding_nil (id : PacketId) (frame : Bytes)
    (deadline : TimePoint) : ¬ Outstanding [] id frame deadline := by
  rintro ⟨pre, post, hcalls, -⟩
  simp at hcalls

/-- One call later: it is the `AddPending` itself, or it came after and
ends nothing. -/
theorem outstanding_concat {calls : List AckCall} {k : AckCall}
    {id : PacketId} {frame : Bytes} {deadline : TimePoint} :
    Outstanding (calls ++ [k]) id frame deadline
      ↔ k = .AddPending id frame deadline
        ∨ Outstanding calls id frame deadline
          ∧ ¬ k.Adds id ∧ ¬ k.Ends id deadline := by
  constructor
  · rintro ⟨pre, post, hcalls, hpost⟩
    rcases List.eq_nil_or_concat post with rfl | ⟨post, k', rfl⟩
    · exact Or.inl (List.singleton_inj.mp (List.append_inj' hcalls rfl).2)
    · rw [List.concat_eq_append, ← List.cons_append, ← List.append_assoc]
        at hcalls
      obtain ⟨hcalls, hk⟩ := List.append_inj' hcalls rfl
      have hk := List.singleton_inj.mp hk
      refine Or.inr ⟨⟨pre, post, hcalls, fun j hj => ?_⟩, ?_⟩
      · exact hpost j (by simp [hj])
      · rw [hk]
        exact hpost k' (by simp)
  · rintro (rfl | ⟨⟨pre, post, rfl, hpost⟩, hk⟩)
    · exact ⟨calls, [], rfl, by simp⟩
    · refine ⟨pre, post ++ [k], by simp, fun j hj => ?_⟩
      rcases List.mem_append.mp hj with hj | hj
      · exact hpost j hj
      · rw [List.mem_singleton.mp hj]
        exact hk

namespace AckCoordinator

/-- What is pending for an id after a call: what the call adds, or what
was pending and the call does not end. -/
theorem lookup_call_eq_some {c : AckCoordinator} (hc : c.Unresolved)
    {k : AckCall} {q : PacketId} {e : PendingCoordination} :
    (c.call k).pending.lookup q = some e
      ↔ (∃ frame deadline, k = .AddPending q frame deadline
          ∧ e = ⟨q, frame, deadline, none⟩)
        ∨ c.pending.lookup q = some e ∧ ¬ k.Adds q
          ∧ ¬ k.Ends q e.deadline := by
  cases k with
  | AddPending p frame deadline =>
      show (c.pending.insert p _).lookup q = some e ↔ _
      by_cases hp : p = q
      · subst hp
        rw [AList.lookup_insert]
        constructor
        · intro h
          exact Or.inl ⟨frame, deadline, rfl, (Option.some.inj h).symm⟩
        · rintro (⟨frame', deadline', hk, rfl⟩ | ⟨-, hadd, -⟩)
          · cases hk
            rfl
          · exact absurd rfl hadd
      · rw [AList.lookup_insert_ne (Ne.symm hp)]
        simp [AckCall.Adds, AckCall.Ends, hp]
  | HandleAck header frame offset =>
      show (c.HandleAck header frame offset).pending.lookup q = some e ↔ _
      rw [hc.handleAck_eq, lookup_erase_some_iff]
      simp [AckCall.Adds, AckCall.Ends, eq_comm, and_comm]
  | ProcessTimeouts now =>
      show (c.ProcessTimeouts now).pending.lookup q = some e ↔ _
      rw [lookup_processTimeouts]
      simp [AckCall.Adds, AckCall.Ends]

theorem Unresolved.call {c : AckCoordinator} (hc : c.Unresolved)
    (k : AckCall) : (c.call k).Unresolved := by
  intro q e he
  rcases (lookup_call_eq_some hc).mp he with ⟨frame, deadline, -, rfl⟩ | h
  · rfl
  · exact hc q e h.1

/-- No reachable entry has recorded an acknowledgement. -/
theorem unresolved_after (calls : List AckCall) : (after calls).Unresolved := by
  refine exec_invariant Unresolved (fun c k hc => hc.call k) calls ?_
  intro q e he
  cases he

/-- What is pending for an id is what its last `AddPending` put there, if
the exchange has not ended since. -/
theorem lookup_after_eq_some (calls : List AckCall) :
    ∀ (q : PacketId) (e : PendingCoordination),
      (after calls).pending.lookup q = some e
        ↔ ∃ frame deadline, Outstanding calls q frame deadline
          ∧ e = ⟨q, frame, deadline, none⟩ := by
  induction calls using List.reverseRecOn with
  | nil =>
      intro q e
      refine iff_of_false (fun h => by cases h) ?_
      rintro ⟨frame, deadline, h, -⟩
      exact not_outstanding_nil q frame deadline h
  | append_singleton calls k ih =>
      intro q e
      have hstep : after (calls ++ [k]) = (after calls).call k :=
        exec_concat _ _ _ _
      rw [hstep, lookup_call_eq_some (unresolved_after calls), ih]
      simp only [outstanding_concat]
      constructor
      · rintro (⟨frame, deadline, hk, he⟩
          | ⟨⟨frame, deadline, hout, rfl⟩, hadd, hend⟩)
        · exact ⟨frame, deadline, Or.inl hk, he⟩
        · exact ⟨frame, deadline, Or.inr ⟨hout, hadd, hend⟩, rfl⟩
      · rintro ⟨frame, deadline, hk | ⟨hout, hadd, hend⟩, rfl⟩
        · exact Or.inl ⟨frame, deadline, hk, rfl⟩
        · exact Or.inr ⟨⟨frame, deadline, hout, rfl⟩, hadd, hend⟩

/-- Nothing is pending for an id an ACK has come for. -/
theorem lookup_after_ack (calls : List AckCall) (header : JokerHeader)
    (frame : Bytes) (offset : Nat) :
    (after (calls ++ [.HandleAck header frame offset])).pending.lookup
      header.packet_id = none := by
  have hstep : after (calls ++ [.HandleAck header frame offset])
      = (after calls).HandleAck header frame offset := exec_concat _ _ _ _
  rw [hstep, (unresolved_after calls).handleAck_eq]
  exact AList.lookup_erase _ _

/-- Nothing is pending for an id that a sweep has timed out. -/
theorem lookup_after_sweep {calls : List AckCall} {q : PacketId}
    {e : PendingCoordination} {now : TimePoint}
    (he : (after calls).pending.lookup q = some e) (hnow : now ≥ e.deadline) :
    (after (calls ++ [.ProcessTimeouts now])).pending.lookup q = none := by
  have hstep : after (calls ++ [.ProcessTimeouts now])
      = (after calls).ProcessTimeouts now := exec_concat _ _ _ _
  rw [hstep, Option.eq_none_iff_forall_not_mem]
  intro e' he'
  obtain ⟨hlook, hlate⟩ := lookup_processTimeouts.mp he'
  rw [he] at hlook
  cases hlook
  exact absurd hnow (not_le.mpr hlate)

/-- Every exchange is resolved at most once. In every run of the
transmitter's side an id is pending exactly when its last `AddPending` is
followed by no ACK for it and no sweep at its deadline or later, with
that call's frame and deadline and nobody recorded as first to
acknowledge; an ACK for an id that is not pending — unknown, repeated, or
timed out — changes nothing; and a call for one id leaves every other
alone, as does the sweep, which goes by each entry's own deadline. -/
theorem exchange_resolved_once :
    (∀ calls id e, (after calls).pending.lookup id = some e
      ↔ ∃ frame deadline, Outstanding calls id frame deadline
        ∧ e = ⟨id, frame, deadline, none⟩)
    ∧ (∀ calls id, id ∈ (after calls).pending
      ↔ ∃ frame deadline, Outstanding calls id frame deadline)
    ∧ (∀ calls, (after calls).Unresolved)
    ∧ (∀ c header frame offset,
      c.pending.lookup header.packet_id = none →
      HandleAck header frame offset c = c)
    ∧ (∀ calls header header' frame frame' offset offset',
      header'.packet_id = header.packet_id →
      after (calls ++ [.HandleAck header frame offset,
          .HandleAck header' frame' offset'])
        = after (calls ++ [.HandleAck header frame offset]))
    ∧ (∀ calls header e now frame offset,
      (after calls).pending.lookup header.packet_id = some e →
      now ≥ e.deadline →
      after (calls ++ [.ProcessTimeouts now, .HandleAck header frame offset])
        = after (calls ++ [.ProcessTimeouts now]))
    ∧ (∀ c q, (∀ p frame deadline, q ≠ p →
        (AddPending p frame deadline c).pending.lookup q
          = c.pending.lookup q)
      ∧ (∀ header frame offset, q ≠ header.packet_id →
        (HandleAck header frame offset c).pending.lookup q
          = c.pending.lookup q)
      ∧ ∀ now e, (ProcessTimeouts now c).pending.lookup q = some e
          ↔ c.pending.lookup q = some e ∧ now < e.deadline) := by
  have hcut : ∀ calls k k', after (calls ++ [k, k'])
      = (after (calls ++ [k])).call k' := by
    intro calls k k'
    rw [List.append_cons calls k [k']]
    exact exec_concat _ _ _ _
  refine ⟨lookup_after_eq_some, fun calls id => ?_, unresolved_after,
    fun c header frame offset h => handleAck_of_lookup_none h frame offset,
    ?_, ?_, fun c q => ⟨?_, ?_, fun now e => lookup_processTimeouts⟩⟩
  · rw [← AList.lookup_isSome, Option.isSome_iff_exists]
    simp only [lookup_after_eq_some]
    constructor
    · rintro ⟨_, frame, deadline, h, -⟩
      exact ⟨frame, deadline, h⟩
    · rintro ⟨frame, deadline, h⟩
      exact ⟨_, frame, deadline, h, rfl⟩
  · intro calls header header' frame frame' offset offset' hid
    rw [hcut]
    refine handleAck_of_lookup_none ?_ frame' offset'
    rw [hid]
    exact lookup_after_ack calls header frame offset
  · intro calls header e now frame offset he hnow
    rw [hcut]
    exact handleAck_of_lookup_none (lookup_after_sweep he hnow) frame offset
  · intro p frame deadline hq
    exact AList.lookup_insert_ne hq
  · intro header frame offset hq
    exact lookup_handleAck_ne c frame offset hq

end AckCoordinator

end Joker
