/-
The ids a host gives to what it sends.

An id is the CRC of the text and the four bytes of a counter. Feeding four
bytes to the register loses nothing of them, whatever the register holds
after the text (`feed_injective`), so two counters never give a text the
same id. The counter goes up by one with every packet sent (`step_seq`),
so the ids of one text repeat only with the counter.
-/
import Joker.Lib.Transition
import Joker.Model.Cli
import Joker.Proofs.Crc32
import Joker.Proofs.Header

namespace Joker

open Transition VectorHeap Lfsr

variable {H : WheelHeap ForwardCallback}

-- ========================================================= the last bytes

theorem byte_bits_injective : Function.Injective byte_bits := by
  intro a b h
  apply UInt8.toBitVec_inj.mp
  apply BitVec.eq_of_getLsbD_eq
  intro i _
  rw [← byte_bits_getD, h, byte_bits_getD]

/-- The bits of four bytes tell the bytes. -/
theorem four_bytes_injective {a b c d a' b' c' d' : UInt8}
    (h : [a, b, c, d].flatMap byte_bits = [a', b', c', d'].flatMap byte_bits) :
    a = a' ∧ b = b' ∧ c = c' ∧ d = d' := by
  have hlen : ∀ x y, (byte_bits x).length = (byte_bits y).length := by
    intro x y
    rw [byte_bits_length, byte_bits_length]
  simp only [List.flatMap_cons, List.flatMap_nil] at h
  obtain ⟨ha, h⟩ := List.append_inj h (hlen a a')
  obtain ⟨hb, h⟩ := List.append_inj h (hlen b b')
  obtain ⟨hc, h⟩ := List.append_inj h (hlen c c')
  obtain ⟨hd, -⟩ := List.append_inj h (hlen d d')
  exact ⟨byte_bits_injective ha, byte_bits_injective hb,
    byte_bits_injective hc, byte_bits_injective hd⟩

/-- Four bytes at the end of a message can be told from its CRC. -/
theorem crc32_four_bytes (msg : Bytes) {a b c d a' b' c' d' : UInt8}
    (h : crc32_iso_hdlc (msg ++ [a, b, c, d])
      = crc32_iso_hdlc (msg ++ [a', b', c', d'])) :
    a = a' ∧ b = b' ∧ c = c' ∧ d = d' := by
  have hbits : ∀ x y z w : UInt8,
      ([x, y, z, w].flatMap byte_bits).length = 32 := by
    intro x y z w
    simp [byte_bits_length]
  have hregister := congrArg UInt32.toBitVec ((UInt32.xor_left_inj _).mp h)
  rw [foldl_crc_byte_toBitVec, foldl_crc_byte_toBitVec, List.flatMap_append,
    List.flatMap_append, feed_append, feed_append] at hregister
  apply four_bytes_injective
  have hpoly : poly.getLsbD (32 - 1) = true := by decide
  refine feed_injective hpoly _ ?_ ?_ hregister
  · rw [hbits, hbits]
  · rw [hbits]

/-- Two counters give a text two ids. -/
theorem packet_id_injective (msg : Bytes) :
    Function.Injective fun seq => joker_packet_id (id_bytes msg seq) := by
  intro s t h
  obtain ⟨h3, h2, h1, h0⟩ := crc32_four_bytes msg h
  rw [← word_bytes s, h3, h2, h1, h0, word_bytes]

-- ============================================================ the counter

namespace Host

/-- The counter of the next packet. -/
def seq : Host H → UInt32
  | .phone p => p.g_seq_counter
  | .laptop p => p.cli_seq

/-- The text sent in an event, with the id of its packet. -/
def sends (h : Host H) : HostEvent → List (Bytes × PacketId)
  | .send _ msg => (h.originates msg).toList.map fun p => (msg, p)
  | .receive _ _ _ | .tick _ => []

/-- An id is the one of the text and the counter. -/
theorem sends_eq (h : Host H) (ev : HostEvent) :
    h.sends ev = [] ∨ ∃ msg, h.sends ev
      = [(msg, joker_packet_id (id_bytes msg h.seq))] := by
  cases ev with
  | receive now frame is_cand => exact Or.inl rfl
  | tick now => exact Or.inl rfl
  | send now msg =>
      cases h with
      | phone p => exact Or.inr ⟨msg, rfl⟩
      | laptop p =>
          cases hs : sends_line msg with
          | true =>
              refine Or.inr ⟨msg, ?_⟩
              simp [sends, originates, hs, cli_header, seq]
          | false => simp [sends, originates, hs]

/-- Every packet sent counts. -/
theorem step_seq (h : Host H) (ev : HostEvent) :
    (h.step ev).seq = h.seq + UInt32.ofNat (h.sends ev).length := by
  cases h with
  | phone p =>
      cases ev with
      | receive now frame is_cand => exact (UInt32.add_zero _).symm
      | send now msg => rfl
      | tick now => exact (UInt32.add_zero _).symm
  | laptop p =>
      cases ev with
      | receive now frame is_cand => exact (UInt32.add_zero _).symm
      | tick now => exact (UInt32.add_zero _).symm
      | send now msg =>
          cases hs : sends_line msg with
          | true => simp [step, send_line, sends, originates, seq, hs]
          | false => simp [step, send_line, sends, originates, seq, hs]

/-- The `k`-th packet of a run has the `k`-th counter. -/
theorem sends_getElem? (es : List HostEvent) {h : Host H} {k : Nat}
    {msg : Bytes} {p : PacketId}
    (hk : (outputs step sends h es)[k]? = some (msg, p)) :
    p = joker_packet_id (id_bytes msg (h.seq + UInt32.ofNat k)) := by
  induction es generalizing h k with
  | nil => simp at hk
  | cons ev es ih =>
      rw [outputs_cons] at hk
      have hstep := h.step_seq ev
      rcases sends_eq h ev with hnil | ⟨text, hone⟩
      · rw [hnil] at hk hstep
        rw [ih hk, hstep]
        simp
      · rw [hone] at hk hstep
        cases k with
        | zero =>
            simp only [List.cons_append, List.getElem?_cons_zero,
              Option.some.injEq, Prod.mk.injEq] at hk
            rw [← hk.1, ← hk.2]
            simp
        | succ k =>
            rw [ih hk, hstep]
            congr 2
            rw [UInt32.add_assoc, ← UInt32.ofNat_add, Nat.add_comm]
            rfl

end Host

/-- Two counters give a text two ids, and so no host gives one id to two
sends of a text until its counter has wrapped. -/
theorem repeated_texts_get_distinct_ids :
    (∀ (msg : Bytes) (s₁ s₂ : UInt32), s₁ ≠ s₂ →
      joker_packet_id (id_bytes msg s₁) ≠ joker_packet_id (id_bytes msg s₂))
    ∧ ∀ (H : WheelHeap ForwardCallback) (h : Host H) (es : List HostEvent)
        (i j : Nat) (msg : Bytes) (p q : PacketId),
        i < j → j < i + UInt32.size →
        (outputs Host.step Host.sends h es)[i]? = some (msg, p) →
        (outputs Host.step Host.sends h es)[j]? = some (msg, q) → p ≠ q := by
  refine ⟨fun msg s₁ s₂ hne h => hne (packet_id_injective msg h), ?_⟩
  intro H h es i j msg p q hij hwrap hp hq heq
  rw [Host.sends_getElem? es hp, Host.sends_getElem? es hq] at heq
  have hseq := congrArg UInt32.toNat (packet_id_injective msg heq)
  simp only [UInt32.toNat_add, UInt32.toNat_ofNat'] at hseq
  simp only [UInt32.size] at hwrap
  omega

/-- A phone just started sends "hi" twice. -/
theorem repeated_texts_get_distinct_ids_phone :
    joker_packet_id (id_bytes [0x68, 0x69] 1)
      ≠ joker_packet_id (id_bytes [0x68, 0x69] 2) :=
  repeated_texts_get_distinct_ids.2 (sortedHeap _)
    (Host.start_phone (sortedHeap _) .GO)
    [.send 0 [0x68, 0x69], .send 1 [0x68, 0x69]] 0 1 [0x68, 0x69] _ _
    (by decide) (by decide) rfl rfl

end Joker
