/-
ACKs through the receive pipeline: who hears them, and what they do.

From the candidate to the transmitter everything fits: the ACK built
for a data packet is encoded, decoded, validated and dispatched to
`HandleAck`, and closes the exchange with the packet's id and no other
(`ack_reaches_exchange`).

In the other direction nothing is checked. ACKs are for the transmitter
of the data packet (ARCHITECTURE.md, 5.2), every frame on the air reaches
the pipeline, and the data path asks `is_candidate` before it acts; the
dispatch of an ACK does not. An overheard ACK closes the exchange it
finds under its id, whosever it is (`overheard_ack_ignored_iff`).
-/
import Joker.Proofs.AckRuns
import Joker.Proofs.Suppression

namespace Joker

-- ======================================================= the spec lemma

/-- What an `AckCoordinator` is told. -/
def Verdict.acknowledge (raw_frame : Bytes) (c : AckCoordinator) :
    Verdict → AckCoordinator
  | ack h consumed => c.HandleAck h raw_frame consumed
  | _ => c

/-- What a candidate answers. -/
def Verdict.answer (local_mac : MacAddress) (nic : NicAdapter) :
    Verdict → NicAdapter
  | candidate h _ =>
      nic.TransmitUnicast MacAddress.zero
        (serialize_header (AckCoordinator.ack h local_mac) []).2
  | _ => nic

/-- The counter of the answer. -/
def Verdict.answerCounters : Verdict → List Counter
  | candidate _ _ => [.ack_sent]
  | _ => []

/-- The state after a call of the pipeline at a node in ACK mode. -/
theorem AckNode.process_received_frame_eq (raw_frame : Bytes)
    (local_mac : MacAddress) (is_candidate : Bool) (config : Config)
    (now : TimePoint) (s : AckNode) :
    process_received_frame raw_frame local_mac is_candidate config now s
      = let v := verdict raw_frame local_mac is_candidate config s.dedup
        { neighbors := s.neighbors
          dedup := s.dedup.record v.recorded now
          coordinator := v.acknowledge raw_frame s.coordinator
          nic := v.answer local_mac s.nic
          metrics := (v.counters ++ v.answerCounters).foldl
            Metrics.Increment s.metrics } := by
  rw [process_received_frame_carryOut]
  cases verdict raw_frame local_mac is_candidate config s.dedup <;> rfl

-- ===================================================== control messages

/-- The frame parses to the header, passes validation and is a control
message, an ACK or a Forwarding. -/
structure ControlFrame (config : Config) (frame : Bytes)
    (header : JokerHeader) (consumed : Nat) : Prop where
  parses : deserialize_header frame 0 = (some header, consumed)
  valid : validate_header header config.candidate_count = true
  control : header.type ≠ .kUnicast

/-- The exit a control message takes, whatever the flag. -/
theorem ControlFrame.verdict_eq {config : Config} {frame : Bytes}
    {header : JokerHeader} {consumed : Nat}
    (hf : ControlFrame config frame header consumed)
    (local_mac : MacAddress) (is_candidate : Bool) (dedup : DedupCache) :
    verdict frame local_mac is_candidate config dedup
      = if header.type = .kAck then .ack header consumed
        else .forwarding header consumed := by
  unfold verdict
  rw [hf.parses]
  simp only [hf.valid, if_true]
  cases ht : header.type with
  | kUnicast => exact absurd ht hf.control
  | kAck => rfl
  | kForwarding => rfl

/-- An ACK reaches `HandleAck` and changes nothing else but a counter,
whatever the flag. -/
theorem ControlFrame.process_ack {config : Config} {frame : Bytes}
    {header : JokerHeader} {consumed : Nat}
    (hf : ControlFrame config frame header consumed)
    (hack : header.type = .kAck) (local_mac : MacAddress)
    (is_candidate : Bool) (now : TimePoint) (s : AckNode) :
    process_received_frame frame local_mac is_candidate config now s
      = { s with
          coordinator := s.coordinator.HandleAck header frame consumed
          metrics := s.metrics.Increment .packets_received } := by
  rw [AckNode.process_received_frame_eq, hf.verdict_eq, if_pos hack]
  rfl

/-- A Forwarding message does nothing. -/
theorem ControlFrame.process_forwarding {config : Config} {frame : Bytes}
    {header : JokerHeader} {consumed : Nat}
    (hf : ControlFrame config frame header consumed)
    (hforwarding : header.type = .kForwarding) (local_mac : MacAddress)
    (is_candidate : Bool) (now : TimePoint) (s : AckNode) :
    process_received_frame frame local_mac is_candidate config now s
      = { s with metrics := s.metrics.Increment .packets_received } := by
  rw [AckNode.process_received_frame_eq, hf.verdict_eq, hforwarding]
  rfl

/-- The ACK of an address that is neither zero nor broadcast is decoded
from its encoding, and valid wherever a candidate is allowed at all. -/
theorem ack_control {header : JokerHeader} {mac : MacAddress}
    (hzero : mac.IsZero = false) (hbroadcast : mac.IsBroadcast = false)
    {config : Config} (hcount : 1 ≤ config.candidate_count) :
    ControlFrame config (serialize_header (AckCoordinator.ack header mac) []).2
      (AckCoordinator.ack header mac) 13 where
  parses := by
    have hdec := deserialize_wire (h := AckCoordinator.ack header mac) [] 0 rfl
    rw [List.append_nil] at hdec
    rw [serialize_header_eq, List.nil_append]
    exact hdec
  valid := by
    refine (validate_header_iff _ _).mpr ⟨hbroadcast, hzero, ?_, ?_⟩
    · exact UInt8.le_iff_toNat_le.mp hcount
    · exact List.nodup_nil
  control := fun h => by cases h

-- ======================================================= overheard ACKs

/-- An overheard control message leaves what is pending alone exactly when
it is a Forwarding message or an ACK of no open exchange: an ACK between
other nodes closes an exchange of the same id. -/
theorem overheard_ack_ignored_iff (s : AckNode) (local_mac : MacAddress)
    (config : Config) (now : TimePoint) {frame : Bytes}
    {header : JokerHeader} {consumed : Nat}
    (hf : ControlFrame config frame header consumed) :
    (process_received_frame frame local_mac false config now s
      ).coordinator.pending = s.coordinator.pending
      ↔ header.type = .kForwarding
        ∨ ¬ s.coordinator.Awaits header.packet_id := by
  cases ht : header.type with
  | kUnicast => exact absurd ht hf.control
  | kForwarding =>
      rw [hf.process_forwarding ht]
      exact iff_of_true rfl (Or.inl rfl)
  | kAck =>
      rw [hf.process_ack ht]
      simp only [reduceCtorEq, false_or]
      constructor
      · intro heq hopen
        have hopen' := hopen
        obtain ⟨it, hlook, -⟩ := hopen'
        rw [AckCoordinator.handleAck_of_awaits hopen] at heq
        rw [← heq, AList.lookup_erase] at hlook
        cases hlook
      · intro hopen
        rw [AckCoordinator.handleAck_of_not_awaits hopen]

/-- The ACK of station `n` for packet `p`. -/
def sample_ack (p : PacketId) (n : UInt8) : JokerHeader :=
  AckCoordinator.ack (sample_header p 5) (station n)

/-- A node that transmitted packet 7 and waits for an ACK. -/
def waiting_transmitter : AckNode where
  neighbors := {}
  dedup := { capacity := 1000, ttl := 120000000000 }
  coordinator := AckCoordinator.after [.AddPending 7 (sample_frame 7 5) 50]
  nic := {}
  metrics := {}

/-- An overheard ACK for another packet is ignored. -/
theorem overheard_ack_ignored_iff_other :
    (process_received_frame (serialize_header (sample_ack 8 1) []).2 (station 3)
      false {} 10 waiting_transmitter).coordinator.pending
      = waiting_transmitter.coordinator.pending := by
  refine (overheard_ack_ignored_iff waiting_transmitter (station 3) {} 10
    (ack_control (by decide) (by decide) (by decide))).mpr (Or.inr ?_)
  rintro ⟨it, hlook, -⟩
  have hnone : waiting_transmitter.coordinator.pending.lookup 8 = none := by
    decide
  cases hnone.symm.trans hlook

/-- Station 3 waits for an ACK of packet 7, overhears the one station 1
sends for the same packet to somebody else, and closes its exchange. -/
theorem overheard_ack_closes_exchange :
    ControlFrame {} (serialize_header (sample_ack 7 1) []).2 (sample_ack 7 1) 13
      ∧ waiting_transmitter.coordinator.pending.lookup 7
        = some ⟨7, sample_frame 7 5, 50, none⟩
      ∧ (process_received_frame (serialize_header (sample_ack 7 1) []).2
          (station 3) false {} 10 waiting_transmitter).coordinator.pending
        ≠ waiting_transmitter.coordinator.pending := by
  have hf : ControlFrame {} (serialize_header (sample_ack 7 1) []).2
      (sample_ack 7 1) 13 := ack_control (by decide) (by decide) (by decide)
  have hopen : waiting_transmitter.coordinator.Awaits 7 :=
    ⟨⟨7, sample_frame 7 5, 50, none⟩, rfl, rfl⟩
  refine ⟨hf, rfl, fun heq => ?_⟩
  rw [hf.process_ack rfl] at heq
  have hlook := congrArg (AList.lookup 7) heq
  dsimp only at hlook
  rw [AckCoordinator.handleAck_of_awaits hopen] at hlook
  cases (AList.lookup_erase 7 _).symm.trans hlook

-- =================================================== from end to end

/-- A candidate's ACK reaches the right exchange. Handed a data packet, it
emits one frame; at a transmitter with any exchanges open that frame
parses, validates and is dispatched to `HandleAck` with the packet's id
and the candidate's address, which closes the exchange of that id, leaves
the others and touches neither the duplicate cache nor the neighbours. -/
theorem ack_reaches_exchange (candidate : AckNode) (candidate_mac : MacAddress)
    (candidate_config : Config) (received_at : TimePoint) {frame : Bytes}
    {header : JokerHeader} {consumed : Nat}
    (hf : DataFrame candidate_config frame header consumed)
    (hdest : header.final_destination ≠ candidate_mac) (httl : header.ttl ≠ 0)
    (hfresh : candidate.dedup.Contains header.packet_id = false)
    (hzero : candidate_mac.IsZero = false)
    (hbroadcast : candidate_mac.IsBroadcast = false) :
    ∃ emitted, (process_received_frame frame candidate_mac true
        candidate_config received_at candidate).nic.transmitted
        = candidate.nic.transmitted
          ++ [⟨MacAddress.zero, emitted, false, none⟩]
      ∧ ∀ (tx : AckNode) (calls : List AckCall) (tx_mac : MacAddress)
          (flag : Bool) (config : Config) (now : TimePoint),
        tx.coordinator = AckCoordinator.after calls →
        1 ≤ config.candidate_count →
        ∃ ack n, deserialize_header emitted 0 = (some ack, n)
          ∧ validate_header ack config.candidate_count = true
          ∧ ack.type = .kAck ∧ ack.packet_id = header.packet_id
          ∧ ack.final_destination = candidate_mac
          ∧ process_received_frame emitted tx_mac flag config now tx
            = { tx with
                coordinator := tx.coordinator.HandleAck ack emitted n
                metrics := tx.metrics.Increment .packets_received }
          ∧ ∀ q, (tx.coordinator.HandleAck ack emitted n).pending.lookup q
            = if q = header.packet_id then none
              else tx.coordinator.pending.lookup q := by
  refine ⟨(serialize_header (AckCoordinator.ack header candidate_mac) []).2,
    ?_, ?_⟩
  · have hverdict := verdict_eq_candidate_iff.mpr
      ⟨hf, hdest, httl, hfresh, rfl⟩
    rw [AckNode.process_received_frame_eq, hverdict]
    rfl
  · intro tx calls tx_mac flag config now htx hcount
    have hack : ControlFrame config _
        (AckCoordinator.ack header candidate_mac) 13 :=
      ack_control hzero hbroadcast hcount
    refine ⟨_, 13, hack.parses, hack.valid, rfl, rfl, rfl,
      hack.process_ack rfl tx_mac flag now tx, fun q => ?_⟩
    have hopen : tx.coordinator.Unresolved :=
      htx ▸ AckCoordinator.unresolved_after calls
    rw [hopen.handleAck_eq]
    exact lookup_erase_eq _ _ _

/-- Station 1 acknowledges packet 7 to a transmitter that waits for it. -/
theorem ack_reaches_exchange_waiting :
    ∃ emitted, (process_received_frame (sample_frame 7 5) (station 1) true {} 0
        { waiting_transmitter with coordinator := AckCoordinator.after [] }
        ).nic.transmitted
        = [⟨MacAddress.zero, emitted, false, none⟩]
      ∧ waiting_transmitter.coordinator.pending.lookup 7
        = some ⟨7, sample_frame 7 5, 50, none⟩
      ∧ (process_received_frame emitted (station 3) true {} 10
          waiting_transmitter).coordinator.pending.lookup 7 = none := by
  obtain ⟨emitted, hsent, h⟩ := ack_reaches_exchange
    { waiting_transmitter with coordinator := AckCoordinator.after [] }
    (station 1) {} 0
    (sample_dataFrame 7 5) (by decide) (by decide) (by decide) (by decide)
    (by decide)
  obtain ⟨_, _, -, -, -, -, -, hnode, hlook⟩ := h waiting_transmitter _
    (station 3) true {} 10 rfl (by decide)
  refine ⟨emitted, hsent, rfl, ?_⟩
  rw [hnode]
  exact (hlook 7).trans (if_pos rfl)

end Joker
