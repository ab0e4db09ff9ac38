/-
By when is a packet delivered?

A network that is on time (Proofs/Latency.lean) and amid whose traffic a
packet is sent (Proofs/UnderLoad.lean): no chain of forwards of the packet
is longer than the number of nodes (Proofs/LoopFree.lean), each forward
leaves `ε + D + δ` milliseconds after what it forwards, and so the last
transmission of the packet leaves at most `N` times that after the first
(`Sending.sent_at_le`). What is on the air then is handed over within `ε`,
and what is pending is sent within that time, unless something is late
(`UpToDate`). After one time more the packet is settled
(`Sending.settled`), and a settled packet is delivered: there is a bound
that depends on the configurations and the number of nodes, and not on
the traffic (`delivered_in_time`).
-/
import Joker.Proofs.Latency
import Joker.Proofs.UnderLoad

namespace Joker

open Transition VectorHeap

variable {N : Nat} {H : WheelHeap ForwardCallback}

namespace Network

variable {st : Stations N} {link : Fin N → Fin N → Prop} {o a d : Fin N}
  {p : PacketId} {frame : Bytes} {now T : TimePoint}
  {pre post : List (NetEvent N)} {ε δ D : Nat}

/-- At `T` nothing is late: what has been on the air for more than `ε`
milliseconds was handed to every node that hears it, and no timer expired
more than `δ` before. -/
def UpToDate (link : Fin N → Fin N → Prop) (ε δ : Nat) (T : TimePoint)
    (net : Network N H) : Prop :=
  (∀ x ∈ net.air.zipIdx, x.1.sent_at + milliseconds ε < T → ∀ n,
    x.1.sender ≠ n → link x.1.sender n → (x.2, n) ∈ net.handed)
    ∧ ∀ n, NotOverdue δ T (net.nodes n).coordinator.wheel

instance (link : Fin N → Fin N → Prop) [DecidableRel link] (ε δ : Nat)
    (T : TimePoint) (net : Network N H) :
    Decidable (UpToDate link ε δ T net) :=
  inferInstanceAs (Decidable (_ ∧ _))

namespace Sending

/-- The packet leaves its nodes within `N` forwards of its sending. -/
theorem sent_at_le (h : Sending H st link o a d p frame now pre post)
    (hpunctual : Punctual ε δ D (run H st (amid st o a p frame now pre post)))
    {j : Nat} {tx : Transmission N}
    (htx : (run H st (amid st o a p frame now pre post)).air[j]? = some tx)
    (hp : tx.packet_id = some p) :
    tx.sent_at ≤ now + milliseconds (N * (ε + D + δ)) := by
  unfold Transmission.packet_id at hp
  rcases hparse : deserialize_header tx.frame.data 0 with ⟨header?, consumed⟩
  rw [hparse] at hp
  obtain ⟨header, rfl, hid⟩ := Option.map_eq_some_iff.mp hp
  obtain ⟨i, k, txo, hbelow, htxo, hown, hsent⟩ :=
    (run_accounted H st _).origin j htx hparse
  obtain ⟨sent, n, hframe, -, hheader, -⟩ := hsent
  have hpo : txo.packet_id = some p := by
    unfold Transmission.packet_id
    rw [hframe, ← hid, hheader]
    rfl
  obtain ⟨-, hnow⟩ := h.originated (originated_of_parent_none H st _ txo
    (List.mem_of_getElem? htxo) hown) hpo
  have hk := depth_le h.capacity htxo hpo hbelow
  rw [h.kept, List.length_nil, Nat.add_zero] at hk
  obtain ⟨txj, htxj, hle⟩ := hpunctual.below htxo hbelow
  obtain rfl := Option.some.inj (htxj.symm.trans htx)
  have hms := (milliseconds_le_iff _ _).mpr
    (Nat.mul_le_mul_right (ε + D + δ) hk)
  rw [hnow] at hle
  linarith

/-- One forward later it is settled, if nothing is late. -/
theorem settled (h : Sending H st link o a d p frame now pre post)
    (hpunctual : Punctual ε δ D (run H st (amid st o a p frame now pre post)))
    (hdate : UpToDate link ε δ T
      (run H st (amid st o a p frame now pre post)))
    (hT : now + milliseconds ((N + 1) * (ε + D + δ)) < T) :
    Settled link p (run H st (amid st o a p frame now pre post)) := by
  have hms : milliseconds ((N + 1) * (ε + D + δ))
      = milliseconds (N * (ε + D + δ)) + milliseconds (ε + D)
        + milliseconds δ := by
    rw [← milliseconds_add, ← milliseconds_add, Nat.succ_mul,
      ← Nat.add_assoc]
  have hε : milliseconds ε ≤ milliseconds (ε + D) :=
    (milliseconds_le_iff _ _).mpr (Nat.le_add_right _ _)
  have hδ : 0 ≤ milliseconds δ := Int.mul_nonneg (Int.natCast_nonneg _)
    (by decide)
  refine ⟨fun x hx hp n hne hlink => ?_, fun n => ?_⟩
  · have hj := List.mk_mem_zipIdx_iff_getElem?.mp hx
    have hle := h.sent_at_le hpunctual hj (of_decide_eq_true hp)
    exact hdate.1 x hx (by linarith) n hne hlink
  · cases he : ((run H st (amid st o a p frame now pre post)).nodes n
        ).coordinator.pending.lookup p with
    | none => rfl
    | some e =>
        obtain ⟨due, i, tx, harm, hsource, htx, hdue⟩ :=
          hpunctual.pending n p e he
        obtain ⟨i', htaken⟩ :=
          ((run_accounted H st _).entries n).pending p e he
        obtain rfl := Option.some.inj (htaken.source.symm.trans hsource)
        obtain ⟨tx', header, consumed, htx', -, hframe, hf, hid, -⟩ :=
          htaken.received
        obtain rfl := Option.some.inj (htx'.symm.trans htx)
        have hp : tx'.packet_id = some p := by
          unfold Transmission.packet_id
          rw [hframe, hf.parses]
          exact congrArg some hid
        have hle := h.sent_at_le hpunctual htx hp
        have hlate : T ≤ due + milliseconds δ := hdate.2 n _ harm rfl
        exact absurd hT (not_lt.mpr (by linarith))

end Sending

/-- A packet that is sent amid any other traffic in a network that is on
time, and not lost by a cache, was delivered once in all `N + 1` forwards
later, when nothing is late: at its destination, as it was sent but for
the TTL. -/
theorem delivered_in_time (H : WheelHeap ForwardCallback) (st : Stations N)
    (link : Fin N → Fin N → Prop) {o a d : Fin N} {p : PacketId}
    {frame : Bytes} {now T : TimePoint} {pre post : List (NetEvent N)}
    (ε δ D : Nat) (h : Sending H st link o a d p frame now pre post)
    (hD : ∀ n, (st.config n).max_wait_ms ≤ D)
    (hwithin : Along (step st) (Within ε) (start H st)
      (amid st o a p frame now pre post))
    (hticked : Along (step st) (Ticked δ) (start H st)
      (amid st o a p frame now pre post))
    (hdate : UpToDate link ε δ T (run H st (amid st o a p frame now pre post)))
    (hT : now + milliseconds ((N + 1) * (ε + D + δ)) < T) :
    ∃ x k, (deliveries H st (amid st o a p frame now pre post)).filter
        (fun x => x.header.packet_id = p) = [x]
      ∧ x.station = d ∧ SentAs frame x.frame x.header k := by
  have hpunctual : Punctual ε δ D
      (run H st (amid st o a p frame now pre post)) :=
    Punctual.run _ (punctual_start H st ε δ D) hD hwithin hticked
  exact h.delivered_once
    (h.delivered_of_settled (h.settled hpunctual hdate hT))

/-- Two stations, the second with address 9. -/
def two_stations : Stations 2 where
  mac n := station (if n.val = 1 then 9 else 0)
  config _ := {}
  capacity _ := 1000
  ttl _ := 120000000000

/-- Station `v` has sent packet 8, which station `u` holds. -/
def held_before (u v : Fin N) : List (NetEvent N) :=
  [.own_send v 0 8, .originate v 0 MacAddress.broadcast (sample_frame 8 5),
    .deliver 0 u 1 true]

/-- Station `v` hears packet 7, and `u` forwards packet 8; both are ticked
every 100 milliseconds. -/
def ticked_after (u v : Fin N) : List (NetEvent N) :=
  [.deliver 1 v 3 true, .tick u 60000000, .deliver 2 v 60000001 true]
    ++ [100, 200, 300, 400, 500].flatMap fun ms =>
      [.tick u (milliseconds ms), .tick v (milliseconds ms)]

theorem sending_to_neighbour :
    Sending (sortedHeap _) two_stations (fun _ _ => True) 0 1 1 7
      (sample_frame 7 5) 2 (held_before 0 1) (ticked_after 0 1) where
  capacity := by decide
  packet := ⟨sample_header 7 5, 19, fun _ => sample_dataFrame 7 5, rfl,
    by decide, by decide⟩
  neighbour := by decide
  elsewhere := by decide
  path := Or.inl trivial
  before := by decide +kernel
  after := by decide +kernel
  heard := by decide +kernel
  kept := by decide +kernel

theorem delivered_in_time_neighbour :
    ∃ x k, (deliveries (sortedHeap _) two_stations
        (amid two_stations 0 1 7 (sample_frame 7 5) 2 (held_before 0 1)
          (ticked_after 0 1))).filter (fun x => x.header.packet_id = 7) = [x]
      ∧ x.station = 1 ∧ SentAs (sample_frame 7 5) x.frame x.header k :=
  delivered_in_time (T := 500000000) (sortedHeap _) two_stations
    (fun _ _ => True) 1 100 50 sending_to_neighbour (by decide)
    (by decide +kernel) (by decide +kernel) (by decide +kernel) (by decide)

end Network

end Joker
