/-
What the protocol does not look at.

A `Renaming` gives every station another address and every packet another
payload; of the addresses it keeps apart what was apart, and the two that
mean something, zero and broadcast. A network whose stations and frames
are renamed does the same, event by event: it parses, accepts, delivers,
drops, schedules and transmits the same frames at the same times, renamed
(`renamed_network`). Neither a payload nor a particular address has an
influence on what a station does, and a forward carries on whatever it was
given.

# The argument

Renaming a frame renames the header it parses to (`parses_frame`), and a
frame that does not parse is left alone. So every exit of the pipeline is
the same exit with its header renamed (`verdict_frame`), and what an
expiry callback transmits is what it would have transmitted, renamed
(`transmission_frame`). The rest is that the pieces of an event keep
`Alike`: everything equal but the frames.
-/
import Joker.Proofs.Flooding
import Joker.Proofs.HopBound
import Mathlib.Logic.Equiv.Basic

namespace Joker

open Transition VectorHeap

variable {N : Nat} {H : WheelHeap ForwardCallback}

namespace MacAddress

theorem IsBroadcast_iff (m : MacAddress) :
    m.IsBroadcast = true ↔ m = broadcast := by
  constructor
  · intro h
    apply ext_bytes
    have hall : ∀ b ∈ m.bytes, b = 0xff := by
      intro b hb
      exact beq_iff_eq.mp (List.all_eq_true.mp h b hb)
    exact List.eq_replicate_of_mem hall |>.trans (by rw [m.length_bytes]; rfl)
  · rintro rfl
    rfl

theorem IsZero_iff (m : MacAddress) : m.IsZero = true ↔ m = zero := by
  constructor
  · intro h
    apply ext_bytes
    have hall : ∀ b ∈ m.bytes, b = 0x00 := by
      intro b hb
      exact beq_iff_eq.mp (List.all_eq_true.mp h b hb)
    exact List.eq_replicate_of_mem hall |>.trans (by rw [m.length_bytes]; rfl)
  · rintro rfl
    rfl

end MacAddress

-- =========================================================== the renaming

/-- Other addresses, and other payloads. Two addresses mean something to the
code and stay: zero, which no header may carry, and broadcast. -/
structure Renaming where
  mac : MacAddress → MacAddress
  payload : Bytes → Bytes
  injective : Function.Injective mac
  zero : mac .zero = .zero
  broadcast : mac .broadcast = .broadcast

namespace Renaming

variable (ρ : Renaming)

/-- The addresses in a header. -/
def header (h : JokerHeader) : JokerHeader :=
  { h with
    final_destination := ρ.mac h.final_destination
    other_candidates := h.other_candidates.map ρ.mac }

/-- The header and the payload of a frame that parses. -/
def frame (data : Bytes) : Bytes :=
  match deserialize_header data 0 with
  | (some h, consumed) =>
      (serialize_header (ρ.header h) []).2 ++ ρ.payload (data.drop consumed)
  | (none, _) => data

def entry (e : PendingForward) : PendingForward :=
  { e with frame := ρ.frame e.frame }

def transmitted (f : TransmittedFrame) : TransmittedFrame :=
  { f with
    destination := ρ.mac f.destination
    data := ρ.frame f.data
    retained := f.retained.map fun r => (r.1, ρ.entry r.2) }

def transmission (tx : Transmission N) : Transmission N :=
  { tx with frame := ρ.transmitted tx.frame }

def nodeEvent : NodeEvent → NodeEvent
  | .receive now data is_candidate => .receive now (ρ.frame data) is_candidate
  | ev => ev

def event : NetEvent N → NetEvent N
  | .originate n now destination data =>
      .originate n now (ρ.mac destination) (ρ.frame data)
  | ev => ev

def stations (st : Stations N) : Stations N :=
  { st with mac := fun n => ρ.mac (st.mac n) }

-- ============================================================ the headers

theorem IsBroadcast_mac (m : MacAddress) :
    (ρ.mac m).IsBroadcast = m.IsBroadcast := by
  rw [Bool.eq_iff_iff, MacAddress.IsBroadcast_iff, MacAddress.IsBroadcast_iff]
  constructor
  · intro h
    exact ρ.injective (h.trans ρ.broadcast.symm)
  · rintro rfl
    exact ρ.broadcast

theorem IsZero_mac (m : MacAddress) : (ρ.mac m).IsZero = m.IsZero := by
  rw [Bool.eq_iff_iff, MacAddress.IsZero_iff, MacAddress.IsZero_iff]
  constructor
  · intro h
    exact ρ.injective (h.trans ρ.zero.symm)
  · rintro rfl
    exact ρ.zero

theorem addressed_to_mac (m destination : MacAddress) :
    addressed_to (ρ.mac m) (ρ.mac destination)
      = addressed_to m destination := by
  unfold addressed_to
  simp only [ρ.injective.eq_iff, ρ.IsBroadcast_mac]

theorem validate_header_header (h : JokerHeader) (max_candidates : UInt8) :
    validate_header (ρ.header h) max_candidates
      = validate_header h max_candidates := by
  rw [Bool.eq_iff_iff, validate_header_iff, validate_header_iff]
  simp only [header, ρ.IsBroadcast_mac, ρ.IsZero_mac, List.length_map,
    List.nodup_map_iff ρ.injective]

theorem local_priority_header (h : JokerHeader) (m : MacAddress) :
    local_priority (ρ.header h) (ρ.mac m) = local_priority h m := by
  unfold local_priority header
  rw [List.findIdx?_map]
  congr 2
  funext c
  simp [ρ.injective.eq_iff]

/-- A renamed frame parses to the renamed header. -/
theorem parses_frame {data : Bytes} {h : JokerHeader} {consumed : Nat}
    (hp : deserialize_header data 0 = (some h, consumed)) :
    deserialize_header (ρ.frame data) 0 = (some (ρ.header h), consumed)
      ∧ ρ.frame data = wire (ρ.header h) ++ ρ.payload (data.drop consumed) := by
  obtain ⟨-, hconsumed, hn⟩ := wire_of_deserialize hp
  have hframe : ρ.frame data
      = wire (ρ.header h) ++ ρ.payload (data.drop consumed) := by
    unfold frame
    rw [hp]
    dsimp only
    rw [serialize_header_eq, List.nil_append]
  have hsize : (ρ.header h).WireSize = consumed := by
    rw [hconsumed]
    unfold JokerHeader.WireSize header
    rw [List.length_map]
  refine ⟨?_, hframe⟩
  rw [hframe, ← hsize]
  refine deserialize_wire _ _ ?_
  show h.num_candidates.toNat = (h.other_candidates.map ρ.mac).length
  rw [List.length_map]
  exact hn

theorem frame_of_none {data : Bytes} {consumed : Nat}
    (hp : deserialize_header data 0 = (none, consumed)) :
    ρ.frame data = data := by
  unfold frame
  rw [hp]

end Renaming

/-- The headers in an exit of the pipeline. -/
def Verdict.renamed (ρ : Renaming) : Verdict → Verdict
  | ack h consumed => ack (ρ.header h) consumed
  | forwarding h consumed => forwarding (ρ.header h) consumed
  | delivered h => delivered (ρ.header h)
  | overheard h => overheard (ρ.header h)
  | candidate h consumed => candidate (ρ.header h) consumed
  | v => v

namespace Renaming

variable (ρ : Renaming)

theorem dataVerdict_header (h : JokerHeader) (consumed : Nat)
    (m : MacAddress) (is_candidate : Bool) (dedup : DedupCache) :
    dataVerdict (ρ.header h) consumed (ρ.mac m) is_candidate dedup
      = (dataVerdict h consumed m is_candidate dedup).renamed ρ := by
  have hdest : (ρ.header h).final_destination = ρ.mac m
      ↔ h.final_destination = m := ρ.injective.eq_iff
  have hid : (ρ.header h).packet_id = h.packet_id := rfl
  have httl : (ρ.header h).ttl = h.ttl := rfl
  unfold dataVerdict
  rw [hid, httl]
  by_cases hm : h.final_destination = m
  · rw [if_pos hm, if_pos (hdest.mpr hm)]
    cases dedup.Contains h.packet_id <;> rfl
  · rw [if_neg hm, if_neg (mt hdest.mp hm)]
    by_cases h0 : h.ttl = 0
    · rw [if_pos h0, if_pos h0]
      rfl
    · rw [if_neg h0, if_neg h0]
      cases dedup.Contains h.packet_id with
      | true => rfl
      | false => cases is_candidate <;> rfl

/-- The pipeline takes the same exit. -/
theorem verdict_frame (data : Bytes) (m : MacAddress) (is_candidate : Bool)
    (config : Config) (dedup : DedupCache) :
    verdict (ρ.frame data) (ρ.mac m) is_candidate config dedup
      = (verdict data m is_candidate config dedup).renamed ρ := by
  rcases hp : deserialize_header data 0 with ⟨_ | h, consumed⟩
  · rw [ρ.frame_of_none hp]
    unfold verdict
    rw [hp]
    rfl
  · have htype : (ρ.header h).type = h.type := rfl
    unfold verdict
    rw [(ρ.parses_frame hp).1, hp]
    dsimp only
    rw [ρ.validate_header_header]
    cases validate_header h config.candidate_count with
    | false => rfl
    | true =>
        rw [if_pos rfl, if_pos rfl, htype]
        cases h.type with
        | kAck => rfl
        | kForwarding => rfl
        | kUnicast => exact ρ.dataVerdict_header h consumed m is_candidate dedup

/-- An expiry callback transmits the same, renamed. -/
theorem transmission_frame (data : Bytes) :
    Joker.transmission (ρ.frame data)
      = (Joker.transmission data).map ρ.frame := by
  rcases hp : deserialize_header data 0 with ⟨_ | h, consumed⟩
  · rw [ρ.frame_of_none hp]
    unfold Joker.transmission
    rw [hp]
    split
    · rfl
    · exact congrArg some (ρ.frame_of_none hp).symm
  · obtain ⟨hdata, hconsumed, hn⟩ := wire_of_deserialize hp
    obtain ⟨hparses, hframe⟩ := ρ.parses_frame hp
    have hne : ∀ (h : JokerHeader) (rest : Bytes), wire h ++ rest ≠ [] :=
      fun h rest heq => by cases heq
    have hne' : data ≠ [] := by
      rw [hdata]
      exact hne h _
    have hdrop : (ρ.frame data).drop consumed
        = ρ.payload (data.drop consumed) := by
      rw [hframe]
      refine List.drop_left' ?_
      rw [wire_length, hconsumed]
      unfold JokerHeader.WireSize header
      rw [List.length_map]
    have httl : (ρ.header h).ttl = h.ttl := rfl
    unfold Joker.transmission
    rw [hparses, hp, if_neg hne', if_neg (by rw [hframe]; exact hne _ _)]
    dsimp only
    rw [httl, hdrop]
    by_cases hlive : h.ttl > 1
    · -- the decremented frame parses, to the decremented header
      have hdown : deserialize_header
          (wire { h with ttl := h.ttl - 1 } ++ data.drop consumed) 0
            = (some { h with ttl := h.ttl - 1 }, consumed) := by
        rw [hconsumed]
        exact deserialize_wire (h := { h with ttl := h.ttl - 1 }) _ _ hn
      have hlen : (wire { h with ttl := h.ttl - 1 }).length = consumed := by
        rw [wire_length, hconsumed]
        rfl
      rw [if_pos hlive, if_pos hlive, Option.map_some, serialize_header_eq,
        serialize_header_eq, List.nil_append, List.nil_append,
        (ρ.parses_frame hdown).2, List.drop_left' hlen]
      rfl
    · rw [if_neg hlive, if_neg hlive]
      rfl

/-- The branch of the callback counts the same. -/
theorem counters_entry (p : PacketId) (it : Option PendingForward) :
    (Expiry.of p (it.map ρ.entry)).counters = (Expiry.of p it).counters := by
  cases it with
  | none => rfl
  | some e =>
      show (Expiry.of p (some (ρ.entry e))).counters = _
      have hentry : (ρ.entry e).frame = ρ.frame e.frame := rfl
      unfold Expiry.of
      dsimp only
      rw [hentry]
      rcases hp : deserialize_header e.frame 0 with ⟨_ | h, consumed⟩
      · rw [ρ.frame_of_none hp, hp]
        split <;> rfl
      · obtain ⟨hdata, -, -⟩ := wire_of_deserialize hp
        obtain ⟨hparses, hframe⟩ := ρ.parses_frame hp
        have hne : e.frame ≠ [] := by
          rw [hdata]
          exact fun heq => by cases heq
        have hne' : ρ.frame e.frame ≠ [] := by
          rw [hframe]
          exact fun heq => by cases heq
        have httl : (ρ.header h).ttl = h.ttl := rfl
        rw [if_neg hne, if_neg hne', hparses]
        dsimp only
        rw [httl]
        split <;> rfl

end Renaming

-- ============================================================ one station

/-- Everything is equal but the frames, and those are renamed. -/
structure Alike (ρ : Renaming) (s s' : TimerNode H) : Prop where
  neighbors : s'.neighbors = s.neighbors
  dedup : s'.dedup = s.dedup
  wheel : s'.coordinator.wheel = s.coordinator.wheel
  pending : ∀ p, s'.coordinator.pending.lookup p
    = (s.coordinator.pending.lookup p).map ρ.entry
  transmitted : s'.nic.transmitted = s.nic.transmitted.map ρ.transmitted
  metrics : s'.metrics = s.metrics

namespace Alike

variable {ρ : Renaming} {s s' : TimerNode H}

theorem start (ρ : Renaming) (capacity : Nat) (ttl : TimePoint) :
    Alike ρ (TimerNode.start H capacity ttl) (TimerNode.start H capacity ttl) :=
  ⟨rfl, rfl, rfl, fun _ => rfl, rfl, rfl⟩

theorem accept (h : Alike ρ s s') (header : JokerHeader) (data : Bytes)
    (m : MacAddress) (config : Config) (now : TimePoint) :
    Alike ρ
      { s with coordinator := s.coordinator.accept header data m config now }
      { s' with
        coordinator := s'.coordinator.accept (ρ.header header) (ρ.frame data)
          (ρ.mac m) config now } := by
  have hprio := ρ.local_priority_header header m
  refine ⟨h.neighbors, h.dedup, ?_, fun p => ?_, h.transmitted, h.metrics⟩
  · show (s'.coordinator.wheel.Schedule now _ _).2
      = (s.coordinator.wheel.Schedule now _ _).2
    rw [h.wheel, hprio]
    rfl
  · dsimp only
    rw [lookup_accept, lookup_accept, h.pending, h.wheel]
    show (if p = header.packet_id then _ else _) = _
    split <;> rfl

theorem overheard (h : Alike ρ s s') (q : PacketId) :
    Alike ρ
      { s with coordinator := s.coordinator.HandleOverheardForward q }
      { s' with coordinator := s'.coordinator.HandleOverheardForward q } := by
  refine ⟨h.neighbors, h.dedup, ?_, fun p => ?_, h.transmitted, h.metrics⟩
  · dsimp only
    unfold TimerCoordinator.HandleOverheardForward
    rw [h.pending q]
    cases s.coordinator.pending.lookup q with
    | none => exact h.wheel
    | some it =>
        show s'.coordinator.wheel.Cancel it.timer_id
          = s.coordinator.wheel.Cancel it.timer_id
        rw [h.wheel]
  · dsimp only
    rw [overheard_pending, overheard_pending, lookup_erase_eq, lookup_erase_eq,
      h.pending]
    split <;> rfl

/-- An expiry callback. -/
theorem expire (h : Alike ρ s s') (cb : ForwardCallback) :
    Alike ρ (on_expiry cb s) (on_expiry cb s') := by
  rw [on_expiry_eq, on_expiry_eq]
  dsimp only
  rw [h.pending cb.packet_id]
  refine ⟨h.neighbors, h.dedup, h.wheel, fun p => ?_, ?_, ?_⟩
  · dsimp only
    rw [lookup_erase_eq, lookup_erase_eq, h.pending]
    split <;> rfl
  · unfold NicAdapter.sendFor
    cases s.coordinator.pending.lookup cb.packet_id with
    | none => exact h.transmitted
    | some e =>
        have hentry : (ρ.entry e).frame = ρ.frame e.frame := rfl
        dsimp only [Option.map_some]
        rw [hentry, ρ.transmission_frame]
        cases transmission e.frame with
        | none => exact h.transmitted
        | some data =>
            show s'.nic.transmitted ++ _ = List.map ρ.transmitted (_ ++ _)
            rw [h.transmitted, List.map_append]
            show _ ++ [_] = _ ++ [ρ.transmitted _]
            unfold Renaming.transmitted
            rw [ρ.broadcast]
            rfl
  · dsimp only
    rw [ρ.counters_entry, h.metrics]

theorem tick (h : Alike ρ s s') (now : TimePoint) :
    Alike ρ (TimerNode.Tick now s) (TimerNode.Tick now s') := by
  unfold TimerNode.Tick
  rw [h.wheel]
  refine tickLoop_related _ _ (R := Alike ρ) ?_ ?_ ?_ _ s s' h
  · intro s t h
    exact h.wheel.symm
  · intro s t w h
    exact ⟨h.neighbors, h.dedup, rfl, h.pending, h.transmitted, h.metrics⟩
  · intro s t cb h
    exact h.expire cb

/-- An event, and the event renamed. -/
theorem step (h : Alike ρ s s') (m : MacAddress) (config : Config)
    (ev : NodeEvent) :
    Alike ρ (s.step m config ev)
      (s'.step (ρ.mac m) config (ρ.nodeEvent ev)) := by
  cases ev with
  | receive now data is_candidate =>
      show Alike ρ _ (s'.step _ _ (.receive now (ρ.frame data) is_candidate))
      rw [TimerNode.step_receive, TimerNode.step_receive, h.dedup,
        ρ.verdict_frame, h.metrics, h.neighbors]
      dsimp only
      have hkept : ∀ v : Verdict, (v.renamed ρ).recorded = v.recorded
          ∧ (v.renamed ρ).counters = v.counters := by
        intro v
        cases v <;> exact ⟨rfl, rfl⟩
      have hbefore : ∀ v : Verdict, Alike ρ
          { s with
            dedup := s.dedup.record v.recorded now
            metrics := v.counters.foldl Metrics.Increment s.metrics }
          { s' with
            neighbors := s.neighbors
            dedup := s.dedup.record v.recorded now
            metrics := v.counters.foldl Metrics.Increment s.metrics } :=
        fun v => ⟨rfl, rfl, h.wheel, h.pending, h.transmitted, rfl⟩
      rw [(hkept _).1, (hkept _).2]
      cases hv : verdict data m is_candidate config s.dedup with
      | candidate header consumed =>
          exact (hbefore (.candidate header consumed)).accept header data m
            config now
      | overheard header =>
          exact (hbefore (.overheard header)).overheard header.packet_id
      | malformed => exact hbefore .malformed
      | invalid => exact hbefore .invalid
      | ack header consumed => exact hbefore (.ack header consumed)
      | forwarding header consumed =>
          exact hbefore (.forwarding header consumed)
      | delivered header => exact hbefore (.delivered header)
      | ttl_zero => exact hbefore .ttl_zero
      | duplicate => exact hbefore .duplicate
  | tick now => exact h.tick now
  | own_send now packet_id =>
      exact ⟨h.neighbors, congrArg (fun c => c.Insert packet_id now) h.dedup,
        h.wheel, h.pending, h.transmitted, h.metrics⟩
  | evict now =>
      exact ⟨h.neighbors, congrArg (fun c => c.EvictExpired now) h.dedup,
        h.wheel, h.pending, h.transmitted, h.metrics⟩

end Alike

-- =========================================================== the network

namespace Network

/-- Two networks that are equal but for the frames. -/
structure Renamed (ρ : Renaming) (net net' : Network N H) : Prop where
  nodes : ∀ n, Alike ρ (net.nodes n) (net'.nodes n)
  air : net'.air = net.air.map ρ.transmission
  handed : net'.handed = net.handed
  source : net'.source = net.source

namespace Renamed

variable {ρ : Renaming} {st : Stations N} {net net' : Network N H}

theorem start (H : WheelHeap ForwardCallback) (ρ : Renaming)
    (st : Stations N) :
    Renamed ρ (Network.start H st) (Network.start H (ρ.stations st)) :=
  ⟨fun _ => Alike.start ρ _ _, rfl, rfl, rfl⟩

theorem air_at (h : Renamed ρ net net') (i : Nat) :
    net'.air[i]? = net.air[i]?.map ρ.transmission := by
  rw [h.air, List.getElem?_map]

theorem hand (h : Renamed ρ net net') (i : Nat) (n : Fin N) :
    Renamed ρ (net.hand i n) (net'.hand i n) := by
  refine ⟨h.nodes, h.air, congrArg (List.cons (i, n)) h.handed, ?_⟩
  unfold Network.hand
  rw [h.source, (h.nodes n).wheel]

/-- An event at a station. -/
theorem act (h : Renamed ρ net net') (n : Fin N) (now : TimePoint)
    (ev : NodeEvent) :
    Renamed ρ (net.act st n now ev)
      (net'.act (ρ.stations st) n now (ρ.nodeEvent ev)) := by
  have hstep := (h.nodes n).step (st.mac n) (st.config n) ev
  refine ⟨fun m => ?_, ?_, h.handed, h.source⟩
  · by_cases hm : m = n
    · subst hm
      rw [act_self, act_self]
      exact hstep
    · rw [act_other st net now ev hm,
        act_other (ρ.stations st) net' now (ρ.nodeEvent ev) hm]
      exact h.nodes m
  · show net'.air ++ List.map _ (((net'.nodes n).step (ρ.mac (st.mac n))
        (st.config n) (ρ.nodeEvent ev)).nic.transmitted.drop _)
      = List.map ρ.transmission (net.air ++ List.map _ _)
    rw [h.air, List.map_append, hstep.transmitted, (h.nodes n).transmitted,
      List.length_map, ← List.map_drop, List.map_map, List.map_map, h.source]
    congr 2
    funext f
    have hparent : (ρ.transmitted f).retained.bind
          (fun r => net.source n r.2.timer_id)
        = f.retained.bind fun r => net.source n r.2.timer_id := by
      unfold Renaming.transmitted
      cases f.retained <;> rfl
    exact congrArg
      (fun parent => (⟨n, ρ.transmitted f, now, parent⟩ : Transmission N))
        hparent

/-- An event, and the event renamed. -/
theorem step (h : Renamed ρ net net') (ev : NetEvent N) :
    Renamed ρ (net.step st ev)
      (net'.step (ρ.stations st) (ρ.event ev)) := by
  cases ev with
  | originate n now destination data =>
      refine ⟨h.nodes, ?_, h.handed, h.source⟩
      show net'.air ++ [(⟨n, ⟨ρ.mac destination, ρ.frame data,
          (ρ.mac destination).IsBroadcast, none⟩, now, none⟩ :
          Transmission N)]
        = List.map ρ.transmission (net.air ++ [_])
      rw [h.air, List.map_append, ρ.IsBroadcast_mac]
      rfl
  | deliver i n now is_candidate =>
      show Renamed ρ _
        (net'.step (ρ.stations st) (.deliver i n now is_candidate))
      have hair := h.air_at i
      cases htx : net.air[i]? with
      | none =>
          rw [htx, Option.map_none] at hair
          simp only [Network.step, htx, hair]
          exact h
      | some tx =>
          rw [htx, Option.map_some] at hair
          have hcan : net'.CanHand i n (ρ.transmission tx)
              ↔ net.CanHand i n tx := by
            unfold CanHand
            rw [htx, hair, h.handed]
            exact ⟨fun hall => ⟨rfl, hall.2⟩, fun hall => ⟨rfl, hall.2⟩⟩
          simp only [Network.step, htx, hair, hcan]
          split
          · exact (h.hand i n).act n now
              (.receive now tx.frame.data is_candidate)
          · exact h
  | tick n now => exact h.act n now (.tick now)
  | own_send n now packet_id => exact h.act n now (.own_send now packet_id)
  | evict n now => exact h.act n now (.evict now)

/-- Renamed frames reach the same stations with the same flags. -/
theorem heard_iff (h : Renamed ρ net net') (link : Fin N → Fin N → Prop)
    (ev : NetEvent N) :
    Heard (ρ.stations st) link net' (ρ.event ev) ↔ Heard st link net ev := by
  cases ev with
  | deliver i n now is_candidate =>
      show (∃ tx ∈ net'.air[i]?, link tx.sender n
          ∧ is_candidate = addressed_to (ρ.mac (st.mac n)) tx.frame.destination)
        ↔ ∃ tx ∈ net.air[i]?, link tx.sender n
          ∧ is_candidate = addressed_to (st.mac n) tx.frame.destination
      rw [h.air_at i]
      cases net.air[i]? with
      | none => simp
      | some tx =>
          have hflag : addressed_to (ρ.mac (st.mac n))
              (ρ.transmission tx).frame.destination
                = addressed_to (st.mac n) tx.frame.destination :=
            ρ.addressed_to_mac (st.mac n) tx.frame.destination
          simp only [Option.map_some, Option.mem_some_iff, exists_eq_left',
            hflag]
          rfl
  | originate n now destination data => exact Iff.rfl
  | tick n now => exact Iff.rfl
  | own_send n now packet_id => exact Iff.rfl
  | evict n now => exact Iff.rfl

theorem run (link : Fin N → Fin N → Prop) (es : List (NetEvent N)) :
    ∀ {net net' : Network N H}, Renamed ρ net net' →
      Renamed ρ (exec (Network.step st) net es)
          (exec (Network.step (ρ.stations st)) net' (es.map ρ.event))
        ∧ (Along (Network.step (ρ.stations st)) (Heard (ρ.stations st) link)
            net' (es.map ρ.event)
          ↔ Along (Network.step st) (Heard st link) net es) := by
  induction es with
  | nil => intro net net' h; exact ⟨h, Iff.rfl⟩
  | cons ev es ih =>
      intro net net' h
      have hstep : Renamed ρ (net.step st ev)
          (net'.step (ρ.stations st) (ρ.event ev)) := h.step ev
      obtain ⟨hrun, halong⟩ := ih hstep
      exact ⟨hrun, and_congr (h.heard_iff link ev) halong⟩

end Renamed

/-- In every network, for every renaming of its stations that keeps
addresses apart and the zero and the broadcast address as they are, and
every rewriting of payloads, and in every run: what
comes on the air is the same, renamed; every station remembers the same
packet ids, holds the same timers, has counted the same and has the same
packets pending, renamed; and the medium handed over the same, by the
same links. -/
theorem renamed_network (H : WheelHeap ForwardCallback) (ρ : Renaming)
    (st : Stations N) (link : Fin N → Fin N → Prop)
    (es : List (NetEvent N)) :
    let net := run H st es
    let net' := run H (ρ.stations st) (es.map ρ.event)
    net'.air = net.air.map ρ.transmission
    ∧ net'.handed = net.handed
    ∧ (∀ n, (net'.nodes n).dedup = (net.nodes n).dedup
      ∧ (net'.nodes n).coordinator.wheel = (net.nodes n).coordinator.wheel
      ∧ (net'.nodes n).metrics = (net.nodes n).metrics
      ∧ ∀ p, (net'.nodes n).coordinator.pending.lookup p
        = ((net.nodes n).coordinator.pending.lookup p).map ρ.entry)
    ∧ (Along (step (ρ.stations st)) (Heard (ρ.stations st) link)
        (start H (ρ.stations st)) (es.map ρ.event)
      ↔ Along (step st) (Heard st link) (start H st) es) := by
  obtain ⟨h, halong⟩ := Renamed.run link es (Renamed.start H ρ st)
  refine ⟨h.air, h.handed, fun n => ?_, halong⟩
  exact ⟨(h.nodes n).dedup, (h.nodes n).wheel, (h.nodes n).metrics,
    (h.nodes n).pending⟩

/-- Stations 1 and 9 change addresses, and payloads are read backwards. -/
def exchanged : Renaming where
  mac := Equiv.swap (station 1) (station 9)
  payload := List.reverse
  injective := (Equiv.swap (station 1) (station 9)).injective
  zero := Equiv.swap_apply_of_ne_of_ne (by decide) (by decide)
  broadcast := Equiv.swap_apply_of_ne_of_ne (by decide) (by decide)

/-- Station `o` sends packet 7, which is for station 9, to `a`, and `a`
forwards it. -/
def forwarded_once (st : Stations N) (o a : Fin N) : List (NetEvent N) :=
  [.originate o 0 (st.mac a) (sample_frame 7 3), .deliver 0 a 1000000 true,
    .tick a 60000000]

theorem renamed_network_exchanged :
    (run (sortedHeap _) (exchanged.stations three_stations)
        ((forwarded_once three_stations 0 1).map exchanged.event)).air
      = (run (sortedHeap _) three_stations
          (forwarded_once three_stations 0 1)).air.map
        exchanged.transmission :=
  (renamed_network (sortedHeap _) exchanged three_stations (fun _ _ => True)
    (forwarded_once three_stations 0 1)).1

end Network

end Joker
