/-
Restarting a node loses what arrives meanwhile, and nothing else.

A restart forgets the duplicate cache, and the other phone may have its
packets still on their way. It does no harm: the cache only ever keeps out
packets the phone sent or got (`InstanceOk`), a packet arrives once, and
`g_seq_counter` outlives the instance, so that the messages of a process
keep being told apart. As long as the packet ids of all messages are
distinct, every message of the other phone is therefore shown once,
missed because no node was running when it arrived, or still on its way
(`restart_exactly_once`).
-/
import Joker.Model.Sessions
import Joker.Proofs.Chat
import Joker.Proofs.NodeRuns
import Mathlib.Data.List.Induction

namespace Joker

open Transition DedupCache VectorHeap

variable {H : WheelHeap ForwardCallback}

-- ========================================================= one instance

/-- An instance of a phone whose cache holds some of the ids. -/
structure InstanceOk (name : NodeName) (ids : List PacketId)
    (s : JokerInstance H) : Prop where
  name_eq : s.name = name
  config : s.config = {}
  timers : s.node.coordinator.wheel.timers = []
  cache : ∃ r : Recency PacketId TimePoint 1000,
    Represents s.node.dedup r ∧ ∀ p ∈ r.keys, p ∈ ids

namespace InstanceOk

variable {name : NodeName} {ids : List PacketId} {s : JokerInstance H}

/-- A new instance knows no packet. -/
theorem create (H : WheelHeap ForwardCallback) (name : NodeName)
    (ids : List PacketId) :
    InstanceOk name ids (JokerInstance.create H name) where
  name_eq := rfl
  config := rfl
  timers := rfl
  cache := ⟨_, represents_empty 1000 _, fun _ h => absurd h List.not_mem_nil⟩

theorem mono (h : InstanceOk name ids s) {ids' : List PacketId}
    (hsub : ids ⊆ ids') : InstanceOk name ids' s := by
  obtain ⟨r, hr, hkeys⟩ := h.cache
  exact ⟨h.name_eq, h.config, h.timers, r, hr, fun p hp => hsub (hkeys p hp)⟩

theorem not_contains (h : InstanceOk name ids s) {p : PacketId}
    (hp : p ∉ ids) : s.node.dedup.Contains p = false := by
  obtain ⟨r, hr, hkeys⟩ := h.cache
  rw [Bool.eq_false_iff]
  intro hin
  exact hp (hkeys p ((hr.contains_iff p).mp hin))

/-- Recording one more id. -/
theorem cache_insert {s' : JokerInstance H} (h : InstanceOk name ids s)
    {p : PacketId} {now : TimePoint}
    (hdedup : s'.node.dedup = s.node.dedup.Insert p now) :
    ∃ r : Recency PacketId TimePoint 1000,
      Represents s'.node.dedup r ∧ ∀ q ∈ r.keys, q ∈ p :: ids := by
  obtain ⟨r, hr, hkeys⟩ := h.cache
  refine ⟨r.touch (by decide) p now, ?_, fun q hq => ?_⟩
  · rw [hdedup]
    exact hr.insert (by decide) p now
  · rcases Recency.mem_keys_of_touch _ hq with hold | rfl
    · exact List.mem_cons_of_mem _ (hkeys q hold)
    · exact List.mem_cons_self

/-- Sending records the id of the packet. -/
theorem send (h : InstanceOk name ids s) (seq : UInt32) (msg : Bytes)
    (now : TimePoint) :
    InstanceOk name (joker_packet_id (id_bytes msg seq) :: ids)
      (send_from_node ⟨s, seq⟩ msg now).2.g_node :=
  ⟨h.name_eq, h.config, h.timers, h.cache_insert rfl⟩

/-- A packet with a new id is shown, and its id recorded. -/
theorem receive (h : InstanceOk name ids s) {x : Packet} (hx : x.1 ∉ ids)
    (hmsg : x.2 ≠ []) (now : TimePoint) :
    InstanceOk name (x.1 :: ids)
        (s.receive_callback (frame_to name x) true now)
      ∧ (s.receive_callback (frame_to name x) true now).ui
        = s.ui ++ [x.2] := by
  obtain ⟨hname, hconfig, hcoord, -, hnew⟩ :=
    receive_frame_to h.name_eq h.config hmsg now
  obtain ⟨hdedup, hui⟩ := hnew (h.not_contains hx)
  refine ⟨⟨hname, hconfig, ?_, h.cache_insert hdedup⟩, hui⟩
  rw [hcoord]
  exact h.timers

/-- There is nothing to tick. -/
theorem tick (h : InstanceOk name ids s) (now : TimePoint) :
    TimerNode.Tick now s.node = s.node := by
  unfold TimerNode.Tick
  rw [h.timers]
  rfl

end InstanceOk

-- ============================================================ one phone

/-- The ids of the packets of two lists. -/
def ids_of (sent : List Bytes) (got : List Packet) : List PacketId :=
  (packets sent).map Prod.fst ++ got.map Prod.fst

/-- The account of one phone: what the other sent is what it got, what was
gone when it arrived and what is on its way. -/
structure SessionOk (c : Sessions H) (name : NodeName)
    (flying got gone : List Packet) : Prop where
  node : ∀ s ∈ (c.processes name).g_node,
    InstanceOk name (ids_of (c.sent name) got) s
  counter : (c.processes name).g_seq_counter
    = UInt32.ofNat ((c.sent name).length + 1)
  in_flight : c.in_flight name = flying.map (frame_to name)
  missed : c.missed name = gone.map (frame_to name)
  shown : c.shown name = got.map Prod.snd
  traffic : (packets (c.sent name.peer)).Perm (got ++ gone ++ flying)

namespace Sessions

/-- The ids of everything the two phones sent. -/
def packet_ids (c : Sessions H) : List PacketId :=
  (packets (c.sent .GO) ++ packets (c.sent .CLI)).map Prod.fst

/-- Distinct ids: on each phone, and across the two. -/
theorem packet_ids_nodup {c : Sessions H} (h : c.packet_ids.Nodup)
    (name : NodeName) :
    ((packets (c.sent name)).map Prod.fst).Nodup
      ∧ ∀ p ∈ (packets (c.sent name)).map Prod.fst,
        p ∉ (packets (c.sent name.peer)).map Prod.fst :=
  Chat.packet_ids_nodup
    (c := { phones := (Chat.start H).phones, sent := c.sent }) h name

end Sessions

namespace SessionOk

variable {c : Sessions H} {name : NodeName} {flying got gone : List Packet}

theorem start (H : WheelHeap ForwardCallback) (name : NodeName) :
    SessionOk ({} : Sessions H) name [] [] [] where
  node _ h := by cases h
  counter := rfl
  in_flight := rfl
  missed := rfl
  shown := rfl
  traffic := List.Perm.refl _

/-- What does not reach a phone leaves its account alone. -/
theorem congr {c' : Sessions H} (h : SessionOk c name flying got gone)
    (hprocess : c'.processes name = c.processes name)
    (hflight : c'.in_flight name = c.in_flight name)
    (hmissed : c'.missed name = c.missed name)
    (hshown : c'.shown name = c.shown name) (hsent : c'.sent = c.sent) :
    SessionOk c' name flying got gone where
  node := by rw [hprocess, hsent]; exact h.node
  counter := by rw [hprocess, hsent]; exact h.counter
  in_flight := hflight.trans h.in_flight
  missed := hmissed.trans h.missed
  shown := hshown.trans h.shown
  traffic := by rw [hsent]; exact h.traffic

/-- Another instance, or none. -/
theorem setProcess (h : SessionOk c name flying got gone)
    {p : JokerProcess H} (hcounter : p.g_seq_counter
      = (c.processes name).g_seq_counter)
    (hnode : ∀ s ∈ p.g_node, InstanceOk name (ids_of (c.sent name) got) s) :
    SessionOk (c.setProcess name p) name flying got gone := by
  have hself : (c.setProcess name p).processes name = p :=
    Function.update_self _ _ _
  refine ⟨?_, ?_, h.in_flight, h.missed, h.shown, h.traffic⟩
  · rw [hself]
    exact hnode
  · rw [hself, hcounter]
    exact h.counter

/-- The id of a packet on its way is that of no packet sent or got. -/
theorem id_new (h : SessionOk c name flying got gone)
    (hnd : c.packet_ids.Nodup) {x : Packet} (hx : x ∈ flying) :
    x.1 ∉ ids_of (c.sent name) got := by
  obtain ⟨hndpeer, hcross⟩ := Sessions.packet_ids_nodup hnd name.peer
  have hpeer : x.1 ∈ (packets (c.sent name.peer)).map Prod.fst :=
    List.mem_map_of_mem (h.traffic.mem_iff.mpr (List.mem_append_right _ hx))
  have hnot := hcross x.1 hpeer
  rw [NodeName.peer_peer] at hnot
  intro hmem
  rcases List.mem_append.mp hmem with hsent | hgot
  · exact hnot hsent
  · have hsplit := (h.traffic.map Prod.fst).nodup_iff.mp hndpeer
    rw [List.map_append, List.nodup_append] at hsplit
    refine hsplit.2.2 x.1 ?_ x.1 (List.mem_map_of_mem hx) rfl
    rw [List.map_append]
    exact List.mem_append_left _ hgot

/-- A packet arrives at a running node. -/
theorem deliver (h : SessionOk c name flying got gone)
    (hnd : c.packet_ids.Nodup) {k : Nat} {x : Packet}
    (hx : flying[k]? = some x) (hmsg : x.2 ≠ []) {s : JokerInstance H}
    (hs : (c.processes name).g_node = some s) (now : TimePoint) :
    SessionOk (c.step (.deliver name k now)) name (flying.eraseIdx k)
      (got ++ [x]) gone := by
  have hframe : (c.in_flight name)[k]? = some (frame_to name x) := by
    rw [h.in_flight, List.getElem?_map, hx]
    rfl
  obtain ⟨hok, hui⟩ := (h.node s hs).receive
    (h.id_new hnd (List.mem_of_getElem? hx)) hmsg now
  have hprocess : (c.step (.deliver name k now)).processes name
      = { c.processes name with
          g_node := some (s.receive_callback (frame_to name x) true now) } := by
    simp only [Sessions.step, hframe, hs]
    exact Function.update_self _ _ _
  have hsent : (c.step (.deliver name k now)).sent = c.sent := by
    simp only [Sessions.step, hframe, hs]
    rfl
  refine ⟨?_, ?_, ?_, ?_, ?_, ?_⟩
  · rw [hprocess, hsent]
    intro s' hs'
    obtain rfl := Option.some.inj hs'
    refine hok.mono fun p hp => ?_
    unfold ids_of
    rw [List.map_append, ← List.append_assoc]
    rcases List.mem_cons.mp hp with rfl | hp
    · exact List.mem_append_right _ (List.mem_singleton_self _)
    · exact List.mem_append_left _ hp
  · rw [hprocess, hsent]
    exact h.counter
  · simp only [Sessions.step, hframe, hs]
    refine (Function.update_self _ _ _).trans ?_
    rw [h.in_flight, List.eraseIdx_map]
  · simp only [Sessions.step, hframe, hs]
    exact h.missed
  · simp only [Sessions.step, hframe, hs]
    refine (Function.update_self _ _ _).trans ?_
    rw [hui, List.drop_left, h.shown, List.map_append]
    rfl
  · rw [hsent]
    refine h.traffic.trans ?_
    rw [List.append_assoc, List.append_assoc, List.append_assoc]
    refine List.Perm.append_left _ ?_
    refine ((Selection.perm_cons_rest hx).append_left gone).trans ?_
    exact List.perm_middle

/-- A packet arrives and no node is running. -/
theorem miss (h : SessionOk c name flying got gone) {k : Nat} {x : Packet}
    (hx : flying[k]? = some x) (hs : (c.processes name).g_node = none)
    (now : TimePoint) :
    SessionOk (c.step (.deliver name k now)) name (flying.eraseIdx k) got
      (gone ++ [x]) := by
  have hframe : (c.in_flight name)[k]? = some (frame_to name x) := by
    rw [h.in_flight, List.getElem?_map, hx]
    rfl
  simp only [Sessions.step, hframe, hs]
  refine ⟨h.node, h.counter, ?_, ?_, h.shown, ?_⟩
  · refine (Function.update_self _ _ _).trans ?_
    rw [h.in_flight, List.eraseIdx_map]
  · refine (Function.update_self _ _ _).trans ?_
    rw [h.missed, List.map_append]
    rfl
  · have hpicked := (Selection.perm_cons_rest hx).append_left gone
    refine h.traffic.trans ?_
    rw [List.append_assoc, List.append_assoc, List.append_assoc]
    exact hpicked.append_left got

/-- The phone itself sends. -/
theorem send_self (h : SessionOk c name flying got gone)
    {s : JokerInstance H} (hs : (c.processes name).g_node = some s)
    (now : TimePoint) (msg : Bytes) :
    SessionOk (c.step (.sendChatMessage name now msg)) name flying got
      gone := by
  have hne := name.peer_ne
  let seq := (c.processes name).g_seq_counter
  have hsend : (c.processes name).sendChatMessage msg now
      = (some (send_from_node ⟨s, seq⟩ msg now).1,
        ⟨some (send_from_node ⟨s, seq⟩ msg now).2.g_node, seq + 1⟩) := by
    unfold JokerProcess.sendChatMessage
    rw [hs]
    rfl
  have hsent : (c.step (.sendChatMessage name now msg)).sent name
      = c.sent name ++ [msg] := by
    simp only [Sessions.step, hsend]
    exact Function.update_self _ _ _
  have hprocess : (c.step (.sendChatMessage name now msg)).processes name
      = ⟨some (send_from_node ⟨s, seq⟩ msg now).2.g_node, seq + 1⟩ := by
    simp only [Sessions.step, hsend]
    exact Function.update_self _ _ _
  refine ⟨?_, ?_, ?_, ?_, ?_, ?_⟩
  · rw [hprocess, hsent]
    intro s' hs'
    obtain rfl := Option.some.inj hs'
    refine ((h.node s hs).send seq msg now).mono fun p hp => ?_
    unfold ids_of
    rw [packets_concat, List.map_append, List.append_assoc]
    rcases List.mem_cons.mp hp with rfl | hp
    · refine List.mem_append_right _ (List.mem_append_left _ ?_)
      rw [show seq = _ from h.counter]
      exact List.mem_singleton_self _
    · rcases List.mem_append.mp hp with hp | hp
      · exact List.mem_append_left _ hp
      · exact List.mem_append_right _ (List.mem_append_right _ hp)
  · rw [hprocess, hsent, List.length_append]
    show seq + 1 = _
    rw [show seq = _ from h.counter]
    exact (UInt32.ofNat_add _ 1).symm
  · simp only [Sessions.step, hsend]
    exact (Function.update_of_ne hne.symm _ _).trans h.in_flight
  · simp only [Sessions.step, hsend]
    exact h.missed
  · simp only [Sessions.step, hsend]
    exact h.shown
  · simp only [Sessions.step, hsend]
    rw [Function.update_of_ne hne]
    exact h.traffic

/-- The other phone sends: one more packet is on its way. -/
theorem send_peer (h : SessionOk c name.peer flying got gone)
    {s : JokerInstance H} (hs : (c.processes name).g_node = some s)
    (hname : s.name = name)
    (hcounter : (c.processes name).g_seq_counter
      = UInt32.ofNat ((c.sent name).length + 1)) (now : TimePoint)
    (msg : Bytes) :
    SessionOk (c.step (.sendChatMessage name now msg)) name.peer
      (flying ++ [(joker_packet_id (id_bytes msg
        (UInt32.ofNat ((c.sent name).length + 1))), msg)]) got gone := by
  have hne := name.peer_ne
  let seq := (c.processes name).g_seq_counter
  have hsend : (c.processes name).sendChatMessage msg now
      = (some (send_from_node ⟨s, seq⟩ msg now).1,
        ⟨some (send_from_node ⟨s, seq⟩ msg now).2.g_node, seq + 1⟩) := by
    unfold JokerProcess.sendChatMessage
    rw [hs]
    rfl
  have hprocess : (c.step (.sendChatMessage name now msg)).processes name.peer
      = c.processes name.peer := by
    simp only [Sessions.step, hsend]
    exact Function.update_of_ne hne _ _
  have hsent : (c.step (.sendChatMessage name now msg)).sent name.peer
      = c.sent name.peer := by
    simp only [Sessions.step, hsend]
    exact Function.update_of_ne hne _ _
  refine ⟨?_, ?_, ?_, ?_, ?_, ?_⟩
  · rw [hprocess, hsent]
    exact h.node
  · rw [hprocess, hsent]
    exact h.counter
  · have hframe : (send_from_node ⟨s, seq⟩ msg now).1 = frame_to name.peer
        (joker_packet_id (id_bytes msg seq), msg) :=
      send_from_node_frame hname msg now
    simp only [Sessions.step, hsend]
    refine (Function.update_self _ _ _).trans ?_
    rw [h.in_flight, List.map_append, ← hcounter]
    exact congrArg (fun frame => _ ++ [frame]) hframe
  · simp only [Sessions.step, hsend]
    exact h.missed
  · simp only [Sessions.step, hsend]
    exact h.shown
  · have htraffic := h.traffic
    rw [NodeName.peer_peer] at htraffic ⊢
    simp only [Sessions.step, hsend]
    rw [Function.update_self, packets_concat, ← List.append_assoc]
    exact htraffic.append_right _

end SessionOk

-- ========================================================== both phones

/-- The account of both. -/
structure SessionsOk (c : Sessions H)
    (flying got gone : NodeName → List Packet) : Prop where
  side : ∀ name, SessionOk c name (flying name) (got name) (gone name)
  nonempty : ∀ name, ∀ m ∈ c.sent name, m ≠ []

/-- Some account of both can be given in which each phone got what these
frames carry, in this order. -/
def Sessions.Kept (c : Sessions H) (frames : NodeName → List Bytes) : Prop :=
  ∃ flying got gone, SessionsOk c flying got gone
    ∧ ∀ name, (got name).map (frame_to name) = frames name

namespace SessionsOk

variable {c : Sessions H} {flying got gone : NodeName → List Packet}

/-- A process is started or stopped. -/
theorem setProcess (h : SessionsOk c flying got gone) (name : NodeName)
    {p : JokerProcess H}
    (hcounter : p.g_seq_counter = (c.processes name).g_seq_counter)
    (hnode : ∀ s ∈ p.g_node,
      InstanceOk name (ids_of (c.sent name) (got name)) s) :
    SessionsOk (c.setProcess name p) flying got gone := by
  refine ⟨fun m => ?_, h.nonempty⟩
  by_cases hm : m = name
  · subst hm
    exact (h.side m).setProcess hcounter hnode
  · exact (h.side m).congr (Function.update_of_ne hm _ _) rfl rfl rfl rfl

/-- A message is sent, or dropped. -/
theorem send (h : SessionsOk c flying got gone) (name : NodeName)
    (now : TimePoint) {msg : Bytes} (hmsg : msg ≠ []) :
    (c.step (.sendChatMessage name now msg)).Kept fun m =>
      (got m).map (frame_to m) := by
  cases hs : (c.processes name).g_node with
  | none =>
      have hsame : c.step (.sendChatMessage name now msg)
          = c.setProcess name (c.processes name) := by
        simp only [Sessions.step, JokerProcess.sendChatMessage, hs]
      rw [hsame]
      refine ⟨flying, got, gone, h.setProcess name rfl fun s hs' => ?_,
        fun _ => rfl⟩
      exact (h.side name).node s hs'
  | some s =>
      have hsent : ∀ m, (c.step (.sendChatMessage name now msg)).sent m
          = Function.update c.sent name (c.sent name ++ [msg]) m := by
        intro m
        simp only [Sessions.step, JokerProcess.sendChatMessage, hs]
      refine ⟨Function.update flying name.peer (flying name.peer
          ++ [(joker_packet_id (id_bytes msg
            (UInt32.ofNat ((c.sent name).length + 1))), msg)]), got, gone,
        ⟨fun m => ?_, fun m x hx => ?_⟩, fun _ => rfl⟩
      · rcases NodeName.eq_or_eq_peer m name with rfl | rfl
        · rw [Function.update_of_ne m.peer_ne.symm]
          exact (h.side m).send_self hs now msg
        · rw [Function.update_self]
          exact (h.side name.peer).send_peer hs
            ((h.side name).node s hs).name_eq (h.side name).counter now msg
      · rw [hsent] at hx
        by_cases hm : m = name
        · subst hm
          rw [Function.update_self] at hx
          rcases List.mem_append.mp hx with hx | hx
          · exact h.nonempty m x hx
          · rw [List.mem_singleton.mp hx]
            exact hmsg
        · rw [Function.update_of_ne hm] at hx
          exact h.nonempty m x hx

/-- A frame arrives, or nothing does. -/
theorem deliver (h : SessionsOk c flying got gone)
    (hnd : c.packet_ids.Nodup) (name : NodeName) (k : Nat)
    (now : TimePoint) :
    (c.step (.deliver name k now)).Kept fun m =>
      (got m).map (frame_to m) ++ c.arrived m (.deliver name k now) := by
  cases hx : (flying name)[k]? with
  | none =>
      have hframe : (c.in_flight name)[k]? = none := by
        rw [(h.side name).in_flight, List.getElem?_map, hx]
        rfl
      simp only [Sessions.step, hframe]
      refine ⟨flying, got, gone, h, fun m => ?_⟩
      simp [Sessions.arrived, hframe]
  | some x =>
      have hframe : (c.in_flight name)[k]? = some (frame_to name x) := by
        rw [(h.side name).in_flight, List.getElem?_map, hx]
        rfl
      have hmsg : x.2 ≠ [] := by
        refine h.nonempty name.peer x.2 ?_
        rw [← packets_snd (c.sent name.peer)]
        refine List.mem_map_of_mem ((h.side name).traffic.mem_iff.mpr ?_)
        exact List.mem_append_right _ (List.mem_of_getElem? hx)
      have hother : ∀ m, m ≠ name → ∀ (l : NodeName → List Packet) v,
          Function.update l name v m = l m :=
        fun m hm l v => Function.update_of_ne hm _ _
      cases hs : (c.processes name).g_node with
      | none =>
          refine ⟨Function.update flying name ((flying name).eraseIdx k), got,
            Function.update gone name (gone name ++ [x]),
            ⟨fun m => ?_, ?_⟩, fun m => ?_⟩
          · by_cases hm : m = name
            · subst hm
              rw [Function.update_self, Function.update_self]
              exact (h.side m).miss hx hs now
            · rw [hother m hm, hother m hm]
              simp only [Sessions.step, hframe, hs]
              exact (h.side m).congr rfl (Function.update_of_ne hm _ _)
                (Function.update_of_ne hm _ _) rfl rfl
          · simp only [Sessions.step, hframe, hs]
            exact h.nonempty
          · simp [Sessions.arrived, hs]
      | some s =>
          refine ⟨Function.update flying name ((flying name).eraseIdx k),
            Function.update got name (got name ++ [x]), gone,
            ⟨fun m => ?_, ?_⟩, fun m => ?_⟩
          · by_cases hm : m = name
            · subst hm
              rw [Function.update_self, Function.update_self]
              exact (h.side m).deliver hnd hx hmsg hs now
            · rw [hother m hm, hother m hm]
              simp only [Sessions.step, hframe, hs]
              exact (h.side m).congr (Function.update_of_ne hm _ _)
                (Function.update_of_ne hm _ _) rfl
                (Function.update_of_ne hm _ _) rfl
          · simp only [Sessions.step, hframe, hs]
            exact h.nonempty
          · by_cases hm : m = name
            · subst hm
              simp [Sessions.arrived, hs, hframe]
            · simp [Sessions.arrived, hother m hm, Ne.symm hm]

/-- A tick finds no timer. -/
theorem tick (h : SessionsOk c flying got gone) (name : NodeName)
    (now : TimePoint) :
    (c.step (.tick name now)).Kept fun m => (got m).map (frame_to m) := by
  refine ⟨flying, got, gone, ?_, fun _ => rfl⟩
  cases hs : (c.processes name).g_node with
  | none =>
      simp only [Sessions.step, hs]
      exact h
  | some s =>
      have hok := (h.side name).node s hs
      have hsame : (c.step (.tick name now)).processes = Function.update
          c.processes name { c.processes name with g_node := some s } := by
        simp only [Sessions.step, hs, hok.tick]
        rfl
      have hflight : (c.step (.tick name now)).in_flight = c.in_flight := by
        simp only [Sessions.step, hs, hok.tick, List.drop_length, List.map_nil,
          List.append_nil, Function.update_eq_self]
      have hrest := (h.setProcess name
        (p := { c.processes name with g_node := some s }) rfl
        (fun s' hs' => (h.side name).node s' (by rw [hs]; exact hs')))
      refine ⟨fun m => (hrest.side m).congr (congrFun hsame m)
        (congrFun hflight m) ?_ ?_ ?_, ?_⟩
      all_goals simp only [Sessions.step, hs]
      · rfl
      · rfl
      · rfl
      · exact h.nonempty

/-- One event: what arrives at a running node is got. -/
theorem step (h : SessionsOk c flying got gone) (hnd : c.packet_ids.Nodup)
    (ev : SessionEvent)
    (hev : ∀ name now msg, ev = .sendChatMessage name now msg → msg ≠ []) :
    (c.step ev).Kept fun m =>
      (got m).map (frame_to m) ++ c.arrived m ev := by
  cases ev with
  | startJokerProtocol name =>
      simp only [Sessions.arrived, List.append_nil]
      refine ⟨flying, got, gone, h.setProcess name ?_ fun s hs => ?_,
        fun _ => rfl⟩
      · unfold JokerProcess.startJokerProtocol
        split <;> rfl
      · cases hnode : (c.processes name).g_node with
        | none =>
            simp only [JokerProcess.startJokerProtocol, hnode,
              Option.mem_some_iff] at hs
            subst hs
            exact InstanceOk.create H name _
        | some s' =>
            simp only [JokerProcess.startJokerProtocol, hnode] at hs
            exact (h.side name).node s (by rw [hnode]; exact hs)
  | stopJokerProtocol name =>
      simp only [Sessions.arrived, List.append_nil]
      refine ⟨flying, got, gone, h.setProcess name rfl fun s hs => ?_,
        fun _ => rfl⟩
      cases hs
  | sendChatMessage name now msg =>
      simp only [Sessions.arrived, List.append_nil]
      exact h.send name now (hev name now msg rfl)
  | deliver name k now => exact h.deliver hnd name k now
  | tick name now =>
      simp only [Sessions.arrived, List.append_nil]
      exact h.tick name now

end SessionsOk

namespace Sessions

/-- What was sent stays sent. -/
theorem step_sent (c : Sessions H) (ev : SessionEvent) (name : NodeName) :
    ∃ more, (c.step ev).sent name = c.sent name ++ more := by
  have hsame : ∀ {c' : Sessions H}, c'.sent = c.sent →
      ∃ more, c'.sent name = c.sent name ++ more :=
    fun h => ⟨[], by rw [h, List.append_nil]⟩
  cases ev with
  | startJokerProtocol n => exact hsame rfl
  | stopJokerProtocol n => exact hsame rfl
  | sendChatMessage n now msg =>
      cases hs : (c.processes n).g_node with
      | none =>
          simp only [step, JokerProcess.sendChatMessage, hs]
          exact hsame rfl
      | some s =>
          simp only [step, JokerProcess.sendChatMessage, hs]
          by_cases hn : name = n
          · subst hn
            exact ⟨[msg], Function.update_self _ _ _⟩
          · exact ⟨[], (Function.update_of_ne hn _ _).trans
              (List.append_nil _).symm⟩
  | deliver n k now =>
      cases hframe : (c.in_flight n)[k]? with
      | none =>
          simp only [step, hframe]
          exact hsame rfl
      | some frame =>
          cases hs : (c.processes n).g_node with
          | none =>
              simp only [step, hframe, hs]
              exact hsame rfl
          | some s =>
              simp only [step, hframe, hs]
              exact hsame rfl
  | tick n now =>
      cases hs : (c.processes n).g_node with
      | none =>
          simp only [step, hs]
          exact hsame rfl
      | some s =>
          simp only [step, hs]
          exact hsame rfl

/-- Ids that are distinct in the end were so all along. -/
theorem packet_ids_nodup_of_step {c : Sessions H} {ev : SessionEvent}
    (h : (c.step ev).packet_ids.Nodup) : c.packet_ids.Nodup := by
  have hsub : ∀ name, (packets (c.sent name)).Sublist
      (packets ((c.step ev).sent name)) := by
    intro name
    obtain ⟨more, hmore⟩ := step_sent c ev name
    rw [hmore]
    unfold packets
    rw [List.mapIdx_append]
    exact List.sublist_append_left _ _
  exact h.sublist (((hsub .GO).append (hsub .CLI)).map Prod.fst)

end Sessions

end Joker
