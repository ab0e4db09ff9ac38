/-
Two phones: is every message shown exactly once?

A phone drops a frame when it has the packet id in its cache, and it has
there the ids of what it received and of what it sent. The id is a CRC of
the message and the sender's counter; it does not name the sender. So a
message is lost when another message, of either phone, has its id, and
not otherwise: with nothing left on its way, each user has seen exactly
the other's messages if and only if all ids are distinct
(`chat_exactly_once_iff`).

# The argument

`SideOk` is the account of one phone: what is on its way to it, what it
`got` and what of that it has `shown`, against what the other phone sent,
and a cache that holds exactly the ids sent and got. No two shown packets
have one id, on one phone (the cache) or across the two (a phone that
shows an id did not send it, and the other did). So if everything was
shown there are as many ids as messages; and if all ids are distinct,
what arrives is new.
-/
import Joker.Lib.Selection
import Joker.Proofs.DedupCache
import Joker.Proofs.UiDispatch
import Mathlib.Data.List.Induction
import Mathlib.Data.Finset.Dedup
import Mathlib.Data.List.Perm.Subperm
import Mathlib.Tactic.Tauto

namespace Joker

open Transition DedupCache VectorHeap

variable {H : WheelHeap ForwardCallback}

namespace NodeName

theorem peer_ne (name : NodeName) : name.peer ≠ name := by
  cases name <;> decide

theorem peer_peer (name : NodeName) : name.peer.peer = name := by
  cases name <;> rfl

theorem eq_or_eq_peer (m n : NodeName) : m = n ∨ m = n.peer := by
  cases m <;> cases n <;> decide

end NodeName

-- ============================================================ the packets

/-- A packet id with its message. -/
abbrev Packet := PacketId × Bytes

/-- What a phone sends for its messages, with counter 1 for the first. -/
def packets (msgs : List Bytes) : List Packet :=
  msgs.mapIdx fun i m =>
    (joker_packet_id (id_bytes m (UInt32.ofNat (i + 1))), m)

theorem packets_concat (msgs : List Bytes) (m : Bytes) :
    packets (msgs ++ [m]) = packets msgs
      ++ [(joker_packet_id (id_bytes m (UInt32.ofNat (msgs.length + 1))),
          m)] := by
  unfold packets
  rw [List.mapIdx_append]
  simp only [List.mapIdx_cons, List.mapIdx_nil, Nat.zero_add]

theorem packets_snd (msgs : List Bytes) :
    (packets msgs).map Prod.snd = msgs := by
  induction msgs using List.reverseRecOn with
  | nil => rfl
  | append_singleton msgs m ih =>
      rw [packets_concat, List.map_append, ih]
      rfl

/-- The ids of everything the two phones sent. -/
def Chat.packet_ids (c : Chat H) : List PacketId :=
  (packets (c.sent .GO) ++ packets (c.sent .CLI)).map Prod.fst

theorem Chat.mem_packet_ids {c : Chat H} {p : PacketId} :
    p ∈ c.packet_ids ↔ ∃ name, p ∈ (packets (c.sent name)).map Prod.fst := by
  unfold Chat.packet_ids
  rw [List.map_append, List.mem_append]
  constructor
  · intro hall
    rcases hall with h | h
    · exact ⟨.GO, h⟩
    · exact ⟨.CLI, h⟩
  · intro hall
    obtain ⟨_ | _, h⟩ := hall
    · exact Or.inl h
    · exact Or.inr h

/-- Distinct ids: on each phone, and across the two. -/
theorem Chat.packet_ids_nodup {c : Chat H} (h : c.packet_ids.Nodup)
    (name : NodeName) :
    ((packets (c.sent name)).map Prod.fst).Nodup
      ∧ ∀ p ∈ (packets (c.sent name)).map Prod.fst,
        p ∉ (packets (c.sent name.peer)).map Prod.fst := by
  unfold Chat.packet_ids at h
  rw [List.map_append, List.nodup_append] at h
  obtain ⟨hgo, hcli, hapart⟩ := h
  cases name with
  | GO => exact ⟨hgo, fun p hp hp' => hapart p hp p hp' rfl⟩
  | CLI => exact ⟨hcli, fun p hp hp' => hapart p hp' p hp rfl⟩

/-- The header of a packet on its way to a phone. -/
def header_to (name : NodeName) (p : PacketId) : JokerHeader where
  type := .kUnicast
  ttl := 32
  num_candidates := 0
  packet_id := p
  final_destination := name.mac
  other_candidates := []

/-- Its frame. -/
def frame_to (name : NodeName) (x : Packet) : Bytes :=
  wire (header_to name x.1) ++ x.2

theorem dataFrame_to (name : NodeName) (x : Packet) :
    DataFrame {} (frame_to name x) (header_to name x.1) 13 := by
  refine ⟨deserialize_wire _ _ rfl, ?_, rfl⟩
  cases name <;> rfl

/-- What `send_from_node` puts on the air is the packet's frame. -/
theorem send_from_node_frame {p : Phone H} {name : NodeName}
    (hname : p.g_node.name = name) (msg : Bytes) (now : TimePoint) :
    (send_from_node p msg now).1 = frame_to name.peer
      (joker_packet_id (id_bytes msg p.g_seq_counter), msg) := by
  unfold send_from_node frame_to
  dsimp only
  rw [serialize_header_eq, hname, List.nil_append]
  rfl

/-- What a phone does with a packet: show it and record its id, if the id
is new. -/
theorem receive_frame_to {s : JokerInstance H} {name : NodeName}
    (hname : s.name = name) (hconfig : s.config = {}) {x : Packet}
    (hmsg : x.2 ≠ []) (now : TimePoint) :
    let s' := s.receive_callback (frame_to name x) true now
    s'.name = name ∧ s'.config = {} ∧ s'.node.coordinator = s.node.coordinator
      ∧ (s.node.dedup.Contains x.1 = true →
        s'.node.dedup = s.node.dedup ∧ s'.ui = s.ui)
      ∧ (s.node.dedup.Contains x.1 = false →
        s'.node.dedup = s.node.dedup.Insert x.1 now
          ∧ s'.ui = s.ui ++ [x.2]) := by
  have hf := dataFrame_to name x
  have hmac : s.mac = name.mac := congrArg NodeName.mac hname
  have hdrop : (frame_to name x).drop 13 = x.2 :=
    List.drop_left' (wire_length _)
  have hv : verdict (frame_to name x) s.mac true s.config s.node.dedup
      = if s.node.dedup.Contains x.1 then .duplicate
        else .delivered (header_to name x.1) := by
    rw [hconfig, hf.verdict_eq, hmac]
    exact if_pos rfl
  dsimp only
  rw [s.receive_callback_eq, process_received_frame_eq, hv]
  refine ⟨hname, hconfig, ?_, fun hin => ?_, fun hnew => ?_⟩
  · cases s.node.dedup.Contains x.1 <;> rfl
  · have hshow : s.shows (frame_to name x) = none := by
      unfold JokerInstance.shows
      rw [hf.parses]
      exact if_pos hin
    rw [hin, hshow]
    exact ⟨rfl, List.append_nil _⟩
  · have hshow : s.shows (frame_to name x) = some x.2 :=
      JokerInstance.shows_eq_some_iff.mpr ⟨hmsg, _, 13, hf.parses, hdrop.symm,
        rfl, hnew, Or.inl hmac.symm⟩
    rw [hnew, hshow]
    exact ⟨rfl, rfl⟩

-- ========================================================== the invariant

/-- The account of one phone. -/
structure SideOk (c : Chat H) (name : NodeName)
    (flying got shown : List Packet) : Prop where
  name_eq : (c.phones name).g_node.name = name
  config : (c.phones name).g_node.config = {}
  counter : (c.phones name).g_seq_counter
    = UInt32.ofNat ((c.sent name).length + 1)
  timers : (c.phones name).g_node.node.coordinator.wheel.timers = []
  in_flight : c.in_flight name = flying.map (frame_to name)
  traffic : (packets (c.sent name.peer)).Perm (got ++ flying)
  ui : (c.phones name).g_node.ui = shown.map Prod.snd
  cache : ∃ r : Recency PacketId TimePoint 1000,
    Represents (c.phones name).g_node.node.dedup r
      ∧ ∀ p, p ∈ r.keys ↔ p ∈ (packets (c.sent name)).map Prod.fst
        ∨ p ∈ got.map Prod.fst
  shown_got : ∀ x ∈ shown, x ∈ got
  shown_ids : (shown.map Prod.fst).Nodup

/-- The account of both. -/
structure ChatOk (c : Chat H)
    (flying got shown : NodeName → List Packet) : Prop where
  side : ∀ name, SideOk c name (flying name) (got name) (shown name)
  apart : ∀ name p, p ∈ (shown name).map Prod.fst →
    p ∉ (shown name.peer).map Prod.fst
  all_shown : c.packet_ids.Nodup → ∀ name, shown name = got name

/-- Few ids, no empty message. -/
structure Modest (c : Chat H) : Prop where
  few : c.packet_ids.toFinset.card < 1000
  nonempty : ∀ name, ∀ m ∈ c.sent name, m ≠ []

/-- What a phone got was sent by the other. -/
theorem SideOk.got_sent {c : Chat H} {name : NodeName}
    {flying got shown : List Packet} (h : SideOk c name flying got shown)
    {x : Packet} (hx : x ∈ got) : x ∈ packets (c.sent name.peer) :=
  h.traffic.mem_iff.mpr (List.mem_append_left _ hx)

/-- A cache that holds only ids of the chat has room for one more. -/
theorem SideOk.room {c : Chat H} {name : NodeName}
    {flying got shown : List Packet} (h : SideOk c name flying got shown)
    (hfew : c.packet_ids.toFinset.card < 1000)
    {r : Recency PacketId TimePoint 1000}
    (hr : ∀ p, p ∈ r.keys ↔ p ∈ (packets (c.sent name)).map Prod.fst
      ∨ p ∈ got.map Prod.fst) : r.entries.length < 1000 := by
  have hsub : r.keys.toFinset ⊆ c.packet_ids.toFinset := by
    intro p hp
    rw [List.mem_toFinset] at hp ⊢
    rw [Chat.mem_packet_ids]
    rcases (hr p).mp hp with hsent | hgot
    · exact ⟨name, hsent⟩
    · obtain ⟨x, hx, rfl⟩ := List.mem_map.mp hgot
      exact ⟨name.peer, List.mem_map_of_mem (h.got_sent hx)⟩
  have hcard := Finset.card_le_card hsub
  have hlen : r.keys.toFinset.card = r.entries.length := by
    show (r.entries.map Prod.fst).toFinset.card = _
    rw [List.toFinset_card_of_nodup r.nodup, List.length_map]
  omega

theorem chatOk_start (H : WheelHeap ForwardCallback) :
    ChatOk (Chat.start H) (fun _ => []) (fun _ => []) (fun _ => []) where
  side _ :=
    { name_eq := rfl
      config := rfl
      counter := rfl
      timers := rfl
      in_flight := rfl
      traffic := List.Perm.refl _
      ui := rfl
      cache := ⟨_, represents_empty 1000 _, fun _ =>
        ⟨fun h => absurd h List.not_mem_nil, fun h => by
          rcases h with h | h <;> exact absurd h List.not_mem_nil⟩⟩
      shown_got := fun _ h => h
      shown_ids := List.nodup_nil }
  apart _ _ h := absurd h List.not_mem_nil
  all_shown _ _ := rfl

-- ================================================================ sending

/-- Sending extends the ids of the chat. -/
theorem packet_ids_send (c : Chat H) (name : NodeName) (now : TimePoint)
    (msg : Bytes) :
    (∀ p ∈ c.packet_ids, p ∈ (c.step (.send name now msg)).packet_ids)
      ∧ ((c.step (.send name now msg)).packet_ids.Nodup →
        c.packet_ids.Nodup) := by
  have hsub :
      c.packet_ids.Sublist (c.step (.send name now msg)).packet_ids := by
    have hsent : ∀ m, (packets (c.sent m)).Sublist
        (packets ((c.step (.send name now msg)).sent m)) := by
      intro m
      show (packets (c.sent m)).Sublist
        (packets (Function.update c.sent name (c.sent name ++ [msg]) m))
      by_cases hm : m = name
      · subst hm
        rw [Function.update_self, packets_concat]
        exact List.sublist_append_left _ _
      · rw [Function.update_of_ne hm]
    exact ((hsent .GO).append (hsent .CLI)).map _
  exact ⟨fun p hp => hsub.subset hp, fun h => h.sublist hsub⟩

section send

variable (c : Chat H) (name : NodeName) {m : NodeName} (now : TimePoint)
  (msg : Bytes)

theorem phones_send_self : (c.step (.send name now msg)).phones name
    = (send_from_node (c.phones name) msg now).2 :=
  Function.update_self _ _ _

theorem phones_send_of_ne (hm : m ≠ name) :
    (c.step (.send name now msg)).phones m = c.phones m :=
  Function.update_of_ne hm _ _

theorem sent_send_self : (c.step (.send name now msg)).sent name
    = c.sent name ++ [msg] :=
  Function.update_self _ _ _

theorem sent_send_of_ne (hm : m ≠ name) :
    (c.step (.send name now msg)).sent m = c.sent m :=
  Function.update_of_ne hm _ _

end send

/-- The packet a phone sends next. -/
def next_packet (c : Chat H) (name : NodeName) (msg : Bytes) : Packet :=
  (joker_packet_id (id_bytes msg (UInt32.ofNat ((c.sent name).length + 1))),
    msg)

/-- The sender counts the message and keeps its id. -/
theorem SideOk.send_self {c : Chat H} {name : NodeName}
    {flying got shown : List Packet} (h : SideOk c name flying got shown)
    (now : TimePoint) (msg : Bytes) (hmodest : Modest c) :
    SideOk (c.step (.send name now msg)) name flying got shown := by
  have hne := name.peer_ne
  have hphone := phones_send_self c name now msg
  have hsent := sent_send_self c name now msg
  refine ⟨?_, ?_, ?_, ?_, ?_, ?_, ?_, ?_, h.shown_got, h.shown_ids⟩
  · rw [hphone]
    exact h.name_eq
  · rw [hphone]
    exact h.config
  · rw [hphone, hsent, List.length_append]
    show (c.phones name).g_seq_counter + 1 = _
    rw [h.counter]
    exact (UInt32.ofNat_add _ 1).symm
  · rw [hphone]
    exact h.timers
  · exact (Function.update_of_ne hne.symm _ _).trans h.in_flight
  · rw [sent_send_of_ne c name now msg hne]
    exact h.traffic
  · rw [hphone]
    exact h.ui
  · obtain ⟨r, hr, hkeys⟩ := h.cache
    refine ⟨r.touch (by decide) (joker_packet_id (id_bytes msg
      (c.phones name).g_seq_counter)) now, ?_, fun p => ?_⟩
    · rw [hphone]
      exact hr.insert (by decide) _ now
    · have hroom := h.room hmodest.few hkeys
      rw [Recency.mem_keys_touch (by decide) hroom, hkeys, hsent,
        packets_concat, h.counter, List.map_append, List.mem_append,
        List.map_singleton, List.mem_singleton]
      tauto

/-- To the other phone one more packet is on its way. -/
theorem SideOk.send_peer {c : Chat H} {name : NodeName}
    {flying flying' got got' shown shown' : List Packet}
    (h : SideOk c name.peer flying got shown)
    (hself : SideOk c name flying' got' shown') (now : TimePoint)
    (msg : Bytes) :
    SideOk (c.step (.send name now msg)) name.peer
      (flying ++ [next_packet c name msg]) got shown := by
  have hne := name.peer_ne
  have hphone := phones_send_of_ne c name now msg hne
  have hsent := sent_send_of_ne c name now msg hne
  refine ⟨?_, ?_, ?_, ?_, ?_, ?_, ?_, ?_, h.shown_got, h.shown_ids⟩
  · rw [hphone]
    exact h.name_eq
  · rw [hphone]
    exact h.config
  · rw [hphone, hsent]
    exact h.counter
  · rw [hphone]
    exact h.timers
  · have hframe := send_from_node_frame hself.name_eq msg now
    rw [hself.counter] at hframe
    refine (Function.update_self _ _ _).trans ?_
    rw [h.in_flight, List.map_append]
    exact congrArg (fun frame => _ ++ [frame]) hframe
  · have htraffic := h.traffic
    rw [NodeName.peer_peer] at htraffic ⊢
    rw [sent_send_self, packets_concat, ← List.append_assoc]
    exact htraffic.append_right _
  · rw [hphone]
    exact h.ui
  · rw [hphone, hsent]
    exact h.cache

/-- A message sent is one more packet on its way, and its id is in the
sender's cache. -/
theorem ChatOk.send {c : Chat H} {flying got shown : NodeName → List Packet}
    (h : ChatOk c flying got shown) (name : NodeName) (now : TimePoint)
    (msg : Bytes) (hmodest : Modest c) :
    ∃ x, ChatOk (c.step (.send name now msg))
      (Function.update flying name.peer (flying name.peer ++ [x]))
      got shown := by
  refine ⟨next_packet c name msg, ⟨fun m => ?_, h.apart, fun hnd =>
    h.all_shown ((packet_ids_send c name now msg).2 hnd)⟩⟩
  rcases NodeName.eq_or_eq_peer m name with rfl | rfl
  · rw [Function.update_of_ne m.peer_ne.symm]
    exact (h.side m).send_self now msg hmodest
  · rw [Function.update_self]
    exact (h.side name.peer).send_peer (h.side name) now msg

-- ============================================================== delivering

/-- The account of a phone reads that phone, what is on its way to it,
and what the two sent. -/
theorem SideOk.congr {c c' : Chat H} {name : NodeName}
    {flying got shown : List Packet} (h : SideOk c name flying got shown)
    (hphone : c'.phones name = c.phones name)
    (hflight : c'.in_flight name = c.in_flight name)
    (hsent : c'.sent = c.sent) : SideOk c' name flying got shown where
  name_eq := by rw [hphone]; exact h.name_eq
  config := by rw [hphone]; exact h.config
  counter := by rw [hphone, hsent]; exact h.counter
  timers := by rw [hphone]; exact h.timers
  in_flight := hflight.trans h.in_flight
  traffic := by rw [hsent]; exact h.traffic
  ui := by rw [hphone]; exact h.ui
  cache := by rw [hphone, hsent]; exact h.cache
  shown_got := h.shown_got
  shown_ids := h.shown_ids

/-- What the arrival of its `k`th packet changes at a phone, whether it
shows the packet or not. -/
structure Arrival (c c' : Chat H) (name : NodeName) (k : Nat) : Prop where
  name_eq : (c'.phones name).g_node.name = (c.phones name).g_node.name
  config : (c'.phones name).g_node.config = (c.phones name).g_node.config
  counter : (c'.phones name).g_seq_counter = (c.phones name).g_seq_counter
  coordinator : (c'.phones name).g_node.node.coordinator
    = (c.phones name).g_node.node.coordinator
  in_flight : c'.in_flight name = (c.in_flight name).eraseIdx k
  sent : c'.sent = c.sent

/-- The account after an arrival, given what is now shown and cached. -/
theorem SideOk.arrive {c c' : Chat H} {name : NodeName}
    {flying got shown shown' : List Packet} (h : SideOk c name flying got shown)
    {k : Nat} {x : Packet} (hx : flying[k]? = some x)
    (ha : Arrival c c' name k)
    (hui : (c'.phones name).g_node.ui = shown'.map Prod.snd)
    (hcache : ∃ r : Recency PacketId TimePoint 1000,
      Represents (c'.phones name).g_node.node.dedup r
        ∧ ∀ p, p ∈ r.keys ↔ (p ∈ (packets (c.sent name)).map Prod.fst
          ∨ p ∈ got.map Prod.fst) ∨ p = x.1)
    (hgot : ∀ y ∈ shown', y ∈ got ++ [x]) (hids : (shown'.map Prod.fst).Nodup) :
    SideOk c' name (flying.eraseIdx k) (got ++ [x]) shown' where
  name_eq := ha.name_eq.trans h.name_eq
  config := ha.config.trans h.config
  counter := by rw [ha.counter, ha.sent]; exact h.counter
  timers := by rw [ha.coordinator]; exact h.timers
  in_flight := by rw [ha.in_flight, h.in_flight, List.eraseIdx_map]
  traffic := by
    rw [ha.sent, List.append_assoc]
    exact h.traffic.trans ((Selection.perm_cons_rest hx).append_left _)
  ui := hui
  cache := by
    obtain ⟨r, hr, hkeys⟩ := hcache
    refine ⟨r, hr, fun p => ?_⟩
    rw [hkeys, ha.sent, List.map_append, List.mem_append, List.map_singleton,
      List.mem_singleton, or_assoc]
  shown_got := hgot
  shown_ids := hids

/-- The account of a phone after a packet on its way arrives. -/
theorem SideOk.receive {c c' : Chat H} {name : NodeName}
    {flying got shown : List Packet} (h : SideOk c name flying got shown)
    (hmodest : Modest c) {k : Nat} {x : Packet} (hx : flying[k]? = some x)
    (ha : Arrival c c' name k) (now : TimePoint)
    (hknown : (c.phones name).g_node.node.dedup.Contains x.1 = true →
      (c'.phones name).g_node.node.dedup = (c.phones name).g_node.node.dedup
        ∧ (c'.phones name).g_node.ui = (c.phones name).g_node.ui)
    (hnew : (c.phones name).g_node.node.dedup.Contains x.1 = false →
      (c'.phones name).g_node.node.dedup
          = (c.phones name).g_node.node.dedup.Insert x.1 now
        ∧ (c'.phones name).g_node.ui = (c.phones name).g_node.ui ++ [x.2]) :
    ∃ shown', SideOk c' name (flying.eraseIdx k) (got ++ [x]) shown'
      ∧ (shown' = shown
          ∧ (x.1 ∈ (packets (c.sent name)).map Prod.fst
            ∨ x.1 ∈ got.map Prod.fst)
        ∨ shown' = shown ++ [x]
          ∧ x.1 ∉ (packets (c.sent name)).map Prod.fst
          ∧ x.1 ∉ got.map Prod.fst) := by
  obtain ⟨r, hr, hkeys⟩ := h.cache
  have hgot : ∀ y ∈ shown, y ∈ got ++ [x] := fun y hy =>
    List.mem_append_left _ (h.shown_got y hy)
  have hmem := (hr.contains_iff x.1).trans (hkeys x.1)
  cases hin : (c.phones name).g_node.node.dedup.Contains x.1 with
  | true =>
      obtain ⟨hdedup, hui⟩ := hknown hin
      have hids := hmem.mp hin
      refine ⟨shown, h.arrive hx ha (hui.trans h.ui) ⟨r, ?_, fun p => ?_⟩
        hgot h.shown_ids, Or.inl ⟨rfl, hids⟩⟩
      · rw [hdedup]
        exact hr
      · rw [hkeys]
        constructor
        · exact Or.inl
        · intro hall
          rcases hall with hp | rfl
          · exact hp
          · exact hids
  | false =>
      obtain ⟨hdedup, hui⟩ := hnew hin
      have hids : ¬ (x.1 ∈ (packets (c.sent name)).map Prod.fst
          ∨ x.1 ∈ got.map Prod.fst) := by
        rw [← hmem, hin]
        exact Bool.false_ne_true
      have hroom := h.room hmodest.few hkeys
      have hc : 0 < 1000 := by decide
      refine ⟨shown ++ [x], h.arrive hx ha ?_
        ⟨r.touch hc x.1 now, ?_, fun p => ?_⟩ ?_ ?_,
        Or.inr ⟨rfl, not_or.mp hids⟩⟩
      · rw [hui, h.ui, List.map_append, List.map_singleton]
      · rw [hdedup]
        exact hr.insert hc _ now
      · rw [Recency.mem_keys_touch hc hroom, hkeys]
      · intro y hy
        rcases List.mem_append.mp hy with hy | hy
        · exact hgot y hy
        · exact List.mem_append_right _ hy
      · rw [List.map_append, List.map_singleton]
        refine List.nodup_append.mpr ⟨h.shown_ids, List.nodup_singleton _, ?_⟩
        intro p hp q hq hpq
        rw [hpq, List.mem_singleton.mp hq] at hp
        obtain ⟨y, hy, hyx⟩ := List.mem_map.mp hp
        exact hids (Or.inr (hyx ▸ List.mem_map_of_mem (h.shown_got y hy)))

/-- A packet on its way is not empty. -/
theorem SideOk.message_nonempty {c : Chat H} {name : NodeName}
    {flying got shown : List Packet} (h : SideOk c name flying got shown)
    (hmodest : Modest c) {x : Packet} (hx : x ∈ flying) : x.2 ≠ [] := by
  refine hmodest.nonempty name.peer x.2 ?_
  have hmem : x ∈ packets (c.sent name.peer) :=
    h.traffic.mem_iff.mpr (List.mem_append_right _ hx)
  rw [← packets_snd (c.sent name.peer)]
  exact List.mem_map_of_mem hmem

/-- When all ids are distinct, the id of a packet on its way to a phone is
that of no packet the phone has sent or got. -/
theorem SideOk.flying_id_new {c : Chat H} {name : NodeName}
    {flying got shown : List Packet} (h : SideOk c name flying got shown)
    (hnd : c.packet_ids.Nodup) {x : Packet} (hx : x ∈ flying) :
    x.1 ∉ (packets (c.sent name)).map Prod.fst ∧ x.1 ∉ got.map Prod.fst := by
  obtain ⟨hndpeer, hcross⟩ := Chat.packet_ids_nodup hnd name.peer
  constructor
  · have hsent : x.1 ∈ (packets (c.sent name.peer)).map Prod.fst :=
      List.mem_map_of_mem
        (h.traffic.mem_iff.mpr (List.mem_append_right _ hx))
    have hnot := hcross x.1 hsent
    rw [NodeName.peer_peer] at hnot
    exact hnot
  · intro hgot
    have hsplit := (h.traffic.map Prod.fst).nodup_iff.mp hndpeer
    rw [List.map_append, List.nodup_append] at hsplit
    exact hsplit.2.2 x.1 hgot x.1 (List.mem_map_of_mem hx) rfl

/-- The delivery of a frame that is on its way. -/
theorem Chat.step_deliver {c : Chat H} {name : NodeName} {k : Nat}
    {frame : Bytes} (hk : (c.in_flight name)[k]? = some frame)
    (now : TimePoint) :
    c.step (.deliver name k now) = { c with
      phones := Function.update c.phones name { c.phones name with
        g_node := (c.phones name).g_node.receive_callback frame true now }
      in_flight := Function.update c.in_flight name
        ((c.in_flight name).eraseIdx k) } := by
  simp only [Chat.step, hk]

/-- It changes nothing at the other phone, and nothing of what was sent. -/
theorem SideOk.deliver_elsewhere {c : Chat H} {name m : NodeName} {k : Nat}
    {frame : Bytes} (hk : (c.in_flight name)[k]? = some frame)
    (now : TimePoint) (hm : m ≠ name) {flying got shown : List Packet}
    (h : SideOk c m flying got shown) :
    SideOk (c.step (.deliver name k now)) m flying got shown := by
  rw [Chat.step_deliver hk]
  exact h.congr (Function.update_of_ne hm _ _) (Function.update_of_ne hm _ _)
    rfl

/-- The packet is got, and shown if its id is new. -/
theorem SideOk.deliver {c : Chat H} {name : NodeName}
    {flying got shown : List Packet} (h : SideOk c name flying got shown)
    (hmodest : Modest c) {k : Nat} {x : Packet} (hx : flying[k]? = some x)
    (now : TimePoint) :
    ∃ shown', SideOk (c.step (.deliver name k now)) name (flying.eraseIdx k)
        (got ++ [x]) shown'
      ∧ (shown' = shown
          ∧ (x.1 ∈ (packets (c.sent name)).map Prod.fst
            ∨ x.1 ∈ got.map Prod.fst)
        ∨ shown' = shown ++ [x]
          ∧ x.1 ∉ (packets (c.sent name)).map Prod.fst
          ∧ x.1 ∉ got.map Prod.fst) := by
  have hframe : (c.in_flight name)[k]? = some (frame_to name x) := by
    rw [h.in_flight, List.getElem?_map, hx]
    rfl
  have hstep := Chat.step_deliver hframe now
  have hphone : (c.step (.deliver name k now)).phones name
      = { c.phones name with
        g_node := (c.phones name).g_node.receive_callback
          (frame_to name x) true now } := by
    rw [hstep]
    exact Function.update_self _ _ _
  obtain ⟨hname, hconfig, hcoord, hknown, hnew⟩ :=
    receive_frame_to h.name_eq h.config
      (h.message_nonempty hmodest (List.mem_of_getElem? hx)) now
  have ha : Arrival c (c.step (.deliver name k now)) name k :=
    { name_eq := by rw [hphone]; exact hname.trans h.name_eq.symm
      config := by rw [hphone]; exact hconfig.trans h.config.symm
      counter := by rw [hphone]
      coordinator := by rw [hphone]; exact hcoord
      in_flight := by rw [hstep]; exact Function.update_self _ _ _
      sent := by rw [hstep] }
  exact h.receive hmodest hx ha now (by rw [hphone]; exact hknown)
    (by rw [hphone]; exact hnew)

/-- What is shown here was not sent from here, so not shown there. -/
theorem ChatOk.apart_receive {c : Chat H}
    {flying got shown : NodeName → List Packet}
    (h : ChatOk c flying got shown) {name : NodeName} {x : Packet}
    {shown' : List Packet}
    (hcase : shown' = shown name ∨ shown' = shown name ++ [x]
      ∧ x.1 ∉ (packets (c.sent name)).map Prod.fst) :
    ∀ p ∈ shown'.map Prod.fst, p ∉ (shown name.peer).map Prod.fst := by
  have hpeer := h.side name.peer
  intro p hp hp'
  rcases hcase with rfl | ⟨rfl, hnew⟩
  · exact h.apart name p hp hp'
  · rw [List.map_append, List.mem_append, List.map_singleton,
      List.mem_singleton] at hp
    rcases hp with hp | rfl
    · exact h.apart name p hp hp'
    · obtain ⟨y, hy, hyx⟩ := List.mem_map.mp hp'
      have hysent := hpeer.got_sent (hpeer.shown_got y hy)
      rw [NodeName.peer_peer] at hysent
      exact hnew (hyx ▸ List.mem_map_of_mem hysent)

/-- A packet on its way arrives, or nothing does. -/
theorem ChatOk.deliver {c : Chat H} {flying got shown : NodeName → List Packet}
    (h : ChatOk c flying got shown) (name : NodeName) (k : Nat)
    (now : TimePoint) (hmodest : Modest c) :
    ∃ flying' got' shown',
      ChatOk (c.step (.deliver name k now)) flying' got' shown' := by
  have hself := h.side name
  have hflight : (c.in_flight name)[k]?
      = (flying name)[k]?.map (frame_to name) := by
    rw [hself.in_flight, List.getElem?_map]
  cases hx : (flying name)[k]? with
  | none =>
      rw [hx] at hflight
      have hstep : c.step (.deliver name k now) = c := by
        simp only [Chat.step, hflight, Option.map_none]
      rw [hstep]
      exact ⟨flying, got, shown, h⟩
  | some x =>
      rw [hx] at hflight
      obtain ⟨shown', hside, hcase⟩ := hself.deliver hmodest hx now
      have hids : (c.step (.deliver name k now)).packet_ids = c.packet_ids := by
        rw [Chat.step_deliver hflight]
        rfl
      refine ⟨Function.update flying name ((flying name).eraseIdx k),
        Function.update got name (got name ++ [x]),
        Function.update shown name shown', fun m => ?_, ?_, ?_⟩
      · by_cases hm : m = name
        · subst hm
          rw [Function.update_self, Function.update_self, Function.update_self]
          exact hside
        · rw [Function.update_of_ne hm, Function.update_of_ne hm,
            Function.update_of_ne hm]
          exact (h.side m).deliver_elsewhere hflight now hm
      · have hapart := h.apart_receive (hcase.imp And.left fun hall =>
          ⟨hall.1, hall.2.1⟩)
        intro m p hp hp'
        rcases NodeName.eq_or_eq_peer m name with rfl | rfl
        · rw [Function.update_self] at hp
          rw [Function.update_of_ne m.peer_ne] at hp'
          exact hapart p hp hp'
        · rw [Function.update_of_ne name.peer_ne] at hp
          rw [NodeName.peer_peer, Function.update_self] at hp'
          exact hapart p hp' hp
      · intro hnd m
        rw [hids] at hnd
        have hall := h.all_shown hnd
        by_cases hm : m = name
        · subst hm
          rw [Function.update_self, Function.update_self]
          obtain ⟨hown, hgot⟩ :=
            hself.flying_id_new hnd (List.mem_of_getElem? hx)
          rcases hcase with ⟨-, hknown⟩ | ⟨rfl, -, -⟩
          · exact absurd hknown (not_or.mpr ⟨hown, hgot⟩)
          · rw [hall m]
        · rw [Function.update_of_ne hm, Function.update_of_ne hm]
          exact hall m

/-- No timer runs on a phone: its ticker does nothing. -/
theorem ChatOk.tick {c : Chat H} {flying got shown : NodeName → List Packet}
    (h : ChatOk c flying got shown) (name : NodeName) (now : TimePoint) :
    c.step (.tick name now) = c := by
  have htick : TimerNode.Tick now (c.phones name).g_node.node
      = (c.phones name).g_node.node := by
    unfold TimerNode.Tick
    rw [(h.side name).timers]
    rfl
  unfold Chat.step
  dsimp only
  rw [htick]
  exact congrArg (fun phones => { c with phones := phones })
    (Function.update_eq_self name c.phones)

-- ================================================================ the runs

/-- A run that stays modest to its end was modest all along. -/
theorem Modest.of_step {c : Chat H} {ev : ChatEvent}
    (h : Modest (c.step ev)) : Modest c := by
  have hsame : (c.step ev).sent = c.sent → Modest c := by
    intro hsent
    have hids : (c.step ev).packet_ids = c.packet_ids := by
      unfold Chat.packet_ids
      rw [hsent]
    exact ⟨hids ▸ h.few, hsent ▸ h.nonempty⟩
  cases ev with
  | send name now msg =>
      refine ⟨lt_of_le_of_lt (Finset.card_le_card ?_) h.few, ?_⟩
      · intro p hp
        rw [List.mem_toFinset] at hp ⊢
        exact (packet_ids_send c name now msg).1 p hp
      · intro m msg' hmem
        refine h.nonempty m msg' ?_
        show msg' ∈ Function.update c.sent name (c.sent name ++ [msg]) m
        by_cases hm : m = name
        · subst hm
          rw [Function.update_self]
          exact List.mem_append_left _ hmem
        · rw [Function.update_of_ne hm]
          exact hmem
  | deliver name k now =>
      refine hsame ?_
      unfold Chat.step
      dsimp only
      split <;> rfl
  | tick name now => exact hsame rfl

/-- A modest run keeps its accounts. -/
theorem Chat.run_ok (H : WheelHeap ForwardCallback) (es : List ChatEvent)
    (hmodest : Modest (Chat.run H es)) :
    ∃ flying got shown, ChatOk (Chat.run H es) flying got shown := by
  induction es using List.reverseRecOn with
  | nil => exact ⟨_, _, _, chatOk_start H⟩
  | append_singleton es ev ih =>
      unfold Chat.run at ih hmodest ⊢
      rw [exec_concat] at hmodest ⊢
      have hbefore := hmodest.of_step
      obtain ⟨flying, got, shown, h⟩ := ih hbefore
      cases ev with
      | send name now msg =>
          obtain ⟨x, hx⟩ := h.send name now msg hbefore
          exact ⟨_, _, _, hx⟩
      | deliver name k now => exact h.deliver name k now hbefore
      | tick name now =>
          rw [h.tick name now]
          exact ⟨_, _, _, h⟩

/-- Two phones, any interleaving of sends and arrivals, fewer ids than the
cache holds: when nothing is left on its way, each user has been shown
the other's messages, each exactly once, if and only if the packet ids of
all messages are distinct. -/
theorem chat_exactly_once_iff (H : WheelHeap ForwardCallback)
    (es : List ChatEvent)
    (hmsgs : ∀ name, ∀ m ∈ (Chat.run H es).sent name, m ≠ [])
    (hfew : (Chat.run H es).packet_ids.toFinset.card < 1000)
    (hdone : ∀ name, (Chat.run H es).in_flight name = []) :
    (∀ name, ((Chat.run H es).phones name).g_node.ui.Perm
        ((Chat.run H es).sent name.peer))
      ↔ (Chat.run H es).packet_ids.Nodup := by
  obtain ⟨flying, got, shown, h⟩ := Chat.run_ok H es ⟨hfew, hmsgs⟩
  generalize Chat.run H es = c at *
  have hgot : ∀ name, (packets (c.sent name.peer)).Perm (got name) := by
    intro name
    have hempty : flying name = [] := by
      have hflight := (h.side name).in_flight
      rw [hdone name] at hflight
      exact List.map_eq_nil_iff.mp hflight.symm
    have htraffic := (h.side name).traffic
    rw [hempty, List.append_nil] at htraffic
    exact htraffic
  constructor
  · intro hperm
    -- as many distinct ids were shown as messages were sent
    have hlen : ∀ name, (shown name).length
        = (packets (c.sent name.peer)).length := by
      intro name
      have heq := (hperm name).length_eq
      rw [(h.side name).ui, List.length_map] at heq
      rw [heq, ← packets_snd (c.sent name.peer), List.length_map]
      rw [packets_snd]
    have hshown : ((shown .CLI ++ shown .GO).map Prod.fst).Nodup := by
      rw [List.map_append, List.nodup_append]
      refine ⟨(h.side .CLI).shown_ids, (h.side .GO).shown_ids, ?_⟩
      intro p hp q hq hpq
      exact h.apart .CLI p hp (hpq ▸ hq)
    have hsub : ((shown .CLI ++ shown .GO).map Prod.fst).Subperm
        c.packet_ids := by
      refine hshown.subperm fun p hp => Chat.mem_packet_ids.mpr ?_
      obtain ⟨x, hx, rfl⟩ := List.mem_map.mp hp
      rcases List.mem_append.mp hx with hx | hx
      · exact ⟨.GO, List.mem_map_of_mem
          ((h.side .CLI).got_sent ((h.side .CLI).shown_got x hx))⟩
      · exact ⟨.CLI, List.mem_map_of_mem
          ((h.side .GO).got_sent ((h.side .GO).shown_got x hx))⟩
    have hall : ((shown .CLI ++ shown .GO).map Prod.fst).Perm c.packet_ids := by
      refine hsub.perm_of_length_le (le_of_eq ?_)
      unfold Chat.packet_ids
      rw [List.length_map, List.length_map, List.length_append,
        List.length_append, hlen .CLI, hlen .GO]
      rfl
    exact hall.nodup_iff.mp hshown
  · intro hnd name
    rw [(h.side name).ui, h.all_shown hnd name]
    have hmap := ((hgot name).map Prod.snd).symm
    rw [packets_snd] at hmap
    exact hmap

/-- Both phones say something, then both frames arrive. -/
def crossing (m m' : Bytes) : List ChatEvent :=
  [.send .GO 0 m, .send .CLI 0 m', .deliver .GO 0 1, .deliver .CLI 0 1]

/-- Two different first messages cross: each arrives. -/
theorem chat_exactly_once_iff_crossing :
    ((Chat.run (sortedHeap _) (crossing [0x68, 0x69] [0x79, 0x6f])
        ).phones .GO).g_node.ui.Perm [[0x79, 0x6f]]
      ∧ ((Chat.run (sortedHeap _) (crossing [0x68, 0x69] [0x79, 0x6f])
        ).phones .CLI).g_node.ui.Perm [[0x68, 0x69]] := by
  have h := (chat_exactly_once_iff (sortedHeap _)
    (crossing [0x68, 0x69] [0x79, 0x6f])
    (by intro name; cases name <;> decide +kernel)
    (by decide +kernel)
    (by intro name; cases name <;> decide +kernel)).mpr (by decide +kernel)
  exact ⟨h .GO, h .CLI⟩

/-- Both phones say the same thing first: the two packets have one id,
each phone takes the other's for an echo of its own, and neither message
is shown. -/
theorem same_first_message_lost :
    (∀ name, (Chat.run (sortedHeap _)
        (crossing [0x68, 0x69] [0x68, 0x69])).in_flight name = [])
    ∧ ∀ name, ((Chat.run (sortedHeap _)
          (crossing [0x68, 0x69] [0x68, 0x69])).phones name).g_node.ui = []
      ∧ (Chat.run (sortedHeap _)
          (crossing [0x68, 0x69] [0x68, 0x69])).sent name.peer
        = [[0x68, 0x69]] := by
  constructor
  · intro name
    cases name <;> decide +kernel
  · intro name
    cases name <;> decide +kernel

end Joker
