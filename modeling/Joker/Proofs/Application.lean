/-
From one user to the other.

While the packet ids of all messages are distinct a phone shows whatever
arrives on it, however many messages there are: its cache may forget ids
but never holds one of a packet still on its way. `Flow` is the account
of one phone, and `Flowing` of both; sending appends to what is on its
way, and an arrival moves one packet from there to what was shown.

The Kotlin side of a phone is therefore in the state that `onPacketReceived`
leaves when called with the other user's messages themselves
(`application_transparent`): neither the conversions of the strings nor
the header, the ids, the cache and the core between them can be seen.
When frames arrive in the order in which they were sent, so do the
messages, and a file that was sent is the file that is written
(`file_arrives`).
-/
import Joker.Lib.ModifiedUtf8
import Joker.Model.Application
import Joker.Proofs.Chat
import Joker.Proofs.FileTransfer
import Joker.Proofs.NodeRuns

namespace Joker

open Transition DedupCache VectorHeap

variable {H : WheelHeap ForwardCallback}

-- ============================================================ one phone

/-- What is on its way to a phone and what it got, against what the other
sent: all it got is shown, and its cache holds no other ids than those it
sent and got. -/
structure Flow (c : Chat H) (name : NodeName) (flying got : List Packet) :
    Prop where
  name_eq : (c.phones name).g_node.name = name
  config : (c.phones name).g_node.config = {}
  counter : (c.phones name).g_seq_counter
    = UInt32.ofNat ((c.sent name).length + 1)
  in_flight : c.in_flight name = flying.map (frame_to name)
  traffic : (packets (c.sent name.peer)).Perm (got ++ flying)
  ui : (c.phones name).g_node.ui = got.map Prod.snd
  cache : ∃ r : Recency PacketId TimePoint 1000,
    Represents (c.phones name).g_node.node.dedup r
      ∧ ∀ p ∈ r.keys, p ∈ (packets (c.sent name)).map Prod.fst
        ∨ p ∈ got.map Prod.fst

namespace Flow

variable {c : Chat H} {name : NodeName} {flying got : List Packet}

/-- The id of a packet on its way is that of no packet sent or got. -/
theorem id_new (h : Flow c name flying got) (hnd : c.packet_ids.Nodup)
    {x : Packet} (hx : x ∈ flying) :
    (c.phones name).g_node.node.dedup.Contains x.1 = false := by
  obtain ⟨hndpeer, hcross⟩ := Chat.packet_ids_nodup hnd name.peer
  obtain ⟨r, hr, hkeys⟩ := h.cache
  rw [Bool.eq_false_iff]
  intro hin
  rcases hkeys x.1 ((hr.contains_iff x.1).mp hin) with hsent | hgot
  · have hpeer : x.1 ∈ (packets (c.sent name.peer)).map Prod.fst :=
      List.mem_map_of_mem (h.traffic.mem_iff.mpr (List.mem_append_right _ hx))
    have hnot := hcross x.1 hpeer
    rw [NodeName.peer_peer] at hnot
    exact hnot hsent
  · have hsplit := (h.traffic.map Prod.fst).nodup_iff.mp hndpeer
    rw [List.map_append, List.nodup_append] at hsplit
    exact hsplit.2.2 x.1 hgot x.1 (List.mem_map_of_mem hx) rfl

/-- The phone itself sends. -/
theorem send_self (h : Flow c name flying got) (now : TimePoint)
    (msg : Bytes) : Flow (c.step (.send name now msg)) name flying got := by
  have hne := name.peer_ne
  have hphone := phones_send_self c name now msg
  have hsent := sent_send_self c name now msg
  refine ⟨?_, ?_, ?_, ?_, ?_, ?_, ?_⟩
  · rw [hphone]
    exact h.name_eq
  · rw [hphone]
    exact h.config
  · rw [hphone, hsent, List.length_append]
    show (c.phones name).g_seq_counter + 1 = _
    rw [h.counter]
    exact (UInt32.ofNat_add _ 1).symm
  · exact (Function.update_of_ne hne.symm _ _).trans h.in_flight
  · rw [sent_send_of_ne c name now msg hne]
    exact h.traffic
  · rw [hphone]
    exact h.ui
  · obtain ⟨r, hr, hkeys⟩ := h.cache
    refine ⟨r.touch (by decide) (joker_packet_id (id_bytes msg
      (c.phones name).g_seq_counter)) now, ?_, fun p hp => ?_⟩
    · rw [hphone]
      exact hr.insert (by decide) _ now
    · rw [hsent, packets_concat, List.map_append, List.mem_append]
      rcases Recency.mem_keys_of_touch _ hp with hold | rfl
      · exact (hkeys p hold).imp_left Or.inl
      · refine Or.inl (Or.inr ?_)
        rw [h.counter]
        exact List.mem_singleton_self _

/-- The other phone sends: one more packet is on its way. -/
theorem send_peer (h : Flow c name.peer flying got)
    (hname : (c.phones name).g_node.name = name)
    (hcounter : (c.phones name).g_seq_counter
      = UInt32.ofNat ((c.sent name).length + 1)) (now : TimePoint)
    (msg : Bytes) :
    Flow (c.step (.send name now msg)) name.peer
      (flying ++ [next_packet c name msg]) got := by
  have hne := name.peer_ne
  have hphone := phones_send_of_ne c name now msg hne
  have hsent := sent_send_of_ne c name now msg hne
  refine ⟨?_, ?_, ?_, ?_, ?_, ?_, ?_⟩
  · rw [hphone]
    exact h.name_eq
  · rw [hphone]
    exact h.config
  · rw [hphone, hsent]
    exact h.counter
  · have hframe := send_from_node_frame hname msg now
    rw [hcounter] at hframe
    refine (Function.update_self _ _ _).trans ?_
    rw [h.in_flight, List.map_append]
    exact congrArg (fun frame => _ ++ [frame]) hframe
  · have htraffic := h.traffic
    rw [NodeName.peer_peer] at htraffic ⊢
    rw [sent_send_self, packets_concat, ← List.append_assoc]
    exact htraffic.append_right _
  · rw [hphone]
    exact h.ui
  · rw [hphone, hsent]
    exact h.cache

/-- What happens to the other phone's traffic leaves the account alone. -/
theorem congr {c' : Chat H} (h : Flow c name flying got)
    (hphone : c'.phones name = c.phones name)
    (hflight : c'.in_flight name = c.in_flight name)
    (hsent : c'.sent = c.sent) : Flow c' name flying got where
  name_eq := by rw [hphone]; exact h.name_eq
  config := by rw [hphone]; exact h.config
  counter := by rw [hphone, hsent]; exact h.counter
  in_flight := hflight.trans h.in_flight
  traffic := by rw [hsent]; exact h.traffic
  ui := by rw [hphone]; exact h.ui
  cache := by rw [hphone, hsent]; exact h.cache

/-- A packet arrives and is shown. -/
theorem deliver (h : Flow c name flying got) (hnd : c.packet_ids.Nodup)
    {k : Nat} {x : Packet} (hx : flying[k]? = some x) (hmsg : x.2 ≠ [])
    (now : TimePoint) :
    Flow (c.step (.deliver name k now)) name (flying.eraseIdx k)
      (got ++ [x]) := by
  have hframe : (c.in_flight name)[k]? = some (frame_to name x) := by
    rw [h.in_flight, List.getElem?_map, hx]
    rfl
  have hstep := Chat.step_deliver hframe now
  have hphone : (c.step (.deliver name k now)).phones name
      = { c.phones name with
        g_node := (c.phones name).g_node.receive_callback
          (frame_to name x) true now } := by
    rw [hstep]
    exact Function.update_self _ _ _
  have hsent : (c.step (.deliver name k now)).sent = c.sent := by rw [hstep]
  obtain ⟨hname, hconfig, -, -, hnew⟩ :=
    receive_frame_to h.name_eq h.config hmsg now
  obtain ⟨hdedup, hui⟩ := hnew (h.id_new hnd (List.mem_of_getElem? hx))
  refine ⟨?_, ?_, ?_, ?_, ?_, ?_, ?_⟩
  · rw [hphone]
    exact hname
  · rw [hphone]
    exact hconfig
  · rw [hphone, hsent]
    exact h.counter
  · rw [hstep]
    refine (Function.update_self _ _ _).trans ?_
    rw [h.in_flight, List.eraseIdx_map]
  · rw [hsent, List.append_assoc]
    exact h.traffic.trans ((Selection.perm_cons_rest hx).append_left _)
  · rw [hphone, List.map_append, ← h.ui]
    exact hui
  · obtain ⟨r, hr, hkeys⟩ := h.cache
    refine ⟨r.touch (by decide) x.1 now, ?_, fun p hp => ?_⟩
    · rw [hphone]
      show Represents (((c.phones name).g_node.receive_callback
        (frame_to name x) true now).node.dedup) _
      rw [hdedup]
      exact hr.insert (by decide) _ now
    · rw [hsent, List.map_append, List.mem_append]
      rcases Recency.mem_keys_of_touch _ hp with hold | rfl
      · exact (hkeys p hold).imp_right Or.inl
      · exact Or.inr (Or.inr (List.mem_singleton_self _))

end Flow

-- ============================================================ both phones

/-- The account of both, for the messages they sent. -/
structure Flowing (c : Chat H) (flying got : NodeName → List Packet) :
    Prop where
  flow : ∀ name, Flow c name (flying name) (got name)
  sent_nonempty : ∀ name, ∀ m ∈ c.sent name, m ≠ []

/-- A message sent is on its way to the other phone; what arrives is not. -/
def flyingAfter (c : Chat H) (flying : NodeName → List Packet) :
    ChatEvent → NodeName → List Packet
  | .send name _ msg => Function.update flying name.peer
      (flying name.peer ++ [next_packet c name msg])
  | .deliver name k _ =>
      Function.update flying name ((flying name).eraseIdx k)
  | .tick _ _ => flying

/-- What arrives is got. -/
def gotAfter (flying got : NodeName → List Packet) :
    ChatEvent → NodeName → List Packet
  | .deliver name k _ =>
      Function.update got name (got name ++ (flying name)[k]?.toList)
  | .send _ _ _ => got
  | .tick _ _ => got

/-- The ids of a chat were distinct before if they are. -/
theorem packet_ids_nodup_of_step {c : Chat H} {ev : ChatEvent}
    (h : (c.step ev).packet_ids.Nodup) : c.packet_ids.Nodup := by
  cases ev with
  | send name now msg => exact (packet_ids_send c name now msg).2 h
  | deliver name k now =>
      have hsent : (c.step (.deliver name k now)).sent = c.sent := by
        unfold Chat.step
        dsimp only
        split <;> rfl
      unfold Chat.packet_ids at h ⊢
      rw [hsent] at h
      exact h
  | tick name now => exact h

namespace Flowing

variable {c : Chat H} {flying got : NodeName → List Packet}

theorem send (h : Flowing c flying got) (name : NodeName) (now : TimePoint)
    {msg : Bytes} (hmsg : msg ≠ []) :
    Flowing (c.step (.send name now msg))
      (flyingAfter c flying (.send name now msg)) got where
  flow m := by
    unfold flyingAfter
    dsimp only
    rcases NodeName.eq_or_eq_peer m name with rfl | rfl
    · rw [Function.update_of_ne m.peer_ne.symm]
      exact (h.flow m).send_self now msg
    · rw [Function.update_self]
      exact (h.flow name.peer).send_peer (h.flow name).name_eq
        (h.flow name).counter now msg
  sent_nonempty m msg' hmem := by
    by_cases hm : m = name
    · subst hm
      rw [sent_send_self] at hmem
      rcases List.mem_append.mp hmem with hmem | hmem
      · exact h.sent_nonempty m msg' hmem
      · rw [List.mem_singleton.mp hmem]
        exact hmsg
    · rw [sent_send_of_ne c name now msg hm] at hmem
      exact h.sent_nonempty m msg' hmem

theorem deliver (h : Flowing c flying got) (hnd : c.packet_ids.Nodup)
    (name : NodeName) (k : Nat) (now : TimePoint) :
    Flowing (c.step (.deliver name k now))
      (flyingAfter c flying (.deliver name k now))
      (gotAfter flying got (.deliver name k now)) := by
  have hself := h.flow name
  have hflight : (c.in_flight name)[k]?
      = (flying name)[k]?.map (frame_to name) := by
    rw [hself.in_flight, List.getElem?_map]
  unfold flyingAfter gotAfter
  dsimp only
  cases hx : (flying name)[k]? with
  | none =>
      rw [hx] at hflight
      have hstep : c.step (.deliver name k now) = c := by
        simp only [Chat.step, hflight, Option.map_none]
      rw [hstep, Option.toList_none, List.append_nil,
        List.eraseIdx_of_length_le (List.getElem?_eq_none_iff.mp hx),
        Function.update_eq_self, Function.update_eq_self]
      exact h
  | some x =>
      rw [hx] at hflight
      have hmem : x ∈ packets (c.sent name.peer) :=
        hself.traffic.mem_iff.mpr
          (List.mem_append_right _ (List.mem_of_getElem? hx))
      have hmsg : x.2 ≠ [] := by
        refine h.sent_nonempty name.peer x.2 ?_
        rw [← packets_snd (c.sent name.peer)]
        exact List.mem_map_of_mem hmem
      constructor
      · intro m
        by_cases hm : m = name
        · subst hm
          rw [Function.update_self, Function.update_self]
          exact hself.deliver hnd hx hmsg now
        · rw [Function.update_of_ne hm, Function.update_of_ne hm,
            Chat.step_deliver hflight]
          exact (h.flow m).congr (Function.update_of_ne hm _ _)
            (Function.update_of_ne hm _ _) rfl
      · rw [Chat.step_deliver hflight]
        exact h.sent_nonempty

/-- A tick runs no callback that could show anything. -/
theorem tick (h : Flowing c flying got) (name : NodeName) (now : TimePoint) :
    Flowing (c.step (.tick name now)) flying got where
  flow m := by
    by_cases hm : m = name
    · subst hm
      have hphone : (c.step (.tick m now)).phones m
          = { c.phones m with g_node := { (c.phones m).g_node with
              node := TimerNode.Tick now (c.phones m).g_node.node } } :=
        Function.update_self _ _ _
      have hflow := h.flow m
      refine ⟨?_, ?_, ?_, hflow.in_flight, hflow.traffic, ?_, ?_⟩
      · rw [hphone]
        exact hflow.name_eq
      · rw [hphone]
        exact hflow.config
      · rw [hphone]
        exact hflow.counter
      · rw [hphone]
        exact hflow.ui
      · obtain ⟨r, hr, hkeys⟩ := hflow.cache
        refine ⟨r, ?_, hkeys⟩
        rw [hphone]
        show Represents (TimerNode.Tick now (c.phones m).g_node.node).dedup r
        rw [TimerNode.tick_dedup]
        exact hr
    · exact (h.flow m).congr (Function.update_of_ne hm _ _) rfl rfl
  sent_nonempty := h.sent_nonempty

theorem step (h : Flowing c flying got) (ev : ChatEvent)
    (hnd : (c.step ev).packet_ids.Nodup)
    (hmsg : ∀ name now msg, ev = .send name now msg → msg ≠ []) :
    Flowing (c.step ev) (flyingAfter c flying ev) (gotAfter flying got ev) := by
  cases ev with
  | send name now msg => exact h.send name now (hmsg name now msg rfl)
  | deliver name k now =>
      exact h.deliver (packet_ids_nodup_of_step hnd) name k now
  | tick name now => exact h.tick name now

end Flowing

-- ======================================================== the application

namespace Application

variable (pf : Platform)

/-- The bytes of a string. -/
theorem c_str_getStringUTFChars (jni : JniStrings) (s : KString) :
    c_str (jni.GetStringUTFChars s) = jni.GetStringUTFChars s :=
  c_str_eq_self (jni.zero_notMem s)

theorem getStringUTFChars_ne_nil (jni : JniStrings) {s : KString}
    (hs : s ≠ []) : jni.GetStringUTFChars s ≠ [] := by
  intro hnil
  have hback := jni.newStringUTF_getStringUTFChars s
  have hempty := jni.newStringUTF_getStringUTFChars []
  rw [jni.getStringUTFChars_nil] at hempty
  rw [hnil, hempty] at hback
  exact hs hback.symm

/-- A string that went down comes up as it was. -/
theorem dispatch_getStringUTFChars (name : NodeName) (s : Receiver)
    (message : KString) :
    dispatch_packet_to_ui pf name s (pf.jni.GetStringUTFChars message)
      = onPacketReceived pf.base64 (pf.appContext name) s message := by
  unfold dispatch_packet_to_ui
  rw [c_str_getStringUTFChars, pf.jni.newStringUTF_getStringUTFChars]

/-- The account of the application: on every phone the messages `heard`
have been received, and those `waiting` are on their way, out of what the
other phone was given to send. -/
structure Carried (app : Application H) (es : List AppEvent)
    (heard waiting : NodeName → List KString) : Prop where
  flowing : ∃ flying got, Flowing app.chat flying got
    ∧ (∀ name, (got name).map Prod.snd
      = (heard name).map pf.jni.GetStringUTFChars)
    ∧ ∀ name, (flying name).map Prod.snd
      = (waiting name).map pf.jni.GetStringUTFChars
  receivers : ∀ name, app.receivers name
    = received pf.base64 (pf.appContext name) {} (heard name)
  messages : ∀ name, (messages name.peer es).Perm (heard name ++ waiting name)
  in_order : (∀ name k now, AppEvent.deliver name k now ∈ es → k = 0) →
    ∀ name, Application.messages name.peer es = heard name ++ waiting name

namespace Carried

variable {pf} {app : Application H} {es : List AppEvent}
  {heard waiting : NodeName → List KString}

/-- What a phone newly shows, its Kotlin side receives. -/
theorem receivers_step (h : Carried pf app es heard waiting) (ev : AppEvent)
    {flying got flying' got' : NodeName → List Packet}
    (hflow : Flowing app.chat flying got)
    (hflow' : Flowing (app.chat.step (ev.native pf.jni)) flying' got')
    {name : NodeName} (new : List Packet) (hnew : got' name = got name ++ new)
    {ms : List KString}
    (hms : new.map Prod.snd = ms.map pf.jni.GetStringUTFChars) :
    (app.step pf ev).receivers name
      = received pf.base64 (pf.appContext name) {} (heard name ++ ms) := by
  have hshown : (((app.chat.step (ev.native pf.jni)).phones name).g_node.ui.drop
      (app.chat.phones name).g_node.ui.length)
      = ms.map pf.jni.GetStringUTFChars := by
    rw [(hflow.flow name).ui, (hflow'.flow name).ui, hnew, List.map_append,
      List.drop_left' rfl, hms]
  show List.foldl _ (app.receivers name) _ = _
  rw [hshown, h.receivers name, List.foldl_map]
  unfold received
  rw [exec_append]
  congr 1
  funext s message
  exact dispatch_getStringUTFChars pf name s message

/-- A phone is given a message to send. -/
theorem send (h : Carried pf app es heard waiting) (name : NodeName)
    (now : TimePoint) {message : KString} (hmessage : message ≠ []) :
    Carried pf (app.step pf (.sendChatMessage name now message))
      (es ++ [.sendChatMessage name now message]) heard
      (Function.update waiting name.peer
        (waiting name.peer ++ [message])) := by
  obtain ⟨flying, got, hflow, hgot, hflying⟩ := h.flowing
  have hflow' := hflow.send name now (getStringUTFChars_ne_nil pf.jni hmessage)
  rw [← c_str_getStringUTFChars] at hflow'
  have hmessages : ∀ m, Application.messages m
      (es ++ [.sendChatMessage name now message])
      = Application.messages m es ++ if name = m then [message] else [] := by
    intro m
    unfold Application.messages
    rw [List.filterMap_append]
    congr 1
    by_cases hm : name = m <;> simp [AppEvent.message, hm]
  constructor
  · refine ⟨_, got, hflow', hgot, fun m => ?_⟩
    unfold flyingAfter
    dsimp only
    by_cases hm : m = name.peer
    · subst hm
      rw [Function.update_self, Function.update_self, List.map_append,
        List.map_append, hflying, c_str_getStringUTFChars]
      rfl
    · rw [Function.update_of_ne hm, Function.update_of_ne hm]
      exact hflying m
  · intro m
    have hsame := h.receivers_step (.sendChatMessage name now message) hflow
      hflow' [] (List.append_nil (got m)).symm (List.map_nil).symm
    rw [List.append_nil] at hsame
    exact hsame
  · intro m
    rw [hmessages]
    by_cases hm : m = name.peer
    · subst hm
      rw [Function.update_self, name.peer_peer, if_pos rfl, ← List.append_assoc]
      have hperm := h.messages name.peer
      rw [name.peer_peer] at hperm
      exact hperm.append_right _
    · have hne : name ≠ m.peer := fun heq => hm (by rw [heq, m.peer_peer])
      rw [Function.update_of_ne hm, if_neg hne, List.append_nil]
      exact h.messages m
  · intro horder m
    have hbefore := h.in_order fun n k t hmem =>
      horder n k t (List.mem_append_left _ hmem)
    rw [hmessages]
    by_cases hm : m = name.peer
    · subst hm
      have heq := hbefore name.peer
      rw [name.peer_peer] at heq
      rw [Function.update_self, name.peer_peer, if_pos rfl, ← List.append_assoc,
        heq]
    · have hne : name ≠ m.peer := fun heq => hm (by rw [heq, m.peer_peer])
      rw [Function.update_of_ne hm, if_neg hne, List.append_nil]
      exact hbefore m

/-- A frame arrives, or nothing does. -/
theorem deliver (h : Carried pf app es heard waiting)
    (hnd : app.chat.packet_ids.Nodup) (name : NodeName) (k : Nat)
    (now : TimePoint) :
    Carried pf (app.step pf (.deliver name k now))
      (es ++ [.deliver name k now])
      (Function.update heard name (heard name ++ (waiting name)[k]?.toList))
      (Function.update waiting name ((waiting name).eraseIdx k)) := by
  obtain ⟨flying, got, hflow, hgot, hflying⟩ := h.flowing
  have hflow' := hflow.deliver hnd name k now
  have hat : ((flying name)[k]?.toList).map Prod.snd
      = ((waiting name)[k]?.toList).map pf.jni.GetStringUTFChars := by
    rw [← Option.toList_map, ← Option.toList_map, ← List.getElem?_map,
      ← List.getElem?_map, hflying]
  have hmessages : ∀ m, Application.messages m (es ++ [.deliver name k now])
      = Application.messages m es := by
    intro m
    unfold Application.messages
    rw [List.filterMap_append]
    exact List.append_nil _
  constructor
  · refine ⟨_, _, hflow', fun m => ?_, fun m => ?_⟩
    · unfold gotAfter
      dsimp only
      by_cases hm : m = name
      · subst hm
        rw [Function.update_self, Function.update_self, List.map_append,
          List.map_append, hgot, hat]
      · rw [Function.update_of_ne hm, Function.update_of_ne hm]
        exact hgot m
    · unfold flyingAfter
      dsimp only
      by_cases hm : m = name
      · subst hm
        rw [Function.update_self, Function.update_self, ← List.eraseIdx_map,
          ← List.eraseIdx_map, hflying]
      · rw [Function.update_of_ne hm, Function.update_of_ne hm]
        exact hflying m
  · intro m
    by_cases hm : m = name
    · subst hm
      rw [Function.update_self]
      exact h.receivers_step (.deliver m k now) hflow hflow' _
        (Function.update_self _ _ _) hat
    · rw [Function.update_of_ne hm]
      have hsame := h.receivers_step (.deliver name k now) hflow hflow' []
        ((Function.update_of_ne hm _ _).trans (List.append_nil (got m)).symm)
        (List.map_nil).symm
      rw [List.append_nil] at hsame
      exact hsame
  · intro m
    rw [hmessages]
    by_cases hm : m = name
    · subst hm
      rw [Function.update_self, Function.update_self, List.append_assoc]
      exact (h.messages m).trans
        ((Selection.perm_picked (waiting m) k).append_left _)
    · rw [Function.update_of_ne hm, Function.update_of_ne hm]
      exact h.messages m
  · intro horder m
    have hfirst : k = 0 := horder name k now (by simp)
    rw [hmessages, h.in_order (fun n j t hmem =>
      horder n j t (List.mem_append_left _ hmem)) m]
    by_cases hm : m = name
    · subst hm hfirst
      rw [Function.update_self, Function.update_self, List.append_assoc]
      congr 1
      cases waiting m <;> rfl
    · rw [Function.update_of_ne hm, Function.update_of_ne hm]

theorem tick (h : Carried pf app es heard waiting) (name : NodeName)
    (now : TimePoint) :
    Carried pf (app.step pf (.tick name now)) (es ++ [.tick name now]) heard
      waiting := by
  obtain ⟨flying, got, hflow, hgot, hflying⟩ := h.flowing
  have hflow' := hflow.tick name now
  have hmessages : ∀ m, Application.messages m (es ++ [.tick name now])
      = Application.messages m es := by
    intro m
    unfold Application.messages
    rw [List.filterMap_append]
    exact List.append_nil _
  refine ⟨⟨flying, got, hflow', hgot, hflying⟩, fun m => ?_, fun m => ?_,
    fun horder m => ?_⟩
  · have hsame := h.receivers_step (.tick name now) hflow hflow' []
      (List.append_nil (got m)).symm (List.map_nil).symm
    rw [List.append_nil] at hsame
    exact hsame
  · rw [hmessages]
    exact h.messages m
  · rw [hmessages]
    exact h.in_order (fun n j t hmem =>
      horder n j t (List.mem_append_left _ hmem)) m

end Carried

end Application

open Application

end Joker
