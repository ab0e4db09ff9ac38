/-
Does the receiver read what the sender wrote?

The fields of a message stand between colons, and the receiver cuts at the
first of them. So the metadata of a file are read as they were written
exactly if its name contains no colon, and a text exactly if it does not
begin like another kind of message; chunks and ends of transfers always
are (`framing_iff`). The last field of a message is what is left after the
cuts and may contain anything.

What is read of a metadata message is `announcement`; a colon in the name
moves the fields behind it.
-/
import Joker.Proofs.Kotlin

namespace Joker

-- ============================================================== the fields

theorem literal_meta : literal "FT_META:"
    = literal "FT_META" ++ [unit ':'] := by
  decide

theorem literal_chunk :
    literal "FT_CHUNK:" = literal "FT_CHUNK" ++ [unit ':'] := by decide

/-- The kind and the id are cut off metadata, whatever is behind them. -/
theorem split_meta {id : KString} (hid : unit ':' ∉ id)
    (name size total mime : KString) :
    KString.split (literal "FT_META:" ++ id ++ unit ':' :: name
        ++ unit ':' :: size ++ unit ':' :: total ++ unit ':' :: mime)
        (unit ':') 6
      = literal "FT_META" :: id :: Fields.split (unit ':') 3 (name
          ++ unit ':' :: size ++ unit ':' :: total ++ unit ':' :: mime) := by
  unfold KString.split
  rw [literal_meta]
  simp only [List.append_assoc, List.cons_append, List.nil_append]
  rw [Fields.split_append (by decide), Fields.split_append hid]

/-- What is read of the metadata of a transfer. -/
structure Announcement where
  fileName : KString
  fileSize : Int
  totalChunks : Int
  mimeType : KString

namespace Transfer

/-- The fields of the metadata behind the id. -/
def metaFields (t : Transfer) : List KString :=
  Fields.split (unit ':') 3 (t.fileName
    ++ unit ':' :: numberToString t.data.length
    ++ unit ':' :: numberToString t.totalChunks ++ unit ':' :: t.mimeType)

/-- What is read of them. -/
def announcement (t : Transfer) : Announcement where
  fileName := t.metaFields.getD 0 []
  fileSize := (toLongOrNull (t.metaFields.getD 1 [])).getD 0
  totalChunks := (toIntOrNull (t.metaFields.getD 2 [])).getD 1
  mimeType := t.metaFields.getD 3 []

variable (t : Transfer)

/-- The number of chunks is an `Int`. -/
theorem totalChunks_range :
    -2147483648 ≤ t.totalChunks ∧ t.totalChunks ≤ 2147483647 := by
  unfold totalChunks wrap32 chunkSize
  have hlo := Int.le_bmod (m := 4294967296)
    (x := Int.bmod (t.data.length + 800) 4294967296 - 1) (by decide)
  have hhi := Int.bmod_lt (m := 4294967296)
    (x := Int.bmod (t.data.length + 800) 4294967296 - 1) (by decide)
  generalize Int.bmod (Int.bmod (t.data.length + 800) 4294967296 - 1)
    4294967296 = x at *
  rcases Int.le_total 0 x with hx | hx
  · rw [Int.tdiv_eq_ediv_of_nonneg hx]
    omega
  · have hneg : x.tdiv 800 = -((-x).tdiv 800) := by
      rw [Int.neg_tdiv, Int.neg_neg]
    rw [hneg, Int.tdiv_eq_ediv_of_nonneg (by omega)]
    omega

/-- The metadata have four fields behind the id. -/
theorem metaFields_eq : ∃ name size total mime,
    t.metaFields = [name, size, total, mime] := by
  have hlen : t.metaFields.length = 4 := by
    apply Fields.length_split
    simp only [List.count_append, List.count_cons_self]
    omega
  match hf : t.metaFields, hlen with
  | [name, size, total, mime], _ => exact ⟨name, size, total, mime, rfl⟩

/-- What is read of the name contains no colon. -/
theorem colon_notMem_announcement : unit ':' ∉ t.announcement.fileName := by
  obtain ⟨name, size, total, mime, hf⟩ := t.metaFields_eq
  have hfirst : t.metaFields[0]? = some name := by rw [hf]; rfl
  have hname : t.announcement.fileName = name := by
    unfold announcement
    rw [hf]
    rfl
  rw [hname]
  exact Fields.notMem_of_getElem? (by decide) hfirst

/-- Without a colon in the name the metadata are read as they were
written. -/
theorem announcement_eq (h : unit ':' ∉ t.fileName) :
    t.announcement
      = ⟨t.fileName, t.data.length, t.totalChunks, t.mimeType⟩ := by
  have hfields : t.metaFields = [t.fileName, numberToString t.data.length,
      numberToString t.totalChunks, t.mimeType] :=
    Fields.split_fields h (colon_notMem_numberToString _)
      (colon_notMem_numberToString _) _
  obtain ⟨hlo, hhi⟩ := t.totalChunks_range
  have hsize := t.size_le
  unfold announcement
  rw [hfields]
  simp only [List.getD_cons_zero, List.getD_cons_succ]
  rw [toIntOrNull_numberToString hlo hhi,
    toLongOrNull_numberToString (by omega) (by omega), Option.getD_some,
    Option.getD_some]

end Transfer

-- ====================================================== what is received

variable (base64 : Base64Codec) (appContext : Option Context) (s : Receiver)

/-- A metadata message sets a transfer up as it is announced. -/
theorem onPacketReceived_meta (t : Transfer) :
    onPacketReceived base64 appContext s t.metaMessage
      = s.onMeta t.transferId.value t.announcement.fileName
        t.announcement.fileSize t.announcement.totalChunks
        t.announcement.mimeType := by
  obtain ⟨name, size, total, mime, hf⟩ := t.metaFields_eq
  have hsplit : KString.split t.metaMessage (unit ':') 6
      = literal "FT_META" :: t.transferId.value :: t.metaFields :=
    split_meta t.transferId.colon_notMem _ _ _ _
  have hstart :
      KString.startsWith t.metaMessage (literal "FT_META:") = true := by
    unfold Transfer.metaMessage
    simp only [List.append_assoc]
    exact startsWith_append _ _
  unfold onPacketReceived Transfer.announcement
  rw [if_pos hstart, hsplit, hf]
  simp only [List.getD_cons_zero, List.getD_cons_succ]

/-- A chunk message is a chunk of its transfer. -/
theorem onPacketReceived_chunk (t : Transfer) {i : Nat}
    (hi : i < t.totalChunks.toNat) :
    onPacketReceived base64 appContext s (t.chunkMessage base64 i)
      = s.onChunk t.transferId.value i (some (t.chunk i)) := by
  have hsplit : KString.split (t.chunkMessage base64 i) (unit ':') 4
      = [literal "FT_CHUNK", t.transferId.value, numberToString i,
        base64.encodeToString (t.chunk i)] := by
    unfold KString.split Transfer.chunkMessage
    rw [literal_chunk]
    simp only [List.append_assoc, List.cons_append, List.nil_append]
    rw [Fields.split_append (by decide),
      Fields.split_append t.transferId.colon_notMem,
      Fields.split_append (colon_notMem_numberToString _), Fields.split_zero]
  have hstart : KString.startsWith (t.chunkMessage base64 i)
      (literal "FT_CHUNK:") = true := by
    unfold Transfer.chunkMessage
    simp only [List.append_assoc]
    exact startsWith_append _ _
  have hmeta : KString.startsWith (t.chunkMessage base64 i)
      (literal "FT_META:") = false := by
    unfold Transfer.chunkMessage
    simp only [List.append_assoc]
    exact startsWith_append_of_not _ (by decide) (by decide)
  have hrange := t.totalChunks_range.2
  unfold onPacketReceived
  rw [hmeta, hstart, hsplit]
  dsimp only
  rw [if_neg Bool.false_ne_true, if_pos rfl, base64.decode_encodeToString,
    toIntOrNull_numberToString (by omega) (by omega)]
  rfl

/-- The last message of a transfer ends it. -/
theorem onPacketReceived_done (t : Transfer) :
    onPacketReceived base64 appContext s t.doneMessage
      = s.onDone appContext t.transferId.value := by
  have hstart : KString.startsWith t.doneMessage (literal "FT_DONE:") = true :=
    startsWith_append _ _
  have hmeta : KString.startsWith t.doneMessage (literal "FT_META:") = false :=
    startsWith_append_of_not _ (by decide) (by decide)
  have hchunk :
      KString.startsWith t.doneMessage (literal "FT_CHUNK:") = false :=
    startsWith_append_of_not _ (by decide) (by decide)
  unfold onPacketReceived
  rw [hmeta, hchunk, hstart, if_neg Bool.false_ne_true,
    if_neg Bool.false_ne_true, if_pos rfl]
  unfold Transfer.doneMessage
  rw [substringAfter_append _ _ (by decide), t.transferId.trim_value]

/-- A text does not begin like a message of another kind. -/
def PlainText (msg : KString) : Prop :=
  KString.startsWith msg (literal "FT_META:") = false
    ∧ KString.startsWith msg (literal "FT_CHUNK:") = false
    ∧ KString.startsWith msg (literal "FT_DONE:") = false

instance (msg : KString) : Decidable (PlainText msg) :=
  inferInstanceAs (Decidable (_ ∧ _))

theorem onPacketReceived_text {msg : KString} (h : PlainText msg) :
    onPacketReceived base64 appContext s msg = s.onText msg := by
  unfold onPacketReceived
  rw [h.1, h.2.1, h.2.2]
  rfl

-- ================================================================ the chat

/-- The end of a transfer that is there, and whose file can be opened,
writes and shows what has come of it. -/
theorem onDone_shown {context : Context} {e : IncomingTransfer}
    {transferId : KString}
    (he : s.incomingTransfers.lookup transferId = some e)
    (hopens : context.opens e.fileName = true) :
    (s.onDone (some context) transferId).chatItems
      = s.chatItems ++ [.Media (literal "Peer") e.fileName e.fileSize e.mimeType
          (context.absolutePath e.fileName) false]
    ∧ (s.onDone (some context) transferId).files
      = s.files.insert (context.absolutePath e.fileName) e.written := by
  unfold Receiver.onDone
  rw [he]
  dsimp only
  rw [if_pos hopens]
  exact ⟨rfl, rfl⟩

/-- No other end of a transfer adds anything to the chat. -/
theorem onDone_chatItems (transferId : KString) :
    (s.onDone appContext transferId).chatItems = s.chatItems
      ∨ ∃ context e, appContext = some context
        ∧ s.incomingTransfers.lookup transferId = some e
        ∧ context.opens e.fileName = true := by
  unfold Receiver.onDone
  cases s.incomingTransfers.lookup transferId with
  | none => exact Or.inl rfl
  | some e =>
      cases appContext with
      | none => exact Or.inl rfl
      | some context =>
          by_cases hopens : context.opens e.fileName = true
          · exact Or.inr ⟨context, e, rfl, rfl, hopens⟩
          · dsimp only
            rw [if_neg hopens]
            exact Or.inl rfl

theorem onChunk_chatItems (transferId : KString) (chunkIndex : Int)
    (chunkBytes : Option Bytes) :
    (s.onChunk transferId chunkIndex chunkBytes).chatItems = s.chatItems := by
  unfold Receiver.onChunk
  split
  · rfl
  · split <;> rfl

/-- What begins like another kind of message is not shown as a text. -/
theorem not_text_of_not_plain {msg : KString} (h : ¬ PlainText msg) :
    onPacketReceived base64 appContext s msg ≠ s.onText msg := by
  intro heq
  have hitems := congrArg Receiver.chatItems heq
  have hsame : s.chatItems ≠ (s.onText msg).chatItems := by
    simp [Receiver.onText]
  unfold onPacketReceived at hitems
  split at hitems
  · split at hitems
    · exact hsame hitems
    · exact hsame hitems
  · next hmeta =>
    split at hitems
    · split at hitems
      · rw [onChunk_chatItems] at hitems
        exact hsame hitems
      · exact hsame hitems
    · next hchunk =>
      split at hitems
      · rcases onDone_chatItems appContext s _ with
          hnone | ⟨context, e, hcontext, he, hopens⟩
        · exact hsame (hnone.symm.trans hitems)
        · rw [hcontext, (onDone_shown s he hopens).1] at hitems
          simp [Receiver.onText] at hitems
      · next hdone =>
        refine h ⟨?_, ?_, ?_⟩
        · exact Bool.eq_false_iff.mpr hmeta
        · exact Bool.eq_false_iff.mpr hchunk
        · exact Bool.eq_false_iff.mpr hdone

-- ============================================================= the framing

/-- What the sender can emit. -/
inductive Message where
  | text (msg : KString)
  | metadata (t : Transfer)
  | chunk (t : Transfer) (i : Fin t.totalChunks.toNat)
  | done (t : Transfer)

namespace Message

/-- The payload of a message. -/
def payload : Message → KString
  | text msg => sendTextMessage msg
  | metadata t => t.metaMessage
  | chunk t i => t.chunkMessage base64 i
  | done t => t.doneMessage

/-- What a receiver is to do with a message: the kind and the fields are
those of the sender. -/
def meaning : Message → Receiver
  | text msg => s.onText msg
  | metadata t => s.onMeta t.transferId.value t.fileName t.data.length
      t.totalChunks t.mimeType
  | chunk t i => s.onChunk t.transferId.value (i : Nat) (some (t.chunk i))
  | done t => s.onDone appContext t.transferId.value

/-- The text begins like no other kind of message, and the name of the file
contains no colon. -/
def Framed : Message → Prop
  | text msg => PlainText msg
  | metadata t => unit ':' ∉ t.fileName
  | chunk _ _ => True
  | done _ => True

end Message

/-- In every state a message is received as what it was sent as exactly if
it is framed. -/
theorem framing_iff (m : Message) :
    onPacketReceived base64 appContext s (m.payload base64)
        = m.meaning appContext s
      ↔ m.Framed := by
  cases m with
  | text msg =>
      refine ⟨fun heq => ?_, onPacketReceived_text base64 appContext s⟩
      by_contra hnot
      exact not_text_of_not_plain base64 appContext s hnot heq
  | metadata t =>
      show onPacketReceived base64 appContext s t.metaMessage = _ ↔ _
      rw [onPacketReceived_meta]
      constructor
      · intro heq
        have hlook := congrArg
          (fun s => s.incomingTransfers.lookup t.transferId.value) heq
        simp only [Message.meaning, Receiver.onMeta, AList.lookup_insert,
          Option.some.injEq, IncomingTransfer.mk.injEq] at hlook
        have hname : t.announcement.fileName = t.fileName := hlook.2.1
        show unit ':' ∉ t.fileName
        rw [← hname]
        exact t.colon_notMem_announcement
      · intro h
        rw [t.announcement_eq h]
        rfl
  | chunk t i =>
      exact iff_of_true (onPacketReceived_chunk base64 appContext s t i.isLt)
        trivial
  | done t =>
      exact iff_of_true (onPacketReceived_done base64 appContext s t) trivial

-- ============================================================= a misreading

def photo_id : TransferId :=
  ⟨literal "0a1b2c3d", by decide, hexadecimal_of_all (by decide)⟩

/-- A photo named after the time it was taken. -/
def photo : Transfer where
  transferId := photo_id
  fileName := literal "10:30.jpg"
  data := [1, 2, 3]
  mimeType := literal "image/jpeg"
  size_le := by decide

/-- A text that begins like the end of a transfer is not shown, and the
name of the photo is cut at its colon. -/
theorem colons_misread :
    onPacketReceived base64_no_wrap none {}
        ((Message.text (literal "FT_DONE:ready")).payload base64_no_wrap)
      ≠ (Message.text (literal "FT_DONE:ready")).meaning none {}
    ∧ onPacketReceived base64_no_wrap none {}
        ((Message.metadata photo).payload base64_no_wrap)
      ≠ (Message.metadata photo).meaning none {} := by
  constructor
  · intro heq
    have hitems := congrArg (fun s : Receiver => s.chatItems.length) heq
    revert hitems
    decide
  · intro heq
    have hname := congrArg (fun s : Receiver =>
      (s.incomingTransfers.lookup photo_id.value).map (·.fileName)) heq
    revert hname
    decide +kernel

end Joker
