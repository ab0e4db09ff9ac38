/-
Files over a channel that loses, repeats and reorders.

The receiver does not count the chunks it has: at the end of a transfer
whose metadata are there it writes what has come and shows the file. So
what is shown is what was sent if, whenever a transfer ends, its metadata
were read right and all its chunks have come since
(`received_files_intact`); and where no two transfers have one id, only
then.
-/
import Joker.Proofs.FileTransfer

namespace Joker

open Transition

variable (base64 : Base64Codec) (appContext : Option Context)
  (ts : List Transfer)

-- ================================================================ the runs

/-- Messages of some transfers, each any number of times or never, in any
order. -/
def Delivered (ps : List KString) : Prop :=
  ∀ p ∈ ps, ∃ t ∈ ts, p ∈ sendMedia base64 t

/-- Under an id nothing but chunks has come. -/
def OnlyChunks (id : TransferId) (ps : List KString) : Prop :=
  ∀ p ∈ ps, Foreign base64 id p
    ∨ ∃ t ∈ ts, t.transferId = id ∧ ChunkOf base64 t p

/-- The metadata of a transfer are read right, and since then all its chunks
have come and none of another transfer with its id. -/
def Complete (t : Transfer) (ps : List KString) : Prop :=
  t.announcement.fileSize = t.data.length
  ∧ (∀ i < Chunks.count 800 t.data, i < t.announcement.totalChunks.toNat
      ∧ i < t.totalChunks.toNat ∧ t.chunkMessage base64 i ∈ ps)
  ∧ ∀ p ∈ ps, ChunkOf base64 t p ∨ Foreign base64 t.transferId p

/-- Whenever a transfer ends whose metadata are there, and its file can be
opened, it is complete. -/
def EndsComplete (ps : List KString) : Prop :=
  ∀ t ∈ ts, ∀ before since rest,
    ps = before ++ t.metaMessage :: since ++ t.doneMessage :: rest →
    OnlyChunks base64 ts t.transferId since →
    (∃ context, appContext = some context
      ∧ context.opens t.announcement.fileName = true) →
    Complete base64 t since

/-- Whenever a file is shown, it is as one of the transfers sent it, of the
announced size, and all messages of that transfer have come. -/
def ShownIntact (ps : List KString) : Prop :=
  ∀ pre p rest, ps = pre ++ p :: rest →
    ∀ (sender fileName : KString) (fileSize : Int)
      (mimeType filePath : KString) (isMine : Bool),
      (onPacketReceived base64 appContext
          (received base64 appContext {} pre) p).chatItems
        = (received base64 appContext {} pre).chatItems
          ++ [.Media sender fileName fileSize mimeType filePath isMine] →
      ∃ t ∈ ts, p = t.doneMessage ∧ fileSize = t.data.length
        ∧ (onPacketReceived base64 appContext
            (received base64 appContext {} pre) p).files.lookup filePath
          = some t.data
        ∧ ∀ q ∈ sendMedia base64 t, q ∈ pre ++ [p]

variable {base64 appContext ts} {ps : List KString}

-- ============================================================= the sessions

theorem OnlyChunks.concat {id : TransferId} {p : KString}
    (h : OnlyChunks base64 ts id ps)
    (hp : Foreign base64 id p
      ∨ ∃ t ∈ ts, t.transferId = id ∧ ChunkOf base64 t p) :
    OnlyChunks base64 ts id (ps ++ [p]) := by
  intro q hq
  rcases List.mem_append.mp hq with hq | hq
  · exact h q hq
  · rw [List.mem_singleton.mp hq]
    exact hp

/-- What is under an id was announced by metadata since which nothing but
chunks has come under it. -/
theorem announced_since {id : TransferId} {e : IncomingTransfer}
    (hps : Delivered base64 ts ps)
    (he : (received base64 appContext {} ps).incomingTransfers.lookup id.value
      = some e) :
    ∃ t ∈ ts, t.transferId = id ∧ e.fileName = t.announcement.fileName
      ∧ ∃ before since, ps = before ++ t.metaMessage :: since
        ∧ OnlyChunks base64 ts id since := by
  induction ps using List.reverseRecOn generalizing e with
  | nil => exact absurd he (by simp [received])
  | append_singleton ps p ih =>
      have hrest : Delivered base64 ts ps :=
        fun q hq => hps q (List.mem_append_left _ hq)
      obtain ⟨t, ht, hp⟩ := hps p (by simp)
      unfold received at he ih
      rw [exec_concat] at he
      by_cases hid : t.transferId = id
      · subst hid
        rcases (mem_sendMedia base64).mp hp with rfl | hchunk | rfl
        · rw [lookup_metaMessage, Option.some.injEq] at he
          exact ⟨t, ht, rfl, by rw [← he], ps, [], rfl, by simp [OnlyChunks]⟩
        · obtain ⟨i, hi, rfl⟩ := id hchunk
          cases hslot : (exec (onPacketReceived base64 appContext) {}
              ps).incomingTransfers.lookup t.transferId.value with
          | some e' =>
              rw [lookup_chunkMessage base64 appContext hi hslot,
                Option.some.injEq] at he
              obtain ⟨t', ht', hid, hname, before, since, rfl, hsince⟩ :=
                ih hrest hslot
              exact ⟨t', ht', hid, by rw [← he, ← hname], before, _,
                by rw [List.append_assoc, List.cons_append],
                hsince.concat (Or.inr ⟨t, ht, rfl, hchunk⟩)⟩
          | none =>
              rw [onPacketReceived_chunk _ _ _ t hi, Receiver.onChunk,
                hslot] at he
              exact absurd (hslot.symm.trans he) (by simp)
        · rw [onPacketReceived_done, incomingTransfers_onDone,
            AList.lookup_erase] at he
          exact absurd he (by simp)
      · have hforeign : Foreign base64 id p :=
          Or.inr ⟨t, fun hval => hid (TransferId.value_inj hval), hp⟩
        rw [lookup_foreign base64 appContext hforeign] at he
        obtain ⟨t', ht', hid, hname, before, since, rfl, hsince⟩ := ih hrest he
        exact ⟨t', ht', hid, hname, before, _,
          by rw [List.append_assoc, List.cons_append],
          hsince.concat (Or.inl hforeign)⟩

variable (appContext) in
/-- What a transfer has got since its metadata. -/
theorem lookup_since {t : Transfer} (before : List KString)
    {since : List KString}
    (hsince : ∀ p ∈ since,
      ChunkOf base64 t p ∨ Foreign base64 t.transferId p) :
    ∃ e : IncomingTransfer,
      (received base64 appContext {}
          (before ++ t.metaMessage :: since)).incomingTransfers.lookup
          t.transferId.value = some e
      ∧ e.fileName = t.announcement.fileName
      ∧ e.fileSize = t.announcement.fileSize
      ∧ (e.written = t.data
        ↔ ∀ i < Chunks.count 800 t.data, i < t.announcement.totalChunks.toNat
          ∧ i < t.totalChunks.toNat ∧ t.chunkMessage base64 i ∈ since) := by
  have hmeta := lookup_metaMessage base64 appContext
    (received base64 appContext {} before) t
  obtain ⟨chunks, hlook, hchunks⟩ :=
    lookup_received base64 appContext hmeta hsince
  unfold received at hlook ⊢
  rw [exec_append]
  refine ⟨_, hlook, rfl, rfl, ?_⟩
  exact written_eq_iff fun i => by rw [hchunks, AList.lookup_empty]

/-- Only the end of a transfer shows a file: of one that is there, and that
can be opened. -/
theorem shown_at_end {t : Transfer} {s : Receiver} {p : KString}
    (hp : p ∈ sendMedia base64 t) {item : ChatMessageItem}
    (hshown : (onPacketReceived base64 appContext s p).chatItems
      = s.chatItems ++ [item]) :
    p = t.doneMessage ∧ ∃ context e, appContext = some context
      ∧ s.incomingTransfers.lookup t.transferId.value = some e
      ∧ context.opens e.fileName = true := by
  have hsame : s.chatItems ≠ s.chatItems ++ [item] := by simp
  rcases (mem_sendMedia base64).mp hp with rfl | ⟨i, hi, rfl⟩ | rfl
  · rw [onPacketReceived_meta] at hshown
    exact absurd hshown hsame
  · rw [onPacketReceived_chunk base64 appContext s t hi,
      onChunk_chatItems] at hshown
    exact absurd hshown hsame
  · rw [onPacketReceived_done] at hshown
    rcases onDone_chatItems appContext s t.transferId.value with hnone | hthere
    · exact absurd (hnone.symm.trans hshown) hsame
    · exact ⟨rfl, hthere⟩

/-- The id of a transfer can be told from its end. -/
theorem doneMessage_inj {t t' : Transfer}
    (h : t.doneMessage = t'.doneMessage) : t.transferId = t'.transferId :=
  TransferId.value_inj ((List.append_right_inj _).mp h)

-- =============================================================== the files

/-- If every transfer that ends is complete, every file shown is as it was
sent. -/
theorem EndsComplete.shownIntact (hps : Delivered base64 ts ps)
    (hends : EndsComplete base64 appContext ts ps) :
    ShownIntact base64 appContext ts ps := by
  intro pre p rest hsplit sender fileName fileSize mimeType filePath isMine
    hshown
  have hpre : Delivered base64 ts pre := fun q hq =>
    hps q (by rw [hsplit]; exact List.mem_append_left _ hq)
  obtain ⟨t', ht', hp⟩ := hps p (by rw [hsplit]; simp)
  obtain ⟨rfl, context, e, rfl, he, hopens⟩ := shown_at_end hp hshown
  obtain ⟨t, ht, hid, hname, before, since, rfl, honly⟩ :=
    announced_since hpre he
  have hdone : t'.doneMessage = t.doneMessage := by
    unfold Transfer.doneMessage
    rw [hid]
  rw [← hid] at he honly
  rw [hdone] at hshown hsplit ⊢
  obtain ⟨hsize, hchunks, hsince⟩ := hends t ht before since rest hsplit honly
    ⟨context, rfl, by rw [← hname]; exact hopens⟩
  obtain ⟨e', he', -, hsize', hwritten⟩ :=
    lookup_since (some context) before hsince
  have hsame : e' = e := Option.some.inj (he'.symm.trans he)
  subst hsame
  obtain ⟨hitems, hfiles⟩ := onDone_shown _ he hopens
  rw [onPacketReceived_done, hitems] at hshown
  have hitem := List.append_cancel_left hshown
  rw [List.cons_eq_cons, ChatMessageItem.Media.injEq] at hitem
  obtain ⟨⟨-, -, rfl, -, rfl, -⟩, -⟩ := hitem
  refine ⟨t, ht, rfl, hsize'.trans hsize, ?_, ?_⟩
  · rw [onPacketReceived_done, hfiles, AList.lookup_insert,
      hwritten.mpr hchunks]
  · intro q hq
    rcases (mem_sendMedia base64).mp hq with rfl | ⟨i, hi, rfl⟩ | rfl
    · simp
    · have hcame := (hchunks i (t.lt_count hi).2).2.2
      simp [hcame]
    · simp

/-- Where no two transfers have one id, every transfer that ends is complete
if every file shown is as it was sent. -/
theorem ShownIntact.endsComplete
    (hdistinct : ∀ t ∈ ts, ∀ t' ∈ ts, t.transferId = t'.transferId → t = t')
    (hshown : ShownIntact base64 appContext ts ps) :
    EndsComplete base64 appContext ts ps := by
  intro t ht before since rest hsplit honly hcontext
  obtain ⟨context, rfl, hopens⟩ := hcontext
  have hsince : ∀ p ∈ since,
      ChunkOf base64 t p ∨ Foreign base64 t.transferId p := by
    intro p hp
    rcases honly p hp with hforeign | ⟨t', ht', hid, hchunk⟩
    · exact Or.inr hforeign
    · rw [hdistinct t' ht' t ht hid] at hchunk
      exact Or.inl hchunk
  obtain ⟨e, he, hname, hsize, hwritten⟩ :=
    lookup_since (some context) before hsince
  rw [← hname] at hopens
  obtain ⟨hitems, hfiles⟩ := onDone_shown _ he hopens
  rw [← onPacketReceived_done base64] at hitems hfiles
  obtain ⟨t', ht', hdone, hsize', hfile, -⟩ :=
    hshown _ _ rest hsplit _ _ _ _ _ _ hitems
  have hsame : t = t' := hdistinct t ht t' ht' (doneMessage_inj hdone)
  subst hsame
  rw [hfiles, AList.lookup_insert, Option.some.injEq] at hfile
  exact ⟨hsize.symm.trans hsize', hwritten.mp hfile, hsince⟩

/-- If every transfer that ends is complete, every file shown is as it was
sent. If moreover no two transfers have one id, then only if. -/
theorem received_files_intact (base64 : Base64Codec)
    (appContext : Option Context) (ts : List Transfer) (ps : List KString)
    (hps : Delivered base64 ts ps) :
    (EndsComplete base64 appContext ts ps →
      ShownIntact base64 appContext ts ps)
    ∧ ((∀ t ∈ ts, ∀ t' ∈ ts, t.transferId = t'.transferId → t = t') →
      ShownIntact base64 appContext ts ps →
      EndsComplete base64 appContext ts ps) :=
  ⟨EndsComplete.shownIntact hps, ShownIntact.endsComplete⟩

-- =============================================================== two runs

/-- A receiver that can open every file. -/
def download : Context := ⟨fun name => name, fun _ => true⟩

/-- The kinds of messages differ in their fourth letter. -/
theorem fourth_letters (base64 : Base64Codec) (t : Transfer) (i : Nat) :
    t.metaMessage[3]? = some (unit 'M')
      ∧ (t.chunkMessage base64 i)[3]? = some (unit 'C')
      ∧ t.doneMessage[3]? = some (unit 'D') :=
  ⟨rfl, rfl, rfl⟩

/-- A chunk is neither metadata nor an end. -/
theorem chunkMessage_ne (base64 : Base64Codec) (t t' : Transfer) (i : Nat) :
    t.chunkMessage base64 i ≠ t'.metaMessage
      ∧ t.chunkMessage base64 i ≠ t'.doneMessage := by
  obtain ⟨-, hchunk, -⟩ := fourth_letters base64 t i
  obtain ⟨hmeta, -, hdone⟩ := fourth_letters base64 t' i
  refine ⟨fun h => ?_, fun h => ?_⟩
  · rw [h, hmeta] at hchunk
    exact absurd hchunk (by decide)
  · rw [h, hdone] at hchunk
    exact absurd hchunk (by decide)

theorem metaMessage_ne_doneMessage (t t' : Transfer) :
    t.metaMessage ≠ t'.doneMessage := by
  obtain ⟨hmeta, -, -⟩ := fourth_letters base64_no_wrap t 0
  obtain ⟨-, -, hdone⟩ := fourth_letters base64_no_wrap t' 0
  intro h
  rw [h, hdone] at hmeta
  exact absurd hmeta (by decide)

/-- Nothing of the scan is lost, and its second chunk comes first. -/
theorem received_files_intact_out_of_order :
    ShownIntact base64_no_wrap (some download) [scan]
      [scan.metaMessage, scan.chunkMessage base64_no_wrap 1,
        scan.chunkMessage base64_no_wrap 0, scan.doneMessage] := by
  have hsent := fun p => mem_sendMedia base64_no_wrap (t := scan) (p := p)
  have hone := scan_chunk (i := 1) (by decide)
  have hzero := scan_chunk (i := 0) (by decide)
  have hps : Delivered base64_no_wrap [scan]
      [scan.metaMessage, scan.chunkMessage base64_no_wrap 1,
        scan.chunkMessage base64_no_wrap 0, scan.doneMessage] := by
    simp [Delivered, hsent, hone, hzero]
  refine (received_files_intact base64_no_wrap (some download) [scan] _ hps).1
    ?_
  intro t ht before since rest hsplit _ _
  rw [List.mem_singleton.mp ht] at hsplit ⊢
  -- the metadata are the first message, the end the last
  obtain ⟨rfl, hrest⟩ : before = [] ∧ since ++ scan.doneMessage :: rest
      = [scan.chunkMessage base64_no_wrap 1,
        scan.chunkMessage base64_no_wrap 0, scan.doneMessage] := by
    rw [List.append_assoc, List.cons_append] at hsplit
    cases before with
    | nil => exact ⟨rfl, (List.cons.inj hsplit).2.symm⟩
    | cons x before =>
        have hmem : scan.metaMessage ∈ [scan.chunkMessage base64_no_wrap 1,
            scan.chunkMessage base64_no_wrap 0, scan.doneMessage] := by
          rw [(List.cons.inj hsplit).2]
          exact List.mem_append_right _ List.mem_cons_self
        simp [(chunkMessage_ne _ _ _ _).1.symm,
          metaMessage_ne_doneMessage] at hmem
  have hchunks := fun i => (chunkMessage_ne base64_no_wrap scan scan i).2
  have hsince : since = [scan.chunkMessage base64_no_wrap 1,
      scan.chunkMessage base64_no_wrap 0] := by
    rcases since with _ | ⟨x, _ | ⟨y, _ | ⟨z, since⟩⟩⟩
    · exact absurd (List.cons.inj hrest).1.symm (hchunks 1)
    · simp [(hchunks 0).symm] at hrest
    · simp only [List.cons_append, List.nil_append, List.cons.injEq] at hrest
      rw [hrest.1, hrest.2.1]
    · simp at hrest
  subst hsince
  refine ⟨by rw [scan_announcement], ?_, by simp [hone, hzero]⟩
  intro i hi
  unfold Chunks.count at hi
  rw [scan_length] at hi
  have hcases : i = 0 ∨ i = 1 := by omega
  rw [scan_announcement]
  show i < scan.totalChunks.toNat ∧ _
  rw [scan_totalChunks]
  rcases hcases with rfl | rfl <;> exact ⟨by decide, by decide, by simp⟩

/-- The one chunk of the note is lost: an empty file is shown. -/
theorem lost_chunk_shown :
    Delivered base64_no_wrap [note] [note.metaMessage, note.doneMessage]
    ∧ (received base64_no_wrap (some download) {}
        [note.metaMessage, note.doneMessage]).files.lookup note.fileName
      = some []
    ∧ ¬ ShownIntact base64_no_wrap (some download) [note]
      [note.metaMessage, note.doneMessage] := by
  have hempty : (received base64_no_wrap (some download) {}
        [note.metaMessage, note.doneMessage]).files.lookup note.fileName
      = some [] := by
    decide +kernel
  refine ⟨?_, hempty, fun hshown => ?_⟩
  · simp [Delivered, mem_sendMedia]
  · have hmeta := lookup_metaMessage base64_no_wrap (some download) {} note
    have hitems := (@onDone_shown _ download _ _ hmeta rfl).1
    rw [← onPacketReceived_done base64_no_wrap] at hitems
    obtain ⟨t, ht, -, -, -, hall⟩ :=
      hshown [note.metaMessage] _ [] rfl _ _ _ _ _ _ hitems
    rw [List.mem_singleton.mp ht] at hall
    have hchunk := hall _ ((mem_sendMedia base64_no_wrap).mpr
      (Or.inr (Or.inl note_chunk)))
    simp [chunkMessage_ne] at hchunk

end Joker
