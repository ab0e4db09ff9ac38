/-
Reassembly of a file.

The receiver keeps the chunks of a transfer under their numbers, so it
does not matter in which order and how often they come
(`lookup_received`), nor what comes in between that is not of the
transfer (`lookup_foreign`). At the end it writes the chunks by number,
and that is the file (`transfer_reassembled`).

The size of a file with the 799 bytes the division rounds up by has to be
an `Int`: a larger file is sent without a chunk (`totalChunks_nonpos`).
-/
import Joker.Lib.Chunks
import Joker.Lib.Transition
import Joker.Proofs.Framing

namespace Joker

open Transition

-- ============================================================== the chunks

theorem wrap32_eq {n : Int} (hlo : -2147483648 ≤ n) (hhi : n ≤ 2147483647) :
    wrap32 n = n := by
  unfold wrap32
  apply Int.bmod_eq_of_le <;> omega

/-- Past the range it goes on at the other end. -/
theorem wrap32_eq_sub {n : Int} (hlo : 2147483648 ≤ n)
    (hhi : n ≤ 6442450943) : wrap32 n = n - 4294967296 := by
  unfold wrap32
  rw [← Int.sub_bmod_right]
  apply Int.bmod_eq_of_le <;> omega

namespace Transfer

variable {t : Transfer} {i : Nat}

/-- One wrap for the sum is enough. -/
theorem totalChunks_eq_tdiv (t : Transfer) :
    t.totalChunks = (wrap32 (t.data.length + 799)).tdiv 800 := by
  have hsum : (t.data.length : Int) + 800 - 1 = t.data.length + 799 := by omega
  unfold totalChunks wrap32 chunkSize
  rw [Int.bmod_sub_bmod, hsum]

/-- The number of chunks, while the sum is an `Int`. -/
theorem totalChunks_eq (h : t.data.length ≤ 2147482848) :
    t.totalChunks = Chunks.count 800 t.data := by
  rw [totalChunks_eq_tdiv, wrap32_eq (by omega) (by omega),
    Int.tdiv_eq_ediv_of_nonneg (by omega)]
  unfold Chunks.count
  omega

/-- A larger file is sent without a chunk. -/
theorem totalChunks_nonpos (h : 2147482848 < t.data.length) :
    t.totalChunks ≤ 0 := by
  have hsize := t.size_le
  have hquot : 0 ≤ (4294967296 - ((t.data.length : Int) + 799)).tdiv 800 :=
    Int.tdiv_nonneg (by omega) (by decide)
  rw [totalChunks_eq_tdiv, wrap32_eq_sub (by omega) (by omega),
    ← Int.neg_sub, Int.neg_tdiv]
  omega

/-- A chunk that is sent is one of the file. -/
theorem lt_count (hi : i < t.totalChunks.toNat) :
    t.data.length ≤ 2147482848 ∧ i < Chunks.count 800 t.data := by
  have hsize : t.data.length ≤ 2147482848 := by
    by_contra hlarge
    have hnone := totalChunks_nonpos (t := t) (by omega)
    omega
  have htotal := totalChunks_eq hsize
  exact ⟨hsize, by omega⟩

theorem chunk_eq (hi : i < t.totalChunks.toNat) :
    t.chunk i = Chunks.chunk 800 t.data i := by
  obtain ⟨hsize, hcount⟩ := lt_count hi
  rw [Chunks.lt_count_iff (by decide)] at hcount
  unfold chunk Chunks.chunk chunkSize
  rw [wrap32_eq (n := i * 800) (by omega) (by omega),
    wrap32_eq (n := (i : Int) + 1) (by omega) (by omega),
    wrap32_eq (n := ((i : Int) + 1) * 800) (by omega) (by omega)]
  dsimp only
  have hstart : ((i : Int) * 800).toNat = i * 800 := by omega
  rw [List.drop_take, hstart, List.take_eq_take_min,
    List.take_eq_take_min (i := 800), List.length_drop]
  congr 1
  omega

end Transfer

-- ============================================================ the messages

variable (base64 : Base64Codec) (appContext : Option Context)

/-- The receiver after payloads have come. -/
def received (s : Receiver) (ps : List KString) : Receiver :=
  exec (onPacketReceived base64 appContext) s ps

/-- One of the chunk messages that are sent. -/
def ChunkOf (t : Transfer) (p : KString) : Prop :=
  ∃ i < t.totalChunks.toNat, p = t.chunkMessage base64 i

/-- A text that begins like no other message, or a message of a transfer
with another id. -/
def Foreign (id : TransferId) (p : KString) : Prop :=
  PlainText p
    ∨ ∃ t : Transfer, t.transferId.value ≠ id.value ∧ p ∈ sendMedia base64 t

theorem mem_sendMedia {t : Transfer} {p : KString} :
    p ∈ sendMedia base64 t
      ↔ p = t.metaMessage ∨ ChunkOf base64 t p ∨ p = t.doneMessage := by
  have hchunk : p ∈ (List.range t.totalChunks.toNat).map
      (t.chunkMessage base64) ↔ ChunkOf base64 t p := by
    rw [List.mem_map]
    constructor
    · rintro ⟨i, hi, rfl⟩
      exact ⟨i, List.mem_range.mp hi, rfl⟩
    · rintro ⟨i, hi, rfl⟩
      exact ⟨i, List.mem_range.mpr hi, rfl⟩
  rw [sendMedia, List.mem_append, List.mem_cons, hchunk, List.mem_singleton,
    or_assoc]

variable {s : Receiver} {t : Transfer} {e : IncomingTransfer} {p : KString}

/-- The metadata of a transfer replace what was under its id. -/
theorem lookup_metaMessage (s : Receiver) (t : Transfer) :
    (onPacketReceived base64 appContext s
        t.metaMessage).incomingTransfers.lookup t.transferId.value
      = some ⟨t.transferId.value, t.announcement.fileName,
          t.announcement.fileSize, t.announcement.totalChunks,
          t.announcement.mimeType, ∅⟩ := by
  rw [onPacketReceived_meta]
  exact AList.lookup_insert _

/-- A chunk goes under its number. -/
theorem lookup_chunkMessage {i : Nat} (hi : i < t.totalChunks.toNat)
    (he : s.incomingTransfers.lookup t.transferId.value = some e) :
    (onPacketReceived base64 appContext s
        (t.chunkMessage base64 i)).incomingTransfers.lookup t.transferId.value
      = some { e with chunks := e.chunks.insert i (t.chunk i) } := by
  rw [onPacketReceived_chunk base64 appContext s t hi]
  unfold Receiver.onChunk
  rw [he]
  exact AList.lookup_insert _

/-- What is under another id stays. -/
theorem lookup_onChunk_of_ne {id transferId : KString} (h : transferId ≠ id)
    (chunkIndex : Int) (chunkBytes : Option Bytes) :
    (s.onChunk transferId chunkIndex chunkBytes).incomingTransfers.lookup id
      = s.incomingTransfers.lookup id := by
  unfold Receiver.onChunk
  split
  · rfl
  · split
    · rfl
    · exact AList.lookup_insert_ne h.symm

theorem incomingTransfers_onDone (transferId : KString) :
    (s.onDone appContext transferId).incomingTransfers
      = s.incomingTransfers.erase transferId := by
  unfold Receiver.onDone
  dsimp only
  split
  · split <;> rfl
  · rfl

/-- A foreign message leaves a transfer alone. -/
theorem lookup_foreign {id : TransferId} (hp : Foreign base64 id p)
    (s : Receiver) :
    (onPacketReceived base64 appContext s p).incomingTransfers.lookup id.value
      = s.incomingTransfers.lookup id.value := by
  rcases hp with htext | ⟨t, hid, hp⟩
  · rw [onPacketReceived_text base64 appContext s htext]
    rfl
  · rcases (mem_sendMedia base64).mp hp with rfl | ⟨i, hi, rfl⟩ | rfl
    · rw [onPacketReceived_meta]
      exact AList.lookup_insert_ne hid.symm
    · rw [onPacketReceived_chunk base64 appContext s t hi]
      exact lookup_onChunk_of_ne hid _ _
    · rw [onPacketReceived_done, incomingTransfers_onDone]
      exact AList.lookup_erase_ne hid.symm

-- ============================================================ the assembly

/-- A receiver that waits for the chunks of one transfer. -/
def waiting (id : TransferId) : Receiver where
  incomingTransfers := AList.singleton id.value ⟨id.value, [], 0, 0, [], ∅⟩

theorem lookup_waiting (id : TransferId) :
    (waiting id).incomingTransfers.lookup id.value
      = some ⟨id.value, [], 0, 0, [], ∅⟩ :=
  AList.lookup_insert ∅

/-- No foreign message is a chunk of a transfer, for it would be kept. -/
theorem Foreign.ne_chunkMessage (hp : Foreign base64 t.transferId p) {i : Nat}
    (hi : i < t.totalChunks.toNat) : p ≠ t.chunkMessage base64 i := by
  rintro rfl
  have hkept := lookup_chunkMessage base64 none hi (lookup_waiting t.transferId)
  rw [lookup_foreign base64 none hp, lookup_waiting, Option.some.injEq,
    IncomingTransfer.mk.injEq] at hkept
  have hat := congrArg (AList.lookup (i : Int)) hkept.2.2.2.2.2
  rw [AList.lookup_insert, AList.lookup_empty] at hat
  exact Option.some_ne_none _ hat.symm

/-- The number of a chunk can be told from its message. -/
theorem chunkMessage_inj {i j : Nat} (hi : i < t.totalChunks.toNat)
    (hj : j < t.totalChunks.toNat)
    (h : t.chunkMessage base64 i = t.chunkMessage base64 j) : i = j := by
  by_contra hne
  have hkept := lookup_chunkMessage base64 none hi (lookup_waiting t.transferId)
  rw [h, lookup_chunkMessage base64 none hj (lookup_waiting t.transferId),
    Option.some.injEq, IncomingTransfer.mk.injEq] at hkept
  have hat := congrArg (AList.lookup (i : Int)) hkept.2.2.2.2.2
  rw [AList.lookup_insert, AList.lookup_insert_ne (by omega),
    AList.lookup_empty] at hat
  exact Option.some_ne_none _ hat.symm

/-- Another message does not bring a chunk. -/
theorem came_concat (ps : List KString) {i : Nat}
    (hp : i < t.totalChunks.toNat → p ≠ t.chunkMessage base64 i) :
    (i < t.totalChunks.toNat ∧ t.chunkMessage base64 i ∈ ps ++ [p])
      ↔ i < t.totalChunks.toNat ∧ t.chunkMessage base64 i ∈ ps := by
  refine and_congr_right fun hi => ?_
  rw [List.mem_append, List.mem_singleton]
  exact or_iff_left fun heq => hp hi heq.symm

/-- From its metadata on a transfer has got exactly the chunks that came,
in whatever order, however often, and between whatever foreign messages. -/
theorem lookup_received
    (he : s.incomingTransfers.lookup t.transferId.value = some e)
    {ps : List KString}
    (hps : ∀ p ∈ ps, ChunkOf base64 t p ∨ Foreign base64 t.transferId p) :
    ∃ chunks : UnorderedMap Int Bytes,
      (received base64 appContext s ps).incomingTransfers.lookup
          t.transferId.value
        = some { e with chunks := chunks }
      ∧ ∀ i : Nat, chunks.lookup (i : Int)
        = if i < t.totalChunks.toNat ∧ t.chunkMessage base64 i ∈ ps then
            some (t.chunk i)
          else e.chunks.lookup (i : Int) := by
  induction ps using List.reverseRecOn with
  | nil => exact ⟨e.chunks, he, fun i => by simp⟩
  | append_singleton ps p ih =>
      obtain ⟨chunks, hlook, hchunks⟩ :=
        ih fun q hq => hps q (List.mem_append_left _ hq)
      unfold received at hlook ⊢
      rw [exec_concat]
      rcases hps p (by simp) with ⟨j, hj, rfl⟩ | hp
      · refine ⟨chunks.insert j (t.chunk j),
          lookup_chunkMessage base64 appContext hj hlook, fun i => ?_⟩
        by_cases hij : i = j
        · subst hij
          rw [AList.lookup_insert, if_pos ⟨hj, by simp⟩]
        · have hcame := came_concat base64 ps fun hi heq =>
            hij (chunkMessage_inj base64 hi hj heq.symm)
          rw [AList.lookup_insert_ne (by omega), hchunks]
          exact (if_congr hcame rfl rfl).symm
      · refine ⟨chunks, (lookup_foreign base64 appContext hp _).trans hlook,
          fun i => ?_⟩
        have hcame := came_concat base64 ps
          (Foreign.ne_chunkMessage base64 hp (i := i))
        rw [hchunks]
        exact (if_congr hcame rfl rfl).symm

/-- What is written is the file exactly if every chunk has come and the
announced number covers them all. -/
theorem written_eq_iff {chunks : UnorderedMap Int Bytes} {P : Nat → Prop}
    [DecidablePred P]
    (hchunks : ∀ i : Nat, chunks.lookup (i : Int)
      = if i < t.totalChunks.toNat ∧ P i then some (t.chunk i) else none) :
    IncomingTransfer.written { e with chunks := chunks } = t.data
      ↔ ∀ i < Chunks.count 800 t.data, i < e.totalChunks.toNat
        ∧ i < t.totalChunks.toNat ∧ P i := by
  rw [← Chunks.flatMap_range_if_iff (by decide)]
  have hpieces : ∀ i : Nat, (chunks.lookup (i : Int)).getD []
      = if i < t.totalChunks.toNat ∧ P i then Chunks.chunk 800 t.data i
        else [] := by
    intro i
    rw [hchunks]
    split
    · next hi =>
      rw [Option.getD_some, t.chunk_eq hi.1]
    · rfl
  unfold IncomingTransfer.written
  simp only [hpieces]

/-- What is written at the end of a transfer that is there. -/
theorem files_onDone (context : Context) {transferId : KString}
    (he : s.incomingTransfers.lookup transferId = some e) :
    (s.onDone (some context) transferId).files
      = if context.opens e.fileName then
          s.files.insert (context.absolutePath e.fileName) e.written
        else s.files := by
  by_cases hopens : context.opens e.fileName = true
  · rw [(onDone_shown s he hopens).2, if_pos hopens]
  · unfold Receiver.onDone
    rw [he]
    dsimp only
    rw [if_neg hopens, if_neg hopens]

/-- Once the metadata were read to the sender's number of chunks, and all
chunk messages have come in whatever order, however often and between
whatever foreign messages, the end of the transfer writes the file as it
was sent. -/
theorem transfer_reassembled (context : Context) (s : Receiver) (t : Transfer)
    (e : IncomingTransfer) (hsize : t.data.length ≤ 2147483647 - 799)
    (hmeta : (onPacketReceived base64 (some context) s
      t.metaMessage).incomingTransfers.lookup t.transferId.value = some e)
    (htotal : e.totalChunks = t.totalChunks) (ps : List KString)
    (hall : ∀ i < t.totalChunks.toNat, t.chunkMessage base64 i ∈ ps)
    (hps : ∀ p ∈ ps, ChunkOf base64 t p ∨ Foreign base64 t.transferId p) :
    let before := received base64 (some context) s (t.metaMessage :: ps)
    let after := onPacketReceived base64 (some context) before t.doneMessage
    (∃ transfer, transfer.fileName = e.fileName ∧ transfer.written = t.data
      ∧ before.incomingTransfers.lookup t.transferId.value = some transfer)
    ∧ after.files = if context.opens e.fileName then
        before.files.insert (context.absolutePath e.fileName) t.data
      else before.files := by
  have hempty : e.chunks = ∅ := by
    rw [lookup_metaMessage, Option.some.injEq] at hmeta
    rw [← hmeta]
  obtain ⟨chunks, hlook, hchunks⟩ :=
    lookup_received base64 (some context) hmeta hps
  have hcount := t.totalChunks_eq hsize
  have hwritten :
      IncomingTransfer.written { e with chunks := chunks } = t.data := by
    refine (written_eq_iff (P := fun i => t.chunkMessage base64 i ∈ ps)
      fun i => ?_).mpr fun i hi => ?_
    · rw [hchunks, hempty]
      rfl
    · have hi : i < t.totalChunks.toNat := by omega
      exact ⟨by rw [htotal]; exact hi, hi, hall i hi⟩
  intro before after
  refine ⟨⟨{ e with chunks := chunks }, rfl, hwritten, hlook⟩, ?_⟩
  rw [← hwritten]
  show (onPacketReceived base64 (some context) before t.doneMessage).files = _
  rw [onPacketReceived_done]
  exact files_onDone context hlook

/-- A file of three bytes. -/
def note : Transfer := { photo with fileName := literal "note.txt" }

theorem note_totalChunks : note.totalChunks = 1 :=
  note.totalChunks_eq (by decide)

theorem note_chunk :
    ChunkOf base64_no_wrap note (note.chunkMessage base64_no_wrap 0) :=
  ⟨0, by simp [note_totalChunks], rfl⟩

/-- Another file, under another id. -/
def letter : Transfer :=
  { note with transferId :=
      ⟨literal "ffffffff", by decide, hexadecimal_of_all (by decide)⟩ }

/-- A file of two chunks, the second of one byte. -/
def scan : Transfer :=
  { note with
    fileName := literal "scan.txt"
    data := List.replicate 801 65
    size_le := by rw [List.length_replicate]; decide }

theorem scan_length : scan.data.length = 801 := List.length_replicate

theorem scan_totalChunks : scan.totalChunks = 2 := by
  rw [scan.totalChunks_eq (by rw [scan_length]; decide)]
  unfold Chunks.count
  rw [scan_length]
  rfl

theorem scan_announcement : scan.announcement
    = ⟨scan.fileName, scan.data.length, scan.totalChunks, scan.mimeType⟩ :=
  scan.announcement_eq (by decide)

theorem scan_chunk {i : Nat} (hi : i < 2) :
    ChunkOf base64_no_wrap scan (scan.chunkMessage base64_no_wrap i) :=
  ⟨i, by rw [scan_totalChunks]; exact hi, rfl⟩

/-- The second chunk of the scan comes first and again at the end, with a
text and the end of the letter in between. -/
theorem transfer_reassembled_out_of_order :
    let context : Context := ⟨fun name => name, fun _ => true⟩
    let ps := [scan.chunkMessage base64_no_wrap 1, literal "hello",
      letter.doneMessage, scan.chunkMessage base64_no_wrap 0,
      scan.chunkMessage base64_no_wrap 1]
    let before := received base64_no_wrap (some context) {}
      (scan.metaMessage :: ps)
    (∃ transfer, transfer.fileName = scan.announcement.fileName
      ∧ transfer.written = scan.data
      ∧ before.incomingTransfers.lookup scan.transferId.value = some transfer)
    ∧ (onPacketReceived base64_no_wrap (some context) before
          scan.doneMessage).files
        = before.files.insert scan.announcement.fileName scan.data := by
  have hletter : letter.doneMessage ∈ sendMedia base64_no_wrap letter :=
    (mem_sendMedia base64_no_wrap).mpr (Or.inr (Or.inr rfl))
  refine transfer_reassembled base64_no_wrap ⟨fun name => name, fun _ => true⟩
    {} scan _ (by rw [scan_length]; decide)
    (lookup_metaMessage base64_no_wrap _ {} scan) ?_ _ ?_ ?_
  · rw [scan_announcement]
  · intro i hi
    rw [scan_totalChunks] at hi
    have hcases : i = 0 ∨ i = 1 := by omega
    rcases hcases with rfl | rfl <;> simp
  · intro p hp
    simp only [List.mem_cons, List.not_mem_nil, or_false] at hp
    rcases hp with rfl | rfl | rfl | rfl | rfl
    · exact Or.inl (scan_chunk (by decide))
    · exact Or.inr (Or.inl (by decide))
    · exact Or.inr (Or.inr ⟨letter, by decide, hletter⟩)
    · exact Or.inl (scan_chunk (by decide))
    · exact Or.inl (scan_chunk (by decide))

end Joker
