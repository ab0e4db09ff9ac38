/-
Chat and file transfer of the Android application
(android/app/src/main/java/com/example/jokerprotocol/MainActivity.kt).

`sendTextMessage` and `sendMedia` give what they hand to
`sendChatMessage`; `onPacketReceived` is what the receiving phone does
with a payload. What stays out: the sender's own copy of a file, its own
chat items and progress, the pauses between messages, the random ids and
time stamps of chat items.

# What is not in the source

`Base64` is Android's, and all that is known of it here is that decoding
inverts encoding. `Context` is what the application uses of Android's: the
place of a file of a given name, and whether it can be opened for writing;
what is written to an open file is in it. An exception is caught around
the whole of `onPacketReceived`: what had been done by then stays.
-/
import Joker.Model.Basic
import Joker.Model.Kotlin

namespace Joker

-- ============================================================ the platform

/-- `android.util.Base64` with `NO_WRAP`; decoding throws on what is no
code. -/
structure Base64Codec where
  encodeToString : Bytes → KString
  decode : KString → Option Bytes
  decode_encodeToString : ∀ bs, decode (encodeToString bs) = some bs

/-- `appContext`, as far as received files go. -/
structure Context where
  /-- `File(downloadDir, name).absolutePath`. -/
  absolutePath : KString → KString
  /-- Does `outputStream()` of that file open it? -/
  opens : KString → Bool

-- ============================================================ the receiver

/-- `IncomingTransfer`. -/
structure IncomingTransfer where
  transferId : KString
  fileName : KString
  fileSize : Int
  totalChunks : Int
  mimeType : KString
  chunks : UnorderedMap Int Bytes := ∅

/-- `ActiveTransfer`. -/
structure ActiveTransfer where
  transferId : KString
  fileName : KString
  currentChunk : Int
  totalChunks : Int
  isSending : Bool

/-- `ChatMessageItem`. -/
inductive ChatMessageItem where
  | Text (sender text : KString) (isMine : Bool)
  | Media (sender fileName : KString) (fileSize : Int)
      (mimeType filePath : KString) (isMine : Bool)

/-- What `onPacketReceived` works on: the companion object of
`MainActivity`, and the files written. -/
structure Receiver where
  incomingTransfers : UnorderedMap KString IncomingTransfer := ∅
  activeTransfer : Option ActiveTransfer := none
  chatItems : List ChatMessageItem := []
  files : UnorderedMap KString Bytes := ∅

/-- The bytes written for a transfer: a chunk that is not there is empty. -/
def IncomingTransfer.written (transfer : IncomingTransfer) : Bytes :=
  (List.range transfer.totalChunks.toNat).flatMap fun i : Nat =>
    (transfer.chunks.lookup (i : Int)).getD []

namespace Receiver

/-- The metadata of a transfer, over what was under its id. -/
def onMeta (s : Receiver) (transferId fileName : KString) (fileSize : Int)
    (totalChunks : Int) (mimeType : KString) : Receiver :=
  { s with
    incomingTransfers := s.incomingTransfers.insert transferId
      { transferId := transferId, fileName := fileName, fileSize := fileSize
        totalChunks := totalChunks, mimeType := mimeType }
    activeTransfer := some ⟨transferId, fileName, 0, totalChunks, false⟩ }

/-- A chunk of a transfer whose metadata has come; `none` where decoding
threw. -/
def onChunk (s : Receiver) (transferId : KString) (chunkIndex : Int)
    (chunkBytes : Option Bytes) : Receiver :=
  match s.incomingTransfers.lookup transferId with
  | none => s
  | some transfer =>
      match chunkBytes with
      | none => s
      | some chunkBytes =>
          let transfer := { transfer with
            chunks := transfer.chunks.insert chunkIndex chunkBytes }
          { s with
            incomingTransfers := s.incomingTransfers.insert transferId transfer
            activeTransfer := some ⟨transferId, transfer.fileName,
              transfer.chunks.keys.length, transfer.totalChunks, false⟩ }

/-- The end of a transfer: it is forgotten, and its file written. -/
def onDone (appContext : Option Context) (s : Receiver)
    (transferId : KString) : Receiver :=
  let transfer := s.incomingTransfers.lookup transferId
  let s := { s with
    incomingTransfers := s.incomingTransfers.erase transferId
    activeTransfer := none }
  match transfer, appContext with
  | some transfer, some context =>
      if context.opens transfer.fileName then
        let filePath := context.absolutePath transfer.fileName
        { s with
          files := s.files.insert filePath transfer.written
          chatItems := s.chatItems ++ [.Media (literal "Peer") transfer.fileName
            transfer.fileSize transfer.mimeType filePath false] }
      else s
  | _, _ => s

/-- A text message. -/
def onText (s : Receiver) (payload : KString) : Receiver :=
  { s with
    chatItems := s.chatItems ++ [.Text (literal "Peer") payload false] }

end Receiver

/-- `onPacketReceived`. -/
def onPacketReceived (base64 : Base64Codec) (appContext : Option Context)
    (s : Receiver) (payload : KString) : Receiver :=
  if payload.startsWith (literal "FT_META:") then
    -- FT_META:<transferId>:<fileName>:<fileSize>:<totalChunks>:<mimeType>
    match payload.split (unit ':') 6 with
    | _ :: transferId :: fileName :: fileSize :: totalChunks :: mimeType :: _ =>
        s.onMeta transferId fileName ((toLongOrNull fileSize).getD 0)
          ((toIntOrNull totalChunks).getD 1) mimeType
    | _ => s
  else if payload.startsWith (literal "FT_CHUNK:") then
    -- FT_CHUNK:<transferId>:<chunkIndex>:<base64Data>
    match payload.split (unit ':') 4 with
    | _ :: transferId :: chunkIndex :: base64Data :: _ =>
        s.onChunk transferId ((toIntOrNull chunkIndex).getD 0)
          (base64.decode base64Data)
    | _ => s
  else if payload.startsWith (literal "FT_DONE:") then
    -- FT_DONE:<transferId>
    s.onDone appContext (payload.substringAfter (literal "FT_DONE:")).trim
  else
    -- standard text message
    s.onText payload

-- ============================================================== the sender

/-- `UUID.randomUUID().toString().take(8)`: eight hexadecimal digits. -/
structure TransferId where
  value : KString
  length_value : value.length = 8
  hexadecimal : ∀ c ∈ value, (unit '0' ≤ c ∧ c ≤ unit '9')
    ∨ (unit 'a' ≤ c ∧ c ≤ unit 'f')

/-- A call of `sendMedia`, with the id it draws. The size of an array is
an `Int`. -/
structure Transfer where
  transferId : TransferId
  fileName : KString
  data : Bytes
  mimeType : KString
  size_le : data.length ≤ 2147483647

namespace Transfer

def chunkSize : Int := 800

@[irreducible] def totalChunks (t : Transfer) : Int :=
  (wrap32 (wrap32 (t.data.length + chunkSize) - 1)).tdiv chunkSize

/-- The bytes of chunk `i`. -/
def chunk (t : Transfer) (i : Nat) : Bytes :=
  let start := wrap32 (i * chunkSize)
  let stop := min (t.data.length : Int) (wrap32 (wrap32 (i + 1) * chunkSize))
  (t.data.take stop.toNat).drop start.toNat

/-- The first message. -/
def metaMessage (t : Transfer) : KString :=
  literal "FT_META:" ++ t.transferId.value ++ unit ':' :: t.fileName
    ++ unit ':' :: numberToString t.data.length
    ++ unit ':' :: numberToString t.totalChunks ++ unit ':' :: t.mimeType

/-- The message of chunk `i`. -/
def chunkMessage (base64 : Base64Codec) (t : Transfer) (i : Nat) : KString :=
  literal "FT_CHUNK:" ++ t.transferId.value ++ unit ':' :: numberToString i
    ++ unit ':' :: base64.encodeToString (t.chunk i)

/-- The last message. -/
def doneMessage (t : Transfer) : KString :=
  literal "FT_DONE:" ++ t.transferId.value

end Transfer

/-- `sendMedia`: the messages, in order. -/
def sendMedia (base64 : Base64Codec) (t : Transfer) : List KString :=
  t.metaMessage
    :: (List.range t.totalChunks.toNat).map (t.chunkMessage base64)
    ++ [t.doneMessage]

/-- `sendTextMessage`: the message. -/
def sendTextMessage (msg : KString) : KString := msg

end Joker
