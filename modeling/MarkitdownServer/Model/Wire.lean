import MarkitdownServer.Lib.Json
import MarkitdownServer.Model.Storage
import MarkitdownServer.Model.Taskqueue

/-! # Messages and objects as bytes

What `taskqueue.py` and `storage.py` put into a message body and into an object of the bucket, and how they read
it. `ChunkTask(**fields)` checks the names of the fields and not their types, so what `from_bytes` builds has a
JSON value in each field.

What is read is what these writers write. `json.dumps` writes ASCII, which `json.loads` takes for UTF-8; that it also
takes a byte order mark, UTF-16 and UTF-32, and refuses an integer of more than 4300 digits, is left out. No string has
a surrogate.
-/

namespace MarkitdownServer

/-- `raw.decode()`. -/
def decodeUtf8 (raw : Bytes) : Option Str := (String.fromUTF8? ⟨raw.toArray⟩).map String.toList

theorem decodeUtf8_encode (text : Str) : decodeUtf8 (encode text) = some text := by
  have bytes : (⟨(encode text).toArray⟩ : ByteArray) = (String.ofList text).toByteArray := by
    simp only [encode, String.toUTF8, Array.toArray_toList]
  have valid : (String.ofList text).toByteArray.IsValidUTF8 := (String.ofList text).isValidUTF8
  have back : String.fromUTF8 (String.ofList text).toByteArray valid = String.ofList text := rfl
  rw [decodeUtf8, bytes, String.fromUTF8?, dif_pos valid, back, Option.map_some, String.toList_ofList]

/-! ## Messages -/

namespace ChunkTask

/-- `asdict(self)`. -/
def asdict (task : ChunkTask) : List (Str × Json.Value) := [
  (lit "job_id", .str task.jobId),
  (lit "chunk_index", .int task.chunkIndex),
  (lit "doc_key", .str task.docKey),
  (lit "file_hash", .str task.fileHash),
  (lit "start_page", .int task.startPage),
  (lit "end_page", .int task.endPage),
  (lit "total_chunks", .int task.totalChunks),
  (lit "use_llm", .bool task.useLlm),
  (lit "attempt", .int task.attempt)]

/-- The names of the fields of the dataclass. -/
def fieldNames : List Str := [lit "job_id", lit "chunk_index", lit "doc_key", lit "file_hash", lit "start_page",
  lit "end_page", lit "total_chunks", lit "use_llm", lit "attempt"]

/-- `to_bytes`. -/
def toBytes (task : ChunkTask) : Bytes := encode (Json.dumps (.obj task.asdict))

end ChunkTask

/-- What `ChunkTask(**fields)` makes of fields of any type. -/
structure RawTask where
  jobId : Json.Value
  chunkIndex : Json.Value
  docKey : Json.Value
  fileHash : Json.Value
  startPage : Json.Value
  endPage : Json.Value
  totalChunks : Json.Value
  useLlm : Json.Value
  attempt : Json.Value

namespace RawTask

/-- The exception of a body that is no UTF-8. -/
def unicodeError : Exc := { name := lit "UnicodeDecodeError", text := lit "invalid start byte" }

/-- The exception of a body that is no JSON. -/
def jsonError : Exc := { name := lit "JSONDecodeError", text := lit "Expecting value" }

/-- The exception of a body that does not have the fields of a task. -/
def typeError (text : Str) : Exc := { name := lit "TypeError", text }

/-- `ChunkTask(**members)`. -/
def build (members : List (Str × Json.Value)) : Except Exc RawTask := do
  if members.any fun member => !ChunkTask.fieldNames.contains member.1 then
    .error (typeError (lit "got an unexpected keyword argument"))
  else
    let field (name : Str) : Except Exc Json.Value :=
      match Json.lookup name members with
      | some found => .ok found
      | none => .error (typeError (lit "missing required positional argument: " ++ name))
    let jobId ← field (lit "job_id")
    let chunkIndex ← field (lit "chunk_index")
    let docKey ← field (lit "doc_key")
    let fileHash ← field (lit "file_hash")
    let startPage ← field (lit "start_page")
    let endPage ← field (lit "end_page")
    let totalChunks ← field (lit "total_chunks")
    let useLlm ← field (lit "use_llm")
    let attempt := (Json.lookup (lit "attempt") members).getD (.int 1)
    .ok ⟨jobId, chunkIndex, docKey, fileHash, startPage, endPage, totalChunks, useLlm, attempt⟩

/-- `ChunkTask.from_bytes`, of a body in UTF-8 with integers of at most 4300 digits. -/
def fromBytes (raw : Bytes) : Except Exc RawTask :=
  match decodeUtf8 raw with
  | none => .error unicodeError
  | some text =>
    match Json.loads text with
    | none => .error jsonError
    | some (.obj members) => build members
    | some _ => .error (typeError (lit "argument after ** must be a mapping"))

end RawTask

/-- A task as `from_bytes` builds it. -/
def ChunkTask.raw (task : ChunkTask) : RawTask where
  jobId := .str task.jobId
  chunkIndex := .int task.chunkIndex
  docKey := .str task.docKey
  fileHash := .str task.fileHash
  startPage := .int task.startPage
  endPage := .int task.endPage
  totalChunks := .int task.totalChunks
  useLlm := .bool task.useLlm
  attempt := .int task.attempt

/-- The members of the object that is published: those of the task, and the error of a parked one. -/
def Body.members : Body → List (Str × Json.Value)
  | .task chunk => chunk.asdict
  | .failed chunk error => chunk.asdict ++ [(lit "error", .str error)]

/-- The bytes of a body, from `publish`, `publish_retry` and `publish_failed`. -/
def Body.toBytes (body : Body) : Bytes := encode (Json.dumps (.obj body.members))

/-- The exception of an integer that the interpreter does not write out. -/
def digitsError : Exc :=
  { name := lit "ValueError", text := lit "Exceeds the limit (4300 digits) for integer string conversion" }

/-- The interpreter writes out integers of at most 4300 digits. -/
def isWritable : Json.Value → Bool
  | .int n => (Str.ofNat n.natAbs).length ≤ 4300
  | _ => true

/-- The bytes of a body, or what `json.dumps` raises. -/
def Body.dumped (body : Body) : Except Exc Bytes :=
  if body.members.all fun member => isWritable member.2 then .ok body.toBytes else .error digitsError

/-! ## Objects -/

/-- The dict that `put_document` writes and `get_manifest` returns. -/
def Manifest.members (manifest : Manifest) : List (Str × Json.Value) := [
  (lit "doc_key", .str manifest.docKey),
  (lit "total_pages", .int manifest.totalPages),
  (lit "total_length", .int manifest.totalLength),
  (lit "page_size", .int manifest.pageSize)]

/-- The bytes of an object. -/
def Obj.toBytes : Obj → Bytes
  | .source file => file
  | .text content => encode content
  | .manifest written => encode (Json.dumps (.obj written.members))

namespace Storage

/-- `data.decode("utf-8")` of `get_part` and `get_page`. -/
def readText (stored : Option Bytes) : Except Exc (Option Str) :=
  match stored with
  | none => .ok none
  | some raw =>
    match decodeUtf8 raw with
    | some content => .ok (some content)
    | none => .error RawTask.unicodeError

/-- `json.loads(data)` of `get_manifest`. -/
def readManifest (stored : Option Bytes) : Except Exc (Option Json.Value) :=
  match stored with
  | none => .ok none
  | some raw =>
    match decodeUtf8 raw with
    | none => .error RawTask.unicodeError
    | some text =>
      match Json.loads text with
      | some value => .ok (some value)
      | none => .error RawTask.jsonError

end Storage

end MarkitdownServer
