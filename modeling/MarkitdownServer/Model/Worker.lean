import MarkitdownServer.Model.Pagination
import MarkitdownServer.Model.Services

/-! # The consumer

The model of `worker.py` with the functions of `storage.py` and `taskqueue.py` that it calls. A
`try … except Exception` is `attempt` followed by a match on the result. Log lines are left out.
`fetch_source` keeps a copy of the source on local disk, which `Model.SourceCache` has. A source is stored under
its hash, so the copy has the bytes of the object. A worker that uses its copy after the object is gone
(`Move.vanish` in `Model.Cluster`) adds no run: it is as if the object went later, and the calls that have missed
it meanwhile had raised a `ClientError`, which is what `exists` and `get_source` make of a missing object.
-/

namespace MarkitdownServer

open Effects

/-- A statement or transaction of `jobstore.py`. -/
def sql (stmt : Stmt) : Prog stmt.Reply := request (.db stmt)

/-- `start_chunk`. -/
def startChunk (jobId : Str) (chunkIndex : ℕ) (owner : Str) (attempt : ℕ) : Prog Unit := do
  sql (.startChunkRow jobId chunkIndex owner attempt)
  sql (.startChunkJob jobId)

namespace Storage

/-- `_get_bytes`. -/
def getBytes (key : Str) : Prog (Option Obj) := request (.s3 (.getObject key))

/-- `_put_bytes`. -/
def putBytes (key : Str) (obj : Obj) : Prog Unit := request (.s3 (.putObject key obj))

/-- `exists`; a `ClientError` counts as absence. -/
def objectExists (key : Str) : Prog Bool := do
  match ← (request (.s3 (.headObject key))).attempt with
  | .ok found => pure found
  | .error error => if error.isClientError then pure false else .raise error

/-- `put_source`. -/
def putSource (fileHash : Str) (file : Bytes) : Prog Str := do
  let key := sourceKey fileHash
  if ← objectExists key then pure key
  else
    putBytes key (.source file)
    pure key

/-- The exception of a missing object. -/
def clientError : Exc :=
  { name := lit "ClientError", text := lit "An error occurred (404)", isClientError := true }

/-- The exception of bytes that are not what the reader expects. -/
def decodeError : Exc := { name := lit "ValueError", text := lit "cannot decode" }

/-- `get_source`. -/
def getSource (fileHash : Str) : Prog Bytes := do
  match ← getBytes (sourceKey fileHash) with
  | some (.source file) => pure file
  | _ => .raise clientError

/-- `put_part`. -/
def putPart (docKey : Str) (chunkIndex : ℕ) (markdown : Str) : Prog Str := do
  let key := partKey docKey chunkIndex
  putBytes key (.text markdown)
  pure key

/-- Decode a text object. -/
def decode : Option Obj → Prog (Option Str)
  | none => pure none
  | some (.text content) => pure (some content)
  | some _ => .raise decodeError

/-- `get_part`. -/
def getPart (docKey : Str) (chunkIndex : ℕ) : Prog (Option Str) := do
  decode (← getBytes (partKey docKey chunkIndex))

/-- `for index, content in enumerate(pages, start=index)` in `put_document`. -/
def putPages (docKey : Str) : ℕ → List Str → Prog Unit
  | _, [] => pure ()
  | index, content :: rest => do
    putBytes (pageKey docKey index) (.text content)
    putPages docKey (index + 1) rest

/-- `put_document`. -/
def putDocument (config : Config) (docKey : Str) (pages : List Str) (totalLength : ℕ) : Prog Manifest := do
  putPages docKey 1 pages
  let manifest : Manifest := ⟨docKey, pages.length, totalLength, config.pageSize⟩
  putBytes (manifestKey docKey) (.manifest manifest)
  pure manifest

/-- `get_manifest`. -/
def getManifest (docKey : Str) : Prog (Option Manifest) := do
  match ← getBytes (manifestKey docKey) with
  | none => pure none
  | some (.manifest manifest) => pure (some manifest)
  | some _ => .raise decodeError

/-- `get_page`. -/
def getPage (docKey : Str) (page : ℕ) : Prog (Option Str) := do
  decode (← getBytes (pageKey docKey page))

end Storage

namespace Taskqueue

/-- `for body in bodies: ch.basic_publish(…)`. -/
def publishEach (exchange routingKey : Str) : List Body → Prog Unit
  | [] => pure ()
  | body :: rest => do
    request (.amqp (.basicPublish exchange routingKey body))
    publishEach exchange routingKey rest

/-- `ch = channel()` and the loop over the bodies. -/
def publishOn (exchange routingKey : Str) (bodies : List Body) : Prog Unit := do
  request (.amqp .channel)
  publishEach exchange routingKey bodies

/-- `_publish`: all bodies again on a new channel if the first one raised an `AMQPError`. -/
def publishBodies (exchange routingKey : Str) (bodies : List Body) : Prog Unit := do
  match ← (publishOn exchange routingKey bodies).attempt with
  | .ok () => pure ()
  | .error error => if error.isAmqpError then publishOn exchange routingKey bodies else .raise error

/-- `publish`. -/
def publish (config : Config) (tasks : List ChunkTask) : Prog Unit :=
  publishBodies config.rabbitmqExchange config.rabbitmqQueue (tasks.map .task)

/-- `publish_retry`. -/
def publishRetry (config : Config) (task : ChunkTask) : Prog Unit :=
  publishBodies config.retryExchange (config.retryQueueName task.attempt) [.task task.nextAttempt]

/-- `publish_failed`. -/
def publishFailed (config : Config) (task : ChunkTask) (error : Str) : Prog Unit :=
  publishBodies config.dlxExchange config.rabbitmqQueue [.failed task (error.take 2000)]

end Taskqueue

namespace Worker

/-- `convert_range`. -/
def convertRange (fileHash : Str) (startPage endPage : ℤ) (useLlm : Bool) : Prog Str := do
  let source ← Storage.getSource fileHash
  request (.tool (.markItDown useLlm))
  request (.tool (.convert source startPage endPage useLlm))

/-- The exception of a chunk without a stored part. -/
def missingPart (index : ℕ) : Exc :=
  { name := lit "RuntimeError", text := lit "chunk " ++ Str.ofNat index ++ lit " missing from storage" }

/-- The loop of `assemble` that fetches the parts in page order. -/
def readParts (docKey : Str) : List ℕ → Prog (List Str)
  | [] => pure []
  | index :: rest => do
    match ← Storage.getPart docKey index with
    | none => .raise (missingPart index)
    | some part => do
      let parts ← readParts docKey rest
      pure (part :: parts)

/-- `part and part.strip()`. -/
def isShown (part : Str) : Bool := part ≠ [] && part.strip ≠ []

/-- The text of a document from the parts of its chunks. -/
def joinParts (parts : List Str) : Str := Str.join (lit "\n\n") (parts.filter isShown)

/-- `doc_key.split(":")[-1]`. -/
def lastField (docKey : Str) : Str := (docKey.reverse.takeWhile (· ≠ ':')).reverse

/-- The row that `assemble` records for its document. -/
def documentRow (config : Config) (job : JobRow) (pages : List Str) (markdown : Str) : DocumentRow where
  docKey := job.docKey
  fileHash := job.fileHash
  configFp := lastField job.docKey
  totalPages := pages.length
  totalChunks := job.totalChunks
  totalLength := markdown.length
  pageSize := config.pageSize

/-- The part of `assemble` that publishes the document: objects, then row, then status. -/
def publishDocument (config : Config) (job : JobRow) (parts : List Str) : Prog Unit := do
  let markdown := joinParts parts
  let pages := paginate markdown config.pageSize
  let _ ← Storage.putDocument config job.docKey pages markdown.length
  sql (.recordDocument (documentRow config job pages markdown))
  sql (.finishJob job.jobId)

/-- The exception of `job["job_id"]` when `get_job` found nothing. -/
def typeError : Exc := { name := lit "TypeError", text := lit "'NoneType' object is not subscriptable" }

/-- `assemble`. -/
def assemble (config : Config) : Option JobRow → Prog Unit
  | none => .raise typeError
  | some job => do
    let indices ← sql (.chunkIndices job.jobId)
    let parts ← readParts job.docKey indices
    publishDocument config job parts

/-- The text with which an exhausted chunk fails its job. -/
def exhaustedText (task : ChunkTask) (error : Exc) : Str :=
  lit "chunk " ++ Str.ofNat task.chunkIndex ++ lit " failed after " ++ Str.ofNat task.attempt ++
    lit " attempts: " ++ error.text

/-- `_handle_failure`. -/
def handleFailure (config : Config) (task : ChunkTask) (error : Exc) : Prog Unit :=
  if config.maxAttempts ≤ task.attempt then do
    Taskqueue.publishFailed config task error.describe
    sql (.failChunk task.jobId task.chunkIndex error.describe)
    sql (.failJob task.jobId (exhaustedText task error) (some task.chunkIndex))
  else do
    sql (.rescheduleChunk task.jobId task.chunkIndex error.describe)
    Taskqueue.publishRetry config task

/-- The body of the `try` in `handle`: convert the range and store the part. -/
def convertChunk (task : ChunkTask) : Prog Str := do
  let markdown ← convertRange task.fileHash task.startPage task.endPage task.useLlm
  Storage.putPart task.docKey task.chunkIndex markdown

/-- The end of `handle`: whoever completed the last chunk assembles the document. -/
def finishChunk (config : Config) (task : ChunkTask) (key : Str) : Prog Unit := do
  let remaining ← sql (.completeChunk task.jobId task.chunkIndex key)
  if remaining = 0 then
    let assembly : Prog Unit := do assemble config (← sql (.getJob task.jobId))
    match ← assembly.attempt with
    | .ok () => pure ()
    | .error error => sql (.failJob task.jobId (lit "assembly failed: " ++ error.text) none)
  else pure ()

/-- `handle` after it has found the job active. -/
def processChunk (config : Config) (owner : Str) (task : ChunkTask) : Prog Unit := do
  startChunk task.jobId task.chunkIndex owner task.attempt
  match ← (convertChunk task).attempt with
  | .error error => handleFailure config task error
  | .ok key => finishChunk config task key

/-- `handle`. -/
def handle (config : Config) (owner : Str) (task : ChunkTask) : Prog Unit := do
  match ← sql (.getJob task.jobId) with
  | none => pure ()
  | some job => if job.status.isTerminal then pure () else processChunk config owner task

/-- `on_task` in `run_forever`: nothing that `handle` raises reaches the consumer loop. -/
def onTask (config : Config) (owner : Str) (task : ChunkTask) : Prog Unit := do
  let _ ← (handle config owner task).attempt
  pure ()

end Worker

end MarkitdownServer
