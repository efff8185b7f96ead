import Mathlib.Data.List.Sort
import MarkitdownServer.Lib.Table
import MarkitdownServer.Model.Config

/-! # Job and document state

The model of `jobstore.py` over the schema of `migrations/001_init.sql`. Each function is one SQL
statement or one transaction and so one atomic step; `start_chunk` is two statements. The time
columns, which only hold `now()`, are left out.
-/

namespace MarkitdownServer

open Relational

/-- `jobs.status`. -/
inductive JobStatus where
  | queued
  | running
  | done
  | failed
deriving DecidableEq, Repr

/-- `status IN ('done', 'failed')`. -/
def JobStatus.isTerminal : JobStatus → Bool
  | .done | .failed => true
  | .queued | .running => false

/-- A row of `jobs`. -/
structure JobRow where
  jobId : Str
  docKey : Str
  fileHash : Str
  url : Str
  status : JobStatus
  totalChunks : ℕ
  remainingChunks : ℤ
  useLlm : Bool
  error : Option Str
  errorChunk : Option ℕ
deriving DecidableEq

/-- `job_chunks.status`. -/
inductive ChunkStatus where
  | pending
  | running
  | done
  | failed
deriving DecidableEq, Repr

/-- A row of `job_chunks`. -/
structure ChunkRow where
  jobId : Str
  chunkIndex : ℕ
  startPage : ℤ
  endPage : ℤ
  status : ChunkStatus
  attempts : ℕ
  leaseOwner : Option Str
  s3Key : Option Str
  lastError : Option Str
deriving DecidableEq

/-- A row of `documents`. -/
structure DocumentRow where
  docKey : Str
  fileHash : Str
  configFp : Str
  totalPages : ℕ
  totalChunks : ℕ
  totalLength : ℕ
  pageSize : ℕ
deriving DecidableEq

/-- The primary key of `job_chunks` that the code uses, `UNIQUE (job_id, chunk_index)`. -/
def ChunkRow.key (row : ChunkRow) : Str × ℕ := (row.jobId, row.chunkIndex)

/-- The three tables. -/
structure Database where
  documents : Table DocumentRow Str DocumentRow.docKey
  jobs : Table JobRow Str JobRow.jobId
  jobChunks : Table ChunkRow (Str × ℕ) ChunkRow.key

namespace Database

def empty : Database := ⟨.empty, .empty, .empty⟩

/-- `CHUNK_ALREADY_DONE`. -/
def chunkAlreadyDone : ℤ := -2

/-- `JOB_ALREADY_TERMINAL`. -/
def jobAlreadyTerminal : ℤ := -1

/-- `find_cached_document`. -/
def findCachedDocument (db : Database) (docKey : Str) : Option DocumentRow := db.documents.find? docKey

/-- `record_document`, an `INSERT OR REPLACE`. -/
def recordDocument (db : Database) (row : DocumentRow) : Database :=
  { db with documents := db.documents.insertOrReplace row }

/-- The row that `create_job` inserts into `jobs`. -/
def newJob (jobId docKey fileHash url : Str) (ranges : List (ℤ × ℤ)) (useLlm : Bool) : JobRow where
  jobId
  docKey
  fileHash
  url
  status := .queued
  totalChunks := ranges.length
  remainingChunks := ranges.length
  useLlm
  error := none
  errorChunk := none

/-- The row that `create_job` inserts into `job_chunks` for one range. -/
def newChunk (jobId : Str) (index : ℕ) (range : ℤ × ℤ) : ChunkRow where
  jobId
  chunkIndex := index
  startPage := range.1
  endPage := range.2
  status := .pending
  attempts := 0
  leaseOwner := none
  s3Key := none
  lastError := none

/-- `for index, (start, end) in enumerate(ranges)`, starting at `index`. -/
def insertChunks (jobId : Str) : ℕ → List (ℤ × ℤ) → Table ChunkRow (Str × ℕ) ChunkRow.key →
    Option (Table ChunkRow (Str × ℕ) ChunkRow.key)
  | _, [], chunks => some chunks
  | index, range :: ranges, chunks =>
    (chunks.insert? (newChunk jobId index range)).bind (insertChunks jobId (index + 1) ranges)

/-- `create_job`; a violated key constraint rolls the transaction back. -/
def createJob (db : Database) (jobId docKey fileHash url : Str) (ranges : List (ℤ × ℤ)) (useLlm : Bool) :
    Option Database :=
  (db.jobs.insert? (newJob jobId docKey fileHash url ranges useLlm)).bind fun jobs =>
    (insertChunks jobId 0 ranges db.jobChunks).map fun chunks => { db with jobs, jobChunks := chunks }

/-- `get_job`. -/
def getJob (db : Database) (jobId : Str) : Option JobRow := db.jobs.find? jobId

/-- `finish_job`. -/
def finishJob (db : Database) (jobId : Str) : Database :=
  { db with
    jobs := db.jobs.update (fun row => row.jobId = jobId)
      (fun row => { row with status := .done }) fun _ => rfl }

/-- `fail_job`. -/
def failJob (db : Database) (jobId error : Str) (chunkIndex : Option ℕ) : Database :=
  { db with
    jobs := db.jobs.update (fun row => row.jobId = jobId && !row.status.isTerminal)
      (fun row => { row with status := .failed, error := some (error.take 2000), errorChunk := chunkIndex })
      fun _ => rfl }

/-- The first statement of `start_chunk`. -/
def startChunkRow (db : Database) (jobId : Str) (chunkIndex : ℕ) (owner : Str) (attempt : ℕ) : Database :=
  { db with
    jobChunks := db.jobChunks.update
      (fun row => row.jobId = jobId && row.chunkIndex = chunkIndex && row.status ≠ .done)
      (fun row => { row with status := .running, leaseOwner := some owner, attempts := attempt }) fun _ => rfl }

/-- The second statement of `start_chunk`. -/
def startChunkJob (db : Database) (jobId : Str) : Database :=
  { db with
    jobs := db.jobs.update (fun row => row.jobId = jobId && row.status = .queued)
      (fun row => { row with status := .running }) fun _ => rfl }

/-- `fail_chunk`. Unlike its siblings it also rewrites a chunk that is already done. -/
def failChunk (db : Database) (jobId : Str) (chunkIndex : ℕ) (error : Str) : Database :=
  { db with
    jobChunks := db.jobChunks.update
      (fun row => row.jobId = jobId && row.chunkIndex = chunkIndex)
      (fun row => { row with status := .failed, leaseOwner := none, lastError := some (error.take 2000) })
      fun _ => rfl }

/-- `reschedule_chunk`. -/
def rescheduleChunk (db : Database) (jobId : Str) (chunkIndex : ℕ) (error : Str) : Database :=
  { db with
    jobChunks := db.jobChunks.update
      (fun row => row.jobId = jobId && row.chunkIndex = chunkIndex && row.status ≠ .done)
      (fun row => { row with status := .pending, leaseOwner := none, lastError := some (error.take 2000) })
      fun _ => rfl }

/-- `WHERE job_id = ? AND chunk_index = ? AND status <> 'done'` in `complete_chunk`. -/
def isOpenChunk (jobId : Str) (chunkIndex : ℕ) (row : ChunkRow) : Bool :=
  row.jobId = jobId && row.chunkIndex = chunkIndex && row.status ≠ .done

/-- `WHERE job_id = ? AND status NOT IN ('done', 'failed')` in `complete_chunk`. -/
def isActiveJob (jobId : Str) (row : JobRow) : Bool := row.jobId = jobId && !row.status.isTerminal

/-- The guarded first `UPDATE` of `complete_chunk`. -/
def markDone (db : Database) (jobId : Str) (chunkIndex : ℕ) (s3Key : Str) :
    Table ChunkRow (Str × ℕ) ChunkRow.key :=
  db.jobChunks.update (isOpenChunk jobId chunkIndex)
    (fun row => { row with status := .done, s3Key := some s3Key, leaseOwner := none, lastError := none })
    fun _ => rfl

/-- The second `UPDATE` of `complete_chunk`. -/
def countDown (db : Database) (jobId : Str) : Table JobRow Str JobRow.jobId :=
  db.jobs.update (isActiveJob jobId)
    (fun row => { row with remainingChunks := row.remainingChunks - 1, status := .running }) fun _ => rfl

/-- `complete_chunk`. All three exits commit, so a chunk of a terminal job is still marked done. -/
def completeChunk (db : Database) (jobId : Str) (chunkIndex : ℕ) (s3Key : Str) : ℤ × Database :=
  let chunks := db.markDone jobId chunkIndex s3Key
  let changes := db.jobChunks.rows.countP (isOpenChunk jobId chunkIndex)
  if changes = 0 then (chunkAlreadyDone, { db with jobChunks := chunks })
  else
    let jobs := db.countDown jobId
    let returning := (db.jobs.rows.filter (isActiveJob jobId)).map fun row => row.remainingChunks - 1
    match returning with
    | [] => (jobAlreadyTerminal, { db with jobChunks := chunks, jobs })
    | remaining :: _ => (remaining, { db with jobChunks := chunks, jobs })

/-- `chunk_indices`, in page order. -/
def chunkIndices (db : Database) (jobId : Str) : List ℕ :=
  ((db.jobChunks.rows.filter fun row => row.jobId = jobId).map (·.chunkIndex)).insertionSort (· ≤ ·)

end Database

/-- One statement or transaction of `jobstore.py`. -/
inductive Stmt where
  | findCachedDocument (docKey : Str)
  | recordDocument (row : DocumentRow)
  | createJob (jobId docKey fileHash url : Str) (ranges : List (ℤ × ℤ)) (useLlm : Bool)
  | getJob (jobId : Str)
  | finishJob (jobId : Str)
  | failJob (jobId error : Str) (chunkIndex : Option ℕ)
  | startChunkRow (jobId : Str) (chunkIndex : ℕ) (owner : Str) (attempt : ℕ)
  | startChunkJob (jobId : Str)
  | failChunk (jobId : Str) (chunkIndex : ℕ) (error : Str)
  | rescheduleChunk (jobId : Str) (chunkIndex : ℕ) (error : Str)
  | completeChunk (jobId : Str) (chunkIndex : ℕ) (s3Key : Str)
  | chunkIndices (jobId : Str)

/-- What a statement returns to its caller. -/
@[reducible] def Stmt.Reply : Stmt → Type
  | .findCachedDocument _ => Option DocumentRow
  | .getJob _ => Option JobRow
  | .completeChunk .. => ℤ
  | .chunkIndices _ => List ℕ
  | _ => Unit

/-- The exception of a violated key constraint. -/
def integrityError : Exc := { name := lit "IntegrityError", text := lit "UNIQUE constraint failed" }

/-- The reply to a statement and the database after it. -/
def Stmt.exec (db : Database) : (stmt : Stmt) → Except Exc stmt.Reply × Database
  | .findCachedDocument docKey => (.ok (db.findCachedDocument docKey), db)
  | .recordDocument row => (.ok (), db.recordDocument row)
  | .createJob jobId docKey fileHash url ranges useLlm =>
    match db.createJob jobId docKey fileHash url ranges useLlm with
    | some after => (.ok (), after)
    | none => (.error integrityError, db)
  | .getJob jobId => (.ok (db.getJob jobId), db)
  | .finishJob jobId => (.ok (), db.finishJob jobId)
  | .failJob jobId error chunkIndex => (.ok (), db.failJob jobId error chunkIndex)
  | .startChunkRow jobId chunkIndex owner attempt => (.ok (), db.startChunkRow jobId chunkIndex owner attempt)
  | .startChunkJob jobId => (.ok (), db.startChunkJob jobId)
  | .failChunk jobId chunkIndex error => (.ok (), db.failChunk jobId chunkIndex error)
  | .rescheduleChunk jobId chunkIndex error => (.ok (), db.rescheduleChunk jobId chunkIndex error)
  | .completeChunk jobId chunkIndex s3Key =>
    (.ok (db.completeChunk jobId chunkIndex s3Key).1, (db.completeChunk jobId chunkIndex s3Key).2)
  | .chunkIndices jobId => (.ok (db.chunkIndices jobId), db)

end MarkitdownServer
