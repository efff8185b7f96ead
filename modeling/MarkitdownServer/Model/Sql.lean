import MarkitdownServer.Model.Db
import MarkitdownServer.Model.Jobstore

/-! # The statements of the job store

What `jobstore.py` hands to the driver: the statements it passes to `db.execute`, and `complete_chunk` as the
transaction of statements that it is. The other functions are one atomic step in `Jobstore`, and so is
`complete_chunk` when nothing raises.
-/

namespace MarkitdownServer

open Effects Dbapi

/-- A statement of the job store: `SELECT 1 AS ok`, `SELECT changes() AS n`, a write that `db.execute` carries out,
and the two updates of `complete_chunk`. -/
inductive Sql where
  | ping
  | changes
  | write (stmt : Stmt)
  | markDone (jobId : Str) (chunkIndex : ℕ) (s3Key : Str)
  | countDown (jobId : Str)

/-- Whether `jobstore.py` passes the statement to `db.execute`. -/
def Stmt.isExecuted : Stmt → Bool
  | .recordDocument _ | .finishJob _ | .failJob .. | .startChunkRow .. | .startChunkJob _ | .failChunk ..
  | .rescheduleChunk .. => true
  | _ => false

/-- The number of rows that a write inserts or updates. -/
def Stmt.changes (db : Database) : Stmt → ℕ
  | .recordDocument _ => 1
  | .finishJob jobId => db.jobs.rows.countP fun row => row.jobId = jobId
  | .failJob jobId _ _ => db.jobs.rows.countP (Database.isActiveJob jobId)
  | .startChunkRow jobId chunkIndex _ _ => db.jobChunks.rows.countP (Database.isOpenChunk jobId chunkIndex)
  | .startChunkJob jobId => db.jobs.rows.countP fun row => row.jobId = jobId && row.status = .queued
  | .failChunk jobId chunkIndex _ => db.jobChunks.rows.countP fun row => row.jobId = jobId && row.chunkIndex = chunkIndex
  | .rescheduleChunk jobId chunkIndex _ => db.jobChunks.rows.countP (Database.isOpenChunk jobId chunkIndex)
  | _ => 0

/-- What a statement returns and does, given the database and the number of rows that the last write changed. A row
has one integer column. -/
def Sql.apply : Sql → Database × ℕ → Option (List ℤ) × (Database × ℕ)
  | .ping, state => (some [1], state)
  | .changes, state => (some [state.2], state)
  | .write stmt, (db, _) => (none, ((stmt.exec db).2, stmt.changes db))
  | .markDone jobId chunkIndex s3Key, (db, _) => (none, ({ db with jobChunks := db.markDone jobId chunkIndex s3Key },
      db.jobChunks.rows.countP (Database.isOpenChunk jobId chunkIndex)))
  | .countDown jobId, (db, _) =>
    (some ((db.jobs.rows.filter (Database.isActiveJob jobId)).map fun row => row.remainingChunks - 1),
      ({ db with jobs := db.countDown jobId }, db.jobs.rows.countP (Database.isActiveJob jobId)))

/-- The two statements that only read. -/
def Sql.isRead : Sql → Bool
  | .ping | .changes => true
  | _ => false

/-- The database of the job store. -/
def jobstore : Engine (Database × ℕ) Sql (List ℤ) where
  apply := Sql.apply
  isRead := Sql.isRead
  harmless stmt state read := by
    cases stmt with
    | ping => rfl
    | changes => rfl
    | _ => cases read

namespace Db

/-- The exception of `rows[0]` on no rows. -/
def indexError : Exc := { name := lit "IndexError", text := lit "list index out of range" }

/-- `changes`. -/
def changes : Session Sql (List ℤ) ℤ := do
  let cursor ← Program.perform (DriverOp.execute Sql.changes)
  match ← Program.perform (DriverOp.fetchall (cursor.getD [])) with
  | [] => .raise indexError
  | count :: _ => pure count

/-- The block of `complete_chunk`. -/
def completeChunkBlock (jobId : Str) (chunkIndex : ℕ) (s3Key : Str) : Session Sql (List ℤ) ℤ := do
  let _ ← Program.perform (DriverOp.execute (Sql.markDone jobId chunkIndex s3Key))
  if (← changes) = 0 then pure Database.chunkAlreadyDone
  else
    let cursor ← Program.perform (DriverOp.execute (Sql.countDown jobId))
    match ← Program.perform (DriverOp.fetchall (cursor.getD [])) with
    | [] => pure Database.jobAlreadyTerminal
    | remaining :: _ => pure remaining

/-- `complete_chunk`. -/
def completeChunk (jobId : Str) (chunkIndex : ℕ) (s3Key : Str) : Session Sql (List ℤ) ℤ :=
  transaction .ping (completeChunkBlock jobId chunkIndex s3Key)

end Db

end MarkitdownServer
