import MarkitdownServer.Lib.Contention
import MarkitdownServer.Model.Sql

/-! # Creating a job

`create_job` as the transaction of statements that it is: one `INSERT` into `jobs` and one into `job_chunks` for each
range. An `INSERT` raises when its key is taken.
-/

namespace MarkitdownServer

open Effects Dbapi Relational

/-- A statement of `create_job`. -/
inductive Insertion where
  | ping
  | job (row : JobRow)
  | chunk (row : ChunkRow)

/-- An `INSERT`, which raises when a key constraint is violated. -/
def insertInto {Row Key : Type} [DecidableEq Key] {key : Row → Key} (table : Table Row Key key) (row : Row)
    (into : Table Row Key key → Database) (db : Database) : Except Exc (Option (List ℤ)) × Database :=
  match table.insert? row with
  | some after => (.ok none, into after)
  | none => (.error integrityError, db)

/-- What a statement of `create_job` does. -/
def Insertion.apply : Insertion → Database → Except Exc (Option (List ℤ)) × Database
  | .ping, db => (.ok (some [1]), db)
  | .job row, db => insertInto db.jobs row (fun jobs => { db with jobs }) db
  | .chunk row, db => insertInto db.jobChunks row (fun jobChunks => { db with jobChunks }) db

def Insertion.isRead : Insertion → Bool
  | .ping => true
  | _ => false

/-- The database as `create_job` sees it. -/
def insertions : Backend Database Insertion (List ℤ) Exc := ⟨Insertion.apply, Insertion.isRead⟩

/-- The database as `complete_chunk` sees it, with the number of rows that its last write has changed. -/
def updates : Backend (Database × ℕ) Sql (List ℤ) Exc where
  apply stmt state := (.ok (stmt.apply state).1, (stmt.apply state).2)
  isRead := Sql.isRead

namespace Db

/-- `for index, (start, end) in enumerate(ranges)` in `create_job`, starting at `index`. -/
def insertRows (jobId : Str) : ℕ → List (ℤ × ℤ) → Session Insertion (List ℤ) Unit
  | _, [] => pure ()
  | index, range :: ranges => do
    let _ ← Program.perform (DriverOp.execute (Insertion.chunk (Database.newChunk jobId index range)))
    insertRows jobId (index + 1) ranges

/-- The block of `create_job`. -/
def createJobBlock (jobId docKey fileHash url : Str) (ranges : List (ℤ × ℤ)) (useLlm : Bool) :
    Session Insertion (List ℤ) Unit := do
  let _ ← Program.perform
    (DriverOp.execute (Insertion.job (Database.newJob jobId docKey fileHash url ranges useLlm)))
  insertRows jobId 0 ranges

/-- `create_job`. -/
def createJob (jobId docKey fileHash url : Str) (ranges : List (ℤ × ℤ)) (useLlm : Bool) :
    Session Insertion (List ℤ) Unit :=
  transaction .ping (createJobBlock jobId docKey fileHash url ranges useLlm)

end Db

end MarkitdownServer
