import MarkitdownServer.Model.Sql

/-! # The retry on a stale connection

`_run` tries a statement again on a new connection when the first try raised an error that looks like a stale
connection. The first try may have committed all the same, so a write can be carried out twice. Every write
that the job store hands to `_run` sets fixed values, and a repeated write changes nothing. The decrement of
`complete_chunk`, which is not of this kind, is in a transaction, and a transaction is not tried again. When
nothing raises, that transaction is the one step that the job store takes it for.
-/

namespace MarkitdownServer

open Effects Effects.Program Dbapi

/-- A write of `db.execute` can be repeated. -/
theorem exec_exec {stmt : Stmt} (executed : stmt.isExecuted = true) (db : Database) :
    (stmt.exec (stmt.exec db).2).2 = (stmt.exec db).2 := by
  have chunks (selects : ChunkRow → Bool) (set : ChunkRow → ChunkRow) (keeps : ∀ row, (set row).key = row.key)
      (fixed : ∀ row, set (set row) = set row) :
      Database.mk db.documents db.jobs ((db.jobChunks.update selects set keeps).update selects set keeps) =
        Database.mk db.documents db.jobs (db.jobChunks.update selects set keeps) :=
    congrArg _ (Relational.Table.update_update db.jobChunks selects set keeps fixed)
  have jobs (selects : JobRow → Bool) (set : JobRow → JobRow) (keeps : ∀ row, (set row).jobId = row.jobId)
      (fixed : ∀ row, set (set row) = set row) :
      Database.mk db.documents ((db.jobs.update selects set keeps).update selects set keeps) db.jobChunks =
        Database.mk db.documents (db.jobs.update selects set keeps) db.jobChunks := by
    rw [Relational.Table.update_update db.jobs selects set keeps fixed]
  cases stmt with
  | recordDocument row =>
    simp only [Stmt.exec, Database.recordDocument, Relational.Table.insertOrReplace_insertOrReplace]
  | finishJob | failJob | startChunkJob => exact jobs _ _ _ fun _ => rfl
  | startChunkRow | failChunk | rescheduleChunk => exact chunks _ _ _ fun _ => rfl
  | _ => cases executed

namespace Db

section Run

variable {Database Stmt Rows : Type} (engine : Engine Database Stmt Rows) (start : Database)
  (faults : ℕ → Option (Fault Exc))

/-- One call on the driver: it is carried out, or raises before or after its effect. -/
theorem perform_spec (op : DriverOp Stmt Rows) (calls : List (Call (DriverOp Stmt Rows) DriverOp.Reply Exc))
    (conn : Connection Stmt) :
    ∃ result after, (perform op : Session Stmt Rows op.Reply).eval (engine.serve start faults) calls conn =
        (result, calls ++ [⟨op, result⟩], after) ∧
      ((result = .ok (engine.exec start conn op).1 ∧ after = (engine.exec start conn op).2) ∨
        ∃ error, result = .error error ∧ (after = conn ∨ after = (engine.exec start conn op).2)) := by
  refine ⟨_, _, eval_perform _ op calls conn, ?_⟩
  rcases Engine.serve_cases faults calls op conn with same | ⟨_, error, _, same⟩ | ⟨_, error, _, same⟩
  · rw [same]
    exact .inl ⟨rfl, rfl⟩
  · rw [same]
    exact .inr ⟨error, rfl, .inl rfl⟩
  · rw [same]
    exact .inr ⟨error, rfl, .inr rfl⟩

/-- What `get_connection` does: nothing to the writes, and there is a connection if it returns. -/
theorem getConnection_spec (calls : List (Call (DriverOp Stmt Rows) DriverOp.Reply Exc)) (conn : Connection Stmt) :
    ∃ result seen after, (getConnection : Session Stmt Rows Unit).eval (engine.serve start faults) calls conn =
        (result, seen, after) ∧ after.committed = conn.committed ∧ after.pending = conn.pending ∧
      (result = .ok () → after.isOpen = true) := by
  have looked : engine.serve start faults calls .isOpen conn = (.ok conn.isOpen, conn) := rfl
  rw [getConnection, monad_bind, eval_perform_ok looked]
  cases open_ : conn.isOpen with
  | true => exact ⟨_, _, _, rfl, rfl, rfl, fun _ => open_⟩
  | false =>
    obtain ⟨result, after, same, connected | ⟨error, raised, effect⟩⟩ :=
      perform_spec engine start faults .connect (calls ++ [⟨.isOpen, .ok false⟩]) conn
    · exact ⟨_, _, _, same, by rw [connected.2]; rfl, by rw [connected.2]; rfl, fun _ => by rw [connected.2]; rfl⟩
    · refine ⟨_, _, _, same, ?_, ?_, by rw [raised]; rintro ⟨⟩⟩
      · rcases effect with rfl | rfl <;> rfl
      · rcases effect with rfl | rfl <;> rfl

/-- What `close_connection` does: it never raises, and the open transaction is gone. -/
theorem closeConnection_spec (calls : List (Call (DriverOp Stmt Rows) DriverOp.Reply Exc)) {conn : Connection Stmt}
    (opened : conn.isOpen = true) :
    ∃ seen after, (closeConnection : Session Stmt Rows Unit).eval (engine.serve start faults) calls conn =
      (.ok (), seen, after) ∧ after.committed = conn.committed ∧ after.pending = [] := by
  have looked : engine.serve start faults calls .isOpen conn = (.ok conn.isOpen, conn) := rfl
  obtain ⟨result, after, same, effect⟩ :=
    perform_spec engine start faults .close (calls ++ [⟨.isOpen, .ok conn.isOpen⟩]) conn
  have kept : after.committed = conn.committed := by
    rcases effect with ⟨_, rfl⟩ | ⟨error, _, rfl | rfl⟩ <;> rfl
  rw [closeConnection, monad_bind, eval_perform_ok looked, if_pos opened, monad_bind, eval_bind, eval_attempt, same]
  exact ⟨_, _, rfl, kept, rfl⟩

/-- Fetching rows does nothing to the writes. -/
theorem rowsToDicts_spec (cursor : Option Rows) (calls : List (Call (DriverOp Stmt Rows) DriverOp.Reply Exc))
    (conn : Connection Stmt) :
    ∃ result seen, (rowsToDicts cursor : Session Stmt Rows (Option Rows)).eval (engine.serve start faults) calls conn =
      (result, seen, conn) := by
  cases cursor with
  | none => exact ⟨_, _, rfl⟩
  | some rows =>
    obtain ⟨result, after, same, effect⟩ := perform_spec engine start faults (.fetchall rows) calls conn
    have kept : after = conn := by
      rcases effect with ⟨_, rfl⟩ | ⟨error, _, rfl | rfl⟩ <;> rfl
    rw [kept] at same
    rw [rowsToDicts, monad_bind, eval_bind, same]
    cases result with
    | ok value => exact ⟨_, _, rfl⟩
    | error error => exact ⟨_, _, rfl⟩

/-- What one try does: it commits the open transaction with the statement, or raises without a commit. -/
theorem runOnce_spec (stmt : Stmt) (calls : List (Call (DriverOp Stmt Rows) DriverOp.Reply Exc))
    (conn : Connection Stmt) :
    ∃ result seen after,
      (runOnce stmt true : Session Stmt Rows (Option Rows)).eval (engine.serve start faults) calls conn =
        (result, seen, after) ∧ after.isOpen = conn.isOpen ∧
      ((after.committed = conn.committed ∧ ∃ error, result = .error error) ∨
        after.committed = conn.committed ++ (conn.pending ++ engine.record stmt)) := by
  obtain ⟨cursor, first, executed, effect⟩ := perform_spec engine start faults (.execute stmt) calls conn
  rw [runOnce, monad_bind, eval_bind, executed]
  rcases effect with ⟨rfl, rfl⟩ | ⟨error, rfl, effect⟩
  · obtain ⟨rows, seen, fetched⟩ := rowsToDicts_spec engine start faults
      (engine.exec start conn (.execute stmt)).1 _ (engine.exec start conn (.execute stmt)).2
    dsimp only
    rw [monad_bind, eval_bind, fetched]
    cases rows with
    | error error => exact ⟨_, _, _, rfl, rfl, .inl ⟨rfl, error, rfl⟩⟩
    | ok rows =>
      obtain ⟨result, after, committed, effect⟩ := perform_spec engine start faults .commit seen
        (engine.exec start conn (.execute stmt)).2
      dsimp only
      rw [if_pos rfl, monad_bind, eval_bind, committed]
      rcases effect with ⟨rfl, rfl⟩ | ⟨error, rfl, rfl | rfl⟩
      · exact ⟨_, _, _, rfl, rfl, .inr rfl⟩
      · exact ⟨_, _, _, rfl, rfl, .inl ⟨rfl, error, rfl⟩⟩
      · exact ⟨_, _, _, rfl, rfl, .inr rfl⟩
  · rcases effect with rfl | rfl
    · exact ⟨_, _, _, rfl, rfl, .inl ⟨rfl, error, rfl⟩⟩
    · exact ⟨_, _, _, rfl, rfl, .inl ⟨rfl, error, rfl⟩⟩

/-- One try on a connection without open writes: the durable copies of the statement after it, at least one if it
returns. -/
private theorem runOnce_copies (stmt : Stmt) (calls : List (Call (DriverOp Stmt Rows) DriverOp.Reply Exc))
    {conn : Connection Stmt} {base : List Stmt} {times : ℕ} (quiet : conn.pending = [])
    (copies : conn.committed = base ++ (List.replicate times (engine.record stmt)).flatten) :
    ∃ result seen after times',
      (runOnce stmt true : Session Stmt Rows (Option Rows)).eval (engine.serve start faults) calls conn =
        (result, seen, after) ∧ after.isOpen = conn.isOpen ∧
      after.committed = base ++ (List.replicate times' (engine.record stmt)).flatten ∧
      (∀ rows, result = .ok rows → 1 ≤ times') := by
  obtain ⟨result, seen, after, same, stays, ⟨unchanged, error, rfl⟩ | added⟩ :=
    runOnce_spec engine start faults stmt calls conn
  · exact ⟨_, _, _, times, same, stays, unchanged.trans copies, by rintro _ ⟨⟩⟩
  · refine ⟨_, _, _, times + 1, same, stays, ?_, fun _ _ => Nat.le_add_left 1 times⟩
    rw [added, copies, quiet, List.nil_append, List.replicate_succ', List.flatten_append, List.flatten_singleton,
      List.append_assoc]

/-- What `execute` leaves behind on a connection without open writes: durable copies of the statement, at least one if
it returns. -/
theorem execute_spec (stmt : Stmt) (calls : List (Call (DriverOp Stmt Rows) DriverOp.Reply Exc))
    {conn : Connection Stmt} (quiet : conn.pending = []) :
    ∃ result seen after times,
      (execute stmt : Session Stmt Rows (Option Rows)).eval (engine.serve start faults) calls conn =
        (result, seen, after) ∧
      after.committed = conn.committed ++ (List.replicate times (engine.record stmt)).flatten ∧
      (∀ rows, result = .ok rows → 1 ≤ times) := by
  obtain ⟨opened, connected, first, connect, kept, same, live⟩ := getConnection_spec engine start faults calls conn
  rw [execute, run, monad_bind, eval_bind, connect]
  cases opened with
  | error error => exact ⟨_, _, _, 0, rfl, by simp [kept], by rintro _ ⟨⟩⟩
  | ok value =>
    have none : first.committed = conn.committed ++ (List.replicate 0 (engine.record stmt)).flatten := by simp [kept]
    obtain ⟨result, tried, second, times, try_, stays, copies, some⟩ :=
      runOnce_copies engine start faults stmt connected (same.trans quiet) none
    dsimp only
    rw [monad_bind, eval_bind, eval_attempt, try_]
    cases result with
    | ok rows => exact ⟨_, _, _, times, rfl, copies, fun _ _ => some rows rfl⟩
    | error error =>
      dsimp only
      split
      · obtain ⟨forgotten, third, close, afterClose, empty⟩ :=
          closeConnection_spec engine start faults tried (stays.trans (live rfl))
        obtain ⟨reopened, again, fourth, reconnect, keptMore, sameMore, _⟩ :=
          getConnection_spec engine start faults forgotten third
        rw [monad_bind, eval_bind, close]
        dsimp only
        rw [monad_bind, eval_bind, reconnect]
        have copiesMore := (keptMore.trans afterClose).trans copies
        cases reopened with
        | error error => exact ⟨_, _, _, times, rfl, copiesMore, by rintro _ ⟨⟩⟩
        | ok value =>
          obtain ⟨result, seen, after, times, retry, _, copies, some⟩ :=
            runOnce_copies engine start faults stmt again (sameMore.trans empty) copiesMore
          exact ⟨result, seen, after, times, retry, copies, some⟩
      · exact ⟨_, _, _, times, rfl, copies, by rintro _ ⟨⟩⟩

end Run

/-- The decrement of `complete_chunk`. -/
def isDecrement : DriverOp Sql (List ℤ) → Bool
  | .execute (.countDown _) => true
  | _ => false

private theorem getConnection_makes :
    (getConnection : Session Sql (List ℤ) Unit).Makes fun op => isDecrement op = false := by
  refine Makes.bind (Makes.perform rfl) fun opened => ?_
  split
  · trivial
  · exact Makes.perform rfl

private theorem closeConnection_makes :
    (closeConnection : Session Sql (List ℤ) Unit).Makes fun op => isDecrement op = false := by
  refine Makes.bind (Makes.perform rfl) fun opened => ?_
  split
  · exact Makes.bind (Makes.attempt (Makes.perform rfl)) fun _ => Makes.perform rfl
  · trivial

private theorem runOnce_makes {stmt : Sql} (other : isDecrement (.execute stmt) = false) (commit : Bool) :
    (runOnce stmt commit).Makes fun op => isDecrement op = false := by
  refine Makes.bind (Makes.perform other) fun cursor => Makes.bind ?_ fun rows => ?_
  · cases cursor with
    | none => trivial
    | some rows => exact Makes.bind (Makes.perform rfl) fun _ => trivial
  · cases commit with
    | false => trivial
    | true => exact Makes.bind (Makes.perform rfl) fun _ => trivial

/-- Trying another statement carries out no decrement. -/
private theorem run_makes {stmt : Sql} (other : isDecrement (.execute stmt) = false) (commit : Bool) :
    (run stmt commit).Makes fun op => isDecrement op = false := by
  refine Makes.bind getConnection_makes fun _ => Makes.bind (runOnce_makes other commit).attempt fun result => ?_
  cases result with
  | ok rows => trivial
  | error error =>
    dsimp only
    split
    · exact Makes.bind closeConnection_makes fun _ => Makes.bind getConnection_makes fun _ => runOnce_makes other commit
    · trivial

private theorem completeChunkBlock_atMost (jobId : Str) (chunkIndex : ℕ) (s3Key : Str) :
    (completeChunkBlock jobId chunkIndex s3Key).AtMost isDecrement 1 := by
  have counted : changes.Makes fun op => isDecrement op = false := by
    refine Makes.bind (Makes.perform rfl) fun cursor => Makes.bind (Makes.perform rfl) fun rows => ?_
    cases rows <;> trivial
  have marked : (perform (DriverOp.execute (Sql.markDone jobId chunkIndex s3Key)) :
      Session Sql (List ℤ) (Option (List ℤ))).Makes fun op => isDecrement op = false := Makes.perform rfl
  refine (Nat.zero_add 1 ▸ marked.atMost.bind fun _ => ?_)
  refine (Nat.zero_add 1 ▸ counted.atMost.bind fun count => ?_)
  split
  · trivial
  · refine (Nat.add_zero 1 ▸ (AtMost.perform isDecrement _).bind fun cursor => ?_)
    refine Makes.atMost (Makes.bind (Makes.perform rfl) fun rows => ?_)
    cases rows <;> trivial

/-- `complete_chunk` carries out the decrement at most once, whatever its calls come to. -/
theorem completeChunk_atMost (jobId : Str) (chunkIndex : ℕ) (s3Key : Str) :
    (completeChunk jobId chunkIndex s3Key).AtMost isDecrement 1 := by
  have pinged : (query .ping).Makes fun op => isDecrement op = false := run_makes rfl false
  have committed : (perform DriverOp.commit : Session Sql (List ℤ) Unit).Makes fun op => isDecrement op = false :=
    Makes.perform rfl
  refine (Nat.zero_add 1 ▸ pinged.atMost.bind fun _ => ?_)
  refine (Nat.zero_add 1 ▸ getConnection_makes.atMost.bind fun _ => ?_)
  refine (Nat.add_zero 1 ▸ AtMost.bind (AtMost.attempt ?_) fun result => ?_)
  · refine (Nat.add_zero 1 ▸ (completeChunkBlock_atMost jobId chunkIndex s3Key).bind fun value => ?_)
    exact Makes.atMost (Makes.bind committed fun _ => trivial)
  · cases result with
    | ok value => trivial
    | error error => exact Makes.atMost (Makes.bind (Makes.attempt (Makes.perform rfl)) fun _ => trivial)

/-- Copies of a write that can be repeated do what one does. -/
private theorem replay_copies {stmt : Stmt} (executed : stmt.isExecuted = true) (state : Database × ℕ) (times : ℕ) :
    (jobstore.replay state (List.replicate times (jobstore.record (.write stmt))).flatten).1 =
      if times = 0 then state.1 else (stmt.exec state.1).2 := by
  induction times generalizing state with
  | zero => rfl
  | succ times ih =>
    rw [List.replicate_succ, List.flatten_cons, Engine.replay_append, ih, Engine.replay_record,
      if_neg (Nat.succ_ne_zero _)]
    split
    · rfl
    · exact exec_exec executed state.1

/-- For every database state, every write of `db.execute` and every placement of errors over the calls of `_run`: if it
returns, the durable database is that after one application of the write, and if it raises, after none or one.
`complete_chunk` carries out its decrement at most once. -/
theorem execute_applies_once (stmt : Stmt) (executed : stmt.isExecuted = true) (start : Database × ℕ)
    (faults : ℕ → Option (Fault Exc)) (calls : List (Call (DriverOp Sql (List ℤ)) DriverOp.Reply Exc))
    (conn : Connection Sql) (quiet : conn.pending = []) :
    (∃ result seen after,
      (execute (.write stmt)).eval (jobstore.serve start faults) calls conn = (result, seen, after) ∧
      (∀ rows, result = .ok rows →
        (jobstore.replay start after.committed).1 = (stmt.exec (jobstore.replay start conn.committed).1).2) ∧
      (∀ error, result = .error error →
        (jobstore.replay start after.committed).1 = (jobstore.replay start conn.committed).1 ∨
          (jobstore.replay start after.committed).1 = (stmt.exec (jobstore.replay start conn.committed).1).2)) ∧
    (∀ jobId chunkIndex s3Key,
      ((completeChunk jobId chunkIndex s3Key).eval (jobstore.serve start faults) [] conn).2.1.countP
        (isDecrement ·.op) ≤ 1) := by
  constructor
  · obtain ⟨result, seen, after, times, same, copies, some⟩ :=
      execute_spec jobstore start faults (.write stmt) calls quiet
    have durable := replay_copies executed (jobstore.replay start conn.committed) times
    rw [← Engine.replay_append, ← copies] at durable
    refine ⟨result, seen, after, same, fun rows returned => ?_, fun error raised => ?_⟩
    · rw [durable, if_neg (Nat.one_le_iff_ne_zero.mp (some rows returned))]
    · rw [durable]
      split
      · exact .inl rfl
      · exact .inr rfl
  · intro jobId chunkIndex s3Key
    exact (Nat.zero_add 1 ▸ (completeChunk_atMost jobId chunkIndex s3Key).eval [] conn)

/-- The reply to the first commit is lost on a stale stream. -/
def lostCommit (call : ℕ) : Option (Fault Exc) :=
  if call = 2 then some (.after { name := lit "ValueError", text := lit "Stream handle 7 is expired" }) else none

/-- The write is committed twice, and the database is that after one application. -/
theorem execute_applies_once_after_lost_commit :
    ∃ result seen after, (execute (.write (.failJob (lit "job") (lit "error") none))).eval
        (jobstore.serve (.empty, 0) lostCommit) [] ⟨true, [], []⟩ = (result, seen, after) ∧ result.toBool = true ∧
      after.committed.length = 2 ∧ (jobstore.replay (.empty, 0) after.committed).1 =
        ((Stmt.failJob (lit "job") (lit "error") none).exec Database.empty).2 := by
  obtain ⟨⟨result, seen, after, same, once, _⟩, _⟩ := execute_applies_once (.failJob (lit "job") (lit "error") none) rfl
    (.empty, 0) lostCommit [] ⟨true, [], []⟩ rfl
  have returned : ((execute (.write (.failJob (lit "job") (lit "error") none))).eval
      (jobstore.serve (.empty, 0) lostCommit) [] ⟨true, [], []⟩).1.toBool = true := by decide
  have twice : ((execute (.write (.failJob (lit "job") (lit "error") none))).eval
      (jobstore.serve (.empty, 0) lostCommit) [] ⟨true, [], []⟩).2.2.committed.length = 2 := by decide
  rw [same] at returned twice
  refine ⟨result, seen, after, same, returned, twice, ?_⟩
  cases result with
  | ok rows => exact once rows rfl
  | error error => cases returned

/-! ## The transaction as one step -/

section Refines

variable (start : Database × ℕ) (calls : List (Call (DriverOp Sql (List ℤ)) DriverOp.Reply Exc))
  (jobId : Str) (chunkIndex : ℕ) (s3Key : Str)

private theorem serve_none (op : DriverOp Sql (List ℤ)) (conn : Connection Sql) :
    jobstore.serve start (fun _ => (none : Option (Fault Exc))) calls op conn =
      (.ok (jobstore.exec start conn op).1, (jobstore.exec start conn op).2) := by
  rcases Engine.serve_cases (fun _ => none) calls op conn with same | ⟨_, _, none, _⟩ | ⟨_, _, none, _⟩
  · exact same
  · cases none
  · cases none

/-- `changes` returns what the last write has changed. -/
private theorem changes_refines (conn : Connection Sql) :
    ∃ seen, changes.eval (jobstore.serve start fun _ => none) calls conn =
      (.ok (jobstore.replay start (conn.committed ++ conn.pending)).2, seen, conn) := by
  have same : { conn with pending := conn.pending ++ [] } = conn := by rw [List.append_nil]
  rw [changes, monad_bind, eval_perform_ok (serve_none start _ _ _), monad_bind,
    eval_perform_ok (serve_none start _ _ _)]
  exact ⟨_, congrArg (fun conn => (Except.ok _, _, conn)) same⟩

/-- The block of `complete_chunk` computes what the job store takes it for, in its open transaction. -/
theorem completeChunkBlock_refines (log : List Sql) {db : Database} {count : ℕ}
    (holds : jobstore.replay start log = (db, count)) :
    ∃ seen writes, (completeChunkBlock jobId chunkIndex s3Key).eval (jobstore.serve start fun _ => none) calls
        ⟨true, log, []⟩ = (.ok (db.completeChunk jobId chunkIndex s3Key).1, seen, ⟨true, log, writes⟩) ∧
      (jobstore.replay start (log ++ writes)).1 = (db.completeChunk jobId chunkIndex s3Key).2 := by
  obtain ⟨seen, counted⟩ := changes_refines start
    (calls ++ [⟨.execute (.markDone jobId chunkIndex s3Key), .ok none⟩]) ⟨true, log, [.markDone jobId chunkIndex s3Key]⟩
  have marked : jobstore.replay start (log ++ [.markDone jobId chunkIndex s3Key]) =
      ((Sql.markDone jobId chunkIndex s3Key).apply (db, count)).2 := by
    rw [Engine.replay_append, holds]
    rfl
  dsimp only at counted
  rw [marked] at counted
  rw [completeChunkBlock, monad_bind, eval_perform_ok (serve_none start _ _ _), monad_bind, eval_bind]
  erw [counted]
  dsimp only [Sql.apply]
  by_cases already : db.jobChunks.rows.countP (Database.isOpenChunk jobId chunkIndex) = 0
  · rw [if_pos (by exact_mod_cast already)]
    rw [Database.completeChunk, if_pos already]
    exact ⟨_, _, rfl, congrArg Prod.fst marked⟩
  · have left : jobstore.replay start (log ++ [.markDone jobId chunkIndex s3Key, .countDown jobId]) =
        ((Sql.countDown jobId).apply ((Sql.markDone jobId chunkIndex s3Key).apply (db, count)).2).2 := by
      rw [← marked, ← List.singleton_append, ← List.append_assoc, Engine.replay_append]
      rfl
    rw [if_neg (by exact_mod_cast already), monad_bind, eval_perform_ok (serve_none start _ _ _), monad_bind,
      eval_perform_ok (serve_none start _ _ _)]
    dsimp only [Engine.exec]
    rw [marked, Database.completeChunk, if_neg already]
    dsimp only [jobstore, Sql.apply, Option.getD_some]
    generalize List.map _ (List.filter (Database.isActiveJob jobId) db.jobs.rows) = returning
    cases returning with
    | nil => exact ⟨_, _, rfl, congrArg Prod.fst left⟩
    | cons remaining rest => exact ⟨_, _, rfl, congrArg Prod.fst left⟩

/-- When nothing raises, `complete_chunk` is the one step that the job store takes it for. -/
theorem completeChunk_refines (log : List Sql) {db : Database} {count : ℕ}
    (holds : jobstore.replay start log = (db, count)) :
    ∃ seen after, (completeChunk jobId chunkIndex s3Key).eval (jobstore.serve start fun _ => none) calls
        ⟨true, log, []⟩ = (.ok (db.completeChunk jobId chunkIndex s3Key).1, seen, ⟨true, after, []⟩) ∧
      (jobstore.replay start after).1 = (db.completeChunk jobId chunkIndex s3Key).2 := by
  have opened : ∃ seen, (query Sql.ping : Session Sql (List ℤ) _).eval (jobstore.serve start fun _ => none) calls
      ⟨true, log, []⟩ = (.ok (some [1]), seen, ⟨true, log, []⟩) := ⟨_, rfl⟩
  obtain ⟨pinged, opened⟩ := opened
  have connected : ∃ seen, (getConnection : Session Sql (List ℤ) Unit).eval (jobstore.serve start fun _ => none) pinged
      ⟨true, log, []⟩ = (.ok (), seen, ⟨true, log, []⟩) := ⟨_, rfl⟩
  obtain ⟨ready, connected⟩ := connected
  obtain ⟨seen, writes, block, effect⟩ := completeChunkBlock_refines start ready jobId chunkIndex s3Key log holds
  rw [completeChunk, transaction, monad_bind, eval_bind, opened]
  dsimp only
  rw [monad_bind, eval_bind, connected]
  dsimp only
  rw [monad_bind, eval_bind, eval_attempt, monad_bind, eval_bind, block]
  exact ⟨_, log ++ writes, rfl, effect⟩

end Refines

end Db

end MarkitdownServer
