import MarkitdownServer.Model.Insertion

/-! # The transactions among other connections

`create_job` and `complete_chunk` are several statements each, other connections write in between, and any call on the
driver may raise. Each is nevertheless one step of the job store, at the moment of its first write: nobody sees a job
without its chunks, and a chunk is marked done together with the decrement.
-/

namespace MarkitdownServer.Db

open Effects Effects.Program Dbapi Dbapi.Backend

section Transaction

variable {Database Stmt Rows α : Type} {backend : Backend Database Stmt Rows Exc} {others : ℕ → Database → Database}
  {faults : ℕ → Option (Fault Exc)} {start : Database}

/-- Nothing has happened, and if the program raises the driver has shown a fault. -/
private def Calm (others : ℕ → Database → Database) (faults : ℕ → Option (Fault Exc)) (start : Database)
    (result : Except Exc α) (link : Link Database) : Prop :=
  Idle others start link ∧ ∀ error, result = .error error → Faulty faults

section Calm

variable {inv : Link Database → Prop}

/-- Two programs that change nothing, one after the other. -/
private theorem bind_calm {β : Type} {program : Session Stmt Rows β} {next : β → Session Stmt Rows α}
    (first : Triple (backend.answer others faults) inv (Idle others start) program (Calm others faults start))
    (rest : ∀ value,
      Triple (backend.answer others faults) inv (Idle others start) (next value) (Calm others faults start)) :
    Triple (backend.answer others faults) inv (Idle others start) (program.bind next) (Calm others faults start) := by
  apply first.bind
  · exact fun value => (rest value).strengthen fun link calm => calm.1
  · exact fun error link calm => ⟨calm.1, fun _ _ => calm.2 error rfl⟩

variable (within : ∀ link, Idle others start link → inv link)

include within

/-- A call without an effect on the database. -/
private theorem perform_calm {op : DriverOp Stmt Rows}
    (keeps : ∀ link, (backend.exec link op).2.durable = link.durable ∧
      (link.working = none → (backend.exec link op).2.working = none))
    (returns : ∀ link, ∃ value, (backend.exec link op).1 = .ok value) :
    Triple (backend.answer others faults) inv (Idle others start) (perform op) (Calm others faults start) := by
  have idle {link} (idle : Idle others start link) : Idle others start (backend.exec link op).2 :=
    ⟨(keeps link).2 idle.1, (keeps link).1 ▸ idle.2⟩
  apply perform_triple within
  · exact fun result link calm => within link calm.1
  · exact fun link count quiet => quiet.meets count
  · intro link quiet
    obtain ⟨value, returned⟩ := returns link
    refine ⟨idle quiet, fun error raised => ?_⟩
    rw [returned] at raised
    cases raised
  · exact fun link error quiet faulty _ => ⟨⟨quiet, fun _ _ => faulty⟩, idle quiet, fun _ _ => faulty⟩

private theorem pure_calm (value : α) :
    Triple (backend.answer others faults) inv (Idle others start) (.pure value : Session Stmt Rows α)
      (Calm others faults start) := by
  apply Triple.pure within
  exact fun link quiet => ⟨quiet, by rintro _ ⟨⟩⟩

private theorem getConnection_calm :
    Triple (backend.answer others faults) inv (Idle others start) (getConnection : Session Stmt Rows Unit)
      (Calm others faults start) := by
  apply bind_calm
  · exact perform_calm within (fun link => ⟨rfl, id⟩) fun link => ⟨_, rfl⟩
  · intro opened
    split
    · exact pure_calm within ()
    · exact perform_calm within (fun link => ⟨rfl, id⟩) fun link => ⟨_, rfl⟩

private theorem closeConnection_calm :
    Triple (backend.answer others faults) inv (Idle others start) (closeConnection : Session Stmt Rows Unit)
      (Calm others faults start) := by
  have closed : Triple (backend.answer others faults) inv (Idle others start) (perform DriverOp.close)
      (Calm others faults start) := perform_calm within (fun link => ⟨rfl, fun _ => rfl⟩) fun link => ⟨_, rfl⟩
  apply bind_calm
  · exact perform_calm within (fun link => ⟨rfl, id⟩) fun link => ⟨_, rfl⟩
  · intro opened
    split
    · refine closed.attempt_bind fun result => Triple.strengthen ?_ fun link calm => calm.1
      exact perform_calm within (fun link => ⟨rfl, fun _ => rfl⟩) fun link => ⟨_, rfl⟩
    · exact pure_calm within ()

/-- A statement that only reads and never raises. -/
def Harmless (backend : Backend Database Stmt Rows Exc) (stmt : Stmt) : Prop :=
  backend.isRead stmt = true ∧ ∀ db, ∃ rows, (backend.apply stmt db).1 = .ok rows

private theorem runOnce_calm {stmt : Stmt} (harmless : Harmless backend stmt) :
    Triple (backend.answer others faults) inv (Idle others start) (runOnce stmt false : Session Stmt Rows (Option Rows))
      (Calm others faults start) := by
  apply bind_calm
  · refine perform_calm within (fun link => ?_) fun link => harmless.2 link.view
    rw [exec, if_pos harmless.1]
    exact ⟨rfl, id⟩
  · intro cursor
    apply bind_calm
    · cases cursor with
      | none => exact pure_calm within none
      | some rows =>
        apply bind_calm
        · exact perform_calm within (fun link => ⟨rfl, id⟩) fun link => ⟨_, rfl⟩
        · exact fun rows => pure_calm within (some rows)
    · exact fun rows => pure_calm within rows

/-- `SELECT 1 AS ok` changes nothing, on whichever connection it ends. -/
private theorem query_calm {stmt : Stmt} (harmless : Harmless backend stmt) :
    Triple (backend.answer others faults) inv (Idle others start) (query stmt : Session Stmt Rows (Option Rows))
      (Calm others faults start) := by
  apply bind_calm (getConnection_calm within)
  intro _
  apply (runOnce_calm within harmless).attempt_bind
  intro result
  cases result with
  | ok rows => exact (pure_calm within rows).strengthen fun link calm => calm.1
  | error error =>
    dsimp only
    split
    · refine Triple.strengthen ?_ fun link calm => calm.1
      apply bind_calm (closeConnection_calm within)
      exact fun _ => bind_calm (getConnection_calm within) fun _ => runOnce_calm within harmless
    · apply Triple.raise
      · exact fun link calm => within link calm.1
      · exact fun link calm => ⟨calm.1, fun _ _ => calm.2 error rfl⟩

end Calm

/-- The open transaction: what it has made of the committed database. -/
def Holding (others : ℕ → Database → Database) (start : Database) (made : Database → Database → Prop)
    (link : Link Database) : Prop :=
  Drifts others start link.durable ∧ ∃ own, link.working = some own ∧ made link.durable own

/-- A part of a block: it returns with the transaction open, or it raises and nothing is committed. -/
def Proceeds (others : ℕ → Database → Database) (faults : ℕ → Option (Fault Exc)) {β : Type}
    (step : Database → Except Exc α → Database → Prop) (start : Database) (made : β → Database → Database → Prop)
    (result : Except Exc β) (link : Link Database) : Prop :=
  Drifts others start link.durable ∧
    match result with
    | .ok value => ∃ own, link.working = some own ∧ made value link.durable own
    | .error error => step link.durable (.error error) link.durable ∨ Faulty faults

/-- A block that has taken its step on the open transaction. -/
def Prepared (others : ℕ → Database → Database) (faults : ℕ → Option (Fault Exc))
    (step : Database → Except Exc α → Database → Prop) (start : Database) : Except Exc α → Link Database → Prop :=
  Proceeds others faults step start fun value before own => step before (.ok value) own

section Step

variable {step : Database → Except Exc α → Database → Prop}

private theorem atomic_of_linearizes {result : Except Exc α} {link : Link Database}
    (holds : Linearizes others faults step start result link) : Atomic others step start link := by
  obtain ⟨base, drifts, holds⟩ := holds
  cases result with
  | ok value => exact .inr ⟨base, _, _, drifts, holds.2, .refl _⟩
  | error error =>
    obtain ⟨undone | ⟨reply, after, stepped, done⟩, _⟩ := holds
    · exact .inl (drifts.trans undone)
    · exact .inr ⟨base, reply, after, drifts, stepped, done⟩

/-- The first write of a block takes the write lock. -/
theorem idle_triple {op : DriverOp Stmt Rows} {made : op.Reply → Database → Database → Prop}
    (runs : ∀ link, link.working = none → Drifts others start link.durable →
      Proceeds others faults step start made (backend.exec link op).1 (backend.exec link op).2)
    (keeps : ∀ link, (backend.exec link op).2.durable = link.durable) :
    Triple (backend.answer others faults) (Atomic others step start) (Idle others start) (perform op)
      (Proceeds others faults step start made) := by
  apply perform_triple
  · exact fun link idle => .inl idle.2
  · exact fun result link proceeds => .inl proceeds.1
  · exact fun link count idle => idle.meets count
  · exact fun link idle => runs link idle.1 idle.2
  · exact fun link error idle faulty _ => ⟨⟨idle.2, .inr faulty⟩, (keeps link).symm ▸ idle.2, .inr faulty⟩

/-- A call in the open transaction. -/
theorem holding_triple {op : DriverOp Stmt Rows} {made : Database → Database → Prop}
    {next : op.Reply → Database → Database → Prop}
    (runs : ∀ link own, link.working = some own → Drifts others start link.durable → made link.durable own →
      Proceeds others faults step start next (backend.exec link op).1 (backend.exec link op).2)
    (keeps : ∀ link, (backend.exec link op).2.durable = link.durable) :
    Triple (backend.answer others faults) (Atomic others step start) (Holding others start made) (perform op)
      (Proceeds others faults step start next) := by
  apply perform_triple
  · exact fun link holding => .inl holding.1
  · exact fun result link proceeds => .inl proceeds.1
  · rintro link count ⟨drifts, own, locked, holds⟩
    rw [meets_of_isSome locked]
    exact ⟨drifts, own, locked, holds⟩
  · rintro link ⟨drifts, own, locked, holds⟩
    exact runs link own locked drifts holds
  · exact fun link error holding faulty _ =>
      ⟨⟨holding.1, .inr faulty⟩, (keeps link).symm ▸ holding.1, .inr faulty⟩

/-- A part of a block and the next one. -/
theorem Proceeds.bind {β γ : Type} {program : Session Stmt Rows β} {next : β → Session Stmt Rows γ}
    {pre : Link Database → Prop} {made : β → Database → Database → Prop} {final : γ → Database → Database → Prop}
    (first : Triple (backend.answer others faults) (Atomic others step start) pre program
      (Proceeds others faults step start made))
    (rest : ∀ value, Triple (backend.answer others faults) (Atomic others step start) (Holding others start (made value))
      (next value) (Proceeds others faults step start final)) :
    Triple (backend.answer others faults) (Atomic others step start) pre (program.bind next)
      (Proceeds others faults step start final) := by
  apply first.bind
  · exact fun value => (rest value).strengthen fun link proceeds => proceeds
  · exact fun error link proceeds => proceeds

/-- The end of a block. -/
theorem Proceeds.pure {β : Type} {value : β} {made : Database → Database → Prop}
    {final : β → Database → Database → Prop} (holds : ∀ before own, made before own → final value before own) :
    Triple (backend.answer others faults) (Atomic others step start) (Holding others start made)
      (.pure value : Session Stmt Rows β) (Proceeds others faults step start final) := by
  apply Triple.pure
  · exact fun link holding => .inl holding.1
  · rintro link ⟨drifts, own, locked, made⟩
    exact ⟨drifts, own, locked, holds _ _ made⟩

/-- A commit makes the step durable; if it raises, the step may be durable all the same. -/
private theorem commit_triple (value : α) :
    Triple (backend.answer others faults) (Atomic others step start) (Prepared others faults step start (.ok value))
      (perform DriverOp.commit : Session Stmt Rows Unit)
      fun result => Linearizes others faults step start (result.map fun _ => value) := by
  apply perform_triple
  · exact fun link prepared => .inl prepared.1
  · exact fun result link holds => atomic_of_linearizes holds
  · rintro link count ⟨drifts, after, locked, stepped⟩
    rw [meets_of_isSome locked]
    exact ⟨drifts, after, locked, stepped⟩
  · rintro link ⟨drifts, after, locked, stepped⟩
    have view : link.view = after := by rw [Link.view, locked, Option.getD_some]
    refine ⟨link.durable, drifts, rfl, ?_⟩
    rw [← view] at stepped
    exact stepped
  · rintro link error ⟨drifts, after, locked, stepped⟩ faulty _
    have view : link.view = after := by rw [Link.view, locked, Option.getD_some]
    constructor
    · exact ⟨link.durable, drifts, .inl (.refl _), .inr faulty⟩
    · refine ⟨link.durable, drifts, .inr ⟨_, after, stepped, ?_⟩, .inr faulty⟩
      rw [← view]
      exact .refl _

/-- What others do after an exception does not matter. -/
private theorem linearizes_meets {error : Exc} {link : Link Database}
    (holds : Linearizes others faults step start (.error error) link) (count : ℕ) :
    Linearizes others faults step start (.error error) (link.meets (others count)) := by
  unfold Link.meets
  split
  · exact holds
  · obtain ⟨base, drifts, undone | ⟨reply, after, stepped, done⟩, cause⟩ := holds
    · exact ⟨base, drifts, .inl (undone.move count), cause⟩
    · exact ⟨base, drifts, .inr ⟨reply, after, stepped, done.move count⟩, cause⟩

private theorem rollback_triple (error : Exc) :
    Triple (backend.answer others faults) (Atomic others step start) (Linearizes others faults step start (.error error))
      (perform DriverOp.rollback : Session Stmt Rows Unit)
      fun _ => Linearizes others faults step start (.error error) := by
  apply perform_triple
  · exact fun link holds => atomic_of_linearizes holds
  · exact fun result link holds => atomic_of_linearizes holds
  · exact fun link count holds => linearizes_meets holds count
  · exact fun link holds => holds
  · exact fun link _ holds _ _ => ⟨holds, holds⟩

/-- What a transaction tries: its block, and the commit. -/
private theorem tried_linearizes {block : Session Stmt Rows α}
    (prepares : Triple (backend.answer others faults) (Atomic others step start) (Idle others start) block
      (Prepared others faults step start)) :
    Triple (backend.answer others faults) (Atomic others step start) (Idle others start)
      (block.bind fun value => (perform DriverOp.commit).bind fun _ => .pure value)
      (Linearizes others faults step start) := by
  apply prepares.bind
  · intro value
    apply (commit_triple value).bind
    · exact fun _ => Triple.pure (fun link holds => atomic_of_linearizes holds) fun link holds => holds
    · exact fun error link holds => holds
  · exact fun error link prepared => ⟨link.durable, prepared.1, .inl (.refl _), prepared.2⟩

/-- A transaction takes the step of its block once and as a whole, or not at all. -/
theorem transaction_linearizes {ping : Stmt} (harmless : Harmless backend ping) {block : Session Stmt Rows α}
    (prepares : Triple (backend.answer others faults) (Atomic others step start) (Idle others start) block
      (Prepared others faults step start)) :
    Triple (backend.answer others faults) (Atomic others step start) (Idle others start) (transaction ping block)
      (Linearizes others faults step start) := by
  have within (link : Link Database) (idle : Idle others start link) : Atomic others step start link := .inl idle.2
  have raised {β : Type} (error : Exc) (link : Link Database)
      (calm : Calm (α := β) others faults start (.error error) link) :
      Linearizes others faults step start (.error error) link :=
    ⟨link.durable, calm.1.2, .inl (.refl _), .inr (calm.2 error rfl)⟩
  refine (query_calm within harmless).bind (fun _ => Triple.strengthen ?_ fun link calm => calm.1) raised
  refine (getConnection_calm within).bind (fun _ => Triple.strengthen ?_ fun link calm => calm.1) raised
  refine (tried_linearizes prepares).attempt_bind fun result => ?_
  have ended {result : Except Exc α} (link : Link Database)
      (holds : Linearizes others faults step start result link) : Atomic others step start link :=
    atomic_of_linearizes holds
  cases result with
  | ok value => exact Triple.pure ended fun link holds => holds
  | error error => exact (rollback_triple error).attempt_bind fun _ => Triple.raise ended fun link holds => holds

/-- A transaction ends with a commit or a rollback, or before its first write. -/
theorem transaction_leaves {ping : Stmt} (harmless : Harmless backend ping) {block : Session Stmt Rows α}
    (prepares : Triple (backend.answer others faults) (Atomic others step start) (Idle others start) block
      (Prepared others faults step start)) (calls : List (Call (DriverOp Stmt Rows) DriverOp.Reply Exc))
    (link : Link Database) (idle : Idle others start link) :
    Leaves ((transaction ping block).eval (backend.answer others faults) calls link).2.1
      ((transaction ping block).eval (backend.answer others faults) calls link).2.2 := by
  have within (link : Link Database) (idle : Idle others start link) : Atomic others step start link := .inl idle.2
  have pings : Triple (backend.answer others faults) _ _ (query ping) (Calm others faults start) :=
    query_calm within harmless
  have connects : Triple (backend.answer others faults) _ _ getConnection (Calm others faults start) :=
    getConnection_calm within
  have queried := (pings calls link idle).eval
  rw [transaction, monad_bind, eval_bind]
  generalize (query ping).eval (backend.answer others faults) calls link = run at queried ⊢
  obtain ⟨pinged | rows, seen, after⟩ := run
  · exact .inl queried.1.1
  have connected := (connects seen after queried.1).eval
  dsimp only
  rw [monad_bind, eval_bind]
  generalize getConnection.eval (backend.answer others faults) seen after = run at connected ⊢
  obtain ⟨refused | _, seen, after⟩ := run
  · exact .inl connected.1.1
  have tried := (tried_linearizes prepares seen after connected.1).eval
  dsimp only
  rw [monad_bind, eval_bind, eval_attempt]
  simp only [monad_bind, monad_pure]
  generalize (block.bind fun value => (perform DriverOp.commit).bind fun _ => .pure value).eval
    (backend.answer others faults) seen after = run at tried ⊢
  obtain ⟨error | value, seen, after⟩ := run
  · dsimp only
    rw [eval_bind, eval_attempt, eval_perform]
    exact leaves_rollback seen after
  · obtain ⟨_, _, closed, _⟩ := tried
    exact .inl closed

theorem transaction_takesOneStep {ping : Stmt} (harmless : Harmless backend ping) {block : Session Stmt Rows α}
    (prepares : Triple (backend.answer others faults) (Atomic others step start) (Idle others start) block
      (Prepared others faults step start)) :
    backend.TakesOneStep others faults step start (transaction ping block) :=
  takesOneStep (transaction_linearizes harmless prepares) (transaction_leaves harmless prepares)

end Step

end Transaction

/-! ## The two transactions -/

section CreateJob

variable {others : ℕ → Database → Database} {faults : ℕ → Option (Fault Exc)} {start : Database}
  (jobId docKey fileHash url : Str) (ranges : List (ℤ × ℤ)) (useLlm : Bool)

/-- The step that the job store takes `create_job` for. -/
def CreatesJob (before : Database) (reply : Except Exc Unit) (after : Database) : Prop :=
  (Stmt.createJob jobId docKey fileHash url ranges useLlm).exec before = (reply, after)

/-- What the open transaction of `create_job` has made of the database, with the ranges that are left. -/
def Inserting (index : ℕ) (left : List (ℤ × ℤ)) (before own : Database) : Prop :=
  before.createJob jobId docKey fileHash url ranges useLlm =
    (Database.insertChunks jobId index left own.jobChunks).map fun jobChunks => { own with jobChunks }

variable {jobId docKey fileHash url ranges useLlm}

/-- When an `INSERT` finds its key taken, so does `create_job`. -/
private theorem createsJob_of_none {db : Database}
    (taken : db.createJob jobId docKey fileHash url ranges useLlm = none) :
    CreatesJob jobId docKey fileHash url ranges useLlm db (.error integrityError) db := by
  rw [CreatesJob, Stmt.exec, taken]

private theorem createsJob_of_some {db after : Database}
    (created : db.createJob jobId docKey fileHash url ranges useLlm = some after) :
    CreatesJob jobId docKey fileHash url ranges useLlm db (.ok ()) after := by
  rw [CreatesJob, Stmt.exec, created]

private theorem insertJob_triple :
    Triple (insertions.answer others faults) (Atomic others (CreatesJob jobId docKey fileHash url ranges useLlm) start)
      (Idle others start)
      (perform (DriverOp.execute (Insertion.job (Database.newJob jobId docKey fileHash url ranges useLlm))))
      (Proceeds others faults (CreatesJob jobId docKey fileHash url ranges useLlm) start fun _ =>
        Inserting jobId docKey fileHash url ranges useLlm 0 ranges) := by
  refine idle_triple (fun link closed drifts => ?_) fun link => durable_execute _
  have view : link.view = link.durable := by rw [Link.view, closed, Option.getD_none]
  have created := Database.createJob.eq_def link.durable jobId docKey fileHash url ranges useLlm
  rw [exec_of_not_isRead rfl, view]
  dsimp only [insertions, Insertion.apply, insertInto]
  cases free : link.durable.jobs.insert? (Database.newJob jobId docKey fileHash url ranges useLlm) with
  | none =>
    rw [free] at created
    exact ⟨drifts, .inl (createsJob_of_none created)⟩
  | some jobs =>
    rw [free] at created
    exact ⟨drifts, _, rfl, created⟩

private theorem insertChunk_triple (index : ℕ) (range : ℤ × ℤ) (left : List (ℤ × ℤ)) :
    Triple (insertions.answer others faults) (Atomic others (CreatesJob jobId docKey fileHash url ranges useLlm) start)
      (Holding others start (Inserting jobId docKey fileHash url ranges useLlm index (range :: left)))
      (perform (DriverOp.execute (Insertion.chunk (Database.newChunk jobId index range))))
      (Proceeds others faults (CreatesJob jobId docKey fileHash url ranges useLlm) start fun _ =>
        Inserting jobId docKey fileHash url ranges useLlm (index + 1) left) := by
  refine holding_triple (fun link own locked drifts rest => ?_) fun link => durable_execute _
  have view : link.view = own := by rw [Link.view, locked, Option.getD_some]
  rw [Inserting, Database.insertChunks] at rest
  rw [exec_of_not_isRead rfl, view]
  dsimp only [insertions, Insertion.apply, insertInto]
  cases free : own.jobChunks.insert? (Database.newChunk jobId index range) with
  | none =>
    rw [free] at rest
    exact ⟨drifts, .inl (createsJob_of_none rest)⟩
  | some jobChunks =>
    rw [free] at rest
    exact ⟨drifts, _, rfl, rest⟩

private theorem insertRows_triple (index : ℕ) (left : List (ℤ × ℤ)) :
    Triple (insertions.answer others faults)
      (Atomic others (CreatesJob jobId docKey fileHash url ranges useLlm) start)
      (Holding others start (Inserting jobId docKey fileHash url ranges useLlm index left)) (insertRows jobId index left)
      (Prepared others faults (CreatesJob jobId docKey fileHash url ranges useLlm) start) := by
  induction left generalizing index with
  | nil => exact Proceeds.pure fun before own rest => createsJob_of_some rest
  | cons range left ih => exact Proceeds.bind (insertChunk_triple index range left) fun _ => ih (index + 1)

/-- `create_job` is the one step that the job store takes it for. -/
theorem createJob_takesOneStep :
    insertions.TakesOneStep others faults (CreatesJob jobId docKey fileHash url ranges useLlm) start
      (createJob jobId docKey fileHash url ranges useLlm) := by
  apply transaction_takesOneStep ⟨rfl, fun db => ⟨_, rfl⟩⟩
  exact Proceeds.bind insertJob_triple fun _ => insertRows_triple 0 ranges

end CreateJob

section CompleteChunk

variable {others : ℕ → Database × ℕ → Database × ℕ} {faults : ℕ → Option (Fault Exc)} {start : Database × ℕ}
  (jobId : Str) (chunkIndex : ℕ) (s3Key : Str)

/-- The step that the job store takes `complete_chunk` for. -/
def CompletesChunk (before : Database × ℕ) (reply : Except Exc ℤ) (after : Database × ℕ) : Prop :=
  (Stmt.completeChunk jobId chunkIndex s3Key).exec before.1 = (reply, after.1)

/-- The open transaction of `complete_chunk` after its first `UPDATE`. -/
def Marked (before own : Database × ℕ) : Prop := own = (Sql.apply (.markDone jobId chunkIndex s3Key) before).2

variable {jobId chunkIndex s3Key}

/-- A statement in the open transaction. -/
private theorem execute_triple {stmt : Sql} {made : Database × ℕ → Database × ℕ → Prop}
    {next : Option (List ℤ) → Database × ℕ → Database × ℕ → Prop}
    (runs : ∀ before own, made before own → next (stmt.apply own).1 before
      (if stmt.isRead then own else (stmt.apply own).2)) :
    Triple (updates.answer others faults) (Atomic others (CompletesChunk jobId chunkIndex s3Key) start)
      (Holding others start made) (perform (DriverOp.execute stmt))
      (Proceeds others faults (CompletesChunk jobId chunkIndex s3Key) start next) := by
  refine holding_triple (fun link own locked drifts holds => ?_) fun link => durable_execute stmt
  have view : link.view = own := by rw [Link.view, locked, Option.getD_some]
  have made := runs _ _ holds
  cases kind : stmt.isRead with
  | true =>
    rw [kind, if_pos rfl] at made
    rw [exec_of_isRead kind, view]
    exact ⟨drifts, own, locked, made⟩
  | false =>
    rw [kind, if_neg Bool.false_ne_true] at made
    rw [exec_of_not_isRead kind, view]
    exact ⟨drifts, _, rfl, made⟩

private theorem fetch_triple {rows : List ℤ} {made : Database × ℕ → Database × ℕ → Prop} :
    Triple (updates.answer others faults) (Atomic others (CompletesChunk jobId chunkIndex s3Key) start)
      (Holding others start made) (perform (DriverOp.fetchall rows))
      (Proceeds others faults (CompletesChunk jobId chunkIndex s3Key) start fun fetched before own =>
        fetched = rows ∧ made before own) := by
  exact holding_triple (fun link own locked drifts holds => ⟨drifts, own, locked, rfl, holds⟩) fun link => rfl

/-- `changes` returns the number of rows that the first `UPDATE` has changed. -/
private theorem changes_triple :
    Triple (updates.answer others faults) (Atomic others (CompletesChunk jobId chunkIndex s3Key) start)
      (Holding others start (Marked jobId chunkIndex s3Key)) changes
      (Proceeds others faults (CompletesChunk jobId chunkIndex s3Key) start fun count before own =>
        count = (own.2 : ℤ) ∧ Marked jobId chunkIndex s3Key before own) := by
  have counted : Triple (updates.answer others faults) (Atomic others (CompletesChunk jobId chunkIndex s3Key) start)
      (Holding others start (Marked jobId chunkIndex s3Key)) (perform (DriverOp.execute .changes))
      (Proceeds others faults (CompletesChunk jobId chunkIndex s3Key) start fun cursor before own =>
        cursor = some [(own.2 : ℤ)] ∧ Marked jobId chunkIndex s3Key before own) :=
    execute_triple fun before own marked => ⟨rfl, marked⟩
  apply Proceeds.bind counted
  intro cursor
  apply Proceeds.bind fetch_triple
  intro rows
  cases rows with
  | nil =>
    apply Triple.raise
    · exact fun link holding => .inl holding.1
    · rintro link ⟨_, own, _, none, rfl, _⟩
      cases none
  | cons count rest =>
    apply Proceeds.pure
    rintro before own ⟨some, rfl, marked⟩
    cases some
    exact ⟨rfl, marked⟩

private theorem markDone_triple :
    Triple (updates.answer others faults) (Atomic others (CompletesChunk jobId chunkIndex s3Key) start)
      (Idle others start) (perform (DriverOp.execute (Sql.markDone jobId chunkIndex s3Key)))
      (Proceeds others faults (CompletesChunk jobId chunkIndex s3Key) start fun _ =>
        Marked jobId chunkIndex s3Key) := by
  refine idle_triple (fun link closed drifts => ?_) fun link => durable_execute _
  have view : link.view = link.durable := by rw [Link.view, closed, Option.getD_none]
  rw [exec_of_not_isRead rfl, view]
  exact ⟨drifts, _, rfl, rfl⟩

/-- The last `UPDATE` of `complete_chunk`, and what its `RETURNING` gives. -/
private def Counted (jobId : Str) (chunkIndex : ℕ) (s3Key : Str) (cursor : Option (List ℤ))
    (before own : Database × ℕ) : Prop :=
  ∃ marked, Marked jobId chunkIndex s3Key before marked ∧ marked.2 ≠ 0 ∧
    (Sql.apply (.countDown jobId) marked) = (cursor, own)

private theorem completesChunk_of_already {before own : Database × ℕ} (marked : Marked jobId chunkIndex s3Key before own)
    (already : own.2 = 0) : CompletesChunk jobId chunkIndex s3Key before (.ok Database.chunkAlreadyDone) own := by
  subst marked
  have none : before.1.jobChunks.rows.countP (Database.isOpenChunk jobId chunkIndex) = 0 := already
  rw [CompletesChunk, Stmt.exec, Database.completeChunk, if_pos none]
  rfl

/-- What `complete_chunk` returns after its last `UPDATE`. -/
private theorem completesChunk_of_counted {rows : List ℤ} {before own : Database × ℕ}
    (counted : Counted jobId chunkIndex s3Key (some rows) before own) :
    CompletesChunk jobId chunkIndex s3Key before (.ok (rows.head?.getD Database.jobAlreadyTerminal)) own := by
  obtain ⟨_, rfl, open_, counted⟩ := counted
  have some : ¬before.1.jobChunks.rows.countP (Database.isOpenChunk jobId chunkIndex) = 0 := open_
  dsimp only [Sql.apply] at counted
  simp only [Prod.mk.injEq, Option.some.injEq] at counted
  obtain ⟨rfl, rfl⟩ := counted
  rw [CompletesChunk, Stmt.exec, Database.completeChunk, if_neg some]
  dsimp only
  cases List.map _ (List.filter (Database.isActiveJob jobId) before.1.jobs.rows) with
  | nil => rfl
  | cons remaining rest => rfl

/-- `complete_chunk` is the one step that the job store takes it for. -/
theorem completeChunk_takesOneStep :
    updates.TakesOneStep others faults (CompletesChunk jobId chunkIndex s3Key) start
      (completeChunk jobId chunkIndex s3Key) := by
  apply transaction_takesOneStep ⟨rfl, fun db => ⟨_, rfl⟩⟩
  apply Proceeds.bind markDone_triple
  intro _
  apply Proceeds.bind changes_triple
  intro count
  split
  · next already =>
    apply Proceeds.pure
    rintro before own ⟨rfl, marked⟩
    exact completesChunk_of_already marked (by exact_mod_cast already)
  · next left =>
    have counted : Triple (updates.answer others faults)
        (Atomic others (CompletesChunk jobId chunkIndex s3Key) start)
        (Holding others start fun before own => count = (own.2 : ℤ) ∧ Marked jobId chunkIndex s3Key before own)
        (perform (DriverOp.execute (Sql.countDown jobId)))
        (Proceeds others faults (CompletesChunk jobId chunkIndex s3Key) start
          (Counted jobId chunkIndex s3Key)) := by
      apply execute_triple
      rintro before own ⟨rfl, marked⟩
      exact ⟨own, marked, by exact_mod_cast left, rfl⟩
    apply Proceeds.bind counted
    intro cursor
    apply Proceeds.bind fetch_triple
    intro rows
    have returns {before own : Database × ℕ}
        (fetched : rows = cursor.getD [] ∧ Counted jobId chunkIndex s3Key cursor before own) :
        CompletesChunk jobId chunkIndex s3Key before (.ok (rows.head?.getD Database.jobAlreadyTerminal)) own := by
      obtain ⟨rfl, marked, was, open_, counted⟩ := fetched
      cases cursor with
      | none => cases counted
      | some rows => exact completesChunk_of_counted ⟨marked, was, open_, counted⟩
    cases rows with
    | nil => exact Proceeds.pure fun before own fetched => returns fetched
    | cons remaining rest => exact Proceeds.pure fun before own fetched => returns fetched

end CompleteChunk

/-- Whatever the others commit in between and whichever calls on the driver raise, before or after their effect, both
transactions are one step of the job store if none is open when they begin: at every moment the committed database is
one without the step or with all of it, a transaction that returns has taken the step, and one that raises does so
because of its step or of a fault. None is open in the end, unless the rollback has raised. -/
theorem transactions_linearize (others : ℕ → Database → Database) (faults : ℕ → Option (Fault Exc)) (start : Database)
    (changed : ℕ) (jobId : Str) :
    (∀ docKey fileHash url ranges useLlm,
      insertions.TakesOneStep others faults (CreatesJob jobId docKey fileHash url ranges useLlm) start
        (createJob jobId docKey fileHash url ranges useLlm)) ∧
    ∀ chunkIndex s3Key,
      updates.TakesOneStep (fun count state => (others count state.1, state.2)) faults
        (CompletesChunk jobId chunkIndex s3Key) (start, changed) (completeChunk jobId chunkIndex s3Key) := by
  constructor
  · exact fun docKey fileHash url ranges useLlm => createJob_takesOneStep
  · exact fun chunkIndex s3Key => completeChunk_takesOneStep

/-- The reply to the commit is lost: the job is there with its chunks, and `create_job` raises. -/
example :
    let lost (call : ℕ) : Option (Fault Exc) := if call = 7 then some (.after integrityError) else none
    let ran := (createJob (lit "job") (lit "key") (lit "hash") (lit "url") [(0, 2), (2, 4)] false).eval
      (insertions.answer (fun _ db => db) lost) [] ⟨true, .empty, none⟩
    ran.1.toBool = false ∧ ran.2.2.durable.jobs.rows.length = 1 ∧ ran.2.2.durable.jobChunks.rows.length = 2 := by
  decide

/-- The rollback of the first `complete_chunk` raises: the commit of the second one makes the half of the first durable,
so that both chunks are done and one is still to come. -/
example :
    let lost (call : ℕ) : Option (Fault Exc) := if call = 7 ∨ call = 8 then some (.before integrityError) else none
    let ran (db : Database) :=
      let first := (completeChunk (lit "job") 0 (lit "part0")).eval (updates.answer (fun _ state => state) lost) []
        ⟨true, (db, 0), none⟩
      (completeChunk (lit "job") 1 (lit "part1")).eval (updates.answer (fun _ state => state) lost) first.2.1 first.2.2
    let shown (db : Database) := (db.jobChunks.rows.map (·.status), db.jobs.rows.map (·.remainingChunks))
    ((Database.empty.createJob (lit "job") (lit "key") (lit "hash") (lit "url") [(0, 2), (2, 4)] false).map fun db =>
      shown (ran db).2.2.durable.1) = some ([.done, .done], [1]) := by
  decide

end MarkitdownServer.Db
