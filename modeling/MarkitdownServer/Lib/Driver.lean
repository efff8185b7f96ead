import MarkitdownServer.Lib.Program

/-! # A database connection with an open transaction

The connection of one thread to a database, as a DB-API driver gives it. Statements that were carried out wait
in the open transaction until a commit makes them durable; a rollback, and closing the connection, discard
them. A call may raise before it has an effect or after it.
-/

namespace Dbapi

open Effects

/-- A database: what a statement returns and does, and which statements only read. A statement returns no rows at
all when its cursor has no description. -/
structure Engine (Db Stmt Rows : Type) where
  apply : Stmt → Db → Option Rows × Db
  isRead : Stmt → Bool
  harmless : ∀ stmt db, isRead stmt = true → (apply stmt db).2 = db

/-- What a program does with its connection. Looking whether there is one and forgetting it happen in the
process; the other calls go to the driver. -/
inductive DriverOp (Stmt Rows : Type) where
  | isOpen
  | connect
  | execute (stmt : Stmt)
  | fetchall (rows : Rows)
  | commit
  | rollback
  | close
  | forget

@[reducible] def DriverOp.Reply {Stmt Rows : Type} : DriverOp Stmt Rows → Type
  | .isOpen => Bool
  | .execute _ => Option Rows
  | .fetchall _ => Rows
  | _ => Unit

/-- Whether a call stays in the process. -/
def DriverOp.isLocal {Stmt Rows : Type} : DriverOp Stmt Rows → Bool
  | .isOpen | .forget => true
  | _ => false

/-- The writes that are durable, and those of the open transaction. -/
structure Connection (Stmt : Type) where
  isOpen : Bool
  committed : List Stmt
  pending : List Stmt

/-- How a call raises. -/
inductive Fault (Exc : Type) where
  | before (error : Exc)
  | after (error : Exc)

namespace Engine

variable {Db Stmt Rows Exc : Type} (engine : Engine Db Stmt Rows) (start : Db)

/-- The database after some writes. -/
def replay (log : List Stmt) : Db := log.foldl (fun db stmt => (engine.apply stmt db).2) start

/-- What a statement adds to the open transaction. -/
def record (stmt : Stmt) : List Stmt := if engine.isRead stmt then [] else [stmt]

/-- A call that is carried out. A statement sees the durable writes and those of its own transaction. -/
def exec (conn : Connection Stmt) : (op : DriverOp Stmt Rows) → op.Reply × Connection Stmt
  | .isOpen => (conn.isOpen, conn)
  | .connect => ((), { conn with isOpen := true })
  | .execute stmt => ((engine.apply stmt (engine.replay start (conn.committed ++ conn.pending))).1,
      { conn with pending := conn.pending ++ engine.record stmt })
  | .fetchall rows => (rows, conn)
  | .commit => ((), { conn with committed := conn.committed ++ conn.pending, pending := [] })
  | .rollback | .close => ((), { conn with pending := [] })
  | .forget => ((), { conn with isOpen := false, pending := [] })

/-- The driver with the faults it shows, by the number of calls made before. -/
def serve (faults : ℕ → Option (Fault Exc)) (calls : List (Call (DriverOp Stmt Rows) DriverOp.Reply Exc))
    (op : DriverOp Stmt Rows) (conn : Connection Stmt) : Except Exc op.Reply × Connection Stmt :=
  if op.isLocal then (.ok (engine.exec start conn op).1, (engine.exec start conn op).2)
  else match faults calls.length with
    | none => (.ok (engine.exec start conn op).1, (engine.exec start conn op).2)
    | some (.before error) => (.error error, conn)
    | some (.after error) => (.error error, (engine.exec start conn op).2)

variable {engine start}

@[simp] theorem replay_append (first second : List Stmt) :
    engine.replay start (first ++ second) = engine.replay (engine.replay start first) second :=
  List.foldl_append

@[simp] theorem replay_nil : engine.replay start [] = start := rfl

@[simp] theorem replay_record (stmt : Stmt) :
    engine.replay start (engine.record stmt) = (engine.apply stmt start).2 := by
  unfold record
  split
  · next read => exact (engine.harmless stmt start read).symm
  · rfl

/-- A call is carried out, or raises before or after its effect. -/
theorem serve_cases (faults : ℕ → Option (Fault Exc)) (calls : List (Call (DriverOp Stmt Rows) DriverOp.Reply Exc))
    (op : DriverOp Stmt Rows) (conn : Connection Stmt) :
    engine.serve start faults calls op conn = (.ok (engine.exec start conn op).1, (engine.exec start conn op).2) ∨
      (op.isLocal = false ∧ ∃ error, faults calls.length = some (.before error) ∧
        engine.serve start faults calls op conn = (.error error, conn)) ∨
      (op.isLocal = false ∧ ∃ error, faults calls.length = some (.after error) ∧
        engine.serve start faults calls op conn = (.error error, (engine.exec start conn op).2)) := by
  unfold serve
  split
  · exact .inl rfl
  · next remote =>
    cases faulty : faults calls.length with
    | none => exact .inl rfl
    | some fault =>
      cases fault with
      | before error => exact .inr (.inl ⟨Bool.eq_false_iff.mpr remote, error, rfl, rfl⟩)
      | after error => exact .inr (.inr ⟨Bool.eq_false_iff.mpr remote, error, rfl, rfl⟩)

end Engine

end Dbapi
