import MarkitdownServer.Lib.Driver
import MarkitdownServer.Model.Config

/-! # Database access

The model of `db.py` over the calls of a DB-API driver. The migrations have run, so `ensure_ready` does
nothing. A row is what the driver returns; turning it into a `dict` is left out.
-/

namespace MarkitdownServer.Db

open Effects Dbapi

/-- `text.lower()` of one character, as far as ASCII letters come out of it. -/
def lowerChar (c : Char) : Str :=
  if c = 'İ' then ['i', '\u0307'] else if c = '\u212a' then ['k'] else [c.toLower]

/-- `text.lower()`. -/
def lower (text : Str) : Str := text.flatMap lowerChar

/-- `part in text`. -/
def occurs (part text : Str) : Bool := text.tails.any part.isPrefixOf

/-- `_STALE_CONNECTION_MARKERS`. -/
def staleConnectionMarkers : List Str :=
  [lit "stream handle", lit "stream is closed", lit "stream not found", lit "connection reset", lit "connection closed",
    lit "broken pipe"]

/-- `_is_stale_connection`. -/
def isStaleConnection (error : Exc) : Bool := staleConnectionMarkers.any (occurs · (lower error.text))

variable {Stmt Rows α : Type}

/-- The programs on a connection. -/
abbrev Session (Stmt Rows : Type) := Program (DriverOp Stmt Rows) DriverOp.Reply Exc

/-- `get_connection`. -/
def getConnection : Session Stmt Rows Unit := do
  if ← Program.perform DriverOp.isOpen then pure () else Program.perform DriverOp.connect

/-- `close_connection`. -/
def closeConnection : Session Stmt Rows Unit := do
  if ← Program.perform DriverOp.isOpen then
    let _ ← (Program.perform DriverOp.close).attempt
    Program.perform DriverOp.forget
  else pure ()

/-- `_rows_to_dicts`. -/
def rowsToDicts : Option Rows → Session Stmt Rows (Option Rows)
  | none => pure none
  | some rows => do
    let rows ← Program.perform (DriverOp.fetchall rows)
    pure (some rows)

/-- The body of the `try` in `_run`. -/
def runOnce (stmt : Stmt) (commit : Bool) : Session Stmt Rows (Option Rows) := do
  let cursor ← Program.perform (DriverOp.execute stmt)
  let rows ← rowsToDicts cursor
  if commit then Program.perform DriverOp.commit
  pure rows

/-- `_run`. -/
def run (stmt : Stmt) (commit : Bool) : Session Stmt Rows (Option Rows) := do
  getConnection
  match ← (runOnce stmt commit).attempt with
  | .ok rows => pure rows
  | .error error =>
    if isStaleConnection error then do
      closeConnection
      getConnection
      runOnce stmt commit
    else .raise error

/-- `query`. -/
def query (stmt : Stmt) : Session Stmt Rows (Option Rows) := run stmt false

/-- `execute`. -/
def execute (stmt : Stmt) : Session Stmt Rows (Option Rows) := run stmt true

/-- `transaction` around a block; `ping` is its `SELECT 1 AS ok`. -/
def transaction (ping : Stmt) (block : Session Stmt Rows α) : Session Stmt Rows α := do
  let _ ← query ping
  getConnection
  match ← (do let result ← block; Program.perform DriverOp.commit; pure result : Session Stmt Rows α).attempt with
  | .ok result => pure result
  | .error error => do
    let _ ← (Program.perform DriverOp.rollback).attempt
    .raise error

end MarkitdownServer.Db
