import Mathlib.Data.Char
import Mathlib.Data.List.Lex
import Mathlib.Data.List.Sort
import Mathlib.Logic.Function.Basic
import MarkitdownServer.Lib.Program
import MarkitdownServer.Lib.Run
import MarkitdownServer.Model.Migrations

/-! # Start-up

`migrate` and `ensure_ready` of `db.py`, run by any number of processes over one database. The threads of a process
share the flag `_migrated` and the lock `_migrate_lock`; each has its own connection. A statement of a migration
waits in the transaction of the connection until a commit, or is committed at once, as the driver likes.
-/

namespace MarkitdownServer

open Effects

/-- What a thread does around the migrations: it looks at the flag, takes the lock, sets the flag, gives the lock
back, or calls its driver; `request` is any call of the driver once `ensure_ready` has returned. -/
inductive BootOp where
  | migrated
  | acquire
  | setMigrated
  | release
  | connect
  | execute (statement : Str)
  | commit
  | request
deriving DecidableEq

@[reducible] def BootOp.Reply : BootOp → Type
  | .migrated => Bool
  | _ => Unit

/-- Whether a thread makes this call only while it holds the lock. -/
def BootOp.isGuarded : BootOp → Bool
  | .setMigrated | .release | .connect | .execute _ | .commit => true
  | _ => false

/-- Whether this call is a step of a migration. -/
def BootOp.isMigration : BootOp → Bool
  | .setMigrated | .connect | .execute _ | .commit => true
  | _ => false

/-- The programs of a thread. -/
abbrev BootProg := Program BootOp BootOp.Reply Exc

namespace Db

/-- The statements of the `.sql` files of a directory, in the order of the names. -/
def migrationStatements (files : List (Str × Str)) : List Str :=
  ((files.insertionSort fun first second => first.1 ≤ second.1).filter fun file =>
    (lit ".sql").isSuffixOf file.1).flatMap fun file => splitStatements file.2

/-- The loop of `migrate`. -/
def executeAll : List Str → BootProg Unit
  | [] => pure ()
  | statement :: rest => do
    Program.perform (BootOp.execute statement)
    executeAll rest

/-- The block of `migrate` under the lock. -/
def migrateLocked (statements : List Str) : BootProg Unit := do
  if ← Program.perform BootOp.migrated then pure ()
  else
    Program.perform BootOp.connect
    executeAll statements
    Program.perform BootOp.commit
    Program.perform BootOp.setMigrated

/-- `migrate`. -/
def migrate (statements : List Str) : BootProg Unit := do
  Program.perform BootOp.acquire
  let migrated ← (migrateLocked statements).attempt
  Program.perform BootOp.release
  Program.ofExcept migrated

/-- `ensure_ready`. -/
def ensureReady (statements : List Str) : BootProg Unit := do
  if ← Program.perform BootOp.migrated then pure () else migrate statements

/-- So many calls of the driver, whatever they answer. -/
def requests : ℕ → BootProg Unit
  | 0 => pure ()
  | count + 1 => do
    let _ ← (Program.perform BootOp.request).attempt
    requests count

end Db

/-- What a thread is started for: the migrations of `lifespan` and `main`, or a function that begins with
`ensure_ready` and then makes so many calls of the driver. -/
inductive BootJob where
  | boot
  | serve (count : ℕ)

def BootJob.program (statements : List Str) : BootJob → BootProg Unit
  | .boot => Db.migrate statements
  | .serve count => do
    Db.ensureReady statements
    Db.requests count

/-! ## The objects of a database -/

/-- The objects of a database, by their names in lower case, each with the statement that created it. -/
abbrev Schema := Str → Option Str

/-- White space between the words of a statement. -/
def isSqlSpace (c : Char) : Bool := c = ' ' || c = '\t' || c = '\n' || c = '\r' || c.toNat = 0x0c

/-- A character of a keyword or of a name without quotes. -/
def isSqlWord (c : Char) : Bool := c.isAlphanum || c = '_' || c = '$' || 0x80 ≤ c.toNat

/-- The first word of a text in lower case, since case makes no difference, and what follows it. -/
def nextWord (text : Str) : Str × Str :=
  let (word, rest) := (text.dropWhile isSqlSpace).span isSqlWord
  (word.map Char.toLower, rest)

/-- What follows these words. -/
def afterWords : List Str → Str → Option Str
  | [], text => some text
  | word :: words, text => if (nextWord text).1 = word then afterWords words (nextWord text).2 else none

/-- What comes before the name of an object: the statements that do nothing if their object exists. -/
def creations : List (List Str) :=
  [[lit "table"], [lit "index"], [lit "unique", lit "index"], [lit "view"], [lit "trigger"]].map fun kind =>
    lit "create" :: kind ++ [lit "if", lit "not", lit "exists"]

/-- The object that a statement creates if it does not exist; a name in quotes or with a schema is not read. -/
def objectName (statement : Str) : Option Str :=
  (creations.findSome? fun words => afterWords words statement).bind fun rest =>
    let (name, rest) := nextWord rest
    if name = [] || (rest.dropWhile isSqlSpace).head? = some '.' then none else some name

namespace Schema

/-- A statement that does nothing if its object exists. -/
def create (schema : Schema) (statement : Str) : Schema :=
  match objectName statement with
  | none => schema
  | some name => if (schema name).isSome then schema else Function.update schema name (some statement)

/-- Statements one after the other. -/
def createAll (schema : Schema) (statements : List Str) : Schema := statements.foldl create schema

/-- The object of a statement exists, as the statement creates it. -/
def Has (schema : Schema) (statement : Str) : Prop :=
  ∃ name, objectName statement = some name ∧ schema name = some statement

end Schema

/-! ## Processes over one database -/

/-- A thread: what is left of its program, and what waits in the transaction of its connection. -/
structure BootThread where
  program : BootProg Unit := .pure ()
  pending : List Str := []

/-- The database, and for every process its flag, the holder of its lock and its threads. -/
structure Site where
  schema : Schema
  migrated : ℕ → Bool
  holder : ℕ → Option ℕ
  thread : ℕ → ℕ → BootThread

/-- What becomes of the open transaction with a call: it stays open, it is committed, or it is lost. -/
inductive Leftover where
  | kept
  | flushed
  | dropped

/-- How a call of the driver ends: it returns, or it raises without an effect or after it. -/
inductive BootFate where
  | returned (leftover : Leftover)
  | raised (error : Exc) (leftover : Leftover)
  | raisedLate (error : Exc) (leftover : Leftover)

/-- A process is started or a thread takes up a job, a thread makes its next call, or a process dies. -/
inductive BootMove where
  | start (process thread : ℕ) (job : BootJob)
  | call (process thread : ℕ) (fate : BootFate)
  | die (process : ℕ)

def Leftover.settle : Leftover → Schema × List Str → Schema × List Str
  | .kept, state => state
  | .flushed, (schema, pending) => (schema.createAll pending, [])
  | .dropped, (schema, _) => (schema, [])

/-- A call of the driver that is carried out, on the database and the open transaction. -/
def BootOp.effect : BootOp → Schema × List Str → Schema × List Str
  | .execute statement, (schema, pending) => (schema, pending ++ [statement])
  | .commit, (schema, pending) => (schema.createAll pending, [])
  | _, state => state

namespace Site

/-- No process is running. -/
def initial (schema : Schema) : Site := ⟨schema, fun _ => false, fun _ => none, fun _ _ => {}⟩

variable (site : Site) (process thread : ℕ)

/-- The next call of a thread. -/
def next : Option BootOp :=
  match (site.thread process thread).program with
  | .call op _ => some op
  | _ => none

def setThread (value : BootThread) : Site :=
  { site with thread := Function.update site.thread process (Function.update (site.thread process) thread value) }

/-- What a call of the driver answers and leaves behind. A transaction is not lost with a migration statement or a
commit that returns. -/
def drive (op : BootOp) (state : Schema × List Str) : BootFate → Option (Except Exc Unit × (Schema × List Str))
  | .returned .dropped => if op = .request then some (.ok (), (state.1, [])) else none
  | .returned leftover => some (.ok (), leftover.settle (op.effect state))
  | .raised error leftover => some (.error error, leftover.settle state)
  | .raisedLate error leftover => some (.error error, leftover.settle (op.effect state))

/-- A call of the driver by a thread that goes on with `rest`. -/
def driven (op : BootOp) (rest : Except Exc Unit → BootProg Unit) (fate : BootFate) : Option Site :=
  (drive op (site.schema, (site.thread process thread).pending) fate).map fun (reply, schema, pending) =>
    { site with schema }.setThread process thread ⟨rest reply, pending⟩

/-- The next call of a thread. Whoever asks for the lock waits until it is free. -/
def call (fate : BootFate) : Option Site :=
  let goOn (program : BootProg Unit) (site : Site) : Site :=
    site.setThread process thread { site.thread process thread with program }
  match (site.thread process thread).program with
  | .call .migrated rest => some (goOn (rest (.ok (site.migrated process))) site)
  | .call .acquire rest =>
    if site.holder process = none then
      some (goOn (rest (.ok ())) { site with holder := Function.update site.holder process (some thread) })
    else none
  | .call .release rest =>
    some (goOn (rest (.ok ())) { site with holder := Function.update site.holder process none })
  | .call .setMigrated rest =>
    some (goOn (rest (.ok ())) { site with migrated := Function.update site.migrated process true })
  | .call .connect rest => site.driven process thread .connect rest fate
  | .call (.execute statement) rest => site.driven process thread (.execute statement) rest fate
  | .call .commit rest => site.driven process thread .commit rest fate
  | .call .request rest => site.driven process thread .request rest fate
  | _ => none

/-- One step. A job is taken up by a thread that has nothing else to do; with a process its flag, its lock and its
connections are gone. -/
def step (statements : List Str) (site : Site) : BootMove → Option Site
  | .start process thread job =>
    if (site.thread process thread).program.isDone then
      some (site.setThread process thread { site.thread process thread with program := job.program statements })
    else none
  | .call process thread fate => site.call process thread fate
  | .die process => some { site with
      migrated := Function.update site.migrated process false
      holder := Function.update site.holder process none
      thread := Function.update site.thread process fun _ => {} }

end Site

end MarkitdownServer
