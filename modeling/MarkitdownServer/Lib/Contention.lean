import Mathlib.Logic.Relation
import MarkitdownServer.Lib.Driver
import MarkitdownServer.Lib.Hoare

/-! # A database connection among others

A connection to a database that other connections write too. The first write of a transaction takes the write lock,
which a commit or a rollback gives back: while the transaction is open nobody else commits, and between any two other
calls the database may change. A statement may raise, and then it has no effect.
-/

namespace Dbapi

open Effects Effects.Program

/-- A database: what a statement returns or raises, what it does, and which statements only read. -/
structure Backend (Db Stmt Rows Exc : Type) where
  apply : Stmt → Db → Except Exc (Option Rows) × Db
  isRead : Stmt → Bool

/-- The connection of one thread: the committed database, and the database as the open transaction sees it. -/
structure Link (Db : Type) where
  isOpen : Bool
  durable : Db
  working : Option Db

namespace Link

variable {Db : Type} (link : Link Db)

/-- What a statement reads. -/
def view : Db := link.working.getD link.durable

/-- The others commit, unless this connection holds the write lock. -/
def meets (others : Db → Db) : Link Db :=
  if link.working.isSome then link else { link with durable := others link.durable }

end Link

namespace Backend

variable {Db Stmt Rows Exc α : Type} (backend : Backend Db Stmt Rows Exc)

/-- A call that is carried out. -/
def exec (link : Link Db) : (op : DriverOp Stmt Rows) → Except Exc op.Reply × Link Db
  | .isOpen => (.ok link.isOpen, link)
  | .connect => (.ok (), { link with isOpen := true })
  | .execute stmt => ((backend.apply stmt link.view).1,
      if backend.isRead stmt then link else { link with working := some (backend.apply stmt link.view).2 })
  | .fetchall rows => (.ok rows, link)
  | .commit => (.ok (), { link with durable := link.view, working := none })
  | .rollback | .close => (.ok (), { link with working := none })
  | .forget => (.ok (), { link with isOpen := false, working := none })

/-- A call among the others, with the faults of the driver, both by the number of calls made before. -/
def answer (others : ℕ → Db → Db) (faults : ℕ → Option (Fault Exc))
    (calls : List (Call (DriverOp Stmt Rows) DriverOp.Reply Exc)) (op : DriverOp Stmt Rows) (link : Link Db) :
    Except Exc op.Reply × Link Db :=
  let link := link.meets (others calls.length)
  if op.isLocal then backend.exec link op
  else match faults calls.length with
    | none => backend.exec link op
    | some (.before error) => (.error error, link)
    | some (.after error) => (.error error, (backend.exec link op).2)

variable (others : ℕ → Db → Db) (faults : ℕ → Option (Fault Exc))

/-- Databases that the others lead to. -/
def Drifts : Db → Db → Prop := Relation.ReflTransGen fun before after => ∃ count, after = others count before

/-- The driver shows a fault. -/
def Faulty : Prop := ∃ count fault, faults count = some fault

/-- There is no open transaction, and only the others have changed the database. -/
def Idle (start : Db) (link : Link Db) : Prop := link.working = none ∧ Drifts others start link.durable

/-- What the others can see of a program that takes one step: the database before it or after it. -/
def Atomic (step : Db → Except Exc α → Db → Prop) (start : Db) (link : Link Db) : Prop :=
  Drifts others start link.durable ∨
    ∃ base reply after, Drifts others start base ∧ step base reply after ∧ Drifts others after link.durable

/-- A program that takes one step at a moment of its own: if it returns, it has taken the step and nothing has happened
since; if it raises, it has taken the step or has not, and either the step raises so or the driver has shown a fault. -/
def Linearizes (step : Db → Except Exc α → Db → Prop) (start : Db) (result : Except Exc α) (link : Link Db) : Prop :=
  ∃ base, Drifts others start base ∧
    match result with
    | .ok value => link.working = none ∧ step base (.ok value) link.durable
    | .error error => (Drifts others base link.durable ∨
        ∃ reply after, step base reply after ∧ Drifts others after link.durable) ∧
      (step base (.error error) base ∨ Faulty faults)

/-- The connection is left without an open transaction, unless the last call was a rollback that raised. -/
def Leaves (calls : List (Call (DriverOp Stmt Rows) DriverOp.Reply Exc)) (link : Link Db) : Prop :=
  link.working = none ∨ ∃ error, calls.getLast? = some ⟨.rollback, .error error⟩

/-- On a connection without an open transaction, the program is one step at every moment, ends as such, and leaves the
connection so for the next program, unless its rollback raises. -/
def TakesOneStep (step : Db → Except Exc α → Db → Prop) (start : Db)
    (program : Program (DriverOp Stmt Rows) DriverOp.Reply Exc α) : Prop :=
  ∀ opened calls,
    (∀ count, Atomic others step start
      (program.steps (backend.answer others faults) count calls ⟨opened, start, none⟩).2.2) ∧
    Linearizes others faults step start (program.eval (backend.answer others faults) calls ⟨opened, start, none⟩).1
      (program.eval (backend.answer others faults) calls ⟨opened, start, none⟩).2.2 ∧
    Leaves (program.eval (backend.answer others faults) calls ⟨opened, start, none⟩).2.1
      (program.eval (backend.answer others faults) calls ⟨opened, start, none⟩).2.2

/-- A call is carried out, or the driver shows a fault and it raises before or after its effect. -/
theorem answer_cases (calls : List (Call (DriverOp Stmt Rows) DriverOp.Reply Exc)) (op : DriverOp Stmt Rows)
    (link : Link Db) :
    backend.answer others faults calls op link = backend.exec (link.meets (others calls.length)) op ∨
      (op.isLocal = false ∧ Faulty faults ∧ ∃ error,
        backend.answer others faults calls op link = (.error error, link.meets (others calls.length)) ∨
        backend.answer others faults calls op link =
          (.error error, (backend.exec (link.meets (others calls.length)) op).2)) := by
  unfold answer
  dsimp only
  split
  · exact .inl rfl
  · next remote =>
    cases faulty : faults calls.length with
    | none => exact .inl rfl
    | some fault =>
      have some : Faulty faults := ⟨calls.length, fault, faulty⟩
      cases fault with
      | before error => exact .inr ⟨Bool.eq_false_iff.mpr remote, some, error, .inl rfl⟩
      | after error => exact .inr ⟨Bool.eq_false_iff.mpr remote, some, error, .inr rfl⟩

variable {backend others faults} {start base : Db} {link : Link Db}

theorem exec_of_isRead {stmt : Stmt} (read : backend.isRead stmt = true) :
    backend.exec link (.execute stmt : DriverOp Stmt Rows) = ((backend.apply stmt link.view).1, link) := by
  rw [exec, if_pos read]

theorem exec_of_not_isRead {stmt : Stmt} (write : backend.isRead stmt = false) :
    backend.exec link (.execute stmt : DriverOp Stmt Rows) =
      ((backend.apply stmt link.view).1, { link with working := some (backend.apply stmt link.view).2 }) := by
  rw [exec, if_neg (Bool.eq_false_iff.mp write)]

/-- Only a commit makes anything durable. -/
theorem durable_execute (stmt : Stmt) :
    (backend.exec link (.execute stmt : DriverOp Stmt Rows)).2.durable = link.durable := by
  cases kind : backend.isRead stmt with
  | true => rw [exec_of_isRead kind]
  | false => rw [exec_of_not_isRead kind]

theorem Drifts.refl (db : Db) : Drifts others db db := Relation.ReflTransGen.refl

theorem Drifts.move (drifts : Drifts others start base) (count : ℕ) : Drifts others start (others count base) :=
  Relation.ReflTransGen.tail drifts ⟨count, rfl⟩

/-- A triple about the moments before and after the step, and what is left of the transaction. -/
theorem takesOneStep {step : Db → Except Exc α → Db → Prop}
    {program : Program (DriverOp Stmt Rows) DriverOp.Reply Exc α}
    (triple : Triple (backend.answer others faults) (Atomic others step start) (Idle others start) program
      (Linearizes others faults step start))
    (leaves : ∀ calls link, Idle others start link →
      Leaves (program.eval (backend.answer others faults) calls link).2.1
        (program.eval (backend.answer others faults) calls link).2.2) :
    backend.TakesOneStep others faults step start program := by
  intro opened calls
  have idle : Idle others start ⟨opened, start, none⟩ := ⟨rfl, .refl start⟩
  have ensures := triple calls ⟨opened, start, none⟩ idle
  exact ⟨ensures.steps, ensures.eval, leaves calls _ idle⟩

/-- A rollback that returns ends the transaction. -/
theorem leaves_rollback (calls : List (Call (DriverOp Stmt Rows) DriverOp.Reply Exc)) (link : Link Db) :
    Leaves (calls ++ [⟨.rollback, (backend.answer others faults calls .rollback link).1⟩])
      (backend.answer others faults calls .rollback link).2 := by
  rcases answer_cases backend others faults calls .rollback link with same | ⟨_, _, error, raised | raised⟩
  · rw [same]
    exact .inl rfl
  · rw [raised]
    exact .inr ⟨error, List.getLast?_concat⟩
  · rw [raised]
    exact .inr ⟨error, List.getLast?_concat⟩

/-- A database that the others cannot change stays as it is, and an idle connection stays idle. -/
theorem Idle.meets (idle : Idle others start link) (count : ℕ) : Idle others start (link.meets (others count)) := by
  obtain ⟨none, drifts⟩ := idle
  rw [Link.meets, if_neg (by rw [none]; exact Bool.false_ne_true)]
  exact ⟨none, drifts.move count⟩

theorem meets_of_isSome {own : Db} (locked : link.working = some own) (count : ℕ) :
    link.meets (others count) = link := by
  rw [Link.meets, if_pos (by rw [locked]; rfl)]

/-- One call: what holds of the connection when the call is carried out, and what holds when it raises. -/
theorem perform_triple {op : DriverOp Stmt Rows} {inv pre : Link Db → Prop}
    {post : Except Exc op.Reply → Link Db → Prop} (within : ∀ link, pre link → inv link)
    (ends : ∀ result link, post result link → inv link)
    (stays : ∀ link count, pre link → pre (link.meets (others count)))
    (runs : ∀ link, pre link → post (backend.exec link op).1 (backend.exec link op).2)
    (raises : ∀ link error, pre link → Faulty faults → op.isLocal = false →
      post (.error error) link ∧ post (.error error) (backend.exec link op).2) :
    Triple (backend.answer others faults) inv pre (perform op) post := by
  apply Triple.perform within
  intro calls link start
  have met := stays link calls.length start
  have answered : post (backend.answer others faults calls op link).1
      (backend.answer others faults calls op link).2 := by
    rcases answer_cases backend others faults calls op link with
      same | ⟨remote, faulty, error, same | same⟩
    · rw [same]
      exact runs _ met
    · rw [same]
      exact (raises _ error met faulty remote).1
    · rw [same]
      exact (raises _ error met faulty remote).2
  exact ⟨ends _ _ answered, answered⟩

end Backend

end Dbapi
