import MarkitdownServer.Model.Chunker
import MarkitdownServer.Model.Sql

/-! # Which writes become durable

The calls of one thread share a connection. A `db.execute` whose statement was carried out but whose commit or
fetch raised leaves its write in the open transaction, and so does a transaction whose rollback raised. The
next commit on the connection makes such a write durable with its own. As long as no commit meets writes that
an earlier call has left open, the durable writes are those of the calls that returned.
-/

namespace MarkitdownServer.Db

open Effects Effects.Program Dbapi

variable {State Stmt Rows : Type}

/-- What the block of a transaction does with its connection. -/
def isStatement : DriverOp Stmt Rows → Bool
  | .execute _ | .fetchall _ => true
  | _ => false

/-- The driver calls that neither commit nor discard anything. -/
def isGentle : DriverOp Stmt Rows → Bool
  | .isOpen | .connect | .execute _ | .fetchall _ => true
  | _ => false

/-- A call on `db.py`: a read, a write, or a block of statements. -/
inductive Request (engine : Engine State Stmt Rows) where
  | query (stmt : Stmt) (read : engine.isRead stmt = true)
  | execute (stmt : Stmt)
  | transaction (block : Session Stmt Rows Unit) (statements : block.Makes (isStatement ·))

/-- A driver call with its reply. -/
abbrev Step (Stmt Rows : Type) := Call (DriverOp Stmt Rows) DriverOp.Reply Exc

variable (engine : Engine State Stmt Rows) (start : State) (ping : Stmt) (raises : ℕ → Option Exc)

/-- The call as a program. -/
def Request.program : Request engine → Session Stmt Rows Unit
  | .query stmt _ => do let _ ← Db.query stmt
  | .execute stmt => do let _ ← Db.execute stmt
  | .transaction block _ => Db.transaction ping block

/-- The writes that some driver calls have carried out. -/
def written : List (Step Stmt Rows) → List Stmt
  | [] => []
  | ⟨.execute stmt, .ok _⟩ :: rest => engine.record stmt ++ written rest
  | _ :: rest => written rest

/-- Whether a driver call has committed. -/
def Step.commits : Step Stmt Rows → Bool
  | ⟨.commit, .ok _⟩ => true
  | _ => false

/-- The writes of a call that has returned after these driver calls. -/
def Request.writes : Request engine → List (Step Stmt Rows) → List Stmt
  | .query _ _, _ => []
  | .execute stmt, _ => engine.record stmt
  | .transaction _ _, new => written engine new

/-- What a call that has returned does to a database. -/
def Request.effect : Request engine → List (Step Stmt Rows) → State → State
  | .query _ _, _, db => db
  | .execute stmt, _, db => (engine.apply stmt db).2
  | .transaction _ _, new, db => engine.replay db (written engine new)

/-- The driver with calls that raise without an effect. -/
abbrev driver := engine.serve start fun call => (raises call).map Fault.before

/-- A call on a connection: its result, the driver calls so far and the connection after it. -/
def Request.run (request : Request engine) (calls : List (Step Stmt Rows)) (conn : Connection Stmt) :
    Except Exc Unit × List (Step Stmt Rows) × Connection Stmt :=
  (request.program engine ping).eval (driver engine start raises) calls conn

/-- After every call, the durable writes are those expected and those of the call if it returned. -/
def Durable : List (Request engine) → List (Step Stmt Rows) → Connection Stmt → List Stmt → Prop
  | [], _, _, _ => True
  | request :: rest, calls, conn, expected =>
    let outcome := request.run engine start ping raises calls conn
    let new := outcome.2.1.drop calls.length
    let next := if outcome.1.toBool then expected ++ request.writes engine new else expected
    outcome.2.2.committed = next ∧ Durable rest outcome.2.1 outcome.2.2 next

/-- After every call, the durable database is the one expected, changed by the call if it returned. -/
def Sound : List (Request engine) → List (Step Stmt Rows) → Connection Stmt → State → Prop
  | [], _, _, _ => True
  | request :: rest, calls, conn, expected =>
    let outcome := request.run engine start ping raises calls conn
    let new := outcome.2.1.drop calls.length
    let next := if outcome.1.toBool then request.effect engine new expected else expected
    engine.replay start outcome.2.2.committed = next ∧ Sound rest outcome.2.1 outcome.2.2 next

/-- No call commits on a connection that holds writes from before it. -/
def Clean : List (Request engine) → List (Step Stmt Rows) → Connection Stmt → Prop
  | [], _, _ => True
  | request :: rest, calls, conn =>
    let outcome := request.run engine start ping raises calls conn
    (conn.pending = [] ∨ ∀ call ∈ outcome.2.1.drop calls.length, call.commits = false) ∧ Clean rest outcome.2.1 outcome.2.2

/-! ## One call -/

section Pieces

variable {engine start ping raises} {α β : Type}

@[simp] theorem written_append (first second : List (Step Stmt Rows)) :
    written engine (first ++ second) = written engine first ++ written engine second := by
  induction first with
  | nil => rfl
  | cons call rest ih =>
    obtain ⟨op, reply⟩ := call
    cases op <;> cases reply <;> simp_all [written]

variable (engine start raises) in
/-- A part of a program that leaves what it writes in the open transaction. -/
def Uncommitted (fails : Exc → Prop) (program : Session Stmt Rows α) : Prop :=
  ∀ (calls : List (Step Stmt Rows)) (conn : Connection Stmt), ∃ (result : Except Exc α) (new : List (Step Stmt Rows))
    (after : Connection Stmt), program.eval (driver engine start raises) calls conn = (result, calls ++ new, after) ∧
    (∀ call ∈ new, call.commits = false) ∧ after.committed = conn.committed ∧
    after.pending = conn.pending ++ written engine new ∧ ∀ error, result = .error error → fails error

variable {fails : Exc → Prop}

theorem Uncommitted.pure (value : α) : Uncommitted engine start raises fails (.pure value) :=
  fun calls conn => ⟨.ok value, [], conn, by rw [List.append_nil]; rfl, by rintro _ ⟨⟩, rfl, by simp [written], by rintro _ ⟨⟩⟩

theorem Uncommitted.raise {error : Exc} (allowed : fails error) :
    Uncommitted engine start raises fails (.raise error : Session Stmt Rows α) :=
  fun calls conn => ⟨.error error, [], conn, by rw [List.append_nil]; rfl, by rintro _ ⟨⟩, rfl, by simp [written],
    by rintro _ ⟨⟩; exact allowed⟩

theorem Uncommitted.bind {program : Session Stmt Rows α} {next : α → Session Stmt Rows β}
    (first : Uncommitted engine start raises fails program)
    (rest : ∀ value, Uncommitted engine start raises fails (next value)) :
    Uncommitted engine start raises fails (program.bind next) := by
  intro calls conn
  obtain ⟨result, new, middle, same, none, kept, open_, allowed⟩ := first calls conn
  rw [eval_bind, same]
  cases result with
  | error error => exact ⟨_, _, _, rfl, none, kept, open_, fun _ raised => allowed _ (by cases raised; rfl)⟩
  | ok value =>
    obtain ⟨result, more, after, again, noneMore, keptMore, openMore, allowed⟩ := rest value (calls ++ new) middle
    refine ⟨result, new ++ more, after, ?_, ?_, keptMore.trans kept, ?_, allowed⟩
    · rw [← List.append_assoc]
      exact again
    · intro call member
      exact (List.mem_append.mp member).elim (none call) (noneMore call)
    · rw [openMore, open_, written_append, List.append_assoc]

variable (engine start) in
/-- A driver call is carried out, or raises an error that is not stale without an effect. -/
private theorem driver_cases (notStale : ∀ call error, raises call = some error → isStaleConnection error = false)
    (op : DriverOp Stmt Rows) (calls : List (Step Stmt Rows)) (conn : Connection Stmt) :
    driver engine start raises calls op conn = (.ok (engine.exec start conn op).1, (engine.exec start conn op).2) ∨
      ∃ error, driver engine start raises calls op conn = (.error error, conn) ∧ isStaleConnection error = false := by
  rcases Engine.serve_cases (fun call => (raises call).map Fault.before) calls op conn with
    done | ⟨_, error, faulty, same⟩ | ⟨_, error, faulty, _⟩
  · exact .inl done
  · obtain ⟨_, found, cause⟩ := Option.map_eq_some_iff.mp faulty
    cases cause
    exact .inr ⟨error, same, notStale _ _ found⟩
  · obtain ⟨_, _, cause⟩ := Option.map_eq_some_iff.mp faulty
    cases cause

section Gentle

variable (notStale : ∀ call error, raises call = some error → isStaleConnection error = false)

include notStale

private theorem gentle_step {op : DriverOp Stmt Rows} (gentle : isGentle op = true) (calls : List (Step Stmt Rows))
    (conn : Connection Stmt) :
    ∃ reply after, driver engine start raises calls op conn = (reply, after) ∧ Step.commits ⟨op, reply⟩ = false ∧
      after.committed = conn.committed ∧ after.pending = conn.pending ++ written engine [⟨op, reply⟩] ∧
      ∀ error, reply = .error error → isStaleConnection error = false := by
  rcases driver_cases engine start notStale op calls conn with done | ⟨error, raised, benign⟩
  · refine ⟨_, _, done, ?_⟩
    cases op with
    | isOpen | connect | fetchall => exact ⟨rfl, rfl, (List.append_nil _).symm, by rintro _ ⟨⟩⟩
    | execute stmt => exact ⟨rfl, rfl, by simp [written, Engine.exec], by rintro _ ⟨⟩⟩
    | _ => cases gentle
  · refine ⟨_, _, raised, ?_⟩
    cases op with
    | isOpen | connect | fetchall | execute =>
      exact ⟨rfl, rfl, (List.append_nil _).symm, by rintro _ ⟨⟩; exact benign⟩
    | _ => cases gentle

theorem Uncommitted.perform {op : DriverOp Stmt Rows} (gentle : isGentle op = true) :
    Uncommitted engine start raises (isStaleConnection · = false) (perform op : Session Stmt Rows op.Reply) := by
  intro calls conn
  obtain ⟨reply, after, same, none, kept, open_, benign⟩ := gentle_step notStale gentle calls conn
  rw [eval_perform, same]
  refine ⟨_, _, _, rfl, fun call member => ?_, kept, open_, benign⟩
  rw [List.mem_singleton.mp member]
  exact none

theorem getConnection_uncommitted :
    Uncommitted engine start raises (isStaleConnection · = false) (getConnection : Session Stmt Rows Unit) := by
  refine Uncommitted.bind (Uncommitted.perform notStale rfl) fun opened => ?_
  split
  · exact Uncommitted.pure ()
  · exact Uncommitted.perform notStale rfl

theorem rowsToDicts_uncommitted (cursor : Option Rows) :
    Uncommitted engine start raises (isStaleConnection · = false) (rowsToDicts cursor : Session Stmt Rows (Option Rows)) := by
  cases cursor with
  | none => exact Uncommitted.pure none
  | some rows =>
    exact Uncommitted.bind (Uncommitted.perform notStale rfl) fun rows => Uncommitted.pure (some rows)

/-- A statement that is run without a commit. -/
theorem query_uncommitted (stmt : Stmt) :
    Uncommitted engine start raises (isStaleConnection · = false) (query stmt : Session Stmt Rows (Option Rows)) := by
  have once : Uncommitted engine start raises (isStaleConnection · = false)
      (runOnce stmt false : Session Stmt Rows (Option Rows)) :=
    Uncommitted.bind (Uncommitted.perform notStale rfl) fun cursor =>
      Uncommitted.bind (rowsToDicts_uncommitted notStale cursor) fun rows => Uncommitted.pure rows
  refine Uncommitted.bind (getConnection_uncommitted notStale) fun _ => ?_
  intro calls conn
  obtain ⟨result, new, after, same, none, kept, open_, benign⟩ := once calls conn
  rw [monad_bind, eval_bind, eval_attempt, same]
  cases result with
  | ok rows => exact ⟨_, _, _, rfl, none, kept, open_, by rintro _ ⟨⟩⟩
  | error error =>
    dsimp only
    rw [if_neg (Bool.eq_false_iff.mp (benign error rfl))]
    exact ⟨_, _, _, rfl, none, kept, open_, by rintro _ ⟨⟩; exact benign error rfl⟩

/-- The block of a transaction. -/
theorem block_uncommitted {block : Session Stmt Rows α} (statements : block.Makes (isStatement ·)) :
    Uncommitted engine start raises (fun _ => True) block := by
  induction block with
  | pure value => exact Uncommitted.pure value
  | raise error => exact Uncommitted.raise trivial
  | call op next ih =>
    intro calls conn
    have gentle : isGentle op = true := by
      cases op with
      | execute | fetchall => rfl
      | _ => cases statements.1
    obtain ⟨reply, middle, same, none, kept, open_, _⟩ := gentle_step notStale gentle calls conn
    obtain ⟨result, new, after, again, noneMore, keptMore, openMore, _⟩ :=
      ih reply (statements.2 reply) (calls ++ [⟨op, reply⟩]) middle
    refine ⟨result, ⟨op, reply⟩ :: new, after, ?_, ?_, keptMore.trans kept, ?_, fun _ _ => trivial⟩
    · rw [eval, same, List.append_cons]
      exact again
    · intro call member
      rcases List.mem_cons.mp member with rfl | member
      · exact none
      · exact noneMore call member
    · rw [openMore, open_, List.append_assoc, ← written_append]
      rfl

/-- What a call comes to: it does not commit, and has no writes if it returns, or it commits what was open and its own
writes, and returns. -/
inductive Settled (engine : Engine State Stmt Rows) (request : Request engine) (conn after : Connection Stmt)
    (result : Except Exc Unit) (new : List (Step Stmt Rows)) : Prop
  | uncommitted (none : ∀ call ∈ new, call.commits = false) (kept : after.committed = conn.committed)
      (idle : result.toBool = true → request.writes engine new = [])
  | committed (some : ∃ call ∈ new, call.commits = true) (returned : result.toBool = true)
      (added : after.committed = conn.committed ++ (conn.pending ++ request.writes engine new))

private theorem query_settled (stmt : Stmt) (read : engine.isRead stmt = true) (calls : List (Step Stmt Rows))
    (conn : Connection Stmt) :
    ∃ result new after, (Request.query stmt read).run engine start ping raises calls conn = (result, calls ++ new, after) ∧
      Settled engine (.query stmt read) conn after result new := by
  have silent : Uncommitted engine start raises (isStaleConnection · = false)
      ((Request.query stmt read).program engine ping) :=
    Uncommitted.bind (query_uncommitted notStale stmt) fun _ => Uncommitted.pure ()
  obtain ⟨result, new, after, same, none, kept, _, _⟩ := silent calls conn
  exact ⟨result, new, after, same, .uncommitted none kept fun _ => rfl⟩

/-- A commit is carried out, or raises without an effect. -/
private theorem commit_step (calls : List (Step Stmt Rows)) (conn : Connection Stmt) :
    (perform DriverOp.commit : Session Stmt Rows Unit).eval (driver engine start raises) calls conn =
        (.ok (), calls ++ [⟨.commit, .ok ()⟩], { conn with committed := conn.committed ++ conn.pending, pending := [] }) ∨
      ∃ error, (perform DriverOp.commit : Session Stmt Rows Unit).eval (driver engine start raises) calls conn =
        (.error error, calls ++ [⟨.commit, .error error⟩], conn) ∧ isStaleConnection error = false := by
  rcases driver_cases engine start notStale .commit calls conn with done | ⟨error, raised, benign⟩
  · refine .inl ((eval_perform _ _ _ _).trans ?_)
    rw [done]
    rfl
  · refine .inr ⟨error, (eval_perform _ _ _ _).trans ?_, benign⟩
    rw [raised]

omit notStale in
/-- A program without statements writes nothing. -/
private theorem written_eq_nil {program : Session Stmt Rows α} (makes : program.Makes fun op => ∀ stmt, op ≠ .execute stmt)
    {calls new : List (Step Stmt Rows)} {conn after : Connection Stmt} {result : Except Exc α}
    (same : program.eval (driver engine start raises) calls conn = (result, calls ++ new, after)) :
    written engine new = [] := by
  have kept : written engine (program.eval (driver engine start raises) calls conn).2.1 = written engine calls := by
    clear same
    induction program generalizing calls conn with
    | pure value => rfl
    | raise error => rfl
    | call op next ih =>
      refine (ih _ (makes.2 _)).trans ?_
      rw [written_append]
      cases op with
      | execute stmt => exact absurd rfl (makes.1 stmt)
      | _ => exact List.append_nil _
  rw [same, written_append] at kept
  exact List.append_cancel_left (kept.trans (List.append_nil _).symm)

/-- One try of a write: it raises before it has committed, or commits what was open and the write. -/
private theorem runOnce_settled (stmt : Stmt) (calls : List (Step Stmt Rows)) (conn : Connection Stmt) :
    ∃ (result : Except Exc (Option Rows)) (new : List (Step Stmt Rows)) (after : Connection Stmt),
      (runOnce stmt true : Session Stmt Rows (Option Rows)).eval (driver engine start raises) calls conn =
        (result, calls ++ new, after) ∧
      (((∀ call ∈ new, call.commits = false) ∧ after.committed = conn.committed ∧
          ∃ error, result = .error error ∧ isStaleConnection error = false) ∨
        ((∃ call ∈ new, call.commits = true) ∧ (∃ rows, result = .ok rows) ∧
          after.committed = conn.committed ++ (conn.pending ++ engine.record stmt))) := by
  have gentle : isGentle (.execute stmt : DriverOp Stmt Rows) = true := rfl
  obtain ⟨reply, first, executed, none, kept, open_, benign⟩ := gentle_step notStale gentle calls conn
  have alone (call : Step Stmt Rows) (member : call ∈ [(⟨.execute stmt, reply⟩ : Step Stmt Rows)]) :
      call.commits = false := by
    rw [List.mem_singleton.mp member]
    exact none
  rw [runOnce, monad_bind, eval_bind, eval_perform, executed]
  cases reply with
  | error error => exact ⟨_, _, _, rfl, .inl ⟨alone, kept, error, rfl, benign error rfl⟩⟩
  | ok cursor =>
    obtain ⟨rows, second, middle, fetched, noneMore, keptMore, openMore, benignMore⟩ :=
      rowsToDicts_uncommitted notStale cursor (calls ++ [⟨.execute stmt, .ok cursor⟩]) first
    have idle : written engine second = [] := by
      refine written_eq_nil ?_ fetched
      cases cursor with
      | none => trivial
      | some rows => exact Makes.bind (Makes.perform (by rintro _ ⟨⟩)) fun _ => trivial
    have both (call : Step Stmt Rows) (member : call ∈ [⟨.execute stmt, .ok cursor⟩] ++ second) : call.commits = false :=
      (List.mem_append.mp member).elim (alone call) (noneMore call)
    dsimp only
    rw [monad_bind, eval_bind, fetched, List.append_assoc]
    cases rows with
    | error error => exact ⟨_, _, _, rfl, .inl ⟨both, keptMore.trans kept, error, rfl, benignMore error rfl⟩⟩
    | ok rows =>
      dsimp only
      rw [if_pos rfl, monad_bind, eval_bind]
      rcases commit_step notStale (calls ++ ([⟨.execute stmt, .ok cursor⟩] ++ second)) middle with
        done | ⟨error, raised, benignLast⟩
      · rw [done, List.append_assoc]
        refine ⟨_, _, _, rfl, .inr ⟨⟨⟨.commit, .ok ()⟩, by simp, rfl⟩, ⟨rows, rfl⟩, ?_⟩⟩
        simp only
        rw [keptMore, kept, openMore, idle, open_, List.append_nil, written, written, List.append_nil]
      · rw [raised, List.append_assoc]
        refine ⟨_, _, _, rfl, .inl ⟨fun call member => ?_, keptMore.trans kept, error, rfl, benignLast⟩⟩
        rcases List.mem_append.mp member with early | last
        · exact both call early
        · rw [List.mem_singleton.mp last]
          rfl

private theorem execute_settled (stmt : Stmt) (calls : List (Step Stmt Rows)) (conn : Connection Stmt) :
    ∃ result new after, (Request.execute stmt).run engine start ping raises calls conn = (result, calls ++ new, after) ∧
      Settled engine (.execute stmt) conn after result new := by
  obtain ⟨opened, first, middle, connect, none, kept, open_, _⟩ := getConnection_uncommitted notStale calls conn
  have idle : written engine first = [] := by
    refine written_eq_nil ?_ connect
    refine Makes.bind (Makes.perform (by rintro _ ⟨⟩)) fun opened => ?_
    split
    · trivial
    · exact Makes.perform (by rintro _ ⟨⟩)
  rw [idle, List.append_nil] at open_
  rw [Request.run, Request.program, monad_bind, eval_bind, Db.execute, Db.run, monad_bind, eval_bind, connect]
  cases opened with
  | error error => exact ⟨_, _, _, rfl, .uncommitted none kept (by rintro ⟨⟩)⟩
  | ok value =>
    obtain ⟨result, second, after, tried, settled⟩ := runOnce_settled notStale stmt (calls ++ first) middle
    rw [List.append_assoc] at tried
    dsimp only
    rw [monad_bind, eval_bind, eval_attempt, tried]
    rcases settled with ⟨noneMore, keptMore, error, rfl, benign⟩ | ⟨⟨call, member, commits⟩, ⟨rows, rfl⟩, added⟩
    · dsimp only
      rw [if_neg (Bool.eq_false_iff.mp benign)]
      refine ⟨_, _, _, rfl, .uncommitted (fun call member => ?_) (keptMore.trans kept) (by rintro ⟨⟩)⟩
      exact (List.mem_append.mp member).elim (none call) (noneMore call)
    · refine ⟨_, _, _, rfl, .committed ⟨call, List.mem_append_right _ member, commits⟩ rfl ?_⟩
      rw [added, kept, open_]
      rfl

variable (engine start) in
/-- The way out of a failed transaction: a rollback that may raise, and the error. -/
private theorem rollback_step (error : Exc) (calls : List (Step Stmt Rows)) (conn : Connection Stmt) :
    ∃ (call : Step Stmt Rows) (after : Connection Stmt),
      ((perform DriverOp.rollback).attempt.bind fun _ => .raise error : Session Stmt Rows Unit).eval
        (driver engine start raises) calls conn =
        (.error error, calls ++ [call], after) ∧ call.commits = false ∧ after.committed = conn.committed := by
  rw [eval_bind, eval_attempt, eval_perform]
  rcases driver_cases engine start notStale .rollback calls conn with done | ⟨failure, raised, _⟩
  · rw [done]
    exact ⟨_, _, rfl, rfl, rfl⟩
  · rw [raised]
    exact ⟨_, _, rfl, rfl, rfl⟩

private theorem transaction_settled (block : Session Stmt Rows Unit) (statements : block.Makes (isStatement ·))
    (calls : List (Step Stmt Rows)) (conn : Connection Stmt) :
    ∃ result new after, (Request.transaction block statements).run engine start ping raises calls conn =
        (result, calls ++ new, after) ∧ Settled engine (.transaction block statements) conn after result new := by
  obtain ⟨pinged, first, one, pinging, noneFirst, keptFirst, openFirst, _⟩ := query_uncommitted notStale ping calls conn
  rw [Request.run, Request.program, Db.transaction, monad_bind, eval_bind, pinging]
  cases pinged with
  | error error => exact ⟨_, _, _, rfl, .uncommitted noneFirst keptFirst (by rintro ⟨⟩)⟩
  | ok rows =>
    obtain ⟨opened, second, two, connect, noneSecond, keptSecond, openSecond, _⟩ :=
      getConnection_uncommitted notStale (calls ++ first) one
    rw [List.append_assoc] at connect
    have noneBoth (call : Step Stmt Rows) (member : call ∈ first ++ second) : call.commits = false :=
      (List.mem_append.mp member).elim (noneFirst call) (noneSecond call)
    dsimp only
    rw [monad_bind, eval_bind, connect]
    cases opened with
    | error error => exact ⟨_, _, _, rfl, .uncommitted noneBoth (keptSecond.trans keptFirst) (by rintro ⟨⟩)⟩
    | ok value =>
      have inner : Uncommitted engine start raises (fun _ => True) block := block_uncommitted notStale statements
      obtain ⟨result, third, three, ran, noneThird, keptThird, openThird, _⟩ := inner (calls ++ (first ++ second)) two
      rw [List.append_assoc] at ran
      have noneAll (call : Step Stmt Rows) (member : call ∈ first ++ second ++ third) : call.commits = false :=
        (List.mem_append.mp member).elim (noneBoth call) (noneThird call)
      have kept : three.committed = conn.committed := keptThird.trans (keptSecond.trans keptFirst)
      have open_ : three.pending = conn.pending ++ written engine (first ++ second ++ third) := by
        simp only [openThird, openSecond, openFirst, written_append, List.append_assoc]
      generalize first ++ second ++ third = new at ran noneAll open_
      dsimp only
      rw [monad_bind, eval_bind, eval_attempt, monad_bind, eval_bind, ran]
      cases result with
      | error error =>
        obtain ⟨call, after, failed, silent, same⟩ := rollback_step engine start notStale error (calls ++ new) three
        refine ⟨.error error, new ++ [call], after, failed.trans (by rw [List.append_assoc]),
          .uncommitted (fun other member => ?_) (same.trans kept) (by rintro ⟨⟩)⟩
        rcases List.mem_append.mp member with early | last
        · exact noneAll other early
        · rw [List.mem_singleton.mp last]
          exact silent
      | ok value =>
        dsimp only
        rw [monad_bind, eval_bind]
        rcases commit_step notStale (calls ++ new) three with done | ⟨error, raised, _⟩
        · rw [done]
          refine ⟨.ok value, new ++ [⟨.commit, .ok ()⟩], _, by rw [← List.append_assoc]; rfl,
            .committed ⟨⟨.commit, .ok ()⟩, by simp, rfl⟩ rfl ?_⟩
          have last : written engine [(⟨.commit, .ok ()⟩ : Step Stmt Rows)] = [] := rfl
          simp only
          rw [kept, open_, Request.writes, written_append, last, List.append_nil]
          rfl
        · rw [raised]
          obtain ⟨call, after, failed, silent, same⟩ :=
            rollback_step engine start notStale error (calls ++ new ++ [⟨.commit, .error error⟩]) three
          refine ⟨.error error, new ++ [⟨.commit, .error error⟩, call], after, failed.trans (by simp),
            .uncommitted (fun other member => ?_) (same.trans kept) (by rintro ⟨⟩)⟩
          rcases List.mem_append.mp member with early | last
          · exact noneAll other early
          · rcases List.mem_cons.mp last with rfl | last
            · rfl
            · rw [List.mem_singleton.mp last]
              exact silent

/-- What every call comes to. -/
theorem Request.settled (start : State) (ping : Stmt) (request : Request engine) (calls : List (Step Stmt Rows))
    (conn : Connection Stmt) :
    ∃ result new after, request.run engine start ping raises calls conn = (result, calls ++ new, after) ∧
      Settled engine request conn after result new := by
  cases request with
  | query stmt read => exact query_settled notStale stmt read calls conn
  | execute stmt => exact execute_settled notStale stmt calls conn
  | transaction block statements => exact transaction_settled notStale block statements calls conn

end Gentle

/-- What a call does to a database is what its writes do. -/
theorem Request.effect_eq (request : Request engine) (new : List (Step Stmt Rows)) (db : State) :
    request.effect engine new db = engine.replay db (request.writes engine new) := by
  cases request with
  | query | transaction => rfl
  | execute stmt => exact (Engine.replay_record stmt).symm

/-- A call that does not commit over open writes makes its own writes durable if it returns, and only then. -/
theorem Settled.durable_iff {request : Request engine} {conn after : Connection Stmt} {result : Except Exc Unit}
    {new : List (Step Stmt Rows)} (settled : Settled engine request conn after result new) :
    after.committed = (if result.toBool then conn.committed ++ request.writes engine new else conn.committed) ↔
      (conn.pending = [] ∨ ∀ call ∈ new, call.commits = false) := by
  cases settled with
  | uncommitted none kept idle =>
    refine ⟨fun _ => .inr none, fun _ => ?_⟩
    split
    · next returned => rw [idle returned, List.append_nil, kept]
    · exact kept
  | committed some returned added =>
    rw [if_pos returned, added]
    constructor
    · intro same
      have lengths := congrArg List.length same
      simp only [List.length_append] at lengths
      exact .inl (List.length_eq_zero_iff.mp (by omega))
    · rintro (empty | none)
      · rw [empty, List.nil_append]
      · obtain ⟨call, member, commits⟩ := some
        cases (none call member).symm.trans commits

end Pieces

/-- In every sequence of calls in which no driver call raises a stale error: the durable writes are after each call those
of the calls that returned, in order, exactly if no call commits on a connection that still holds writes from before
it; then the durable database is that after these calls. -/
theorem durable_iff_clean (notStale : ∀ call error, raises call = some error → isStaleConnection error = false)
    (requests : List (Request engine)) (calls : List (Step Stmt Rows)) (conn : Connection Stmt) :
    (Durable engine start ping raises requests calls conn conn.committed ↔
      Clean engine start ping raises requests calls conn) ∧
    (Clean engine start ping raises requests calls conn →
      Sound engine start ping raises requests calls conn (engine.replay start conn.committed)) := by
  induction requests generalizing calls conn with
  | nil => exact ⟨Iff.rfl, fun _ => trivial⟩
  | cons request rest ih =>
    obtain ⟨result, new, after, same, settled⟩ := request.settled notStale start ping calls conn
    obtain ⟨ihDurable, ihSound⟩ := ih (calls ++ new) after
    have here := settled.durable_iff
    simp only [Durable, Clean, Sound, same, List.drop_left]
    refine ⟨⟨?_, ?_⟩, ?_⟩
    · rintro ⟨durable, later⟩
      refine ⟨here.mp durable, ihDurable.mp ?_⟩
      rw [durable]
      exact later
    · rintro ⟨clean, later⟩
      have durable := here.mpr clean
      refine ⟨durable, ?_⟩
      rw [← durable]
      exact ihDurable.mpr later
    · rintro ⟨clean, later⟩
      have durable := here.mpr clean
      have sound : engine.replay start after.committed = if result.toBool = true then
          request.effect engine new (engine.replay start conn.committed) else engine.replay start conn.committed := by
        rw [durable, request.effect_eq]
        split
        · rw [Engine.replay_append]
        · rfl
      refine ⟨sound, ?_⟩
      rw [← sound]
      exact ihSound later

/-! ## A write that outlives its failure -/

/-- A database with one queued job. -/
def queuedJob : Database × ℕ :=
  ((Database.empty.createJob (lit "job") (lit "key") (lit "hash") (lit "http://host/file") [wholeFile] false).getD .empty, 0)

/-- An error that is not stale, raised by one driver call. -/
def lockedAt (number call : ℕ) : Option Exc :=
  if call = number then some { name := lit "OperationalError", text := lit "database is locked" } else none

theorem lockedAt_notStale (number call : ℕ) (error : Exc) (raised : lockedAt number call = some error) :
    isStaleConnection error = false := by
  rw [lockedAt] at raised
  split at raised
  · cases raised
    decide
  · cases raised

/-- Finish a job, then start another. -/
def finishThenStart : List (Request jobstore) :=
  [.execute (.write (.finishJob (lit "job"))), .execute (.write (.startChunkJob (lit "other")))]

/-- The statement of `finish_job` raises: the job is still queued after both calls. -/
theorem sound_of_failed_statement :
    Sound jobstore queuedJob .ping (lockedAt 1) finishThenStart [] ⟨true, [], []⟩ (jobstore.replay queuedJob []) :=
  (durable_iff_clean jobstore queuedJob .ping (lockedAt 1) (lockedAt_notStale 1) finishThenStart [] ⟨true, [], []⟩).2
    ⟨.inl rfl, .inl rfl, trivial⟩

/-- The commit of `finish_job` raises, and the commit of the next call makes the job done. -/
theorem failed_write_becomes_durable :
    (Request.run jobstore queuedJob .ping (lockedAt 2) (.execute (.write (.finishJob (lit "job")))) []
      ⟨true, [], []⟩).1.toBool = false ∧
    ¬ Sound jobstore queuedJob .ping (lockedAt 2) finishThenStart [] ⟨true, [], []⟩ (jobstore.replay queuedJob []) := by
  refine ⟨by decide, fun sound => ?_⟩
  have statuses := congrArg (fun state => (state.1.getJob (lit "job")).map JobRow.status) sound.2.1
  revert statuses
  decide

end MarkitdownServer.Db
