import MarkitdownServer.Lib.Program
import MarkitdownServer.Model.Jobstore
import MarkitdownServer.Model.Storage
import MarkitdownServer.Model.Taskqueue

/-! # The services a process calls

Every call of the code on the database, the bucket, the broker or a third-party tool is one operation
and one atomic step on the shared `World`. What a call comes to is a `Fate`: it is carried out, it
raises without effect, or it takes effect and then raises because the reply is lost. A tool answers
what the environment chooses.
-/

namespace MarkitdownServer

open Effects

/-- Requests to the bucket. -/
inductive S3 where
  | getObject (key : Str)
  | putObject (key : Str) (obj : Obj)
  | headObject (key : Str)

@[reducible] def S3.Reply : S3 → Type
  | .getObject _ => Option Obj
  | .putObject .. => Unit
  | .headObject _ => Bool

/-- Requests to the broker. -/
inductive Amqp where
  | channel
  | basicPublish (exchange routingKey : Str) (body : Body)

@[reducible] def Amqp.Reply : Amqp → Type := fun _ => Unit

/-- Calls whose answer the environment chooses: the download of a URL, a random job id, building a
`MarkItDown` converter (which starts a conversion), and converting the pages from `startPage` to
`endPage` of a source file, the whole file when `endPage = -1`. -/
inductive Tool where
  | download (url : Str)
  | newJobId
  | markItDown (useLlm : Bool)
  | convert (source : Bytes) (startPage endPage : ℤ) (useLlm : Bool)

@[reducible] def Tool.Reply : Tool → Type
  | .download _ => Bytes
  | .newJobId => Str
  | .markItDown _ => Unit
  | .convert .. => Str

/-- One call on a service. -/
inductive Op where
  | db (stmt : Stmt)
  | s3 (request : S3)
  | amqp (request : Amqp)
  | tool (request : Tool)

@[reducible] def Op.Reply : Op → Type
  | .db stmt => stmt.Reply
  | .s3 request => request.Reply
  | .amqp request => request.Reply
  | .tool request => request.Reply

/-- The programs of the server. -/
abbrev Prog := Program Op Op.Reply Exc

/-- Make one call. -/
abbrev request (op : Op) : Prog op.Reply := Program.perform op

/-- A call with its reply. -/
abbrev Step := Call Op Op.Reply Exc

/-- Everything the processes share. -/
structure World where
  db : Database
  store : Store
  broker : Broker

def S3.exec (store : Store) : (request : S3) → request.Reply × Store
  | .getObject key => (store key, store)
  | .putObject key obj => ((), store.put key obj)
  | .headObject key => ((store key).isSome, store)

def Amqp.exec (config : Config) (parent : Option Message) (broker : Broker) : Amqp → Broker
  | .channel => broker
  | .basicPublish exchange routingKey body =>
    broker.publish (declare config) parent exchange routingKey body

/-- A call that is carried out, made by the handler of `parent` or by the producer. The tools that
need an answer from the environment are not carried out here. -/
def Op.exec (config : Config) (parent : Option Message) (world : World) :
    (op : Op) → Option (Except Exc op.Reply × World)
  | .db stmt => some ((stmt.exec world.db).1, { world with db := (stmt.exec world.db).2 })
  | .s3 request =>
    some (.ok (request.exec world.store).1, { world with store := (request.exec world.store).2 })
  | .amqp request => some (.ok (), { world with broker := request.exec config parent world.broker })
  | .tool (.markItDown _) => some (.ok (), world)
  | .tool _ => none

/-- What becomes of one call. -/
inductive Fate where
  | done
  | raised (error : Exc)
  | lost (error : Exc)
  | downloaded (file : Bytes)
  | drawn (jobId : Str)
  | converted (markdown : Str)

/-- The reply to a call of a given fate and the world after it; `none` when the fate does not fit. -/
def Op.carry (config : Config) (parent : Option Message) (world : World) :
    (op : Op) → Fate → Option (Except Exc op.Reply × World)
  | op, .done => op.exec config parent world
  | _, .raised error => some (.error error, world)
  | op, .lost error => (op.exec config parent world).map fun result => (.error error, result.2)
  | .tool (.download _), .downloaded file => some (.ok file, world)
  | .tool .newJobId, .drawn jobId => some (.ok jobId, world)
  | .tool (.convert ..), .converted markdown => some (.ok markdown, world)
  | _, _ => none

/-- The fate of a call that goes well, with the given answer of the converter. -/
def Op.favourable (markdown : Str) : Op → Fate
  | .tool (.download _) => .downloaded []
  | .tool .newJobId => .drawn []
  | .tool (.convert ..) => .converted markdown
  | _ => .done

theorem Op.isSome_carry_favourable (config : Config) (parent : Option Message) (world : World) (markdown : Str)
    (op : Op) : (op.carry config parent world (op.favourable markdown)).isSome := by
  cases op with
  | tool request => cases request <;> rfl
  | _ => rfl

/-- The services as a process meets them that runs alone: the call numbered `n`, counted from zero, raises
`raises n` without effect, and every other call goes well. -/
def serve (config : Config) (parent : Option Message) (markdown : Str) (raises : ℕ → Option Exc) (calls : List Step)
    (op : Op) (world : World) : Except Exc op.Reply × World :=
  match raises calls.length with
  | some error => (.error error, world)
  | none => (op.carry config parent world (op.favourable markdown)).get
      (op.isSome_carry_favourable config parent world markdown)

/-- How the calls of a process that runs alone are answered, by the calls it has made before. -/
abbrev Service := List Step → (op : Op) → World → Except Exc op.Reply × World

/-- The exception of a call whose fate does not fit it. -/
def unansweredError : Exc := { name := lit "RuntimeError", text := lit "no answer" }

/-- The services with a fate for every call. -/
def respond (config : Config) (parent : Option Message) (fates : List Step → Op → Fate) : Service :=
  fun calls op world => (op.carry config parent world (fates calls op)).getD (.error unansweredError, world)

section Serve

variable {config : Config} {parent : Option Message} {markdown : Str} {raises : ℕ → Option Exc} {calls : List Step}
  {world : World}

theorem serve_raised {error : Exc} (raised : raises calls.length = some error) (op : Op) :
    serve config parent markdown raises calls op world = (.error error, world) := by
  simp only [serve, raised]

variable (well : raises calls.length = none)

include well

theorem serve_db (stmt : Stmt) : serve config parent markdown raises calls (.db stmt) world =
    ((stmt.exec world.db).1, { world with db := (stmt.exec world.db).2 }) := by
  simp only [serve, well]
  rfl

theorem serve_s3 (request : S3) : serve config parent markdown raises calls (.s3 request) world =
    (.ok (request.exec world.store).1, { world with store := (request.exec world.store).2 }) := by
  simp only [serve, well]
  rfl

theorem serve_amqp (request : Amqp) : serve config parent markdown raises calls (.amqp request) world =
    (.ok (), { world with broker := request.exec config parent world.broker }) := by
  simp only [serve, well]
  rfl

theorem serve_markItDown (useLlm : Bool) :
    serve config parent markdown raises calls (.tool (.markItDown useLlm)) world = (.ok (), world) := by
  simp only [serve, well]
  rfl

theorem serve_convert (source : Bytes) (startPage endPage : ℤ) (useLlm : Bool) :
    serve config parent markdown raises calls (.tool (.convert source startPage endPage useLlm)) world =
      (.ok markdown, world) := by
  simp only [serve, well]
  rfl

end Serve

variable {config : Config} {parent : Option Message} {world after : World} {fate : Fate}

/-- A call on a service that can be carried out is carried out, raises, or is carried out and loses its reply. -/
theorem Op.carry_cases {op : Op} {answer : Except Exc op.Reply} {result : World} {reply : Except Exc op.Reply}
    (service : ∀ request, op ≠ .tool request) (executes : op.exec config parent world = some (answer, result))
    (carried : op.carry config parent world fate = some (reply, after)) :
    (fate = .done ∧ reply = answer ∧ after = result) ∨
      (∃ error, fate = .raised error ∧ reply = .error error ∧ after = world) ∨
      (∃ error, fate = .lost error ∧ reply = .error error ∧ after = result) := by
  cases op with
  | tool request => exact absurd rfl (service request)
  | _ =>
    cases fate with
    | done =>
      cases executes.symm.trans carried
      exact .inl ⟨rfl, rfl, rfl⟩
    | raised error =>
      cases carried
      exact .inr (.inl ⟨error, rfl, rfl, rfl⟩)
    | lost error =>
      simp only [Op.carry, executes, Option.map_some, Option.some.injEq, Prod.mk.injEq] at carried
      exact .inr (.inr ⟨error, rfl, carried.1.symm, carried.2.symm⟩)
    | _ => cases carried

/-- What becomes of a statement. -/
theorem carry_db {stmt : Stmt} {reply : Except Exc stmt.Reply}
    (carried : (Op.db stmt).carry config parent world fate = some (reply, after)) :
    (fate = .done ∧ reply = (stmt.exec world.db).1 ∧ after = { world with db := (stmt.exec world.db).2 }) ∨
      (∃ error, fate = .raised error ∧ reply = .error error ∧ after = world) ∨
      (∃ error, fate = .lost error ∧ reply = .error error ∧
        after = { world with db := (stmt.exec world.db).2 }) :=
  Op.carry_cases (by rintro _ ⟨⟩) rfl carried

/-- What becomes of a request to the bucket. -/
theorem carry_s3 {request : S3} {reply : Except Exc request.Reply}
    (carried : (Op.s3 request).carry config parent world fate = some (reply, after)) :
    (fate = .done ∧ reply = .ok (request.exec world.store).1 ∧
        after = { world with store := (request.exec world.store).2 }) ∨
      (∃ error, fate = .raised error ∧ reply = .error error ∧ after = world) ∨
      (∃ error, fate = .lost error ∧ reply = .error error ∧
        after = { world with store := (request.exec world.store).2 }) :=
  Op.carry_cases (by rintro _ ⟨⟩) rfl carried

/-- What becomes of a request to the broker. -/
theorem carry_amqp {request : Amqp} {reply : Except Exc request.Reply}
    (carried : (Op.amqp request).carry config parent world fate = some (reply, after)) :
    (fate = .done ∧ reply = .ok () ∧ after = { world with broker := request.exec config parent world.broker }) ∨
      (∃ error, fate = .raised error ∧ reply = .error error ∧ after = world) ∨
      (∃ error, fate = .lost error ∧ reply = .error error ∧
        after = { world with broker := request.exec config parent world.broker }) :=
  Op.carry_cases (by rintro _ ⟨⟩) rfl carried

/-- A tool leaves the world alone. -/
theorem carry_tool {request : Tool} {reply : Except Exc request.Reply}
    (carried : (Op.tool request).carry config parent world fate = some (reply, after)) : after = world := by
  cases request <;> cases fate <;> simp_all [Op.carry, Op.exec]

end MarkitdownServer
