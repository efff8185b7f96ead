import MarkitdownServer.Lib.Run
import MarkitdownServer.Model.Api

/-! # The deployment: producers, broker and workers

The API pods run `submit`, the workers run `on_task` on the messages the broker hands them, and one
call of one process is one step. The label of a step chooses which process moves and what its call
comes to, which message the broker delivers, duplicates or dead-letters, and which process dies. A
process that dies before it acked has its message put back on the work queue. `calls` of a process and
`trace` record what has happened; no step looks at them.
-/

namespace MarkitdownServer

open Effects

/-- A running `submit`, or the handler of a delivered message. -/
structure Proc where
  message : Option Message
  prog : Prog Unit
  calls : List Step := []

/-- What has happened in a run. -/
inductive Event where
  | delivered (message : Message)
  | called (message : Option Message) (call : Step)
  | returned (message : Option Message)
  | died (message : Option Message)

structure Deployment where
  world : World
  procs : List Proc
  trace : List Event := []

/-- The choices of the environment. -/
inductive Label where
  | submit (url : Str) (useLlm : Bool)
  | deliver (index : ℕ) (owner : Str)
  | duplicate (index : ℕ)
  | expire (index : ℕ)
  | act (index : ℕ) (fate : Fate)
  | finish (index : ℕ)
  | crash (index : ℕ)

/-- The world with other messages on the queues. -/
def World.setMessages (world : World) (messages : List (Str × Message)) : World :=
  { world with broker := { world.broker with messages } }

namespace Deployment

/-- Empty tables, bucket and queues, and nobody at work. -/
def initial : Deployment := ⟨⟨.empty, fun _ => none, ⟨[], 0⟩⟩, [], []⟩

variable (env : Env)

/-- A producer that has just been asked to convert a URL. -/
def submitProc (url : Str) (useLlm : Bool) : Proc :=
  ⟨none, (Api.submit env url useLlm).bind fun _ => .pure (), []⟩

/-- A handler that has just been handed a message. -/
def taskProc (owner : Str) (message : Message) (task : ChunkTask) : Proc :=
  ⟨some message, Worker.onTask env.toConfig owner task, []⟩

/-- The message that the broker delivers again when its handler dies. -/
def redelivered (proc : Proc) : List (Str × Message) :=
  proc.message.toList.map fun message => (env.rabbitmqQueue, message)

/-- A process makes its next call. -/
def act (state : Deployment) (index : ℕ) (proc : Proc) (fate : Fate) : Option Deployment :=
  match proc.prog with
  | .call op next =>
    (op.carry env.toConfig proc.message state.world fate).map fun (reply, world) =>
      { world
        procs := state.procs.set index ⟨proc.message, next reply, proc.calls ++ [⟨op, reply⟩]⟩
        trace := state.trace ++ [.called proc.message ⟨op, reply⟩] }
  | _ => none

/-- One step of the deployment. -/
def step (state : Deployment) : Label → Option Deployment
  | .submit url useLlm => some { state with procs := state.procs ++ [submitProc env url useLlm] }
  | .deliver index owner =>
    match state.world.broker.messages[index]? with
    | some (queue, ⟨origin, .task task⟩) =>
      if queue = env.rabbitmqQueue then
        some { world := state.world.setMessages (state.world.broker.messages.eraseIdx index)
               procs := state.procs ++ [taskProc env owner ⟨origin, .task task⟩ task]
               trace := state.trace ++ [.delivered ⟨origin, .task task⟩] }
      else none
    | _ => none
  | .duplicate index =>
    (state.world.broker.messages[index]?).map fun copy =>
      { state with world := state.world.setMessages (state.world.broker.messages ++ [copy]) }
  | .expire index =>
    (state.world.broker.expire (declare env.toConfig) index).map fun broker =>
      { state with world := { state.world with broker } }
  | .act index fate => (state.procs[index]?).bind fun proc => act env state index proc fate
  | .finish index =>
    (state.procs[index]?).bind fun proc =>
      if proc.prog.isDone then
        some { state with
          procs := state.procs.eraseIdx index
          trace := state.trace ++ [.returned proc.message] }
      else none
  | .crash index =>
    (state.procs[index]?).map fun proc =>
      { world := state.world.setMessages (state.world.broker.messages ++ redelivered env proc)
        procs := state.procs.eraseIdx index
        trace := state.trace ++ [.died proc.message] }

/-- The call that a process is about to make. -/
def pending (state : Deployment) (index : ℕ) : Option Op :=
  match state.procs[index]? with
  | some ⟨_, .call op _, _⟩ => some op
  | _ => none

/-- The statement that a step carries out on the database. -/
def statement (state : Deployment) : Label → Option Stmt
  | .act index .done | .act index (.lost _) =>
    match state.pending index with
    | some (.db stmt) => some stmt
    | _ => none
  | _ => none

/-- What one step does, label by label, with the process or message that moves singled out. -/
inductive Stepped (state : Deployment) : Label → Deployment → Prop
  | submit (url : Str) (useLlm : Bool) :
      Stepped state (.submit url useLlm) { state with procs := state.procs ++ [submitProc env url useLlm] }
  | deliver {index : ℕ} {owner : Str} {origin : ℕ} {task : ChunkTask} {before after : List (Str × Message)}
      (found : state.world.broker.messages =
        before ++ (env.rabbitmqQueue, ⟨origin, .task task⟩) :: after) :
      Stepped state (.deliver index owner)
        ⟨state.world.setMessages (before ++ after),
          state.procs ++ [taskProc env owner ⟨origin, .task task⟩ task],
          state.trace ++ [.delivered ⟨origin, .task task⟩]⟩
  | duplicate {index : ℕ} {copy : Str × Message} (found : copy ∈ state.world.broker.messages) :
      Stepped state (.duplicate index)
        { state with world := state.world.setMessages (state.world.broker.messages ++ [copy]) }
  | expire {index : ℕ} {queue exchange : Str} {message : Message} {decl : QueueDecl}
      {before after : List (Str × Message)}
      (found : state.world.broker.messages = before ++ (queue, message) :: after)
      (declared : decl ∈ (declare env.toConfig).queues) (named : decl.name = queue)
      (timed : decl.ttl.isSome) (target : decl.deadLetterExchange = some exchange) :
      Stepped state (.expire index)
        { state with world := state.world.setMessages ((before ++ after) ++
            ((declare env.toConfig).route exchange (decl.deadLetterRoutingKey.getD queue)).map
              fun queue => (queue, message)) }
  | act {index : ℕ} {fate : Fate} {proc : Proc} {op : Op} {next : Except Exc op.Reply → Prog Unit}
      {reply : Except Exc op.Reply} {world : World} {before after : List Proc}
      (found : state.procs = before ++ proc :: after) (at_ : proc.prog = .call op next)
      (position : before.length = index)
      (carried : op.carry env.toConfig proc.message state.world fate = some (reply, world)) :
      Stepped state (.act index fate)
        ⟨world, before ++ ⟨proc.message, next reply, proc.calls ++ [⟨op, reply⟩]⟩ :: after,
          state.trace ++ [.called proc.message ⟨op, reply⟩]⟩
  | finish {index : ℕ} {proc : Proc} {before after : List Proc}
      (found : state.procs = before ++ proc :: after) (position : before.length = index)
      (done : proc.prog.isDone) :
      Stepped state (.finish index)
        ⟨state.world, before ++ after, state.trace ++ [.returned proc.message]⟩
  | crash {index : ℕ} {proc : Proc} {before after : List Proc}
      (found : state.procs = before ++ proc :: after) (position : before.length = index) :
      Stepped state (.crash index)
        ⟨state.world.setMessages (state.world.broker.messages ++ redelivered env proc),
          before ++ after, state.trace ++ [.died proc.message]⟩

variable {env}

theorem exists_split {α : Type} {list : List α} {index : ℕ} {item : α} (found : list[index]? = some item) :
    ∃ before after, list = before ++ item :: after ∧ before.length = index ∧
      (∀ other, list.set index other = before ++ other :: after) ∧ list.eraseIdx index = before ++ after := by
  obtain ⟨bound, rfl⟩ := List.getElem?_eq_some_iff.mp found
  refine ⟨list.take index, list.drop (index + 1), ?_, ?_, ?_, ?_⟩
  · rw [List.getElem_cons_drop bound, List.take_append_drop]
  · rw [List.length_take, Nat.min_eq_left bound.le]
  · intro other
    rw [List.set_eq_take_append_cons_drop, if_pos bound]
  · exact List.eraseIdx_eq_take_drop_succ _ _

/-- Every step is one of those listed by `Stepped`. -/
theorem stepped_of_step {state next : Deployment} {label : Label} (stepped : step env state label = some next) :
    Stepped env state label next := by
  cases label with
  | submit url useLlm =>
    cases stepped
    exact .submit url useLlm
  | deliver index owner =>
    simp only [step] at stepped
    split at stepped
    · next queue origin task found =>
      split_ifs at stepped with work
      obtain ⟨before, after, split, _, _, erased⟩ := exists_split found
      cases stepped
      rw [erased]
      exact .deliver (work ▸ split)
    · cases stepped
  | duplicate index =>
    simp only [step, Option.map_eq_some_iff] at stepped
    obtain ⟨copy, found, rfl⟩ := stepped
    exact .duplicate (List.mem_of_getElem? found)
  | expire index =>
    simp only [step, Option.map_eq_some_iff, Broker.expire, bind, Option.bind_eq_some_iff] at stepped
    obtain ⟨broker, ⟨⟨queue, message⟩, found, decl, declared, exchange, target, same⟩, rfl⟩ := stepped
    obtain ⟨before, after, split, _, _, erased⟩ := exists_split found
    cases same
    have selected := List.find?_some declared
    simp only [Bool.and_eq_true, decide_eq_true_eq] at selected
    simp only [Broker.enqueue, erased]
    exact .expire split (List.mem_of_find?_eq_some declared) selected.1 selected.2 target
  | act index fate =>
    simp only [step, Option.bind_eq_some_iff, act] at stepped
    obtain ⟨proc, found, moved⟩ := stepped
    obtain ⟨before, after, split, position, replaced, _⟩ := exists_split found
    split at moved
    · next op rest at_ =>
      obtain ⟨⟨reply, world⟩, carried, rfl⟩ := Option.map_eq_some_iff.mp moved
      rw [replaced]
      exact .act split at_ position carried
    · cases moved
  | finish index =>
    simp only [step, Option.bind_eq_some_iff] at stepped
    obtain ⟨proc, found, moved⟩ := stepped
    obtain ⟨before, after, split, position, _, erased⟩ := exists_split found
    split_ifs at moved with done
    cases moved
    rw [erased]
    exact .finish split position done
  | crash index =>
    simp only [step, Option.map_eq_some_iff] at stepped
    obtain ⟨proc, found, rfl⟩ := stepped
    obtain ⟨before, after, split, position, _, erased⟩ := exists_split found
    rw [erased]
    exact .crash split position

/-- The database changes by the statement of the step, or not at all. -/
theorem db_of_step {state next : Deployment} {label : Label} (stepped : step env state label = some next) :
    next.world.db = match state.statement label with
      | some stmt => (stmt.exec state.world.db).2
      | none => state.world.db := by
  cases stepped_of_step stepped with
  | submit | deliver | duplicate | expire | finish | crash => rfl
  | @act index fate proc op rest reply world before after found at_ position carried =>
    have pending : state.pending index = some op := by
      rw [pending, found, ← position, List.getElem?_append_right (Nat.le_refl _), Nat.sub_self]
      obtain ⟨message, prog, calls⟩ := proc
      subst at_
      rfl
    cases op with
    | db stmt =>
      rcases carry_db carried with ⟨rfl, _, rfl⟩ | ⟨error, rfl, _, rfl⟩ | ⟨error, rfl, _, rfl⟩
      · simp only [statement, pending]
      · rfl
      · simp only [statement, pending]
    | s3 request =>
      rcases carry_s3 carried with ⟨rfl, _, rfl⟩ | ⟨error, rfl, _, rfl⟩ | ⟨error, rfl, _, rfl⟩ <;>
        simp only [statement, pending]
    | amqp request =>
      rcases carry_amqp carried with ⟨rfl, _, rfl⟩ | ⟨error, rfl, _, rfl⟩ | ⟨error, rfl, _, rfl⟩ <;>
        simp only [statement, pending]
    | tool request =>
      rw [carry_tool carried]
      cases fate <;> simp only [statement, pending]

end Deployment

/-! ## Scripts -/

/-- An environment for concrete runs: every byte is a page, and the digest is the reversed text padded to
the 64 characters of a hex digest. -/
def sampleEnv (config : Config) : Env where
  toConfig := config
  sha256 file := ((file.map fun byte => Char.ofNat byte.toNat).reverse ++ List.replicate 64 '0').take 64
  pageCount file := some file.length
  markitdownVersion := lit "0.1.3"

namespace Script

/-- Calls of one process that are carried out. -/
def acts (index count : ℕ) : List Label := List.replicate count (.act index .done)

/-- A producer, started as process `index`, downloads a file that is not cached and publishes one task. -/
def submits (index : ℕ) (file : Bytes) (jobId : Str) (useLlm : Bool) : List Label :=
  .submit (lit "http://host/file") useLlm :: .act index (.downloaded file) :: acts index 3 ++
    .act index (.drawn jobId) :: acts index 3 ++ [.finish index]

/-- The same for a file whose source is already stored. -/
def resubmits (index : ℕ) (file : Bytes) (jobId : Str) (useLlm : Bool) : List Label :=
  .submit (lit "http://host/file") useLlm :: .act index (.downloaded file) :: acts index 2 ++
    .act index (.drawn jobId) :: acts index 3 ++ [.finish index]

/-- A handler, just delivered, converts its range and stores the part. -/
def converts (index : ℕ) (markdown : Str) : List Label :=
  acts index 5 ++ .act index (.converted markdown) :: acts index 1

/-- The exception of a converter. -/
def conversionError : Exc := { name := lit "RuntimeError", text := lit "cannot convert" }

/-- A handler, just delivered, fails to convert its range. -/
def fails (index : ℕ) : List Label := acts index 5 ++ [.act index (.raised conversionError)]

/-- The first message is delivered as process `index`, fails, and comes back for its next attempt. -/
def retries (index : ℕ) : List Label :=
  .deliver 0 (lit "worker") :: fails index ++ acts index 3 ++ [.finish index, .expire 0]

end Script

end MarkitdownServer
