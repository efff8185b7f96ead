import MarkitdownServer.Machine.Fleet
import MarkitdownServer.Proofs.JobTable
import MarkitdownServer.Proofs.Topology

/-! # Handlers whose database and broker answer

When every statement and every publish is carried out, a handler goes through few stages: it carries its
chunk until the chunk is completed or published again, it gives an exhausted chunk and its job up, or it
assembles the document. `Advance` lists what one call can do to the database and the queues by stage, so
that invariants of undisturbed runs need not look at the phases.
-/

namespace MarkitdownServer

open Effects

/-- Calls on the database or the broker. -/
def Op.isDurable : Op → Bool
  | .db _ | .amqp _ => true
  | .s3 _ | .tool _ => false

def Fate.isDone : Fate → Bool
  | .done => true
  | _ => false

theorem Fate.eq_done {fate : Fate} (done : fate.isDone = true) : fate = .done := by
  cases fate with
  | done => rfl
  | _ => cases done

/-- Statements that complete, fail or create nothing. -/
def Stmt.isMild : Stmt → Bool
  | .findCachedDocument _ | .recordDocument _ | .getJob _ | .startChunkRow .. | .startChunkJob _
  | .rescheduleChunk .. | .chunkIndices _ => true
  | .createJob .. | .finishJob _ | .failJob .. | .failChunk .. | .completeChunk .. => false

namespace Handler

/-- What a handler is about. -/
inductive Stage where
  | carrying
  | exhausting
  | assembling
  | aborting
  | dropped
  | over
deriving DecidableEq

/-- The stage that a phase belongs to. -/
def Phase.stage : Phase → Stage
  | .looking | .startingRow | .startingJob | .fetching | .preparing _ | .converting _ | .storing _ | .completing
  | .rescheduling _ | .retrying _ => .carrying
  | .parking _ _ | .failingChunk _ | .failingJob _ => .exhausting
  | .loading | .listing _ | .reading _ _ _ _ | .writing _ _ _ | .recording _ _ | .finishing _ => .assembling
  | .aborting _ => .aborting
  | .dropped | .escaped => .dropped
  | .counted | .finished | .aborted | .failed | .retried => .over

/-- What a phase owes to the way that leads to it: the attempt is the last one or not, one body is being
published, and the job in hand is that of the task. -/
def Proper (config : Config) (task : ChunkTask) : Phase → Prop
  | .parking error sending => config.maxAttempts ≤ task.attempt ∧
      sending.Single (.failed task (error.describe.take 2000))
  | .failingChunk _ | .failingJob _ => config.maxAttempts ≤ task.attempt
  | .rescheduling _ => task.attempt < config.maxAttempts
  | .retrying sending => task.attempt < config.maxAttempts ∧ sending.Single (.task task.nextAttempt)
  | .listing job | .reading job _ _ _ | .writing job _ _ | .recording job _ | .finishing job => job.jobId = task.jobId
  | _ => True

variable {config : Config} {owner : Str} {task : ChunkTask} {world after : World}

theorem proper_failure (error : Exc) : Proper config task (failure config task error) := by
  unfold failure
  split
  · next exhausted => exact ⟨exhausted, trivial⟩
  · next left => exact not_le.mp left

theorem proper_gather {job : JobRow} (named : job.jobId = task.jobId) (parts : List Str) (indices : List ℕ) :
    Proper config task (gather job parts indices) := by
  cases indices <;> exact named

theorem Proper.step {phase : Phase} {op : Op} {onward : Except Exc op.Reply → Phase} {reply : Except Exc op.Reply}
    {parent : Option Message} {fate : Fate} (proper : Proper config task phase)
    (moves : step config owner task phase = some ⟨op, onward⟩)
    (carried : op.carry config parent world fate = some (reply, after)) : Proper config task (onward reply) := by
  cases phase with
  | dropped | counted | finished | aborted | failed | retried | escaped => cases moves
  | looking | startingRow | startingJob | completing | aborting | failingJob =>
    cases moves
    dsimp only
    split <;> (try split) <;> trivial
  | fetching | preparing | converting | storing =>
    cases moves
    dsimp only
    split <;> first | trivial | exact proper_failure _
  | failingChunk error =>
    cases moves
    dsimp only
    split
    · exact proper
    · trivial
  | rescheduling error =>
    cases moves
    dsimp only
    split
    · exact ⟨proper, trivial⟩
    · trivial
  | loading =>
    cases moves
    rcases carry_db carried with ⟨_, rfl, _⟩ | ⟨error, _, rfl, _⟩ | ⟨error, _, rfl, _⟩
    · simp only [Stmt.exec]
      split
      · next found => exact ((Database.getJob_eq_some_iff _ _ _).mp (Except.ok.inj found)).2
      · trivial
      · trivial
    · trivial
    · trivial
  | listing job =>
    cases moves
    dsimp only
    split
    · exact proper_gather proper _ _
    · trivial
  | reading job parts index rest =>
    cases moves
    dsimp only
    split <;> first | trivial | exact proper_gather proper _ _
  | writing job parts written =>
    simp only [Handler.step] at moves
    split at moves <;> cases moves <;> dsimp only <;> split <;> trivial
  | recording job parts =>
    cases moves
    dsimp only
    split
    · exact proper
    · trivial
  | finishing job =>
    cases moves
    dsimp only
    split <;> trivial
  | parking error sending =>
    exact proper.2.onward (Proper config task) moves (fun _ single => ⟨proper.1, single⟩) proper.1
      (fun _ => trivial) reply
  | retrying sending =>
    exact proper.2.onward (Proper config task) moves (fun _ single => ⟨proper.1, single⟩) trivial
      (fun _ => trivial) reply

/-! ## What one call can do -/

variable (config) in
/-- What one call of the handler of a message does to the database and the queues, and where it leads. -/
inductive Advance (origin : ℕ) (task : ChunkTask) (world : World) : Phase → World → Phase → Prop
  | stay {phase next : Phase} {after : World} (stmt : Stmt) (same : next.stage = phase.stage) (mild : stmt.isMild = true)
      (db : after.db = (stmt.exec world.db).2) (broker : after.broker = world.broker) :
      Advance origin task world phase after next
  | drop (inactive : ∀ job, world.db.getJob task.jobId = some job → job.status.isTerminal = true) :
      Advance origin task world .looking world .dropped
  | exhaust {phase : Phase} {after : World} {error : Exc} (carrying : phase.stage = .carrying)
      (exhausted : config.maxAttempts ≤ task.attempt) (db : after.db = world.db) (broker : after.broker = world.broker) :
      Advance origin task world phase after (.parking error (.opening false))
  | retry {sending : Sending} (left : task.attempt < config.maxAttempts) :
      Advance origin task world (.retrying sending)
        { world with
          broker := world.broker.publish (declare config) (some ⟨origin, .task task⟩) config.retryExchange
            (config.retryQueueName task.attempt) (.task task.nextAttempt) } .retried
  | park {error : Exc} {sending : Sending} (text : Str) :
      Advance origin task world (.parking error sending)
        { world with
          broker := world.broker.publish (declare config) (some ⟨origin, .task task⟩) config.dlxExchange
            config.rabbitmqQueue (.failed task text) } (.failingChunk error)
  | failChunk {error : Exc} (text : Str) :
      Advance origin task world (.failingChunk error)
        { world with db := world.db.failChunk task.jobId task.chunkIndex text } (.failingJob error)
  | failJob {error : Exc} (text : Str) :
      Advance origin task world (.failingJob error)
        { world with db := world.db.failJob task.jobId text (some task.chunkIndex) } .failed
  | complete (key : Str) :
      Advance origin task world .completing
        { world with db := (world.db.completeChunk task.jobId task.chunkIndex key).2 }
        (if (world.db.completeChunk task.jobId task.chunkIndex key).1 = 0 then .loading else .counted)
  | abort {phase : Phase} {after : World} {error : Exc} (assembling : phase.stage = .assembling)
      (db : after.db = world.db) (broker : after.broker = world.broker) :
      Advance origin task world phase after (.aborting error)
  | finish {job : JobRow} (named : job.jobId = task.jobId) :
      Advance origin task world (.finishing job) { world with db := world.db.finishJob task.jobId } .finished
  | aborted {error : Exc} (text : Str) :
      Advance origin task world (.aborting error) { world with db := world.db.failJob task.jobId text none } .aborted

/-- A request to the bucket leaves the database and the queues alone. -/
theorem carry_s3_frame {request : S3} {reply : Except Exc request.Reply} {parent : Option Message} {fate : Fate}
    (carried : (Op.s3 request).carry config parent world fate = some (reply, after)) :
    after.db = world.db ∧ after.broker = world.broker := by
  rcases carry_s3 carried with ⟨_, _, rfl⟩ | ⟨_, _, _, rfl⟩ | ⟨_, _, _, rfl⟩ <;> exact ⟨rfl, rfl⟩

variable {origin : ℕ}

/-- A call that changes neither the database nor the queues. -/
theorem Advance.idle {phase next : Phase} (same : next.stage = phase.stage) (db : after.db = world.db)
    (broker : after.broker = world.broker) : Advance config origin task world phase after next :=
  .stay (.getJob task.jobId) same rfl db broker

theorem advance_failure {phase : Phase} {error : Exc} (carrying : phase.stage = .carrying) (db : after.db = world.db)
    (broker : after.broker = world.broker) :
    Advance config origin task world phase after (failure config task error) := by
  unfold failure
  split
  · next exhausted => exact .exhaust carrying exhausted db broker
  · exact .idle carrying.symm db broker

theorem stage_gather (job : JobRow) (parts : List Str) (indices : List ℕ) :
    (gather job parts indices).stage = .assembling := by
  cases indices <;> rfl

/-- Every call of a handler is one of those listed by `Advance` if its statements and publishes are carried
out. -/
theorem advance {phase : Phase} {op : Op} {onward : Except Exc op.Reply → Phase} {reply : Except Exc op.Reply}
    {fate : Fate} (proper : Proper config task phase) (moves : step config owner task phase = some ⟨op, onward⟩)
    (carried : op.carry config (some ⟨origin, .task task⟩) world fate = some (reply, after))
    (calm : op.isDurable = true → fate = .done) : Advance config origin task world phase after (onward reply) := by
  cases phase with
  | dropped | counted | finished | aborted | failed | retried | escaped => cases moves
  | looking =>
    cases moves
    cases calm rfl
    cases carried
    simp only [Stmt.exec]
    split
    · next job found =>
      split
      · next terminal =>
        refine .drop fun other same => ?_
        cases same.symm.trans (Except.ok.inj found)
        exact terminal
      · exact .idle rfl rfl rfl
    · next absent =>
      refine .drop fun other same => ?_
      cases same.symm.trans (Except.ok.inj absent)
    · next raised => cases raised
  | startingRow =>
    cases moves
    cases calm rfl
    cases carried
    exact .stay (.startChunkRow task.jobId task.chunkIndex owner task.attempt) rfl rfl rfl rfl
  | startingJob =>
    cases moves
    cases calm rfl
    cases carried
    exact .stay (.startChunkJob task.jobId) rfl rfl rfl rfl
  | rescheduling error =>
    cases moves
    cases calm rfl
    cases carried
    exact .stay (.rescheduleChunk task.jobId task.chunkIndex error.describe) rfl rfl rfl rfl
  | fetching | storing =>
    cases moves
    obtain ⟨db, broker⟩ := carry_s3_frame carried
    dsimp only
    split <;> first | exact advance_failure rfl db broker | exact .idle rfl db broker
  | preparing | converting =>
    cases moves
    cases carry_tool carried
    dsimp only
    split <;> first | exact advance_failure rfl rfl rfl | exact .idle rfl rfl rfl
  | completing =>
    cases moves
    cases calm rfl
    cases carried
    exact .complete _
  | loading =>
    cases moves
    cases calm rfl
    cases carried
    simp only [Stmt.exec]
    split
    · exact .idle rfl rfl rfl
    · exact .abort rfl rfl rfl
    · exact .abort rfl rfl rfl
  | listing job =>
    cases moves
    cases calm rfl
    cases carried
    exact .idle (stage_gather _ _ _) rfl rfl
  | reading job parts index rest =>
    cases moves
    obtain ⟨db, broker⟩ := carry_s3_frame carried
    dsimp only
    split <;> first | exact .abort rfl db broker | exact .idle (stage_gather _ _ _) db broker
  | writing job parts written =>
    simp only [Handler.step] at moves
    split at moves <;> cases moves <;> obtain ⟨db, broker⟩ := carry_s3_frame carried <;> dsimp only <;> split <;>
      first | exact .abort rfl db broker | exact .idle rfl db broker
  | recording job parts =>
    cases moves
    cases calm rfl
    cases carried
    exact .stay (.recordDocument _) rfl rfl rfl rfl
  | finishing job =>
    cases moves
    cases calm rfl
    cases carried
    have named : job.jobId = task.jobId := proper
    simp only [Stmt.exec, named]
    exact .finish named
  | aborting error =>
    cases moves
    cases calm rfl
    cases carried
    exact .aborted _
  | failingChunk error =>
    cases moves
    cases calm rfl
    cases carried
    exact .failChunk _
  | failingJob error =>
    cases moves
    cases calm rfl
    cases carried
    exact .failJob _
  | parking error sending =>
    obtain ⟨request, rfl⟩ := Sending.op_of_step moves
    cases calm rfl
    rcases proper.2.carried moves carried with ⟨next, leads, rfl⟩ | ⟨leads, rfl⟩
    · rw [leads]
      exact .idle rfl rfl rfl
    · rw [leads]
      exact .park _
  | retrying sending =>
    obtain ⟨request, rfl⟩ := Sending.op_of_step moves
    cases calm rfl
    rcases proper.2.carried moves carried with ⟨next, leads, rfl⟩ | ⟨leads, rfl⟩
    · rw [leads]
      exact .idle rfl rfl rfl
    · rw [leads]
      exact .retry proper.1

/-- A handler assembles after it has, or once it has been told that no chunk is left. -/
theorem Advance.assembling {phase next : Phase} (advance : Advance config origin task world phase after next)
    (stage : next.stage = .assembling) :
    phase.stage = .assembling ∨ ∃ key, (world.db.completeChunk task.jobId task.chunkIndex key).1 = 0 ∧
      after.db = (world.db.completeChunk task.jobId task.chunkIndex key).2 := by
  cases advance with
  | stay stmt same mild db broker => exact .inl (same.symm.trans stage)
  | complete key =>
    split at stage
    · next zero => exact .inr ⟨key, zero, rfl⟩
    · cases stage
  | _ => cases stage

/-- Which statements that are not mild a handler carries out, in which phase, and where they lead. -/
def Does (db : Database) (task : ChunkTask) (phase next : Phase) : Stmt → Prop
  | .failChunk jobId chunkIndex _ => jobId = task.jobId ∧ chunkIndex = task.chunkIndex ∧
      phase.stage = .exhausting ∧ next.stage = .exhausting
  | .completeChunk jobId chunkIndex s3Key => jobId = task.jobId ∧ chunkIndex = task.chunkIndex ∧ phase = .completing ∧
      next = if (db.completeChunk jobId chunkIndex s3Key).1 = 0 then .loading else .counted
  | .failJob jobId _ _ => jobId = task.jobId ∧ (phase.stage = .exhausting ∨ phase.stage = .aborting) ∧
      next.stage = .over
  | .finishJob jobId => jobId = task.jobId ∧ phase.stage = .assembling ∧ next.stage = .over
  | .createJob .. => False
  | _ => True

theorem does_of_mild {db : Database} {phase next : Phase} {stmt : Stmt} (mild : stmt.isMild = true) :
    Does db task phase next stmt := by
  cases stmt with
  | createJob | finishJob | failJob | failChunk | completeChunk => cases mild
  | _ => trivial

/-- Every call carries out one of these statements or a mild one. Only a call with a mild one publishes. -/
theorem Advance.does {phase next : Phase} (advance : Advance config origin task world phase after next) :
    ∃ stmt : Stmt, after.db = (stmt.exec world.db).2 ∧ Does world.db task phase next stmt ∧
      (stmt.isMild = false → after.broker = world.broker) := by
  have idle (db : after.db = world.db) : ∃ stmt : Stmt, after.db = (stmt.exec world.db).2 ∧
      Does world.db task phase next stmt ∧ (stmt.isMild = false → after.broker = world.broker) :=
    ⟨.getJob task.jobId, db, trivial, by rintro ⟨⟩⟩
  cases advance with
  | stay stmt same mild db broker => exact ⟨stmt, db, does_of_mild mild, fun _ => broker⟩
  | drop inactive => exact idle rfl
  | exhaust carrying exhausted db broker => exact idle db
  | retry left => exact idle rfl
  | park text => exact idle rfl
  | failChunk text =>
    exact ⟨.failChunk task.jobId task.chunkIndex text, rfl, ⟨rfl, rfl, rfl, rfl⟩, fun _ => rfl⟩
  | failJob text =>
    exact ⟨.failJob task.jobId text (some task.chunkIndex), rfl, ⟨rfl, .inl rfl, rfl⟩, fun _ => rfl⟩
  | complete key =>
    exact ⟨.completeChunk task.jobId task.chunkIndex key, rfl, ⟨rfl, rfl, rfl, rfl⟩, fun _ => rfl⟩
  | abort assembling db broker => exact idle db
  | finish named => exact ⟨.finishJob task.jobId, rfl, ⟨rfl, rfl, rfl⟩, fun _ => rfl⟩
  | aborted text => exact ⟨.failJob task.jobId text none, rfl, ⟨rfl, .inr rfl, rfl⟩, fun _ => rfl⟩

end Handler

/-! ## Producers -/

namespace Producer

variable (env : Env) (useLlm : Bool)

/-- The tasks that a producer has created a job for and has yet to publish. -/
def unsent : Phase → List Body
  | .publishing file ranges jobId (.opening _) => (tasks env useLlm file ranges jobId).map .task
  | .publishing _ _ _ (.sending _ body rest) => body :: rest
  | _ => []

/-- What is yet to publish are the last tasks of the job. -/
def Proper : Phase → Prop
  | .publishing file ranges jobId sending => sending.pending <:+ (tasks env useLlm file ranges jobId).map .task
  | _ => True

/-- What one call of a producer does to the database and the queues, and where it leads. -/
inductive Advance (world : World) : Phase → World → Phase → Prop
  | idle {phase next : Phase} {after : World} (same : unsent env useLlm next = unsent env useLlm phase)
      (db : after.db = world.db) (broker : after.broker = world.broker) : Advance world phase after next
  | create {file : Bytes} {ranges : List (ℤ × ℤ)} {jobId url : Str} {db : Database}
      (created : world.db.createJob jobId (docKey env useLlm file) (env.sha256 file) url ranges useLlm = some db) :
      Advance world (.creating file ranges jobId) { world with db } (.publishing file ranges jobId (.opening false))
  | publish {phase next : Phase} {body : Body} {rest : List Body} (first : unsent env useLlm phase = body :: rest)
      (left : unsent env useLlm next = rest) :
      Advance world phase
        { world with
          broker := world.broker.publish (declare env.toConfig) none env.rabbitmqExchange env.rabbitmqQueue body } next

variable {env useLlm} {url : Str} {world after : World} {phase : Phase} {op : Op}
  {onward : Except Exc op.Reply → Phase} {reply : Except Exc op.Reply} {fate : Fate}

theorem unsent_miss (file : Bytes) : unsent env useLlm (miss env file) = [] := by
  unfold miss
  split <;> rfl

theorem proper_miss (file : Bytes) : Proper env useLlm (miss env file) := by
  unfold miss
  split <;> trivial

theorem Proper.step (proper : Proper env useLlm phase) (moves : step env url useLlm phase = some ⟨op, onward⟩)
    (reply : Except Exc op.Reply) : Proper env useLlm (onward reply) := by
  cases phase with
  | returned | escaped => cases moves
  | downloading | uploading | drawing =>
    cases moves
    dsimp only
    split <;> trivial
  | consulting | fetchingManifest | fetchingPage =>
    cases moves
    dsimp only
    split <;> first | trivial | exact proper_miss _
  | probing =>
    cases moves
    dsimp only
    split <;> split <;> trivial
  | creating =>
    cases moves
    dsimp only
    split
    · exact List.nil_suffix
    · trivial
  | publishing file ranges jobId sending =>
    have proceeds (resending : Bool) (rest : List Body)
        (suffix : rest <:+ (tasks env useLlm file ranges jobId).map .task) :
        Proper env useLlm (Sending.proceed (.publishing file ranges jobId) .returned resending rest) := by
      cases rest with
      | nil => trivial
      | cons body rest => exact suffix
    have recovers (resending : Bool) (error : Exc) :
        Proper env useLlm (Sending.recover (.publishing file ranges jobId) (fun _ => .escaped) resending error) := by
      unfold Sending.recover
      split
      · exact List.nil_suffix
      · trivial
    cases sending with
    | opening resending =>
      cases moves
      rcases reply with error | ⟨⟨⟩⟩
      · exact recovers resending error
      · exact proceeds resending _ (List.suffix_refl _)
    | sending resending body rest =>
      cases moves
      rcases reply with error | ⟨⟨⟩⟩
      · exact recovers resending error
      · exact proceeds resending _ ((List.suffix_cons body rest).trans proper)

theorem Proper.unsent_suffix (proper : Proper env useLlm phase) :
    unsent env useLlm phase = [] ∨
      ∃ file ranges jobId, unsent env useLlm phase <:+ (tasks env useLlm file ranges jobId).map .task := by
  cases phase with
  | publishing file ranges jobId sending =>
    refine .inr ⟨file, ranges, jobId, ?_⟩
    cases sending with
    | opening resending => exact List.suffix_refl _
    | sending resending body rest => exact proper
  | _ => exact .inl rfl

private theorem unsent_proceed (file : Bytes) (ranges : List (ℤ × ℤ)) (jobId : Str) (resending : Bool) (rest : List Body) :
    unsent env useLlm (Sending.proceed (.publishing file ranges jobId) .returned resending rest) = rest := by
  cases rest <;> rfl

/-- Every call of a producer is one of those listed by `Advance` if its statements and publishes are carried
out. -/
theorem advance (moves : step env url useLlm phase = some ⟨op, onward⟩)
    (carried : op.carry env.toConfig none world fate = some (reply, after))
    (calm : op.isDurable = true → fate = .done) : Advance env useLlm world phase after (onward reply) := by
  cases phase with
  | returned | escaped => cases moves
  | downloading | drawing =>
    cases moves
    cases carry_tool carried
    dsimp only
    split <;> exact .idle rfl rfl rfl
  | uploading =>
    cases moves
    obtain ⟨db, broker⟩ := Handler.carry_s3_frame carried
    dsimp only
    split <;> exact .idle rfl db broker
  | fetchingManifest | fetchingPage =>
    cases moves
    obtain ⟨db, broker⟩ := Handler.carry_s3_frame carried
    dsimp only
    split <;> first | exact .idle rfl db broker | exact .idle (unsent_miss _) db broker
  | probing =>
    cases moves
    obtain ⟨db, broker⟩ := Handler.carry_s3_frame carried
    dsimp only
    split <;> split <;> exact .idle rfl db broker
  | consulting file =>
    cases moves
    cases calm rfl
    cases carried
    simp only [Stmt.exec]
    split <;> first | exact .idle rfl rfl rfl | exact .idle (unsent_miss _) rfl rfl
  | creating file ranges jobId =>
    cases moves
    cases calm rfl
    cases carried
    cases created : world.db.createJob jobId (docKey env useLlm file) (env.sha256 file) url ranges useLlm with
    | none =>
      simp only [Stmt.exec, created]
      exact .idle rfl rfl rfl
    | some db =>
      simp only [Stmt.exec, created]
      exact .create created
  | publishing file ranges jobId sending =>
    obtain ⟨request, rfl⟩ := Sending.op_of_step moves
    cases calm rfl
    cases carried
    cases sending with
    | opening resending =>
      cases moves
      exact .idle (unsent_proceed _ _ _ _ _) rfl rfl
    | sending resending body rest =>
      cases moves
      exact .publish rfl (unsent_proceed _ _ _ _ _)

theorem Advance.does {env : Env} {useLlm : Bool} {world after : World} {phase next : Phase}
    (advance : Advance env useLlm world phase after next) :
    ∃ stmt : Stmt, after.db = (stmt.exec world.db).2 ∧ (stmt.isMild = true ∨
      ∃ jobId docKey fileHash url ranges, stmt = .createJob jobId docKey fileHash url ranges useLlm) := by
  cases advance with
  | idle same db broker => exact ⟨.getJob [], db, .inl rfl⟩
  | publish first left => exact ⟨.getJob [], rfl, .inl rfl⟩
  | @create file ranges jobId url db created =>
    refine ⟨.createJob jobId (docKey env useLlm file) (env.sha256 file) url ranges useLlm, ?_, .inr ⟨_, _, _, _, _, rfl⟩⟩
    simp only [Stmt.exec, created]

end Producer

/-! ## Runs -/

/-- Every statement and every publish of the step is carried out. -/
def Deployment.calm (state : Deployment) : Label → Bool
  | .act index fate =>
    match state.pending index with
    | some op => !op.isDurable || fate.isDone
    | none => true
  | _ => true

theorem Fleet.Mirrors.calm {env : Env} {state : Deployment} {fleet : Fleet} {fate : Fate} {before rest : List Agent}
    {agent : Agent} {op : Op} (mirrors : Fleet.Mirrors env state fleet)
    (calm : state.calm (.act before.length fate) = true) (found : fleet.agents = before ++ agent :: rest)
    (next : agent.next env = some op) (durable : op.isDurable = true) : fate = .done := by
  simp only [Deployment.calm, mirrors.pending found next, durable, Bool.not_true, Bool.false_or] at calm
  exact Fate.eq_done calm

namespace Fleet

variable {env : Env} {fleet after : Fleet} {label : Label}

variable (env) in
/-- Every statement and every publish of the step is carried out. -/
def Calm (fleet : Fleet) (label : Label) : Prop :=
  ∀ fate before agent rest op, label = .act before.length fate → fleet.agents = before ++ agent :: rest →
    agent.next env = some op → op.isDurable = true → fate = .done

/-- The handlers of a fleet are in phases that lead on properly. -/
def Proper (env : Env) (fleet : Fleet) : Prop :=
  ∀ owner origin task phase calls, .handler owner origin task phase calls ∈ fleet.agents →
    Handler.Proper env.toConfig task phase

/-- Whose statement changes the database in a step. -/
inductive Wrote (fleet after : Fleet) (stmt : Stmt) : Prop
  | mild (mild : stmt.isMild = true) : Wrote fleet after stmt
  | created {jobId docKey fileHash url : Str} {ranges : List (ℤ × ℤ)} {useLlm : Bool}
      (creates : stmt = .createJob jobId docKey fileHash url ranges useLlm) : Wrote fleet after stmt
  | handled {before rest : List Agent} {owner : Str} {origin : ℕ} {task : ChunkTask} {phase next : Handler.Phase}
      {calls more : List Step} (found : fleet.agents = before ++ .handler owner origin task phase calls :: rest)
      (moved : after.agents = before ++ .handler owner origin task next more :: rest)
      (does : Handler.Does fleet.world.db task phase next stmt)
      (broker : stmt.isMild = false → after.world.broker = fleet.world.broker) : Wrote fleet after stmt

theorem wrote_of_stepped (proper : fleet.Proper env) (calm : Calm env fleet label)
    (stepped : Stepped env fleet label after) :
    ∃ stmt : Stmt, after.world.db = (stmt.exec fleet.world.db).2 ∧ Wrote fleet after stmt := by
  have idle (db : after.world.db = fleet.world.db) :
      ∃ stmt : Stmt, after.world.db = (stmt.exec fleet.world.db).2 ∧ Wrote fleet after stmt :=
    ⟨.getJob [], db, .mild rfl⟩
  cases stepped with
  | submit | deliver | duplicate | expire | finish | crash => exact idle rfl
  | @produced index fate url useLlm phase calls op onward reply world before rest found position moves carried =>
    have advance := Producer.advance moves carried
      (calm _ _ _ _ _ (position ▸ rfl) found (by rw [Agent.next, moves]; rfl))
    obtain ⟨stmt, db, mild | ⟨jobId, docKey, fileHash, url, ranges, creates⟩⟩ := advance.does
    · exact ⟨stmt, db, .mild mild⟩
    · exact ⟨stmt, db, .created creates⟩
  | @handled index fate owner origin task phase calls op onward reply world before rest found position moves
      carried =>
    have advance := Handler.advance (proper _ _ _ _ _ (found ▸ List.mem_append_right _ (List.mem_cons_self ..))) moves
      carried (calm _ _ _ _ _ (position ▸ rfl) found (by rw [Agent.next, moves]; rfl))
    obtain ⟨stmt, db, does, broker⟩ := advance.does
    exact ⟨stmt, db, .handled found rfl does broker⟩

end Fleet

end MarkitdownServer
