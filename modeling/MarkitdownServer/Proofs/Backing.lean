import MarkitdownServer.Machine.Clients
import MarkitdownServer.Proofs.Availability
import MarkitdownServer.Proofs.Calm
import MarkitdownServer.Proofs.Topology
import MarkitdownServer.Proofs.Wire

/-! # Every message has its rows

`submit` writes the rows of a job before it publishes the tasks of the job, workers publish again what they have
been handed, and no statement takes a row away or moves its page range. So whatever fails, dies or is delivered
twice, a worker that is handed a task finds the row of the job and the row of the chunk, and both agree with the
task. Each message is on the queue where its attempt belongs, and nothing but tasks is on the work queue.
-/

namespace MarkitdownServer

open Effects Effects.Program Transition

/-! ## The rows behind a task -/

/-- What a chunk row was created with. -/
def ChunkRow.plan (row : ChunkRow) : (Str × ℕ) × ℤ × ℤ := (row.key, row.startPage, row.endPage)

/-- The rows of the job and of the chunk are those that the task was made for. -/
structure ChunkTask.Backed (task : ChunkTask) (db : Database) : Prop where
  job : ∃ row, db.getJob task.jobId = some row ∧ row.docKey = task.docKey ∧ row.fileHash = task.fileHash ∧
    row.totalChunks = task.totalChunks ∧ row.useLlm = task.useLlm
  chunk : ∃ row ∈ db.jobChunks.rows, row.key = (task.jobId, task.chunkIndex) ∧ row.startPage = task.startPage ∧
    row.endPage = task.endPage
  index : task.chunkIndex < task.totalChunks

namespace Database

/-- Chunk rows stay with their page ranges, and new ones are appended. -/
theorem plans_exec (stmt : Stmt) (db : Database) :
    db.jobChunks.rows.map ChunkRow.plan <+: (stmt.exec db).2.jobChunks.rows.map ChunkRow.plan := by
  have updated (selects : ChunkRow → Bool) (set : ChunkRow → ChunkRow)
      (keeps : ∀ row, ChunkRow.key (set row) = ChunkRow.key row)
      (unset : ∀ row, ChunkRow.plan (set row) = ChunkRow.plan row) :
      db.jobChunks.rows.map ChunkRow.plan <+: (db.jobChunks.update selects set keeps).rows.map ChunkRow.plan := by
    have same := Relational.Table.map_update ChunkRow.plan db.jobChunks selects set keeps unset
    exact same ▸ List.prefix_rfl
  cases stmt with
  | findCachedDocument | recordDocument | getJob | finishJob | failJob | startChunkJob | chunkIndices =>
    exact List.prefix_rfl
  | startChunkRow | failChunk | rescheduleChunk => exact updated _ _ (fun _ => by rfl) fun _ => by rfl
  | createJob jobId docKey fileHash url ranges useLlm =>
    simp only [Stmt.exec]
    split
    · next created =>
      rw [(createJob_eq_some created).2.2.2, List.map_append]
      exact List.prefix_append _ _
    · exact List.prefix_rfl
  | completeChunk jobId chunkIndex s3Key =>
    have exits := db.completed jobId chunkIndex s3Key
    simp only [Stmt.exec]
    generalize db.completeChunk jobId chunkIndex s3Key = result at exits ⊢
    cases exits with
    | already => exact List.prefix_rfl
    | terminal | counted => exact updated _ _ (fun _ => by rfl) fun _ => by rfl

end Database

namespace ChunkTask

variable {task : ChunkTask} {db : Database}

theorem Backed.exec (backed : task.Backed db) (stmt : Stmt) : task.Backed (stmt.exec db).2 := by
  obtain ⟨⟨job, found, key, hash, total, flag⟩, ⟨row, member, same, first, last⟩, index⟩ := backed
  refine ⟨?_, ?_, index⟩
  · obtain ⟨after, arrived, change⟩ := jobChange stmt found
    obtain ⟨_, keys, hashes, totals, flags⟩ := change.columns
    exact ⟨after, arrived, keys.trans key, hashes.trans hash, totals.trans total, flags.trans flag⟩
  · have stays := (Database.plans_exec stmt db).subset (List.mem_map_of_mem member)
    obtain ⟨after, arrived, plan⟩ := List.mem_map.mp stays
    simp only [ChunkRow.plan, Prod.mk.injEq] at plan
    exact ⟨after, arrived, plan.1.trans same, plan.2.1.trans first, plan.2.2.trans last⟩

theorem Backed.nextAttempt (backed : task.Backed db) : task.nextAttempt.Backed db :=
  ⟨backed.job, backed.chunk, backed.index⟩

end ChunkTask

/-- The tasks of a job, each with its range. -/
theorem Api.task_of_mem_tasksFrom {jobId key fileHash : Str} {total first : ℕ} {useLlm : Bool}
    {ranges : List (ℤ × ℤ)} {task : ChunkTask}
    (member : task ∈ tasksFrom jobId key fileHash total useLlm first ranges) :
    task.jobId = jobId ∧ task.docKey = key ∧ task.fileHash = fileHash ∧ task.totalChunks = total ∧
      task.useLlm = useLlm ∧ task.attempt = 1 ∧
      ∃ i, task.chunkIndex = first + i ∧ ranges[i]? = some (task.startPage, task.endPage) := by
  induction ranges generalizing first with
  | nil => cases member
  | cons range ranges ih =>
    rcases List.mem_cons.mp member with rfl | later
    · exact ⟨rfl, rfl, rfl, rfl, rfl, rfl, 0, rfl, rfl⟩
    · obtain ⟨jobs, keys, hashes, totals, flags, attempts, i, place, found⟩ := ih later
      exact ⟨jobs, keys, hashes, totals, flags, attempts, i + 1, by omega, found⟩

/-- A job that has been created has the rows of all its tasks. -/
theorem Producer.backed_of_created {env : Env} {useLlm : Bool} {file : Bytes} {ranges : List (ℤ × ℤ)} {jobId url : Str}
    {db after : Database}
    (created : db.createJob jobId (docKey env useLlm file) (env.sha256 file) url ranges useLlm = some after)
    {task : ChunkTask} (member : task ∈ tasks env useLlm file ranges jobId) : task.Backed after := by
  obtain ⟨rfl, keys, hashes, totals, flags, _, i, place, found⟩ := Api.task_of_mem_tasksFrom member
  obtain ⟨bound, range⟩ := List.getElem?_eq_some_iff.mp found
  rw [Nat.zero_add] at place
  refine ⟨⟨_, (Database.getJob_createJob created _).trans (if_pos rfl), keys.symm, hashes.symm, totals.symm,
    flags.symm⟩, ⟨Database.newChunk task.jobId i ranges[i], ?_, ?_, ?_, ?_⟩, ?_⟩
  · rw [(Database.createJob_eq_some created).2.2.2]
    exact List.mem_append_right _ (List.mem_mapIdx.mpr ⟨i, bound, rfl⟩)
  · exact Prod.ext rfl place.symm
  · exact congrArg Prod.fst range
  · exact congrArg Prod.snd range
  · omega

/-- The rows behind tasks stay. -/
def World.KeepsRows (before after : World) : Prop := ∀ task : ChunkTask, task.Backed before.db → task.Backed after.db

theorem World.KeepsRows.refl (world : World) : world.KeepsRows world := fun _ backed => backed

theorem World.KeepsRows.trans {first second third : World} (left : first.KeepsRows second)
    (right : second.KeepsRows third) : first.KeepsRows third := fun task backed => right task (left task backed)

theorem World.KeepsRows.of_db {before after : World} (same : after.db = before.db) : before.KeepsRows after :=
  fun _ backed => same ▸ backed

section Calls

variable {config : Config} {parent : Option Message} {world after : World} {fate : Fate}

/-- Whatever becomes of a call, the rows behind tasks stay. -/
theorem keepsRows_carry {op : Op} {reply : Except Exc op.Reply}
    (carried : op.carry config parent world fate = some (reply, after)) : world.KeepsRows after := by
  cases op with
  | db stmt =>
    have executed : world.KeepsRows { world with db := (stmt.exec world.db).2 } := fun _ backed => backed.exec stmt
    rcases carry_db carried with ⟨_, _, rfl⟩ | ⟨_, _, _, rfl⟩ | ⟨_, _, _, rfl⟩
    · exact executed
    · exact .refl _
    · exact executed
  | s3 request => rcases carry_s3 carried with ⟨_, _, rfl⟩ | ⟨_, _, _, rfl⟩ | ⟨_, _, _, rfl⟩ <;> exact .of_db rfl
  | amqp request => rcases carry_amqp carried with ⟨_, _, rfl⟩ | ⟨_, _, _, rfl⟩ | ⟨_, _, _, rfl⟩ <;> exact .of_db rfl
  | tool request => exact .of_db (carry_tool carried ▸ rfl)

end Calls

/-! ## Where messages are -/

/-- An attempt number that may occur. -/
def Config.InAttempts (config : Config) (attempt : ℕ) : Prop := 1 ≤ attempt ∧ (attempt : ℤ) ≤ max 1 config.maxAttempts

/-- A message on its queue: a task on the work queue, a later attempt on its tier, or a task that has used up its
attempts and is parked. Each has its rows. -/
inductive Config.Sorted (config : Config) (db : Database) : Str → Body → Prop
  | work {task : ChunkTask} (backed : task.Backed db) (attempts : config.InAttempts task.attempt) :
      Sorted config db config.rabbitmqQueue (.task task)
  | waiting {task : ChunkTask} (backed : task.Backed db) (attempts : config.InAttempts task.attempt)
      (again : 2 ≤ task.attempt) : Sorted config db (config.retryQueueName (task.attempt - 1)) (.task task)
  | parked {task : ChunkTask} {error : Str} (backed : task.Backed db) (attempts : config.InAttempts task.attempt)
      (exhausted : config.maxAttempts ≤ task.attempt) (cut : error.length ≤ 2000) :
      Sorted config db config.failedQueue (.failed task error)

/-- All messages are on their queues. -/
def World.Sorted (config : Config) (world : World) : Prop :=
  ∀ entry ∈ world.broker.messages, config.Sorted world.db entry.1 entry.2.body

variable {config : Config} {world after : World}

theorem Config.Sorted.later {queue : Str} {body : Body} (sorted : config.Sorted world.db queue body)
    (kept : world.KeepsRows after) : config.Sorted after.db queue body := by
  cases sorted with
  | work backed attempts => exact .work (kept _ backed) attempts
  | waiting backed attempts again => exact .waiting (kept _ backed) attempts again
  | parked backed attempts exhausted cut => exact .parked (kept _ backed) attempts exhausted cut

/-- What is published goes to queues where it belongs. -/
def SortedOp (config : Config) (db : Database) : Op → Prop
  | .amqp (.basicPublish exchange routingKey body) =>
    ∀ queue ∈ (declare config).route exchange routingKey, config.Sorted db queue body
  | _ => True

/-- What a publish adds is put on the queues of the exchange. -/
theorem mem_route_of_publish {broker : Broker} {topology : Topology} {parent : Option Message}
    {exchange routingKey : Str} {body : Body} {entry : Str × Message}
    (member : entry ∈ (broker.publish topology parent exchange routingKey body).messages) :
    entry ∈ broker.messages ∨ (entry.1 ∈ topology.route exchange routingKey ∧ entry.2.body = body) := by
  cases parent with
  | none | some =>
    rcases List.mem_append.mp member with old | new
    · exact .inl old
    · obtain ⟨_, inside, rfl⟩ := List.mem_map.mp new
      exact .inr ⟨inside, rfl⟩

theorem World.Sorted.carry {parent : Option Message} {fate : Fate} {op : Op} {reply : Except Exc op.Reply}
    (sorted : world.Sorted config) (fits : SortedOp config world.db op)
    (carried : op.carry config parent world fate = some (reply, after)) : after.Sorted config := by
  have kept := keepsRows_carry carried
  have still (same : after.broker = world.broker) : after.Sorted config := by
    intro entry member
    exact (sorted entry (same ▸ member)).later kept
  cases op with
  | db stmt => rcases carry_db carried with ⟨_, _, rfl⟩ | ⟨_, _, _, rfl⟩ | ⟨_, _, _, rfl⟩ <;> exact still rfl
  | s3 request => rcases carry_s3 carried with ⟨_, _, rfl⟩ | ⟨_, _, _, rfl⟩ | ⟨_, _, _, rfl⟩ <;> exact still rfl
  | tool request => exact still (carry_tool carried ▸ rfl)
  | amqp request =>
    have sent : World.Sorted config { world with broker := request.exec config parent world.broker } := by
      intro entry member
      cases request with
      | channel => exact sorted entry member
      | basicPublish exchange routingKey body =>
        rcases mem_route_of_publish member with old | ⟨inside, same⟩
        · exact sorted entry old
        · exact same ▸ fits entry.1 inside
    rcases carry_amqp carried with ⟨_, _, rfl⟩ | ⟨_, _, _, rfl⟩ | ⟨_, _, _, rfl⟩
    · exact sent
    · exact sorted
    · exact sent

/-! ## Handlers -/

/-- What a handler publishes belongs where it is published to. -/
theorem Handler.sorted_of_step {owner : Str} {task : ChunkTask} {db : Database} {phase : Phase} {op : Op}
    {onward : Except Exc op.Reply → Phase} (backed : task.Backed db) (attempts : config.InAttempts task.attempt)
    (proper : Proper config task phase) (moves : step config owner task phase = some ⟨op, onward⟩) :
    SortedOp config db op := by
  cases phase with
  | dropped | counted | finished | aborted | failed | retried | escaped => cases moves
  | parking error sending =>
    obtain ⟨exhausted, single⟩ := proper
    cases sending with
    | opening resending =>
      cases moves
      trivial
    | sending resending body rest =>
      obtain ⟨rfl, rfl⟩ := single
      cases moves
      intro queue inside
      rw [config.route_failed, List.mem_singleton] at inside
      subst inside
      exact .parked backed attempts exhausted (List.length_take_le _ _)
  | retrying sending =>
    obtain ⟨left, single⟩ := proper
    cases sending with
    | opening resending =>
      cases moves
      trivial
    | sending resending body rest =>
      obtain ⟨rfl, rfl⟩ := single
      cases moves
      intro queue inside
      rw [config.route_retryQueueName] at inside
      split_ifs at inside with exist
      · cases List.mem_singleton.mp inside
        have next : config.InAttempts task.nextAttempt.attempt := by
          refine ⟨Nat.le_add_left 1 _, ?_⟩
          simp only [ChunkTask.nextAttempt]
          omega
        apply Config.Sorted.waiting backed.nextAttempt next
        simp only [ChunkTask.nextAttempt]
        omega
      · cases inside
  | writing =>
    simp only [Handler.step] at moves
    split at moves <;> cases moves <;> trivial
  | _ =>
    cases moves
    trivial

/-! ## Producers -/

namespace Producer

variable {env : Env} {url : Str} {useLlm : Bool}

/-- A producer publishes tasks that have their rows. -/
def Backed (env : Env) (useLlm : Bool) (phase : Phase) (world : World) : Prop :=
  match phase with
  | .publishing file ranges jobId sending =>
    (∀ task ∈ tasks env useLlm file ranges jobId, task.Backed world.db) ∧
      sending.pending ⊆ (tasks env useLlm file ranges jobId).map .task
  | _ => True

theorem Backed.later {phase : Phase} (backed : Backed env useLlm phase world) (kept : world.KeepsRows after) :
    Backed env useLlm phase after := by
  cases phase with
  | publishing => exact ⟨fun task member => kept task (backed.1 task member), backed.2⟩
  | _ => trivial

theorem backed_miss (file : Bytes) : Backed env useLlm (miss env file) world := by
  unfold miss
  split <;> trivial

theorem Backed.step {phase : Phase} {op : Op} {onward : Except Exc op.Reply → Phase} {reply : Except Exc op.Reply}
    {fate : Fate} (backed : Backed env useLlm phase world) (moves : step env url useLlm phase = some ⟨op, onward⟩)
    (carried : op.carry env.toConfig none world fate = some (reply, after)) :
    SortedOp env.toConfig world.db op ∧ Backed env useLlm (onward reply) after := by
  cases phase with
  | returned | escaped => cases moves
  | downloading | uploading | drawing | probing =>
    cases moves
    refine ⟨trivial, ?_⟩
    dsimp only
    split <;> (try split) <;> trivial
  | consulting | fetchingManifest | fetchingPage =>
    cases moves
    refine ⟨trivial, ?_⟩
    dsimp only
    split <;> first | trivial | exact backed_miss _
  | creating file ranges jobId =>
    cases moves
    refine ⟨trivial, ?_⟩
    rcases carry_db carried with ⟨_, rfl, rfl⟩ | ⟨_, _, rfl, _⟩ | ⟨_, _, rfl, _⟩
    · simp only [Stmt.exec]
      split
      · next created =>
        split at created
        · next inserted =>
          exact ⟨fun task member => by simpa only [inserted] using backed_of_created inserted member, List.nil_subset _⟩
        · cases created
      · trivial
    · trivial
    · trivial
  | publishing file ranges jobId sending =>
    obtain ⟨rows, within⟩ := backed
    have kept := keepsRows_carry carried
    obtain ⟨request, rfl⟩ := Sending.op_of_step moves
    refine ⟨?_, ?_⟩
    · cases sending with
      | opening resending =>
        cases moves
        trivial
      | sending resending body rest =>
        cases moves
        obtain ⟨task, member, rfl⟩ := List.mem_map.mp (within (List.mem_cons_self ..))
        intro queue inside
        rw [env.route_work, List.mem_singleton] at inside
        subst inside
        refine .work (rows task member) ?_
        rw [Config.InAttempts, (Api.task_of_mem_tasksFrom member).2.2.2.2.2.1]
        exact ⟨Nat.le_refl 1, le_max_left _ _⟩
    · refine Sending.onward_of_step (fun phase => Backed env useLlm phase after) moves ?_ trivial (fun _ => trivial)
        reply
      have later : ∀ task ∈ tasks env useLlm file ranges jobId, task.Backed after.db :=
        fun task member => kept task (rows task member)
      rintro next (all | fewer)
      · exact ⟨later, all⟩
      · exact ⟨later, List.Subset.trans fewer within⟩

end Producer

/-! ## Workers -/

namespace Fleet

variable {env : Env} {fleet after : Fleet} {label : Label}

theorem keepsRows_of_stepped (stepped : Stepped env fleet label after) : fleet.world.KeepsRows after.world := by
  cases stepped with
  | submit | deliver | duplicate | expire | finish | crash => exact .of_db rfl
  | produced found position moves carried | handled found position moves carried => exact keepsRows_carry carried

/-- What a process holds in its hands has its rows. -/
def AgentBacked (env : Env) (world : World) : Agent → Prop
  | .producer _ useLlm phase _ => Producer.Backed env useLlm phase world
  | .handler _ _ task phase _ => task.Backed world.db ∧ env.InAttempts task.attempt ∧
      Handler.Proper env.toConfig task phase

theorem AgentBacked.later {world later : World} {agent : Agent} (backed : AgentBacked env world agent)
    (kept : world.KeepsRows later) : AgentBacked env later agent := by
  cases agent with
  | producer => exact Producer.Backed.later backed kept
  | handler => exact ⟨kept _ backed.1, backed.2⟩

/-- Everything on the queues and with the processes has its rows. -/
structure Backed (env : Env) (fleet : Fleet) : Prop where
  sorted : fleet.world.Sorted env.toConfig
  agents : ∀ agent ∈ fleet.agents, AgentBacked env fleet.world agent

theorem Backed.setWorld {world : World} (backed : fleet.Backed env) (sorted : world.Sorted env.toConfig)
    (kept : fleet.world.KeepsRows world) : Backed env { fleet with world } :=
  ⟨sorted, fun agent member => (backed.agents agent member).later kept⟩

theorem Backed.handler (backed : fleet.Backed env) {before rest : List Agent} {owner : Str} {origin : ℕ}
    {task : ChunkTask} {phase : Handler.Phase} {calls : List Step}
    (found : fleet.agents = before ++ .handler owner origin task phase calls :: rest) :
    task.Backed fleet.world.db ∧ env.InAttempts task.attempt ∧ Handler.Proper env.toConfig task phase :=
  backed.agents (.handler owner origin task phase calls) (found ▸ List.mem_append_right _ (List.mem_cons_self ..))

theorem Backed.producer (backed : fleet.Backed env) {before rest : List Agent} {url : Str} {useLlm : Bool}
    {phase : Producer.Phase} {calls : List Step}
    (found : fleet.agents = before ++ .producer url useLlm phase calls :: rest) :
    Producer.Backed env useLlm phase fleet.world :=
  backed.agents (.producer url useLlm phase calls) (found ▸ List.mem_append_right _ (List.mem_cons_self ..))

/-- What waits on the work queue is a task with its rows. -/
theorem Backed.work (backed : fleet.Backed env) {message : Message}
    (member : (env.rabbitmqQueue, message) ∈ fleet.world.broker.messages) :
    ∃ task, message.body = .task task ∧ task.Backed fleet.world.db ∧ env.InAttempts task.attempt := by
  have sorted : env.Sorted fleet.world.db env.rabbitmqQueue message.body := backed.sorted _ member
  generalize named : env.rabbitmqQueue = queue at sorted
  generalize message.body = body at sorted ⊢
  cases sorted with
  | work rows attempts => exact ⟨_, rfl, rows, attempts⟩
  | waiting => exact absurd named.symm (env.tierQueue_ne _)
  | parked => exact absurd named.symm env.failedQueue_ne

/-- What waits on a tier is a task with its rows. -/
theorem Backed.timed (backed : fleet.Backed env) {queue : Str} {message : Message} {decl : QueueDecl}
    (member : (queue, message) ∈ fleet.world.broker.messages) (declared : decl ∈ (declare env.toConfig).queues)
    (named : decl.name = queue) (timed : decl.ttl.isSome) :
    ∃ task, message.body = .task task ∧ task.Backed fleet.world.db ∧ env.InAttempts task.attempt := by
  obtain ⟨tier, tiered⟩ := Config.tierQueue_of_timed declared timed
  have sorted : env.Sorted fleet.world.db queue message.body := backed.sorted _ member
  have place : queue = env.tierQueue tier := named.symm.trans tiered
  generalize message.body = body at sorted ⊢
  cases sorted with
  | work rows attempts | waiting rows attempts => exact ⟨_, rfl, rows, attempts⟩
  | parked => exact absurd place (env.failedQueue_ne_tierQueue tier)

theorem sorted_of_stepped (backed : fleet.Backed env) (stepped : Stepped env fleet label after) :
    after.world.Sorted env.toConfig := by
  have old := backed.sorted
  cases stepped with
  | submit | finish => exact old
  | deliver found =>
    intro entry member
    exact old entry (found ▸ List.perm_middle.mem_iff.mpr (List.mem_cons_of_mem _ member))
  | duplicate found =>
    intro entry member
    rcases List.mem_append.mp member with left | right
    · exact old entry left
    · cases List.mem_singleton.mp right
      exact old _ found
  | @expire _ queue _ message _ before rest found declared named timed target =>
    have present : (queue, message) ∈ fleet.world.broker.messages :=
      found ▸ List.mem_append_right _ (List.mem_cons_self ..)
    intro entry member
    rcases List.mem_append.mp member with kept | again
    · exact old entry (found ▸ List.perm_middle.mem_iff.mpr (List.mem_cons_of_mem _ kept))
    · rw [Config.route_expired declared timed target] at again
      cases List.mem_singleton.mp again
      obtain ⟨task, same, rows, attempts⟩ := backed.timed present declared named timed
      exact same ▸ .work rows attempts
  | produced found position moves carried =>
    exact old.carry ((backed.producer found).step moves carried).1 carried
  | handled found position moves carried =>
    obtain ⟨rows, attempts, proper⟩ := backed.handler found
    exact old.carry (Handler.sorted_of_step rows attempts proper moves) carried
  | @crash _ agent before rest found position =>
    intro entry member
    rcases List.mem_append.mp member with left | right
    · exact old entry left
    · cases agent with
      | producer => cases right
      | handler =>
        cases List.mem_singleton.mp right
        obtain ⟨rows, attempts, _⟩ := backed.handler found
        exact .work rows attempts

/-- A step leaves every message and every task in hand with its rows. -/
theorem Backed.step (backed : fleet.Backed env) (stepped : Stepped env fleet label after) : after.Backed env := by
  refine ⟨sorted_of_stepped backed stepped, ?_⟩
  refine stepped.forall_agents (AgentBacked env) backed.agents ?_ (fun _ _ _ => trivial) ?_ ?_ ?_
  · exact fun agent _ holds => holds.later (keepsRows_of_stepped stepped)
  · intro index owner origin task delivers member
    obtain ⟨other, same, rows, attempts⟩ := backed.work member
    cases same
    exact ⟨keepsRows_of_stepped stepped _ rows, attempts, trivial⟩
  · intro index fate url useLlm phase calls op onward reply before rest _ found _ moves carried
    exact ((backed.producer found).step moves carried).2
  · intro index fate owner origin task phase calls op onward reply before rest _ found _ moves carried
    obtain ⟨rows, attempts, proper⟩ := backed.handler found
    exact ⟨keepsRows_carry carried _ rows, attempts, proper.step moves carried⟩

end Fleet

/-! ## Clients -/

/-- Whatever the others do, `submit` publishes tasks with their rows only. -/
theorem sorted_submit {env : Env} {url : Str} {useLlm : Bool} {calls : List Step} {world : World} :
    (Api.submit env url useLlm).Withstands (Carries env.toConfig) (World.Sorted env.toConfig) World.KeepsRows
      (fun _ _ _ => True) calls world := by
  refine Producer.submit_tracks.withstands (Producer.Backed env useLlm) trivial Producer.Backed.later ?_
  rintro phase op onward met reply after backed sorted moves ⟨fate, carried⟩
  obtain ⟨fits, later⟩ := backed.step moves carried
  exact ⟨sorted.carry fits carried, keepsRows_carry carried, later⟩

namespace Cluster

variable {pod : Pod}

/-- Nothing is promised to the clients. -/
def anything : Promise := fun _ _ _ _ _ => True

theorem lasting_anything : Lasting World.KeepsRows anything :=
  ⟨World.KeepsRows.refl, World.KeepsRows.trans, fun _ _ _ _ _ _ _ _ => trivial⟩

/-- Every message on a queue, every task with a worker and every task that a request publishes has its rows. -/
structure Backed (pod : Pod) (state : Cluster) : Prop where
  behind : state.Behind pod (Fleet.Backed pod.toEnv)
  upholds : state.Upholds (Carries pod.toConfig) (World.Sorted pod.toConfig) World.KeepsRows anything

theorem Backed.step {state next : Cluster} {move : Move} (backed : state.Backed pod)
    (stepped : Cluster.step pod state move = some next) : next.Backed pod := by
  have moved := moved_of_step stepped
  have after := backed.upholds.moved lasting_anything moved ?_ (fun key _ => ⟨backed.upholds.world, .of_db rfl⟩)
    (fun _ fate _ _ _ _ carried => ⟨fate, carried⟩) ?_
  · refine ⟨backed.behind.moved moved ?_ ?_ ?_, after⟩
    · exact fun fleet label _ _ holds _ _ steps => holds.step steps
    · exact fun fleet fate op reply same holds _ carried => holds.setWorld after.world (same ▸ keepsRows_carry carried)
    · exact fun fleet key same holds => holds.setWorld (same ▸ holds.sorted) (same ▸ .of_db rfl)
  · intro label backend labeled _ runs
    obtain ⟨fleet, mirrors, holds⟩ := backed.behind.workers
    obtain ⟨later, steps, mirrored⟩ := mirrors.stepped runs
    have kept := Fleet.keepsRows_of_stepped steps
    rw [mirrors.world] at kept
    exact mirrored.world ▸ ⟨(holds.step steps).sorted, kept⟩
  · intro xApiKey route _
    refine (Api.readsAfterSubmit_serveRoute xApiKey route).withstands World.KeepsRows.refl ?_ fun _ _ => sorted_submit
    rintro world op reply later reads sorted ⟨fate, carried⟩
    refine ⟨sorted.carry ?_ carried, keepsRows_carry carried⟩
    cases op <;> trivial

theorem backed_of_reaches {state : Cluster} (reached : Reaches (step pod) (fun _ _ => True) .initial state) :
    state.Backed pod := by
  have start : initial.Backed pod :=
    ⟨behind_initial ⟨fun _ member => (by cases member), fun _ member => (by cases member)⟩,
      upholds_initial fun _ member => (by cases member)⟩
  exact reached.invariant start fun _ _ _ backed _ stepped => backed.step stepped

/-- In every run, whatever fails, dies or expires, every message is on the queue of its attempt and has its rows, what
is on the work queue is a task that `from_bytes` reads back, and so is what a worker has in its hands. -/
theorem messages_backed {state : Cluster} (reached : Reaches (step pod) (fun _ _ => True) .initial state) :
    (∀ entry ∈ state.world.broker.messages, pod.Sorted state.world.db entry.1 entry.2.body) ∧
    ∀ message : Message, (pod.rabbitmqQueue, message) ∈ state.world.broker.messages ∨
        (∃ proc ∈ state.backend.procs, proc.message = some message) →
      ∃ task, RawTask.fromBytes message.body.toBytes = .ok task.raw ∧ message.body = .task task ∧
        task.Backed state.world.db ∧ pod.InAttempts task.attempt := by
  obtain ⟨fleet, mirrors, backed⟩ := (backed_of_reaches reached).behind.workers
  have same : fleet.world = state.world := mirrors.world
  rw [← same]
  refine ⟨backed.sorted, fun message there => ?_⟩
  have found : ∃ task, message.body = .task task ∧ task.Backed fleet.world.db ∧ pod.InAttempts task.attempt := by
    rcases there with waits | ⟨proc, member, holds⟩
    · exact backed.work waits
    · obtain ⟨agent, inside, runs⟩ := mirrors.exists_agent member
      cases agent with
      | producer => cases holds.symm.trans runs.1
      | handler owner origin task phase calls =>
        cases holds.symm.trans runs.1
        obtain ⟨rows, attempts, _⟩ := backed.agents _ inside
        exact ⟨task, rfl, rows, attempts⟩
  obtain ⟨task, carries, rows, attempts⟩ := found
  refine ⟨task, ?_, carries, rows, attempts⟩
  rw [carries, RawTask.fromBytes_toBytes, (RawTask.build_members task []).1]

/-- A chunk that waits for its second attempt. -/
theorem messages_backed_of_retried_chunk :
    ∃ state message, Reaches (step (samplePod {})) (fun _ _ => True) .initial state ∧
      ((samplePod {}).tierQueue 1, message) ∈ state.world.broker.messages ∧
      (samplePod {}).Sorted state.world.db ((samplePod {}).tierQueue 1) message.body := by
  have leads : Leads (step (samplePod {})) (fun _ _ => True)
      (fun state => state.world.broker.messages.any fun entry => entry.1 = (samplePod {}).tierQueue 1) .initial
      (.arrive (some (lit "key")) (.asyncConvert (some ⟨some (lit "http://host/file"), none⟩)) ::
        sampleSubmission [0] (lit "job") ++
        List.map .backend (.deliver 0 (lit "worker") :: Script.fails 0 ++ Script.acts 0 3)) := by decide +kernel
  obtain ⟨state, reached, there⟩ := leads.exists_reaches
  obtain ⟨⟨queue, message⟩, member, named⟩ := List.any_eq_true.mp there
  obtain rfl : queue = (samplePod {}).tierQueue 1 := of_decide_eq_true named
  exact ⟨state, message, reached, member, (messages_backed reached).1 _ member⟩

end Cluster

end MarkitdownServer
