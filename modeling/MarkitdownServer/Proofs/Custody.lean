import MarkitdownServer.Proofs.Backing
import MarkitdownServer.Proofs.Drain

/-! # No chunk is lost to a crash

A task that is on a queue stays in somebody's custody: on the work queue, on a tier from which it comes back, or
with a worker that has not acked it, until its chunk is done or its job is over. Workers may die at any of their
calls, conversions and the bucket may fail, objects may expire and messages may be delivered twice; only the
statements and publishes of the workers have to be carried out, and retries need a tier to wait on.
-/

namespace MarkitdownServer

open Effects Effects.Program Transition

/-! ## What is settled -/

namespace Database

/-- The job is done or failed. -/
def Over (db : Database) (jobId : Str) : Prop := ∃ row, db.getJob jobId = some row ∧ row.status.isTerminal = true

variable {db : Database} {jobId : Str} {chunkIndex : ℕ}

/-- A job that is over stays over. -/
theorem Over.exec (settled : db.Over jobId) (stmt : Stmt) : (stmt.exec db).2.Over jobId := by
  obtain ⟨row, found, terminal⟩ := settled
  obtain ⟨after, arrived, change⟩ := jobChange stmt found
  refine ⟨after, arrived, ?_⟩
  cases ended : after.status.isTerminal with
  | true => rfl
  | false => cases terminal.symm.trans (change.active ended)

/-- A done chunk stays done, unless it is failed. -/
theorem done_exec (stmt : Stmt) (done : db.chunkStatus jobId chunkIndex = some .done)
    (spared : ∀ error, stmt ≠ .failChunk jobId chunkIndex error) :
    (stmt.exec db).2.chunkStatus jobId chunkIndex = some .done := by
  rw [chunkStatus_exec stmt done]
  cases stmt with
  | failChunk job index error =>
    simp only [Stmt.chunkEffect]
    rw [if_neg]
    rintro ⟨rfl, rfl⟩
    exact spared error rfl
  | _ => simp [Stmt.chunkEffect]

end Database

/-- The queues only grow by a call. -/
theorem messages_subset_carry {config : Config} {parent : Option Message} {world after : World} {fate : Fate} {op : Op}
    {reply : Except Exc op.Reply} (carried : op.carry config parent world fate = some (reply, after)) :
    world.broker.messages ⊆ after.broker.messages := by
  cases op with
  | db stmt =>
    rcases carry_db carried with ⟨_, _, rfl⟩ | ⟨_, _, _, rfl⟩ | ⟨_, _, _, rfl⟩ <;> exact List.Subset.refl _
  | s3 request =>
    rcases carry_s3 carried with ⟨_, _, rfl⟩ | ⟨_, _, _, rfl⟩ | ⟨_, _, _, rfl⟩ <;> exact List.Subset.refl _
  | tool request =>
    cases carry_tool carried
    exact List.Subset.refl _
  | amqp request =>
    have grows : world.broker.messages ⊆ (request.exec config parent world.broker).messages := by
      cases request with
      | channel => exact List.Subset.refl _
      | basicPublish =>
        cases parent with
        | none | some => exact List.subset_append_left _ _
    rcases carry_amqp carried with ⟨_, _, rfl⟩ | ⟨_, _, _, rfl⟩ | ⟨_, _, _, rfl⟩
    · exact grows
    · exact List.Subset.refl _
    · exact grows

namespace Fleet

/-! ## Custody -/

/-- A task of the chunk is on a queue, or a handler has it and has neither settled it nor let it go. -/
def Held (jobId : Str) (chunkIndex : ℕ) (fleet : Fleet) : Prop :=
  (fleet.Has fun task stage => (task.jobId = jobId ∧ task.chunkIndex = chunkIndex) ∧
    (stage = .carrying ∨ stage = .exhausting)) ∨
  ∃ entry ∈ fleet.world.broker.messages, ∃ task, entry.2.body = .task task ∧ task.jobId = jobId ∧
    task.chunkIndex = chunkIndex

/-- The chunk is done, its job is over, or it is in custody. -/
def Kept (jobId : Str) (chunkIndex : ℕ) (fleet : Fleet) : Prop :=
  fleet.world.db.chunkStatus jobId chunkIndex = some .done ∨ fleet.world.db.Over jobId ∨ fleet.Held jobId chunkIndex

variable {env : Env} {fleet after : Fleet} {label : Label} {jobId : Str} {chunkIndex : ℕ}

/-- Whoever makes a call other than a handler keeps the chunk. -/
theorem Kept.outside {world : World} {stmt : Stmt} (kept : fleet.Kept jobId chunkIndex)
    (db : world.db = (stmt.exec fleet.world.db).2) (spared : ∀ error, stmt ≠ .failChunk jobId chunkIndex error)
    (grows : fleet.world.broker.messages ⊆ world.broker.messages) :
    Kept jobId chunkIndex { fleet with world } := by
  rcases kept with done | settled | has | ⟨entry, queued, waiting⟩
  · exact .inl (db ▸ Database.done_exec stmt done spared)
  · exact .inr (.inl (db ▸ settled.exec stmt))
  · exact .inr (.inr (.inl has))
  · exact .inr (.inr (.inr ⟨entry, grows queued, waiting⟩))

/-- A statement of an API pod fails no chunk. -/
theorem statement_of_served {parent : Option Message} {world next : World} {fate : Fate} {op : Op}
    {reply : Except Exc op.Reply} (served : ServedOp env op)
    (carried : op.carry env.toConfig parent world fate = some (reply, next)) :
    ∃ stmt : Stmt, next.db = (stmt.exec world.db).2 ∧ ∀ error, stmt ≠ .failChunk jobId chunkIndex error := by
  have idle (same : next.db = world.db) :
      ∃ stmt : Stmt, next.db = (stmt.exec world.db).2 ∧ ∀ error, stmt ≠ .failChunk jobId chunkIndex error :=
    ⟨.getJob jobId, same, by rintro _ ⟨⟩⟩
  cases op with
  | s3 request => rcases carry_s3 carried with ⟨_, _, rfl⟩ | ⟨_, _, _, rfl⟩ | ⟨_, _, _, rfl⟩ <;> exact idle rfl
  | amqp request => rcases carry_amqp carried with ⟨_, _, rfl⟩ | ⟨_, _, _, rfl⟩ | ⟨_, _, _, rfl⟩ <;> exact idle rfl
  | tool request => exact idle (carry_tool carried ▸ rfl)
  | db stmt =>
    have spared : ∀ error, stmt ≠ .failChunk jobId chunkIndex error := by
      rintro error rfl
      exact served
    rcases carry_db carried with ⟨_, _, rfl⟩ | ⟨_, _, _, rfl⟩ | ⟨_, _, _, rfl⟩
    · exact ⟨stmt, rfl, spared⟩
    · exact idle rfl
    · exact ⟨stmt, rfl, spared⟩

section Handled

variable {before rest : List Agent} {owner : Str} {origin : ℕ} {task : ChunkTask} {phase : Handler.Phase}
  {calls : List Step} {op : Op} {onward : Except Exc op.Reply → Handler.Phase} {reply : Except Exc op.Reply}
  {world : World} {fate : Fate}

/-- A handler keeps its own chunk until it has settled it. -/
theorem kept_of_advance (delays : env.retryDelays ≠ []) (attempts : 1 ≤ task.attempt) (rows : task.Backed fleet.world.db)
    {next : Handler.Phase} {more : List Step} {trace : List Event}
    (stage : phase.stage = .carrying ∨ phase.stage = .exhausting)
    (advance : Handler.Advance env.toConfig origin task fleet.world phase world next) :
    Kept task.jobId task.chunkIndex ⟨world, before ++ .handler owner origin task next more :: rest, trace⟩ := by
  obtain ⟨row, found, _⟩ := rows.job
  have arrives (onStage : next.stage = .carrying ∨ next.stage = .exhausting) :
      Kept task.jobId task.chunkIndex ⟨world, before ++ .handler owner origin task next more :: rest, trace⟩ :=
    .inr (.inr (.inl (Has.arrived ⟨⟨rfl, rfl⟩, onStage⟩)))
  cases advance with
  | stay stmt same => exact arrives (same ▸ stage)
  | drop inactive => exact .inr (.inl ⟨row, found, inactive row found⟩)
  | exhaust => exact arrives (.inr rfl)
  | retry left =>
    exact .inr (.inr (.inr ⟨_, mem_retried delays attempts origin _, task.nextAttempt, rfl, rfl, rfl⟩))
  | park => exact arrives (.inr rfl)
  | failChunk => exact arrives (.inr rfl)
  | failJob text =>
    refine .inr (.inl ?_)
    cases active : row.status.isTerminal with
    | true => exact Database.Over.exec ⟨row, found, active⟩ (.failJob task.jobId text (some task.chunkIndex))
    | false => exact ⟨_, getJob_failJob found active text _, rfl⟩
  | complete key =>
    refine .inl ?_
    obtain ⟨chunk, member, named, _⟩ := rows.chunk
    have present : fleet.world.db.chunkStatus task.jobId task.chunkIndex = some chunk.status :=
      (Database.chunkStatus_eq_some_iff _ _ _ _).mpr
        ⟨chunk, member, congrArg Prod.fst named, congrArg Prod.snd named, rfl⟩
    have done := chunkStatus_exec (.completeChunk task.jobId task.chunkIndex key) present
    simp only [Stmt.chunkEffect, and_self, if_true] at done
    exact done
  | abort assembling => rcases stage with same | same <;> cases same.symm.trans assembling
  | finish | aborted => rcases stage with same | same <;> cases same

/-- A call of a handler keeps every chunk. -/
theorem Kept.handled (delays : env.retryDelays ≠ []) (attempts : 1 ≤ task.attempt) (rows : task.Backed fleet.world.db)
    (found : fleet.agents = before ++ .handler owner origin task phase calls :: rest) {next : Handler.Phase}
    {more : List Step} {trace : List Event} (grows : fleet.world.broker.messages ⊆ world.broker.messages)
    (advance : Handler.Advance env.toConfig origin task fleet.world phase world next)
    (kept : fleet.Kept jobId chunkIndex) :
    Kept jobId chunkIndex ⟨world, before ++ .handler owner origin task next more :: rest, trace⟩ := by
  by_cases own : (task.jobId = jobId ∧ task.chunkIndex = chunkIndex) ∧
      (phase.stage = .carrying ∨ phase.stage = .exhausting)
  · obtain ⟨⟨rfl, rfl⟩, stage⟩ := own
    exact kept_of_advance delays attempts rows stage advance
  · obtain ⟨stmt, db, does, _⟩ := advance.does
    rcases kept with done | settled | has | ⟨entry, queued, waiting⟩
    · refine .inl (db ▸ Database.done_exec stmt done ?_)
      rintro error rfl
      exact own ⟨⟨does.1.symm, does.2.1.symm⟩, .inr does.2.2.1⟩
    · exact .inr (.inl (db ▸ settled.exec stmt))
    · exact .inr (.inr (.inl (has.moved found fun fits => absurd fits own)))
    · exact .inr (.inr (.inr ⟨entry, grows queued, waiting⟩))

end Handled

/-! ## The other steps -/

theorem Has.mono {holds : ChunkTask → Handler.Stage → Prop} (has : fleet.Has holds)
    (stay : ∀ owner origin task phase calls, .handler owner origin task phase calls ∈ fleet.agents →
      holds task phase.stage → .handler owner origin task phase calls ∈ after.agents) : after.Has holds := by
  obtain ⟨owner, origin, task, phase, calls, member, fits⟩ := has
  exact ⟨owner, origin, task, phase, calls, stay _ _ _ _ _ member fits, fits⟩

/-- A step without a call keeps what is settled. -/
theorem Kept.rest (kept : fleet.Kept jobId chunkIndex) (db : after.world.db = fleet.world.db)
    (held : fleet.Held jobId chunkIndex → after.Held jobId chunkIndex) : after.Kept jobId chunkIndex := by
  rcases kept with done | settled | holds
  · exact .inl (db ▸ done)
  · exact .inr (.inl (db ▸ settled))
  · exact .inr (.inr (held holds))

theorem Producer.onlyTasks_of_backed {useLlm : Bool} {phase : Producer.Phase} {world : World}
    (backed : Producer.Backed env useLlm phase world) : Producer.OnlyTasks phase := by
  cases phase with
  | publishing file ranges jobId sending =>
    intro body member
    obtain ⟨task, _, same⟩ := List.mem_map.mp (backed.2 member)
    exact ⟨task, same.symm⟩
  | _ => trivial

theorem Kept.step (delays : env.retryDelays ≠ []) (backed : fleet.Backed env) (calm : Calm env fleet label)
    (kept : fleet.Kept jobId chunkIndex) (stepped : Stepped env fleet label after) : after.Kept jobId chunkIndex := by
  cases stepped with
  | submit url useLlm =>
    refine kept.rest rfl ?_
    rintro (has | waiting)
    · exact .inl (has.mono fun _ _ _ _ _ member _ => List.mem_append_left _ member)
    · exact .inr waiting
  | @deliver index owner origin task before rest found =>
    refine kept.rest rfl ?_
    rintro (has | ⟨entry, queued, chunk, carries, named, numbered⟩)
    · exact .inl (has.mono fun _ _ _ _ _ member _ => List.mem_append_left _ member)
    · rw [found] at queued
      rcases List.mem_cons.mp (List.perm_middle.mem_iff.mp queued) with rfl | left
      · cases carries
        exact .inl ⟨owner, origin, task, .looking, [], List.mem_append_right _ (List.mem_singleton_self _),
          ⟨named, numbered⟩, .inl rfl⟩
      · exact .inr ⟨entry, left, chunk, carries, named, numbered⟩
  | duplicate found =>
    refine kept.rest rfl ?_
    rintro (has | ⟨entry, queued, waiting⟩)
    · exact .inl has
    · exact .inr ⟨entry, List.mem_append_left _ queued, waiting⟩
  | @expire index queue exchange message decl before rest found declared named timed target =>
    refine kept.rest rfl ?_
    rintro (has | ⟨entry, queued, waiting⟩)
    · exact .inl has
    · rw [found] at queued
      rcases List.mem_cons.mp (List.perm_middle.mem_iff.mp queued) with rfl | left
      · refine .inr ⟨(env.rabbitmqQueue, message), List.mem_append_right _ ?_, waiting⟩
        rw [Config.route_expired declared timed target]
        exact List.mem_singleton_self _
      · exact .inr ⟨entry, List.mem_append_left _ left, waiting⟩
  | @produced index fate url useLlm phase calls op onward reply world before rest found position moves carried =>
    have served := (Producer.servedOp_of_step (Producer.onlyTasks_of_backed (backed.producer found)) moves).1
    obtain ⟨stmt, db, spared⟩ := statement_of_served served carried
    have later := kept.outside db spared (messages_subset_carry carried)
    refine later.rest rfl ?_
    rintro (has | waiting)
    · refine .inl (has.mono fun _ _ _ _ _ member _ => ?_)
      rw [found] at member
      rcases List.mem_cons.mp (List.perm_middle.mem_iff.mp member) with same | old
      · cases same
      · exact List.perm_middle.mem_iff.mpr (List.mem_cons_of_mem _ old)
    · exact .inr waiting
  | @handled index fate owner origin task phase calls op onward reply world before rest found position moves carried =>
    obtain ⟨rows, attempts, proper⟩ := backed.handler found
    have advance := Handler.advance proper moves carried
      (calm _ _ _ _ _ (position ▸ rfl) found (by rw [Agent.next, moves]; rfl))
    exact kept.handled delays attempts.1 rows found (messages_subset_carry carried) advance
  | @finish index agent before rest found position ended =>
    refine kept.rest rfl ?_
    rintro (has | waiting)
    · refine .inl (has.mono fun owner origin task phase calls member fits => ?_)
      rw [found] at member
      rcases List.mem_cons.mp (List.perm_middle.mem_iff.mp member) with rfl | old
      · have stage := stage_of_ended (Option.map_eq_none_iff.mp ended)
        rcases fits.2 with one | one <;> rcases stage with other | other <;> cases one.symm.trans other
      · exact old
    · exact .inr waiting
  | @crash index agent before rest found position =>
    refine kept.rest rfl ?_
    rintro (⟨owner, origin, task, phase, calls, member, fits⟩ | ⟨entry, queued, waiting⟩)
    · rw [found] at member
      rcases List.mem_cons.mp (List.perm_middle.mem_iff.mp member) with rfl | old
      · exact .inr ⟨(env.rabbitmqQueue, ⟨origin, .task task⟩), List.mem_append_right _ (List.mem_singleton_self _), task,
          rfl, fits.1⟩
      · exact .inl ⟨owner, origin, task, phase, calls, old, fits⟩
    · exact .inr ⟨entry, List.mem_append_left _ queued, waiting⟩

end Fleet

namespace Cluster

variable {pod : Pod}

/-- The statements and publishes of the workers are carried out. -/
def workersWell (state : Cluster) : Move → Bool
  | .backend label => state.backend.calm label
  | _ => true

/-- A task of the chunk waits on the work queue or on a tier, or a worker has it and has not acked it. -/
def InCustody (config : Config) (state : Cluster) (jobId : Str) (chunkIndex : ℕ) : Prop :=
  ∃ message : Message, (∃ task, message.body = .task task ∧ task.jobId = jobId ∧ task.chunkIndex = chunkIndex) ∧
    ((config.rabbitmqQueue, message) ∈ state.world.broker.messages ∨
      (∃ tier, 1 ≤ tier ∧ tier ≤ config.retryDelays.length ∧
        (config.tierQueue tier, message) ∈ state.world.broker.messages) ∨
      ∃ proc ∈ state.backend.procs, proc.message = some message)

/-- What is in custody in the fleet is in custody. -/
theorem inCustody_of_held (delays : pod.retryDelays ≠ []) {state : Cluster} {fleet : Fleet} {jobId : Str}
    {chunkIndex : ℕ} (mirrors : Fleet.Mirrors pod.toEnv state.backend fleet) (backed : fleet.Backed pod.toEnv)
    (held : fleet.Held jobId chunkIndex) : state.InCustody pod.toConfig jobId chunkIndex := by
  have same : fleet.world = state.world := mirrors.world
  rcases held with ⟨owner, origin, task, phase, calls, member, named, _⟩ | ⟨entry, queued, task, carries, named⟩
  · obtain ⟨before, rest, found⟩ := List.append_of_mem member
    obtain ⟨proc, at_, runs⟩ := mirrors.exists_proc found
    exact ⟨⟨origin, .task task⟩, ⟨task, rfl, named⟩, .inr (.inr ⟨proc, List.mem_of_getElem? at_, runs.1⟩)⟩
  · refine ⟨entry.2, ⟨task, carries, named⟩, ?_⟩
    obtain ⟨queue, message⟩ := entry
    have sorted : pod.Sorted fleet.world.db queue message.body := backed.sorted _ queued
    rw [same] at queued
    generalize message.body = body at sorted carries
    cases sorted with
    | work => exact .inl queued
    | waiting _ _ again =>
      refine .inr (.inl ⟨_, ?_, Nat.min_le_right _ _, queued⟩)
      have some := List.length_pos_iff.mpr delays
      omega
    | parked => cases carries

/-- Everything has its rows, and the chunk is kept. -/
structure Keeping (pod : Pod) (jobId : Str) (chunkIndex : ℕ) (state : Cluster) : Prop where
  backed : state.Backed pod
  kept : state.Behind pod fun fleet => fleet.Backed pod.toEnv ∧ fleet.Kept jobId chunkIndex

theorem Keeping.step (delays : pod.retryDelays ≠ []) {state next : Cluster} {move : Move} {jobId : Str}
    {chunkIndex : ℕ} (keeping : state.Keeping pod jobId chunkIndex) (well : state.workersWell move = true)
    (stepped : Cluster.step pod state move = some next) : next.Keeping pod jobId chunkIndex := by
  have later := keeping.backed.step stepped
  refine ⟨later, keeping.kept.moved (moved_of_step stepped) ?_ ?_ ?_⟩
  · rintro fleet label after mirrors ⟨rows, kept⟩ rfl _ steps
    refine ⟨rows.step steps, kept.step delays rows ?_ steps⟩
    rintro fate first agent rest op rfl found next durable
    exact mirrors.calm well found next durable
  · rintro fleet fate op reply same ⟨rows, kept⟩ served carried
    obtain ⟨stmt, db, spared⟩ := Fleet.statement_of_served served carried
    refine ⟨rows.setWorld later.upholds.world (same ▸ keepsRows_carry carried), ?_⟩
    exact kept.outside (same ▸ db) spared (same ▸ messages_subset_carry carried)
  · rintro fleet key same ⟨rows, kept⟩
    refine ⟨rows.setWorld (same ▸ rows.sorted) (same ▸ .of_db rfl), ?_⟩
    refine kept.rest (by rw [same]; rfl) ?_
    rintro (has | ⟨entry, queued, waiting⟩)
    · exact .inl has
    · exact .inr ⟨entry, by rw [same] at queued; exact queued, waiting⟩

/-- Once a task is on a queue, its chunk is never lost: in every later state the chunk is done, its job is over, or
a task of the chunk is in custody, wherever workers have died in the meantime. -/
theorem chunks_kept (delays : pod.retryDelays ≠ []) {start state : Cluster}
    (before : Reaches (step pod) (fun _ _ => True) .initial start)
    (run : Reaches (step pod) (fun state move => state.workersWell move) start state) {entry : Str × Message}
    (queued : entry ∈ start.world.broker.messages) {task : ChunkTask} (carries : entry.2.body = .task task) :
    state.world.db.chunkStatus task.jobId task.chunkIndex = some .done ∨ state.world.db.Over task.jobId ∨
      state.InCustody pod.toConfig task.jobId task.chunkIndex := by
  have beginning : start.Keeping pod task.jobId task.chunkIndex := by
    have backed := backed_of_reaches before
    obtain ⟨⟨fleet, mirrors, rows⟩, clients⟩ := backed.behind
    have same : fleet.world = start.world := mirrors.world
    refine ⟨backed, ⟨fleet, mirrors, rows, ?_⟩, clients⟩
    exact .inr (.inr (.inr ⟨entry, same ▸ queued, task, carries, rfl, rfl⟩))
  have keeping : state.Keeping pod task.jobId task.chunkIndex :=
    run.invariant beginning fun _ _ _ keeping well stepped => keeping.step delays well stepped
  obtain ⟨fleet, mirrors, backed, kept⟩ := keeping.kept.workers
  have same : fleet.world = state.world := mirrors.world
  rw [← same]
  rcases kept with done | settled | held
  · exact .inl done
  · exact .inr (.inl settled)
  · exact .inr (.inr (inCustody_of_held delays mirrors backed held))

/-- The task that an entry of a queue carries. -/
def taskOf (entry : Str × Message) : Option ChunkTask :=
  match entry.2.body with
  | .task task => some task
  | .failed .. => none

/-- The worker of a chunk dies while it converts. -/
def diesConverting : List Move :=
  List.map .backend (.deliver 0 (lit "worker") :: Script.acts 0 5 ++ [.crash 0])

theorem chunks_kept_of_dead_worker :
    ∃ (start state : Cluster) (task : ChunkTask), Reaches (step (samplePod {})) (fun _ _ => True) .initial start ∧
      Reaches (step (samplePod {})) (fun state move => state.workersWell move) start state ∧
      state.backend.procs.length = 0 ∧ state.backend.trace.length ≠ 0 ∧
      (state.world.db.chunkStatus task.jobId task.chunkIndex = some .done ∨ state.world.db.Over task.jobId ∨
        state.InCustody {} task.jobId task.chunkIndex) := by
  have leads : Leads (step (samplePod {})) (fun _ _ => True)
      (fun start => (start.world.broker.messages.any fun entry => (taskOf entry).isSome) = true ∧
        Leads (step (samplePod {})) (fun state move => state.workersWell move)
          (fun state => state.backend.procs.length = 0 ∧ state.backend.trace.length ≠ 0) start diesConverting) .initial
      (.arrive (some (lit "key")) (.asyncConvert (some ⟨some (lit "http://host/file"), none⟩)) ::
        sampleSubmission [0] (lit "job")) := by decide +kernel
  obtain ⟨start, before, waits, run⟩ := leads.exists_reaches
  obtain ⟨state, reached, empty, busy⟩ := run.exists_reaches
  obtain ⟨entry, queued, carries⟩ := List.any_eq_true.mp waits
  obtain ⟨task, found⟩ := Option.isSome_iff_exists.mp carries
  have same : entry.2.body = .task task := by
    unfold taskOf at found
    split at found
    · next body =>
      cases found
      exact body
    · cases found
  exact ⟨start, state, task, before, reached, empty, busy, chunks_kept (by decide) before reached queued same⟩

end Cluster

end MarkitdownServer
