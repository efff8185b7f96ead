import MarkitdownServer.Proofs.Attempts
import MarkitdownServer.Proofs.Tally

/-! # The end of the attempts

Every chunk of a job is in one hand at a time: it waits to be published, it is on a queue, or a handler has
it. So a chunk that is given up is not done, its job is never assembled, and the failed job stays failed.
-/

namespace MarkitdownServer

open Effects Transition

/-- The body is a task for this chunk. -/
def Body.isOf (jobId : Str) (chunkIndex : ℕ) : Body → Bool
  | .task chunk => chunk.jobId = jobId && chunk.chunkIndex = chunkIndex
  | .failed _ _ => false

/-- A handler in this stage has its chunk in hand, or had to leave it as it was. -/
def Handler.Stage.holds : Handler.Stage → Bool
  | .carrying | .exhausting | .dropped => true
  | .assembling | .aborting | .over => false

namespace Fleet

/-- The hands a chunk is in. -/
def holding (env : Env) (jobId : Str) (chunkIndex : ℕ) : Ledger where
  message entry := if entry.2.body.isOf jobId chunkIndex then 1 else 0
  agent
    | .producer _ useLlm phase _ => (Producer.unsent env useLlm phase).countP (Body.isOf jobId chunkIndex)
    | .handler _ _ task phase _ => if phase.stage.holds && Body.isOf jobId chunkIndex (.task task) then 1 else 0
  event _ := 0

section Holding

variable (env : Env) (jobId : Str) (chunkIndex : ℕ)

theorem holding_message (queue : Str) (origin : ℕ) (body : Body) :
    (holding env jobId chunkIndex).message (queue, ⟨origin, body⟩) =
      if body.isOf jobId chunkIndex then 1 else 0 := rfl

theorem holding_producer (url : Str) (useLlm : Bool) (phase : Producer.Phase) (calls : List Step) :
    (holding env jobId chunkIndex).agent (.producer url useLlm phase calls) =
      (Producer.unsent env useLlm phase).countP (Body.isOf jobId chunkIndex) := rfl

theorem holding_handler (owner : Str) (origin : ℕ) (task : ChunkTask) (phase : Handler.Phase) (calls : List Step) :
    (holding env jobId chunkIndex).agent (.handler owner origin task phase calls) =
      if phase.stage.holds && Body.isOf jobId chunkIndex (.task task) then 1 else 0 := rfl

theorem holding_event (event : Event) : (holding env jobId chunkIndex).event event = 0 := rfl

end Holding

variable {env : Env} {fleet after : Fleet} {label : Label} {jobId : Str} {chunkIndex : ℕ}

/-- The tasks of a new job hold each of its chunks once. -/
private theorem countP_tasks_le (useLlm : Bool) (file : Bytes) (ranges : List (ℤ × ℤ)) (newId : Str) :
    ((Producer.tasks env useLlm file ranges newId).map Body.task).countP (Body.isOf jobId chunkIndex) ≤
      if newId = jobId ∧ chunkIndex < ranges.length then 1 else 0 := by
  have keys := congrArg (List.countP fun key : Str × ℕ × ℕ => key.1 = jobId && key.2.1 = chunkIndex)
    (@Producer.map_tasks env useLlm file ranges newId)
  rw [List.countP_map, List.countP_map] at keys
  have counted : ((Producer.tasks env useLlm file ranges newId).map Body.task).countP (Body.isOf jobId chunkIndex) =
      (List.range ranges.length).countP fun i => newId = jobId && i = chunkIndex := by
    rw [List.countP_map]
    exact keys
  rw [counted]
  by_cases same : newId = jobId
  · have single : (List.range ranges.length).countP (fun i => newId = jobId && i = chunkIndex) =
        (List.range ranges.length).count chunkIndex := by
      simp only [same, decide_true, Bool.true_and]
      rfl
    rw [single, List.count_range]
    simp only [same, true_and, Nat.le_refl]
  · simp [same]

/-- The chunks of a new job are new and pending. -/
private theorem chunkStatus_created {db created : Database} {docKey fileHash url : Str} {ranges : List (ℤ × ℤ)}
    {useLlm : Bool} (counted : db.Counted)
    (creates : db.createJob jobId docKey fileHash url ranges useLlm = some created)
    (bound : chunkIndex < ranges.length) :
    db.chunkStatus jobId chunkIndex = none ∧ created.chunkStatus jobId chunkIndex = some .pending := by
  obtain ⟨absent, _, _, rows⟩ := Database.createJob_eq_some creates
  constructor
  · rw [Database.chunkStatus_eq_none_iff]
    intro member
    obtain ⟨row, present, key⟩ := List.mem_map.mp member
    obtain ⟨job, found⟩ := counted.owned row present
    rw [(Prod.mk.inj key).1, absent] at found
    cases found
  · refine (Database.chunkStatus_eq_some_iff _ _ _ _).mpr
      ⟨Database.newChunk jobId chunkIndex ranges[chunkIndex], ?_, rfl, rfl, rfl⟩
    rw [rows]
    exact List.mem_append_right _ (List.mem_mapIdx.mpr ⟨chunkIndex, bound, rfl⟩)

/-- No step adds a hand to a chunk, but for the one that creates the chunk. -/
theorem holding_of_stepped (jobId : Str) (chunkIndex : ℕ) (regular : Regular env fleet)
    (counted : fleet.world.db.Counted) (early : DiesEarly env fleet label) (stepped : Stepped env fleet label after) :
    (holding env jobId chunkIndex).total after ≤ (holding env jobId chunkIndex).total fleet +
      if fleet.world.db.chunkStatus jobId chunkIndex = none ∧
        after.world.db.chunkStatus jobId chunkIndex = some .pending then 1 else 0 := by
  refine (holding env jobId chunkIndex).total_le_of_stepped stepped _ (fun _ _ => rfl) ?_ early.copies ?_ ?_ ?_
    (fun _ => rfl) ?_
  · intro owner origin task
    rw [holding_handler, holding_event, holding_message]
    exact Nat.le_refl _
  · intro queue message
    exact Nat.le_refl _
  · intro index fate url useLlm phase calls op onward reply before rest acts found position moves carried
    have advance := Producer.advance moves carried
      (early.durable (position ▸ acts) found (by rw [Agent.next, moves]; rfl))
    rw [holding_event, holding_producer, holding_producer, Nat.add_zero]
    generalize onward reply = next at advance
    generalize after.world = world at advance
    cases advance with
    | idle same db broker =>
      rw [broker, same]
      exact Nat.le_add_right _ _
    | @create file ranges newId url db created =>
      have none : Producer.unsent env useLlm (.creating file ranges newId) = [] := rfl
      have all : Producer.unsent env useLlm (.publishing file ranges newId (.opening false)) =
          (Producer.tasks env useLlm file ranges newId).map Body.task := rfl
      rw [none, all, List.countP_nil, Nat.add_zero]
      refine Nat.add_le_add_left ((countP_tasks_le useLlm file ranges newId).trans ?_) _
      split_ifs with own new
      · exact Nat.le_refl _
      · obtain ⟨rfl, bound⟩ := own
        exact absurd (chunkStatus_created counted created bound) new
      · exact Nat.zero_le _
      · exact Nat.le_refl _
    | @publish _ _ body more first left =>
      rw [Ledger.queued_publish_first, holding_message, first, left, List.countP_cons]
      split_ifs <;> omega
  · intro index fate owner origin task phase calls op onward reply before rest acts found position moves carried
    obtain ⟨proper, linked, range⟩ := regular.handler found
    have advance := Handler.advance proper moves carried
      (early.durable (position ▸ acts) found (by rw [Agent.next, moves]; rfl))
    rw [holding_event, holding_handler, holding_handler, Nat.add_zero]
    generalize onward reply = next at advance
    generalize after.world = world at advance
    cases advance with
    | stay stmt stays mild db broker => rw [broker, stays]
    | drop inactive => exact Nat.le_refl _
    | exhaust carrying exhausted db broker =>
      rw [broker, carrying]
      exact Nat.le_refl _
    | retry left =>
      refine Nat.le_trans (Nat.add_le_add_right (Ledger.queued_publish_retry _ _ _ _ _ _) _) ?_
      exact Nat.le_refl _
    | park text =>
      rw [Ledger.queued_publish_failed]
      exact Nat.le_refl _
    | failChunk text => exact Nat.le_refl _
    | failJob text | finish named | aborted text => exact Nat.add_le_add_left (Nat.zero_le _) _
    | complete key =>
      have left : (if (fleet.world.db.completeChunk task.jobId task.chunkIndex key).1 = 0 then Handler.Phase.loading
          else .counted).stage.holds = false := by split <;> rfl
      rw [left]
      exact Nat.add_le_add_left (Nat.zero_le _) _
    | abort assembling db broker =>
      rw [broker, assembling]
      exact Nat.le_refl _
  · rintro index agent before rest crashed found rfl
    rw [holding_event, Nat.add_zero]
    cases agent with
    | producer url useLlm phase calls => exact Nat.zero_le _
    | handler owner origin task phase calls =>
      rcases early.early before _ rest crashed found with none | ⟨unstarted, unpublished⟩
      · cases none
      · have held : phase.stage.holds = true := by
          rcases (regular.handler found).2.1.stage unstarted unpublished with stage | stage | stage <;> rw [stage] <;>
            rfl
        rw [holding_handler, held]
        exact Nat.le_refl _

end Fleet

/-- An assembler has a job with all chunks done. -/
def Agent.Assembles (world : World) : Agent → Prop
  | .producer .. => True
  | .handler _ _ task phase _ => phase.stage = .assembling →
      (∃ job, world.db.getJob task.jobId = some job) ∧ world.db.openChunks task.jobId = 0

namespace Fleet

variable {env : Env} {fleet after : Fleet} {label : Label} {jobId : Str} {chunkIndex : ℕ}

/-- What holds in every state of a run in which workers die early only: a chunk that is in a hand is in one hand and
not done, a job is assembled when all its chunks are done, and a last attempt that has failed is being given up or has
failed its job for good. -/
structure Guarded (env : Env) (fleet : Fleet) : Prop extends Burnt env fleet where
  counted : fleet.world.db.Counted
  held : ∀ jobId chunkIndex, (holding env jobId chunkIndex).total fleet ≤ 1
  unfinished : ∀ jobId chunkIndex, 0 < (holding env jobId chunkIndex).total fleet →
    fleet.world.db.Unfinished jobId chunkIndex
  assembling : ∀ agent ∈ fleet.agents, agent.Assembles fleet.world
  finished : ∀ jobId job, fleet.world.db.getJob jobId = some job → job.status = .done →
    fleet.world.db.openChunks jobId = 0

theorem Regular.proper (regular : Regular env fleet) : fleet.Proper env :=
  fun owner origin task phase calls member => (regular.agents (.handler owner origin task phase calls) member).1

/-- A handler with its chunk in hand has a chunk that is not done. -/
theorem Guarded.of_holds (guarded : Guarded env fleet) {owner : Str} {origin : ℕ} {task : ChunkTask}
    {phase : Handler.Phase} {calls : List Step} (member : .handler owner origin task phase calls ∈ fleet.agents)
    (holds : phase.stage.holds = true) :
    0 < (holding env task.jobId task.chunkIndex).total fleet ∧
      fleet.world.db.Unfinished task.jobId task.chunkIndex := by
  have weight := (holding env task.jobId task.chunkIndex).agent_le_total member
  simp only [holding_handler, holds, Body.isOf, decide_true, Bool.and_self, if_true] at weight
  exact ⟨weight, guarded.unfinished _ _ weight⟩

/-- The statement of a step spares the chunks that are done. -/
theorem Guarded.spares (guarded : Guarded env fleet) {stmt : Stmt} (wrote : Wrote fleet after stmt) {error : Str}
    (fails : stmt = .failChunk jobId chunkIndex error) : fleet.world.db.Unfinished jobId chunkIndex := by
  subst fails
  cases wrote with
  | mild mild => cases mild
  | created creates => cases creates
  | handled found moved does broker =>
    obtain ⟨rfl, rfl, stage, _⟩ := does
    exact (guarded.of_holds (found ▸ List.mem_append_right _ (List.mem_cons_self ..)) (by rw [stage]; rfl)).2

theorem Guarded.sparesDone (guarded : Guarded env fleet) {stmt : Stmt} (wrote : Wrote fleet after stmt) :
    stmt.sparesDone fleet.world.db = true := by
  cases stmt with
  | failChunk jobId chunkIndex error =>
    obtain ⟨status, found, opened⟩ := guarded.spares wrote rfl
    simp only [Stmt.sparesDone, Bool.or_eq_true, List.all_eq_true, decide_eq_true_eq]
    refine .inl fun row member => ?_
    by_cases named : row.jobId = jobId
    · by_cases numbered : row.chunkIndex = chunkIndex
      · refine .inr fun done => opened ?_
        have same := (Database.chunkStatus_eq_some_iff _ _ _ _).mpr ⟨row, member, named, numbered, done⟩
        exact Option.some.inj (found.symm.trans same)
      · exact .inl (.inr numbered)
    · exact .inl (.inl named)
  | _ => rfl

/-- A handler that lets go of its chunk takes a hand from it. -/
theorem holding_released (env : Env) {before rest : List Agent} {owner : Str} {origin : ℕ} {task : ChunkTask}
    {phase next : Handler.Phase} {calls more : List Step}
    (found : fleet.agents = before ++ .handler owner origin task phase calls :: rest)
    (moved : after.agents = before ++ .handler owner origin task next more :: rest)
    (broker : after.world.broker = fleet.world.broker) (holds : phase.stage.holds = true)
    (leaves : next.stage.holds = false) :
    (holding env task.jobId task.chunkIndex).total after + 1 =
      (holding env task.jobId task.chunkIndex).total fleet := by
  have past (trace : List Event) : (trace.map (holding env task.jobId task.chunkIndex).event).sum = 0 :=
    List.sum_eq_zero fun weight member => by
      obtain ⟨event, _, rfl⟩ := List.mem_map.mp member
      rfl
  simp only [Ledger.total, found, moved, broker, past, List.map_append, List.map_cons, List.sum_append, List.sum_cons,
    holding_handler, holds, leaves, Body.isOf, decide_true, Bool.and_self, Bool.false_and, Bool.false_eq_true, if_true,
    if_false]
  omega

/-- The chunk that a step completes is in no hand after it. -/
theorem Guarded.completed (guarded : Guarded env fleet) {stmt : Stmt} (wrote : Wrote fleet after stmt) {s3Key : Str}
    (completes : stmt = .completeChunk jobId chunkIndex s3Key) :
    0 < (holding env jobId chunkIndex).total fleet ∧ (holding env jobId chunkIndex).total after = 0 := by
  subst completes
  cases wrote with
  | mild mild => cases mild
  | created creates => cases creates
  | @handled _ _ _ _ task _ _ _ _ found moved does broker =>
    obtain ⟨rfl, rfl, rfl, leads⟩ := does
    have released := holding_released env found moved (broker rfl) rfl (by rw [leads]; split <;> rfl)
    have once := guarded.held task.jobId task.chunkIndex
    exact ⟨by omega, by omega⟩

theorem Guarded.unfinished_of_stepped (guarded : Guarded env fleet) (early : DiesEarly env fleet label)
    (stepped : Stepped env fleet label after) (handed : 0 < (holding env jobId chunkIndex).total after) :
    after.world.db.Unfinished jobId chunkIndex := by
  have grows := holding_of_stepped jobId chunkIndex guarded.toRegular guarded.counted early stepped
  obtain ⟨stmt, db, wrote⟩ := wrote_of_stepped guarded.toRegular.proper early.calm stepped
  split_ifs at grows with created
  · exact ⟨.pending, created.2, ChunkStatus.noConfusion⟩
  · rw [db]
    refine (guarded.unfinished jobId chunkIndex (by omega)).exec stmt fun s3Key completes => ?_
    have none := (guarded.completed wrote completes).2
    omega

theorem Guarded.held_of_stepped (guarded : Guarded env fleet) (early : DiesEarly env fleet label)
    (stepped : Stepped env fleet label after) : (holding env jobId chunkIndex).total after ≤ 1 := by
  have grows := holding_of_stepped jobId chunkIndex guarded.toRegular guarded.counted early stepped
  have once := guarded.held jobId chunkIndex
  split_ifs at grows with created
  · cases none : (holding env jobId chunkIndex).total fleet with
    | zero => omega
    | succ weight =>
      obtain ⟨status, found, _⟩ := guarded.unfinished jobId chunkIndex (by omega)
      cases created.1.symm.trans found
  · omega

/-- The chunks of a job that are all done stay so. -/
theorem Guarded.openChunks_of_wrote (guarded : Guarded env fleet) {stmt : Stmt} (wrote : Wrote fleet after stmt)
    {job : JobRow} (found : fleet.world.db.getJob jobId = some job) (none : fleet.world.db.openChunks jobId = 0) :
    (stmt.exec fleet.world.db).2.openChunks jobId = 0 :=
  Database.openChunks_exec_eq_zero found none stmt fun _ _ fails => guarded.spares wrote fails

theorem Guarded.finished_of_stepped (guarded : Guarded env fleet) (early : DiesEarly env fleet label)
    (stepped : Stepped env fleet label after) {job : JobRow} (found : after.world.db.getJob jobId = some job)
    (done : job.status = .done) : after.world.db.openChunks jobId = 0 := by
  obtain ⟨stmt, db, wrote⟩ := wrote_of_stepped guarded.toRegular.proper early.calm stepped
  rw [db] at found ⊢
  rcases getJob_exec stmt found with ⟨row, before, change⟩ | ⟨_, _, _, _, _, _, _, _, rfl⟩
  · refine guarded.openChunks_of_wrote wrote before ?_
    cases change with
    | same => exact guarded.finished _ _ before done
    | started | counted | failed => cases done
    | finished =>
      have named := ((Database.getJob_eq_some_iff _ _ _).mp before).2
      cases wrote with
      | mild mild => cases mild
      | created creates => cases creates
      | handled present moved does broker =>
        obtain ⟨same, stage, _⟩ := does
        rw [← named, same]
        exact (guarded.assembling _ (present ▸ List.mem_append_right _ (List.mem_cons_self ..)) stage).2
  · cases done

theorem Guarded.assembling_of_stepped (guarded : Guarded env fleet) (early : DiesEarly env fleet label)
    (stepped : Stepped env fleet label after) : ∀ agent ∈ after.agents, agent.Assembles after.world := by
  obtain ⟨stmt, db, wrote⟩ := wrote_of_stepped guarded.toRegular.proper early.calm stepped
  have kept {jobId : Str} (all : (∃ job, fleet.world.db.getJob jobId = some job) ∧
      fleet.world.db.openChunks jobId = 0) :
      (∃ job, after.world.db.getJob jobId = some job) ∧ after.world.db.openChunks jobId = 0 := by
    obtain ⟨⟨job, found⟩, none⟩ := all
    obtain ⟨later, same, _⟩ := jobChange stmt found
    rw [db]
    exact ⟨⟨later, same⟩, guarded.openChunks_of_wrote wrote found none⟩
  refine stepped.forall_agents Agent.Assembles guarded.assembling ?_ ?_ ?_ ?_ ?_
  · intro agent member holds
    cases agent with
    | producer => trivial
    | handler owner origin task phase calls => exact fun stage => kept (holds stage)
  · intro url useLlm _
    trivial
  · intro index owner origin task _ member stage
    cases stage
  · intros
    trivial
  · intro index fate owner origin task phase calls op onward reply before rest acts found position moves carried stage
    have advance := Handler.advance (guarded.toRegular.handler found).1 moves carried
      (early.durable (position ▸ acts) found (by rw [Agent.next, moves]; rfl))
    rcases advance.assembling stage with before | ⟨key, zero, same⟩
    · exact kept (guarded.assembling (.handler owner origin task phase calls)
        (found ▸ List.mem_append_right _ (List.mem_cons_self ..)) before)
    · rw [same]
      exact Database.openChunks_of_told zero (guarded.counted.counts _)

theorem Guarded.step (positive : 1 ≤ env.maxAttempts) (guarded : Guarded env fleet) (early : DiesEarly env fleet label)
    (stepped : Stepped env fleet label after) : Guarded env after := by
  refine ⟨guarded.toBurnt.step positive early stepped, ?_, ?_, ?_, ?_, ?_⟩
  · obtain ⟨stmt, db, wrote⟩ := wrote_of_stepped guarded.toRegular.proper early.calm stepped
    rw [db]
    exact guarded.counted.exec stmt (guarded.sparesDone wrote)
  · intro jobId chunkIndex
    exact guarded.held_of_stepped early stepped
  · intro jobId chunkIndex handed
    exact guarded.unfinished_of_stepped early stepped handed
  · exact guarded.assembling_of_stepped early stepped
  · intro jobId job found done
    exact guarded.finished_of_stepped early stepped found done

/-! ## Chunks that are given up -/

/-- A last attempt that has failed is being given up, or has failed its job for good. -/
def GivenUp (env : Env) (fleet : Fleet) (origin : ℕ) (task : ChunkTask) : Prop :=
  (∃ owner phase calls, .handler owner origin task phase calls ∈ fleet.agents ∧ phase.stage = .exhausting ∧
    calls.any Step.starts = true) ∨
  ((holding env task.jobId task.chunkIndex).total fleet = 0 ∧
    fleet.world.db.Unfinished task.jobId task.chunkIndex ∧
    ∃ job, fleet.world.db.getJob task.jobId = some job ∧ job.status = .failed)

/-- A failed job with a chunk that nobody has in hand stays so. -/
theorem Guarded.failed_of_stepped (guarded : Guarded env fleet) (early : DiesEarly env fleet label)
    (stepped : Stepped env fleet label after) {job : JobRow}
    (none : (holding env jobId chunkIndex).total fleet = 0)
    (unfinished : fleet.world.db.Unfinished jobId chunkIndex) (found : fleet.world.db.getJob jobId = some job)
    (failed : job.status = .failed) :
    (holding env jobId chunkIndex).total after = 0 ∧ after.world.db.Unfinished jobId chunkIndex ∧
      ∃ later, after.world.db.getJob jobId = some later ∧ later.status = .failed := by
  have grows := holding_of_stepped jobId chunkIndex guarded.toRegular guarded.counted early stepped
  obtain ⟨stmt, db, wrote⟩ := wrote_of_stepped guarded.toRegular.proper early.calm stepped
  refine ⟨?_, ?_, ?_⟩
  · obtain ⟨status, present, _⟩ := unfinished
    rw [present, none] at grows
    simpa using grows
  · rw [db]
    refine unfinished.exec stmt fun s3Key completes => ?_
    have handed := (guarded.completed wrote completes).1
    omega
  · obtain ⟨later, same, change⟩ := jobChange stmt found
    rw [db]
    refine ⟨later, same, ?_⟩
    cases change with
    | same => exact failed
    | started _ queued => cases failed.symm.trans queued
    | failed => rfl
    | counted _ _ _ active =>
      rw [failed] at active
      cases active
    | finished =>
      have named := ((Database.getJob_eq_some_iff _ _ _).mp found).2
      cases wrote with
      | mild mild => cases mild
      | created creates => cases creates
      | handled present moved does broker =>
        obtain ⟨own, stage, _⟩ := does
        have all := (guarded.assembling _ (present ▸ List.mem_append_right _ (List.mem_cons_self ..)) stage).2
        rw [← own, named] at all
        exact absurd all unfinished.openChunks_ne_zero

/-- A handler that gives its chunk up goes on to do so until it has failed the job. -/
theorem Guarded.exhausting_of_handled (guarded : Guarded env fleet) {owner : Str} {origin : ℕ} {task : ChunkTask}
    {phase next : Handler.Phase} {calls : List Step} {world : World} {call : Step} {before rest : List Agent}
    {event : Event} (found : fleet.agents = before ++ .handler owner origin task phase calls :: rest)
    (advance : Handler.Advance env.toConfig origin task fleet.world phase world next)
    (stage : phase.stage = .exhausting) (started : calls.any Step.starts = true) :
    GivenUp env ⟨world, before ++ .handler owner origin task next (calls ++ [call]) :: rest, fleet.trace ++ [event]⟩
      origin task := by
  have still : (calls ++ [call]).any Step.starts = true := by
    rw [(Handler.any_call calls call).1, started, Bool.true_or]
  have goesOn (same : next.stage = .exhausting) : GivenUp env
      ⟨world, before ++ .handler owner origin task next (calls ++ [call]) :: rest, fleet.trace ++ [event]⟩ origin
        task :=
    .inl ⟨owner, next, calls ++ [call], List.mem_append_right _ (List.mem_cons_self ..), same, still⟩
  cases advance with
  | stay stmt same mild db broker => exact goesOn (same.trans stage)
  | park text => exact goesOn rfl
  | failChunk text => exact goesOn rfl
  | drop | retry | complete | finish | aborted => cases stage
  | exhaust carrying => cases stage.symm.trans carrying
  | abort assembling => cases stage.symm.trans assembling
  | failJob text =>
    obtain ⟨_, unfinished⟩ := guarded.of_holds (found ▸ List.mem_append_right _ (List.mem_cons_self ..)) (by rfl)
    have released : (holding env task.jobId task.chunkIndex).total
        ⟨{ fleet.world with db := fleet.world.db.failJob task.jobId text (some task.chunkIndex) },
          before ++ .handler owner origin task .failed (calls ++ [call]) :: rest, fleet.trace ++ [event]⟩ + 1 =
        (holding env task.jobId task.chunkIndex).total fleet := holding_released env found rfl rfl rfl rfl
    have once := guarded.held task.jobId task.chunkIndex
    refine .inr ⟨Nat.le_zero.mp (Nat.le_of_succ_le_succ (released.trans_le once)), unfinished, ?_⟩
    obtain ⟨status, chunk, _⟩ := id unfinished
    obtain ⟨row, member, named, _⟩ := (Database.chunkStatus_eq_some_iff _ _ _ _).mp chunk
    obtain ⟨job, owned⟩ := guarded.counted.owned row member
    rw [named] at owned
    exact Database.failed_of_failJob owned
      (fun done => unfinished.openChunks_ne_zero (guarded.finished _ _ owned done)) text (some task.chunkIndex)

private theorem mem_split {before rest : List Agent} {agent moved : Agent} (member : agent ∈ before ++ moved :: rest) :
    agent = moved ∨ agent ∈ before ++ rest ∧ ∀ new, agent ∈ before ++ new :: rest := by
  rcases List.mem_cons.mp (List.perm_middle.mem_iff.mp member) with same | old
  · exact .inl same
  · exact .inr ⟨old, fun _ => List.perm_middle.mem_iff.mpr (List.mem_cons_of_mem _ old)⟩

theorem Guarded.givenUp_of_stepped (guarded : Guarded env fleet) (early : DiesEarly env fleet label)
    (stepped : Stepped env fleet label after) {origin : ℕ} {task : ChunkTask}
    (givenUp : GivenUp env fleet origin task) :
    GivenUp env after origin task := by
  obtain ⟨owner, phase, calls, member, stage, started⟩ | ⟨none, unfinished, job, found, failed⟩ := givenUp
  · have stays (inside : .handler owner origin task phase calls ∈ after.agents) : GivenUp env after origin task :=
      .inl ⟨owner, phase, calls, inside, stage, started⟩
    cases stepped with
    | submit => exact stays (List.mem_append_left _ member)
    | deliver => exact stays (List.mem_append_left _ member)
    | expire => exact stays member
    | duplicate => exact absurd rfl (early.copies _)
    | produced found position moves carried =>
      rcases mem_split (found ▸ member) with same | ⟨_, inside⟩
      · cases same
      · exact stays (inside _)
    | handled found position moves carried =>
      rcases mem_split (found ▸ member) with same | ⟨_, inside⟩
      · cases same
        refine guarded.exhausting_of_handled found (Handler.advance (guarded.toRegular.handler found).1 moves carried
          (early.durable (position ▸ rfl) found (by rw [Agent.next, moves]; rfl))) stage started
      · exact stays (inside _)
    | finish found position ended =>
      rcases mem_split (found ▸ member) with same | ⟨inside, _⟩
      · subst same
        cases phase with
        | parking error sending | failingChunk error | failingJob error => cases ended
        | _ => cases stage
      · exact stays inside
    | crash found position =>
      rcases mem_split (found ▸ member) with same | ⟨inside, _⟩
      · subst same
        rcases early.early _ _ _ (position ▸ rfl) found with none | ⟨unstarted, _⟩
        · cases none
        · cases started.symm.trans unstarted
      · exact stays inside
  · obtain ⟨handed, opened, later⟩ := guarded.failed_of_stepped early stepped none unfinished found failed
    exact .inr ⟨handed, opened, later⟩

/-- Every last attempt that has failed is being given up, or has failed its job for good. -/
def Exhausted (env : Env) (fleet : Fleet) : Prop :=
  ∀ origin task call, .called (some ⟨origin, .task task⟩) call ∈ fleet.trace → call.failsConversion task = true →
    env.maxAttempts ≤ task.attempt → GivenUp env fleet origin task

theorem Guarded.exhausted_of_stepped (guarded : Guarded env fleet) (exhausted : Exhausted env fleet)
    (early : DiesEarly env fleet label) (stepped : Stepped env fleet label after) : Exhausted env after := by
  intro origin task call member fails last
  have old (past : .called (some ⟨origin, .task task⟩) call ∈ fleet.trace) : GivenUp env after origin task :=
    guarded.givenUp_of_stepped early stepped (exhausted origin task call past fails last)
  have before {event : Event} (inside : .called (some ⟨origin, .task task⟩) call ∈ fleet.trace ++ [event])
      (other : event ≠ .called (some ⟨origin, .task task⟩) call) : GivenUp env after origin task := by
    rcases List.mem_append.mp inside with past | new
    · exact old past
    · exact absurd (List.mem_singleton.mp new).symm other
  cases stepped with
  | submit | expire | duplicate => exact old member
  | deliver | finish | crash | produced => exact before member (by rintro ⟨⟩)
  | @handled index fate owner origin task phase calls op onward reply world front rest found position moves carried =>
    rcases List.mem_append.mp member with past | new
    · exact old past
    · cases List.mem_singleton.mp new
      obtain ⟨stage, started⟩ := Handler.exhausting_of_fails (guarded.toRegular.handler found).2.1 moves last fails
      exact .inl ⟨owner, _, _, List.mem_append_right _ (List.mem_cons_self ..), stage, started⟩

end Fleet

/-! ## The bound -/

namespace Deployment

/-- The attempts of a lineage are bounded: it starts no more conversions than there are attempts, no two of them at
one attempt number, and when a conversion at the last number fails, its handler is still at work or the job is
failed. -/
structure AttemptsBounded (env : Env) (state : Deployment) : Prop where
  started : ∀ origin,
    (((state.trace.filterMap Event.start?).filter fun start => start.1 = origin).length : ℤ) ≤ env.maxAttempts
  burnt : (state.trace.filterMap Event.start?).Nodup
  exhausted : ∀ origin task call, .called (some ⟨origin, .task task⟩) call ∈ state.trace →
    call.failsConversion task = true → env.maxAttempts ≤ task.attempt →
    (∃ proc ∈ state.procs, proc.message = some ⟨origin, .task task⟩) ∨
      ∃ job, state.world.db.getJob task.jobId = some job ∧ job.status = .failed

variable {env : Env}

theorem guarded_initial : Fleet.Guarded env ⟨initial.world, [], []⟩ where
  agents _ member := by cases member
  messages _ member := by cases member
  trace _ member := by cases member
  once _ _ := Nat.zero_le _
  counted := counted_initial
  held _ _ := Nat.zero_le _
  unfinished _ _ handed := absurd handed (Nat.lt_irrefl 0)
  assembling _ member := by cases member
  finished _ _ found := by cases found

/-- In every run in which statements and publishes are carried out and no worker dies that has started a conversion
or published, the attempts of every lineage are bounded. -/
theorem attemptsBounded_of_reaches (positive : 1 ≤ env.maxAttempts) {state : Deployment}
    (reached : Reaches (step env) (fun state label => state.diesEarly label = true) .initial state) :
    state.AttemptsBounded env := by
  obtain ⟨fleet, mirrors, guarded, exhausted⟩ := Fleet.Mirrors.invariant
    (fun fleet => Fleet.Guarded env fleet ∧ Fleet.Exhausted env fleet) reached Fleet.mirrors_initial
    ⟨guarded_initial, fun _ _ _ member => by cases member⟩
    fun state fleet label after mirrors holds early stepped =>
      ⟨holds.1.step positive (mirrors.diesEarly early) stepped,
        holds.1.exhausted_of_stepped holds.2 (mirrors.diesEarly early) stepped⟩
  refine ⟨fun origin => ?_, ?_, fun origin task call member fails last => ?_⟩
  · have short := guarded.toBurnt.length_le origin
    rw [mirrors.trace] at short
    omega
  · rw [← mirrors.trace]
    exact guarded.toBurnt.nodup
  · rcases exhausted origin task call (mirrors.trace ▸ member) fails last with
      ⟨owner, phase, calls, present, _⟩ | ⟨_, _, failed⟩
    · obtain ⟨before, rest, found⟩ := List.append_of_mem present
      obtain ⟨proc, at_, runs⟩ := mirrors.exists_proc found
      exact .inl ⟨proc, List.mem_of_getElem? at_, runs.1⟩
    · rw [mirrors.world] at failed
      exact .inr failed

/-- A worker dies before it converts; then the conversion fails three times, and the job with it. -/
theorem attemptsBounded_of_failed_job :
    ∃ state, Reaches (step (sampleEnv {})) (fun state label => state.diesEarly label = true) .initial state ∧
      (state.trace.filterMap Event.start?).length = 3 ∧
      (state.world.db.getJob (lit "job")).map (·.status) = some .failed ∧ state.AttemptsBounded (sampleEnv {}) := by
  have leads : Leads (step (sampleEnv {})) (fun state label => state.diesEarly label = true)
      (fun state => (state.trace.filterMap Event.start?).length = 3 ∧
        (state.world.db.getJob (lit "job")).map (·.status) = some .failed) .initial
      (Script.submits 0 [0] (lit "job") false ++ [.deliver 0 (lit "worker")] ++ Script.acts 0 4 ++ [.crash 0] ++
        Script.retries 0 ++ Script.retries 0 ++ [.deliver 0 (lit "worker")] ++ Script.fails 0 ++ Script.acts 0 4) := by
    decide +kernel
  obtain ⟨state, reached, starts, failed⟩ := leads.exists_reaches
  exact ⟨state, reached, starts, failed, attemptsBounded_of_reaches (by decide) reached⟩

/-- A worker that dies while it converts. -/
def diesConverting : List Label := .deliver 0 (lit "worker") :: Script.acts 0 5 ++ [.crash 0]

/-- Four workers die while they convert the same chunk at its first attempt. -/
theorem four_starts_of_three_attempts :
    ∃ state, Reaches (step (sampleEnv {})) (fun state label => state.calm label = true) .initial state ∧
      ¬ state.AttemptsBounded (sampleEnv {}) := by
  have leads : Leads (step (sampleEnv {})) (fun state label => state.calm label = true)
      (fun state => state.trace.filterMap Event.start? = [(0, 1), (0, 1), (0, 1), (0, 1)]) .initial
      (Script.submits 0 [0] (lit "job") false ++ diesConverting ++ diesConverting ++ diesConverting ++
        diesConverting) := by decide +kernel
  obtain ⟨state, reached, starts⟩ := leads.exists_reaches
  refine ⟨state, reached, fun bounded => ?_⟩
  have short := bounded.started 0
  rw [starts] at short
  exact absurd short (by decide)

end Deployment

end MarkitdownServer
