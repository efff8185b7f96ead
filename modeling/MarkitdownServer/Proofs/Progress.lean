import MarkitdownServer.Machine.Clients
import MarkitdownServer.Machine.Fleet
import MarkitdownServer.Proofs.Assembler
import MarkitdownServer.Proofs.Counter
import MarkitdownServer.Proofs.Availability

/-! # What a poll of a job shows

A poll reads the row of its job twice, the status first and the progress afterwards. The rows of a job only move
on, so a client that polls again after it has been answered never sees its job move back, and a job that is
shown as done is shown with all its chunks. Workers, expiry and failures may do what they like in between. That
no more chunks are shown as done than there are needs the condition on `fail_chunk` under which the counter is
right.
-/

namespace MarkitdownServer

open Effects Effects.Program Transition

/-! ## Rounding -/

theorem roundDiv_mono {numerator other : ℤ} {denominator : ℕ} (positive : 0 < denominator) (le : numerator ≤ other) :
    roundDiv numerator denominator ≤ roundDiv other denominator := by
  have natural : (0 : ℤ) < denominator := by exact_mod_cast positive
  have quotients : numerator / denominator ≤ other / denominator := Int.ediv_le_ediv natural le
  have first := Int.mul_ediv_add_emod numerator denominator
  have second := Int.mul_ediv_add_emod other denominator
  rcases Int.lt_or_eq_of_le quotients with less | same
  · simp only [roundDiv]
    split <;> split <;> omega
  · rw [same] at first
    simp only [roundDiv, same]
    split <;> split <;> omega

theorem roundDiv_mul (number : ℤ) {denominator : ℕ} (positive : 0 < denominator) :
    roundDiv (number * denominator) denominator = number := by
  have natural : (0 : ℤ) < denominator := by exact_mod_cast positive
  simp only [roundDiv, Int.mul_ediv_cancel number natural.ne', Int.mul_emod_left, Int.mul_zero, natural, true_or,
    if_true]

/-! ## The rows of a job move on -/

/-- How far a job has come. An unguarded `finish_job` may follow `fail_job`, so failed is below done. -/
def JobStatus.rank : JobStatus → ℕ
  | .queued => 0
  | .running => 1
  | .failed => 2
  | .done => 3

/-- A later row of the same job. -/
structure JobRow.Advances (row later : JobRow) : Prop where
  docKey : later.docKey = row.docKey
  total : later.totalChunks = row.totalChunks
  remaining : later.remainingChunks ≤ row.remainingChunks
  status : row.status.rank ≤ later.status.rank

theorem JobRow.Advances.refl (row : JobRow) : row.Advances row := ⟨rfl, rfl, Int.le_refl _, Nat.le_refl _⟩

theorem JobRow.Advances.trans {first second third : JobRow} (left : first.Advances second)
    (right : second.Advances third) : first.Advances third :=
  ⟨right.docKey.trans left.docKey, right.total.trans left.total, right.remaining.trans left.remaining,
    left.status.trans right.status⟩

theorem JobChange.advances {stmt : Stmt} {row after : JobRow} (change : JobChange stmt row after) :
    row.Advances after := by
  refine ⟨change.columns.2.1, change.columns.2.2.2.1, change.remaining_le, ?_⟩
  cases change with
  | same => exact Nat.le_refl _
  | started _ queued => simp only [queued, JobStatus.rank, Nat.zero_le]
  | counted _ _ active => cases status : row.status <;> simp_all [JobStatus.rank, JobStatus.isTerminal]
  | failed _ _ active => cases status : row.status <;> simp_all [JobStatus.rank, JobStatus.isTerminal]
  | finished =>
    have highest : row.status.rank ≤ 3 := by cases row.status <;> decide
    exact highest

/-- Jobs stay, and move on. -/
def World.Advances (world later : World) : Prop :=
  ∀ jobId row, world.db.getJob jobId = some row → ∃ after, later.db.getJob jobId = some after ∧ row.Advances after

theorem World.Advances.refl (world : World) : world.Advances world := fun _ row found => ⟨row, found, .refl row⟩

theorem World.Advances.trans {first second third : World} (left : first.Advances second)
    (right : second.Advances third) : first.Advances third := by
  intro jobId row found
  obtain ⟨middle, arrived, one⟩ := left jobId row found
  obtain ⟨later, there, two⟩ := right jobId middle arrived
  exact ⟨later, there, one.trans two⟩

theorem World.Advances.of_db {world later : World} (same : later.db = world.db) : world.Advances later :=
  fun _ row found => ⟨row, same ▸ found, .refl row⟩

/-- Whatever becomes of a call, the jobs move on. -/
theorem advances_carry {config : Config} {parent : Option Message} {world after : World} {fate : Fate} {op : Op}
    {reply : Except Exc op.Reply} (carried : op.carry config parent world fate = some (reply, after)) :
    world.Advances after := by
  cases op with
  | db stmt =>
    have executed : world.Advances { world with db := (stmt.exec world.db).2 } := by
      intro jobId row found
      obtain ⟨later, arrived, change⟩ := jobChange stmt found
      exact ⟨later, arrived, change.advances⟩
    rcases carry_db carried with ⟨_, _, rfl⟩ | ⟨_, _, _, rfl⟩ | ⟨_, _, _, rfl⟩
    · exact executed
    · exact .refl _
    · exact executed
  | s3 request =>
    rcases carry_s3 carried with ⟨_, _, rfl⟩ | ⟨_, _, _, rfl⟩ | ⟨_, _, _, rfl⟩ <;> exact .of_db rfl
  | amqp request =>
    rcases carry_amqp carried with ⟨_, _, rfl⟩ | ⟨_, _, _, rfl⟩ | ⟨_, _, _, rfl⟩ <;> exact .of_db rfl
  | tool request => exact .of_db (carry_tool carried ▸ rfl)

theorem Fleet.advances_of_stepped {env : Env} {fleet after : Fleet} {label : Label}
    (stepped : Fleet.Stepped env fleet label after) : fleet.world.Advances after.world := by
  cases stepped with
  | submit | deliver | duplicate | expire | finish | crash => exact .of_db rfl
  | produced found position moves carried | handled found position moves carried => exact advances_carry carried

/-! ## What is shown -/

/-- What a poll shows that reads the same row twice. -/
def JobRow.payload (row : JobRow) : JobPayload := ⟨row.jobId, row.status, row.docKey, row.progress, row.error⟩

/-- A poll shows at least what another one has shown. -/
structure JobPayload.Precedes (payload later : JobPayload) : Prop where
  docKey : later.docKey = payload.docKey
  status : payload.status.rank ≤ later.status.rank
  total : later.progress.total = payload.progress.total
  completed : payload.progress.completed ≤ later.progress.completed
  percent : payload.progress.percent ≤ later.progress.percent

theorem JobPayload.Precedes.trans {first second third : JobPayload} (left : first.Precedes second)
    (right : second.Precedes third) : first.Precedes third :=
  ⟨right.docKey.trans left.docKey, left.status.trans right.status, right.total.trans left.total,
    left.completed.trans right.completed, left.percent.trans right.percent⟩

theorem JobRow.Advances.percent_le {row later : JobRow} (advances : row.Advances later) :
    row.progress.percent ≤ later.progress.percent := by
  simp only [JobRow.progress, advances.total]
  split
  · exact Int.le_refl _
  · next positive =>
    refine roundDiv_mono (Nat.pos_of_ne_zero positive) ?_
    have fewer := advances.remaining
    omega

/-- The status of one row and the progress of a later one lie between what the two rows show. -/
theorem JobRow.Advances.payload {row later : JobRow} (advances : row.Advances later) :
    row.payload.Precedes { row.payload with progress := later.progress } ∧
      JobPayload.Precedes { row.payload with progress := later.progress } later.payload := by
  have fewer := advances.remaining
  have completed : row.progress.completed ≤ later.progress.completed := by
    simp only [JobRow.progress, advances.total]
    omega
  exact ⟨⟨rfl, Nat.le_refl _, advances.total, completed, advances.percent_le⟩,
    ⟨advances.docKey, advances.status, rfl, Int.le_refl _, Int.le_refl _⟩⟩

/-! ## The rows of the jobs add up -/

/-- No chunk is left, and there was one. -/
def JobRow.Emptied (row : JobRow) : Prop := row.remainingChunks ≤ 0 ∧ 1 ≤ row.totalChunks

theorem JobRow.Advances.emptied {row later : JobRow} (advances : row.Advances later) (emptied : row.Emptied) :
    later.Emptied := ⟨advances.remaining.trans emptied.1, advances.total ▸ emptied.2⟩

/-- The counter of an emptied job shows all its chunks. -/
theorem JobRow.Emptied.complete {row : JobRow} (emptied : row.Emptied) :
    row.progress.total ≤ row.progress.completed ∧ 100 ≤ row.progress.percent := by
  obtain ⟨none, some⟩ := emptied
  have positive : 0 < row.totalChunks := some
  refine ⟨by simp only [JobRow.progress]; omega, ?_⟩
  simp only [JobRow.progress, if_neg positive.ne']
  calc (100 : ℤ) = roundDiv (100 * row.totalChunks) row.totalChunks := (roundDiv_mul 100 positive).symm
    _ ≤ _ := roundDiv_mono positive (by omega)

/-- The counter of a job that has stayed within its bounds shows no more than there is. -/
theorem JobRow.bounded {row : JobRow} (natural : 0 ≤ row.remainingChunks)
    (below : row.remainingChunks ≤ row.totalChunks) :
    0 ≤ row.progress.completed ∧ row.progress.completed ≤ row.progress.total ∧ 0 ≤ row.progress.percent ∧
      row.progress.percent ≤ 100 := by
  refine ⟨by simp only [JobRow.progress]; omega, by simp only [JobRow.progress]; omega, ?_⟩
  simp only [JobRow.progress]
  split
  · decide
  · next some =>
    have positive : 0 < row.totalChunks := Nat.pos_of_ne_zero some
    refine ⟨?_, ?_⟩
    · calc (0 : ℤ) = roundDiv (0 * row.totalChunks) row.totalChunks := (roundDiv_mul 0 positive).symm
        _ ≤ _ := roundDiv_mono positive (by omega)
    · calc _ ≤ roundDiv (100 * row.totalChunks) row.totalChunks := roundDiv_mono positive (by omega)
        _ = 100 := roundDiv_mul 100 positive

namespace Database

/-- Done jobs are emptied; and if done chunks are spared, the counters are right and not below zero. -/
structure Orderly (spared : Prop) (db : Database) : Prop where
  below : ∀ jobId row, db.getJob jobId = some row → row.remainingChunks ≤ row.totalChunks
  emptied : ∀ jobId row, db.getJob jobId = some row → row.status = .done → row.Emptied
  counted : spared → db.Counted
  natural : spared → ∀ jobId row, db.getJob jobId = some row → 0 ≤ row.remainingChunks

variable {spared : Prop} {db : Database}

theorem orderly_initial : Orderly spared .empty :=
  ⟨fun _ _ found => (by cases found), fun _ _ found => (by cases found),
    fun _ => ⟨fun _ member => (by cases member), fun _ _ found => (by cases found), fun _ _ found => (by cases found)⟩,
    fun _ _ _ found => (by cases found)⟩

/-- A statement that spares done chunks and finishes emptied jobs only keeps the rows in order. -/
theorem Orderly.exec (orderly : db.Orderly spared) {stmt : Stmt} (spares : spared → stmt.sparesDone db)
    (finishes : ∀ jobId row, stmt = .finishJob jobId → db.getJob jobId = some row → row.Emptied) :
    (stmt.exec db).2.Orderly spared := by
  have counted (strict : spared) : (stmt.exec db).2.Counted := (orderly.counted strict).exec stmt (spares strict)
  refine ⟨fun jobId row found => ?_, fun jobId row found done => ?_, counted, fun strict jobId row found => ?_⟩
  · rcases getJob_exec stmt found with ⟨old, before, change⟩ | ⟨_, _, _, _, _, _, _, _, rfl⟩
    · have advances := change.advances
      have below := orderly.below jobId old before
      rw [advances.total]
      exact advances.remaining.trans below
    · exact Int.le_refl _
  · rcases getJob_exec stmt found with ⟨old, before, change⟩ | ⟨_, _, _, _, _, _, _, _, rfl⟩
    · cases change with
      | same => exact orderly.emptied jobId row before done
      | started | counted | failed => cases done
      | finished old => exact finishes _ old rfl (((getJob_eq_some_iff _ _ _).mp before).2 ▸ before)
    · cases done
  · rcases getJob_exec stmt found with ⟨old, before, change⟩ | ⟨_, _, _, _, _, _, _, _, rfl⟩
    · have nonneg := orderly.natural strict jobId old before
      cases change with
      | same | started | failed | finished => exact nonneg
      | counted => exact (counted strict).counts jobId _ found rfl ▸ Int.natCast_nonneg _
    · exact Int.natCast_nonneg _

end Database

theorem Database.Orderly.of_carry {spared : Prop} {config : Config} {parent : Option Message} {world after : World}
    {fate : Fate} {op : Op} {reply : Except Exc op.Reply} (orderly : world.db.Orderly spared)
    (carried : op.carry config parent world fate = some (reply, after))
    (fits : ∀ stmt, op = .db stmt → fate = .done ∨ (∃ error, fate = .lost error) →
      (spared → stmt.sparesDone world.db) ∧
        ∀ jobId row, stmt = .finishJob jobId → world.db.getJob jobId = some row → row.Emptied) :
    after.db.Orderly spared := by
  cases op with
  | db stmt =>
    rcases carry_db carried with ⟨done, _, rfl⟩ | ⟨_, _, _, rfl⟩ | ⟨error, lost, _, rfl⟩
    · obtain ⟨spares, finishes⟩ := fits stmt rfl (.inl done)
      exact orderly.exec spares finishes
    · exact orderly
    · obtain ⟨spares, finishes⟩ := fits stmt rfl (.inr ⟨error, lost⟩)
      exact orderly.exec spares finishes
  | s3 request => rcases carry_s3 carried with ⟨_, _, rfl⟩ | ⟨_, _, _, rfl⟩ | ⟨_, _, _, rfl⟩ <;> exact orderly
  | amqp request => rcases carry_amqp carried with ⟨_, _, rfl⟩ | ⟨_, _, _, rfl⟩ | ⟨_, _, _, rfl⟩ <;> exact orderly
  | tool request => exact carry_tool carried ▸ orderly

/-! ## Assemblers -/

namespace Handler

/-- There is such a job, and it is emptied. -/
def EmptiedJob (world : World) (jobId : Str) : Prop := ∃ row, world.db.getJob jobId = some row ∧ row.Emptied

/-- A handler assembles an emptied job. -/
def Told (world : World) (task : ChunkTask) : Phase → Prop
  | .loading => EmptiedJob world task.jobId
  | .listing job | .reading job _ _ _ | .writing job _ _ | .recording job _ | .finishing job =>
    EmptiedJob world job.jobId
  | _ => True

variable {config : Config} {owner : Str} {task : ChunkTask} {world after : World}

theorem EmptiedJob.later {jobId : Str} (emptied : EmptiedJob world jobId) (advances : world.Advances after) :
    EmptiedJob after jobId := by
  obtain ⟨row, found, none⟩ := emptied
  obtain ⟨later, arrived, moved⟩ := advances _ row found
  exact ⟨later, arrived, moved.emptied none⟩

theorem Told.later {phase : Phase} (told : Told world task phase) (advances : world.Advances after) :
    Told after task phase := by
  cases phase with
  | loading | listing | reading | writing | recording | finishing => exact EmptiedJob.later told advances
  | _ => trivial

theorem told_failure (error : Exc) : Told world task (failure config task error) := by
  unfold failure
  split <;> trivial

theorem told_gather {job : JobRow} (emptied : EmptiedJob world job.jobId) (parts : List Str) (indices : List ℕ) :
    Told world task (gather job parts indices) := by
  cases indices <;> exact emptied

/-- Whoever is told that no chunk is left leaves an emptied job. -/
theorem emptied_of_zero {db : Database} {jobId s3Key : Str} {chunkIndex : ℕ}
    (below : ∀ jobId row, db.getJob jobId = some row → row.remainingChunks ≤ row.totalChunks)
    (zero : (db.completeChunk jobId chunkIndex s3Key).1 = 0) :
    ∃ row, (db.completeChunk jobId chunkIndex s3Key).2.getJob jobId = some row ∧ row.Emptied := by
  have completed : (Stmt.completeChunk jobId chunkIndex s3Key).completion jobId db = some 0 := by
    simp only [Stmt.completion, if_true, zero]
  obtain ⟨row, later, found, one, arrived, none⟩ := remaining_of_completion completed (Int.le_refl 0)
  obtain ⟨_, same, change⟩ := jobChange (.completeChunk jobId chunkIndex s3Key) found
  cases arrived.symm.trans same
  have least := below jobId row found
  refine ⟨later, arrived, by omega, ?_⟩
  rw [change.advances.total]
  omega

theorem Told.step {phase : Phase} {op : Op} {onward : Except Exc op.Reply → Phase} {reply : Except Exc op.Reply}
    {parent : Option Message} {fate : Fate} (told : Told world task phase)
    (below : ∀ jobId row, world.db.getJob jobId = some row → row.remainingChunks ≤ row.totalChunks)
    (moves : step config owner task phase = some ⟨op, onward⟩)
    (carried : op.carry config parent world fate = some (reply, after)) : Told after task (onward reply) := by
  have advances := advances_carry carried
  cases phase with
  | dropped | counted | finished | aborted | failed | retried | escaped => cases moves
  | looking | startingRow | startingJob | finishing | aborting | failingChunk | failingJob | rescheduling =>
    cases moves
    dsimp only
    split <;> (try split) <;> trivial
  | fetching | preparing | converting | storing =>
    cases moves
    dsimp only
    split <;> first | trivial | exact told_failure _
  | parking | retrying =>
    obtain ⟨request, rfl⟩ := Sending.op_of_step moves
    exact Sending.onward_of_step (Told after task) moves (fun _ _ => trivial) trivial (fun _ => trivial) reply
  | completing =>
    cases moves
    rcases carry_db carried with ⟨_, rfl, rfl⟩ | ⟨_, _, rfl, _⟩ | ⟨_, _, rfl, _⟩
    · simp only [Stmt.exec]
      split
      · next zero => exact emptied_of_zero below zero
      · trivial
    · trivial
    · trivial
  | loading =>
    cases moves
    have emptied := EmptiedJob.later told advances
    rcases carry_db carried with ⟨_, rfl, rfl⟩ | ⟨_, _, rfl, _⟩ | ⟨_, _, rfl, _⟩
    · simp only [Stmt.exec]
      cases found : world.db.getJob task.jobId with
      | none => trivial
      | some job =>
        have named := ((Database.getJob_eq_some_iff _ _ _).mp found).2
        rw [← named] at emptied
        exact emptied
    · trivial
    · trivial
  | listing job | reading job _ _ _ =>
    cases moves
    have emptied := EmptiedJob.later told advances
    dsimp only
    split <;> first | trivial | exact told_gather emptied _ _
  | writing job =>
    have emptied := EmptiedJob.later told advances
    simp only [Handler.step] at moves
    split at moves <;> cases moves <;> dsimp only <;> split <;> first | exact emptied | trivial
  | recording job =>
    cases moves
    have emptied := EmptiedJob.later told advances
    dsimp only
    split <;> first | exact emptied | trivial

/-- Only emptied jobs are finished. -/
theorem Told.finishes {phase : Phase} {jobId : Str} {row : JobRow}
    {onward : Except Exc (Op.db (.finishJob jobId)).Reply → Phase} (told : Told world task phase)
    (moves : Handler.step config owner task phase = some ⟨.db (.finishJob jobId), onward⟩)
    (found : world.db.getJob jobId = some row) : row.Emptied := by
  cases phase with
  | finishing job =>
    cases moves
    obtain ⟨other, same, emptied⟩ := told
    cases found.symm.trans same
    exact emptied
  | parking | retrying =>
    obtain ⟨request, same⟩ := Sending.op_of_step moves
    cases same
  | writing job =>
    simp only [Handler.step] at moves
    split at moves <;> cases moves
  | _ => cases moves

end Handler

namespace Fleet

def AgentTold (world : World) : Agent → Prop
  | .producer .. => True
  | .handler _ _ task phase _ => Handler.Told world task phase

variable {spared : Prop} {env : Env} {state : Deployment} {fleet after : Fleet} {label : Label}

/-- A statement that is carried out meets the condition of the run. -/
theorem spares_of_pending {index : ℕ} {fate : Fate} {stmt : Stmt} (pending : state.pending index = some (.db stmt))
    (allowed : state.sparesDone (.act index fate)) (executed : fate = .done ∨ ∃ error, fate = .lost error) :
    stmt.sparesDone state.world.db := by
  have statement : state.statement (.act index fate) = some stmt := by
    rcases executed with rfl | ⟨error, rfl⟩ <;> simp only [Deployment.statement, pending]
  simp only [Deployment.sparesDone, statement] at allowed
  exact allowed

/-- A producer finishes no job. -/
theorem producer_finishes_nothing {url : Str} {useLlm : Bool} {phase : Producer.Phase} {jobId : Str}
    {onward : Except Exc (Op.db (.finishJob jobId)).Reply → Producer.Phase} :
    Producer.step env url useLlm phase ≠ some ⟨.db (.finishJob jobId), onward⟩ := by
  intro moves
  cases phase with
  | publishing =>
    obtain ⟨request, same⟩ := Sending.op_of_step moves
    cases same
  | _ => cases moves

theorem orderly_of_stepped (mirrors : Mirrors env state fleet) (orderly : fleet.world.db.Orderly spared)
    (told : ∀ agent ∈ fleet.agents, AgentTold fleet.world agent) (allowed : spared → state.sparesDone label)
    (stepped : Stepped env fleet label after) : after.world.db.Orderly spared := by
  have spares {before rest : List Agent} {agent : Agent} {index : ℕ} {fate : Fate} {stmt : Stmt}
      (labeled : label = .act index fate) (found : fleet.agents = before ++ agent :: rest)
      (position : before.length = index) (next : agent.next env = some (.db stmt))
      (executed : fate = .done ∨ ∃ error, fate = .lost error) (strict : spared) : stmt.sparesDone fleet.world.db := by
    subst labeled
    rw [mirrors.world]
    exact spares_of_pending (position ▸ mirrors.pending found next) (allowed strict) executed
  cases stepped with
  | submit | deliver | duplicate | expire | finish | crash => exact orderly
  | produced found position moves carried =>
    refine orderly.of_carry carried ?_
    rintro stmt rfl executed
    refine ⟨spares rfl found position (by simp only [Agent.next, moves, Option.map_some]) executed, ?_⟩
    rintro jobId row rfl
    exact absurd moves producer_finishes_nothing
  | @handled _ _ owner origin task phase calls _ _ _ _ _ _ found position moves carried =>
    have holds : Handler.Told fleet.world task phase := told (.handler owner origin task phase calls)
      (found ▸ List.mem_append_right _ (List.mem_cons_self ..))
    refine orderly.of_carry carried ?_
    rintro stmt rfl executed
    refine ⟨spares rfl found position (by simp only [Agent.next, moves, Option.map_some]) executed, ?_⟩
    rintro jobId row rfl same
    exact holds.finishes moves same

theorem agentTold_of_stepped (orderly : fleet.world.db.Orderly spared)
    (told : ∀ agent ∈ fleet.agents, AgentTold fleet.world agent) (stepped : Stepped env fleet label after) :
    ∀ agent ∈ after.agents, AgentTold after.world agent := by
  refine stepped.forall_agents AgentTold told ?_ (fun _ _ _ => trivial) (fun _ _ _ _ _ _ => trivial)
    (fun _ _ _ _ _ _ _ _ _ _ _ _ _ _ _ _ => trivial) ?_
  · intro agent _ holds
    cases agent with
    | producer => trivial
    | handler => exact Handler.Told.later holds (advances_of_stepped stepped)
  · intro _ _ owner origin task phase calls op onward reply before rest _ found _ moves carried
    have holds : Handler.Told fleet.world task phase := told (.handler owner origin task phase calls)
      (found ▸ List.mem_append_right _ (List.mem_cons_self ..))
    exact holds.step orderly.below moves carried

end Fleet

/-! ## Polls -/

/-- A call of an API pod neither finishes a job nor fails a chunk. -/
theorem served_keeps {spared : Prop} {env : Env} {world after : World} {op : Op} {reply : Except Exc op.Reply}
    (served : ServedOp env op) (orderly : world.db.Orderly spared)
    (carries : Carries env.toConfig world op reply after) : after.db.Orderly spared ∧ world.Advances after := by
  obtain ⟨fate, carried⟩ := carries
  refine ⟨orderly.of_carry carried ?_, advances_carry carried⟩
  rintro stmt rfl _
  cases stmt with
  | findCachedDocument | createJob | getJob => exact ⟨fun _ => rfl, by rintro _ _ ⟨⟩⟩
  | _ => cases served

/-- What is right about every poll: a done job is shown with all its chunks; and if done chunks are spared, no
poll shows more than there is. -/
structure JobPayload.Sound (spared : Prop) (payload : JobPayload) : Prop where
  finished : payload.status = .done →
    payload.progress.total ≤ payload.progress.completed ∧ 100 ≤ payload.progress.percent
  bounded : spared → 0 ≤ payload.progress.completed ∧ payload.progress.completed ≤ payload.progress.total ∧
    0 ≤ payload.progress.percent ∧ payload.progress.percent ≤ 100

theorem JobRow.Advances.sound {spared : Prop} {first second : World} {jobId : Str} {row later : JobRow}
    (advances : row.Advances later) (early : first.db.Orderly spared) (late : second.db.Orderly spared)
    (found : first.db.getJob jobId = some row) (arrived : second.db.getJob jobId = some later) :
    JobPayload.Sound spared { row.payload with progress := later.progress } :=
  ⟨fun done => (advances.emptied (early.emptied jobId row found done)).complete,
    fun strict => JobRow.bounded (late.natural strict jobId later arrived) (late.below jobId later arrived)⟩

namespace Cluster

variable {pod : Pod} {spared : Prop}

/-- The answers to polls of a job. -/
def shown (jobId : Str) (exchanges : List Exchange) : Set JobPayload :=
  {payload | ∃ exchange ∈ exchanges, exchange.route = .job jobId ∧ exchange.result = .ok (some (.job payload))}

/-- A poll shows at least what the polls before it have shown, and no more than the row of the job. -/
def watched (spared : Prop) : Promise := fun past visit result _ world =>
  ∀ jobId payload, visit.route = .job jobId → result = .ok (some (.job payload)) →
    (∃ row, world.db.getJob jobId = some row ∧ payload.Precedes row.payload) ∧
      (∀ earlier ∈ shown jobId past, earlier.Precedes payload) ∧ payload.Sound spared

/-- A program that lets the jobs move on among others that do. -/
abbrev Watched {α : Type} (spared : Prop) (config : Config) (post : Except Exc α → List Step → World → Prop)
    (program : Prog α) (calls : List Step) (world : World) : Prop :=
  program.Withstands (Carries config) (fun world => world.db.Orderly spared) World.Advances post calls world

/-- A poll reads the status in one world and the progress in a later one. -/
theorem watched_getJobEndpoint {jobId : Str} {seen : Set JobPayload} {calls : List Step} {world : World}
    (known : ∀ earlier ∈ seen, ∃ row, world.db.getJob jobId = some row ∧ earlier.Precedes row.payload) :
    Watched spared pod.toConfig (OnOk fun payload _ later =>
      (∃ row, later.db.getJob jobId = some row ∧ payload.Precedes row.payload) ∧
        (∀ earlier ∈ seen, earlier.Precedes payload) ∧ payload.Sound spared)
      (Api.getJobEndpoint jobId) calls world := by
  have reads {id : Str} : ServedOp pod.toEnv (.db (.getJob id)) := trivial
  refine Withstands.perform_bind (fun _ _ _ orderly _ => served_keeps reads orderly) ?_
    (fun _ _ _ _ _ _ _ _ _ => trivial)
  intro _ found early orderly _ grown carries
  obtain ⟨rfl, rfl⟩ := carries.getJob
  cases present : early.db.getJob jobId with
  | none => exact fun _ _ _ => trivial
  | some row =>
    have named := ((Database.getJob_eq_some_iff _ _ _).mp present).2
    have before : ∀ earlier ∈ seen, earlier.Precedes row.payload := by
      intro earlier member
      obtain ⟨old, there, precedes⟩ := known earlier member
      obtain ⟨now, same, advances⟩ := grown jobId old there
      cases present.symm.trans same
      exact precedes.trans (advances.payload.1.trans advances.payload.2)
    have progress : Watched spared pod.toConfig (OnOk fun progress _ later => ∃ (late : World) (after : JobRow),
        late.db.Orderly spared ∧ late.db.getJob jobId = some after ∧ row.Advances after ∧ late.Advances later ∧
          progress = after.progress)
        (Api.jobProgress row.jobId) (calls ++ [⟨.db (.getJob jobId), .ok (some row)⟩]) early := by
      refine Withstands.perform_bind (fun _ _ _ orderly _ => served_keeps reads orderly) ?_
        (fun _ _ _ _ _ _ _ _ _ => trivial)
      intro _ value late orderly _ moved carries
      obtain ⟨rfl, rfl⟩ := carries.getJob
      obtain ⟨after, arrived, advances⟩ := moved jobId row present
      rw [named, arrived]
      exact fun later _ onward => ⟨late, after, orderly, arrived, advances, onward, rfl⟩
    refine Withstands.bind World.Advances.refl progress ?_ fun _ _ _ _ _ => trivial
    rintro _ _ now _ ⟨late, after, settled, arrived, advances, onward, rfl⟩
    intro later _ further
    obtain ⟨latest, there, last⟩ := onward.trans further jobId after arrived
    refine ⟨⟨latest, there, advances.payload.2.trans (last.payload.1.trans last.payload.2)⟩,
      fun earlier member => (before earlier member).trans advances.payload.1, ?_⟩
    exact advances.sound orderly settled present arrived

theorem lasting_watched : Lasting World.Advances (watched spared) := by
  refine ⟨World.Advances.refl, World.Advances.trans, ?_⟩
  intro past visit result calls world later holds grown jobId payload route answered
  obtain ⟨⟨row, found, precedes⟩, rest⟩ := holds jobId payload route answered
  obtain ⟨after, arrived, advances⟩ := grown jobId row found
  exact ⟨⟨after, arrived, precedes.trans (advances.payload.1.trans advances.payload.2)⟩, rest⟩

/-- Whatever a request is for, it keeps its promise as a poll, if those before it have kept theirs. -/
theorem watched_serveRoute {state : Cluster} (xApiKey : Option Str) (route : Route) (since : ℕ)
    (kept : ∀ exchange ∈ state.exchanges,
      watched spared (state.exchanges.take exchange.since) exchange.toVisit exchange.result exchange.calls state.world) :
    Watched spared pod.toConfig (watched spared state.exchanges ⟨xApiKey, route, since⟩)
      (Api.serveRoute pod xApiKey route) [] state.world := by
  have others (noPoll : ∀ jobId, route ≠ .job jobId) :
      Watched spared pod.toConfig (watched spared state.exchanges ⟨xApiKey, route, since⟩)
        (Api.serveRoute pod xApiKey route) [] state.world := by
    have made : (Api.serveRoute pod xApiKey route).Makes (ServedOp pod.toEnv) := Api.serveRoute_makes _ _
    have keeps : Watched spared pod.toConfig (fun _ _ _ => True) (Api.serveRoute pod xApiKey route) [] state.world :=
      made.withstands fun _ _ _ _ => served_keeps
    exact keeps.weaken fun _ _ _ _ _ jobId _ polled => absurd polled (noPoll jobId)
  cases route with
  | convert | asyncConvert | page => exact others (by rintro _ ⟨⟩)
  | job jobId =>
    unfold Api.serveRoute
    cases Api.verifyApiKey pod xApiKey with
    | error error => exact fun _ _ _ _ _ _ raised => by cases raised
    | ok key =>
      have known : ∀ earlier ∈ shown jobId state.exchanges,
          ∃ row, state.world.db.getJob jobId = some row ∧ earlier.Precedes row.payload := by
        rintro earlier ⟨exchange, closed, polled, answered⟩
        exact (kept exchange closed jobId earlier polled answered).1
      simp only [Program.ofExcept, monad_bind, pure_bind]
      refine Withstands.bind World.Advances.refl (watched_getJobEndpoint known) ?_ ?_
      · intro payload seen after _ holds later _ further other answer same answered
        cases same
        cases answered
        obtain ⟨⟨row, found, precedes⟩, rest⟩ := holds
        obtain ⟨latest, arrived, advances⟩ := further _ row found
        exact ⟨⟨latest, arrived, precedes.trans (advances.payload.1.trans advances.payload.2)⟩, rest⟩
      · exact fun _ _ _ _ _ _ _ _ raised => by cases raised

/-! ## Runs -/

/-- No `fail_chunk` of a done chunk of an active job. -/
def sparesDone (state : Cluster) : Move → Bool
  | .backend label => state.backend.sparesDone label
  | _ => true

/-- The rows of the jobs are in order, and the assemblers are right about theirs. -/
def Kept (spared : Prop) (env : Env) (state : Cluster) : Prop :=
  ∃ fleet, Fleet.Mirrors env state.backend fleet ∧ fleet.world.db.Orderly spared ∧
    ∀ agent ∈ fleet.agents, Fleet.AgentTold fleet.world agent

theorem Kept.setWorld {state : Cluster} {world : World} (kept : state.Kept spared pod.toEnv)
    (orderly : world.db.Orderly spared) (advances : state.world.Advances world) :
    (state.setWorld world).Kept spared pod.toEnv := by
  obtain ⟨fleet, mirrors, _, told⟩ := kept
  refine ⟨{ fleet with world }, ⟨rfl, mirrors.trace, mirrors.agents⟩, orderly, fun agent member => ?_⟩
  have holds := told agent member
  cases agent with
  | producer => trivial
  | handler => exact Handler.Told.later holds (mirrors.world ▸ advances)

theorem kept_of_step {state next : Cluster} {move : Move} (kept : state.Kept spared pod.toEnv)
    (upholds : state.Upholds (Carries pod.toConfig) (fun world => world.db.Orderly spared) World.Advances
      (watched spared))
    (allowed : spared → state.sparesDone move) (stepped : step pod state move = some next) :
    next.Kept spared pod.toEnv ∧
      next.Upholds (Carries pod.toConfig) (fun world => world.db.Orderly spared) World.Advances (watched spared) := by
  have moved := moved_of_step stepped
  have inner {label : Label} {backend : Deployment} (labeled : move = .backend label)
      (runs : Deployment.step pod.toEnv state.backend label = some backend) :
      ∃ fleet, Fleet.Mirrors pod.toEnv backend fleet ∧ fleet.world.db.Orderly spared ∧
        (∀ agent ∈ fleet.agents, Fleet.AgentTold fleet.world agent) ∧ state.world.Advances fleet.world := by
    subst labeled
    obtain ⟨fleet, mirrors, orderly, told⟩ := kept
    obtain ⟨after, steps, mirrored⟩ := mirrors.stepped runs
    have advances := Fleet.advances_of_stepped steps
    rw [mirrors.world] at advances
    exact ⟨after, mirrored, Fleet.orderly_of_stepped mirrors orderly told allowed steps,
      Fleet.agentTold_of_stepped orderly told steps, advances⟩
  have after := upholds.moved lasting_watched moved ?_ (fun key _ => ⟨upholds.world, .of_db rfl⟩)
    (fun _ fate _ _ _ _ carried => ⟨fate, carried⟩) fun xApiKey route _ =>
      watched_serveRoute xApiKey route _ upholds.exchanges
  · refine ⟨?_, after⟩
    cases moved with
    | backend inside runs =>
      obtain ⟨fleet, mirrors, orderly, told, _⟩ := inner rfl runs
      exact ⟨fleet, mirrors, orderly, told⟩
    | arrive | answer | abandon => exact kept
    | call found position at_ carried => exact kept.setWorld after.world (advances_carry carried)
    | vanish key => exact kept.setWorld upholds.world (.of_db rfl)
  · intro label backend labeled _ runs
    obtain ⟨fleet, mirrors, orderly, _, advances⟩ := inner labeled runs
    exact mirrors.world ▸ ⟨orderly, advances⟩

/-- In every run all polls have kept their promise. -/
theorem watched_of_reaches {state : Cluster}
    (reached : Reaches (step pod) (fun state move => spared → state.sparesDone move) .initial state)
    {exchange : Exchange} (closed : exchange ∈ state.exchanges) :
    watched spared (state.exchanges.take exchange.since) exchange.toVisit exchange.result exchange.calls
      state.world := by
  have start : initial.Kept spared pod.toEnv :=
    ⟨_, Fleet.mirrors_initial, Database.orderly_initial, fun _ member => (by cases member)⟩
  obtain ⟨_, upholds⟩ := reached.invariant ⟨start, upholds_initial Database.orderly_initial⟩
    fun _ _ _ holds allowed stepped => kept_of_step holds.1 holds.2 allowed stepped
  exact upholds.exchanges exchange closed

/-- In every run, whatever fails or expires, a poll that arrives after another poll of the same job has been
answered shows at least as much: no lower status, no fewer chunks, no smaller percentage of the same total. And a
job that is shown as done is shown with all its chunks. -/
theorem polls_advance {state : Cluster} (reached : Reaches (step pod) (fun _ _ => True) .initial state)
    {first second : Exchange} {jobId : Str} {earlier later : JobPayload} (closed : second ∈ state.exchanges)
    (before : first ∈ state.exchanges.take second.since) (firstRoute : first.route = .job jobId)
    (secondRoute : second.route = .job jobId) (firstResult : first.result = .ok (some (.job earlier)))
    (secondResult : second.result = .ok (some (.job later))) :
    earlier.Precedes later ∧
      (later.status = .done → later.progress.total ≤ later.progress.completed ∧ 100 ≤ later.progress.percent) := by
  have all : Reaches (step pod) (fun state move => False → state.sparesDone move) .initial state :=
    reached.mono fun _ _ _ => False.elim
  obtain ⟨_, precedes, sound⟩ := watched_of_reaches all closed jobId later secondRoute secondResult
  exact ⟨precedes earlier ⟨first, before, firstRoute, firstResult⟩, sound.finished⟩

/-- What a poll of a job was answered. -/
def polled (jobId : Str) (exchange : Exchange) : Option JobPayload :=
  match exchange.route, exchange.result with
  | .job other, .ok (some (.job payload)) => if other = jobId then some payload else none
  | _, _ => none

theorem polled_eq_some {jobId : Str} {exchange : Exchange} {payload : JobPayload}
    (answered : polled jobId exchange = some payload) :
    exchange.route = .job jobId ∧ exchange.result = .ok (some (.job payload)) := by
  unfold polled at answered
  split at answered
  · next other shown route result =>
    split_ifs at answered with same
    cases answered
    exact ⟨same ▸ route, result⟩
  · cases answered

/-- A client submits a file, and polls its job before and after the conversion. -/
def pollsTwice : List Move :=
  .arrive (some (lit "key")) (.asyncConvert (some ⟨some (lit "http://host/file"), none⟩)) ::
    sampleSubmission [0] (lit "job") ++ .answer 0 :: .arrive (some (lit "key")) (.job (lit "job")) :: callsDone 0 2 ++
    .answer 0 :: sampleConversion (lit "text") ++ .arrive (some (lit "key")) (.job (lit "job")) :: callsDone 0 2 ++
    [.answer 0]

/-- The job is queued in the first poll and done in the second one. -/
theorem polls_advance_of_converted_job :
    ∃ state first second earlier later, Reaches (step (samplePod {})) (fun _ _ => True) .initial state ∧
      first ∈ state.exchanges.take second.since ∧ polled (lit "job") first = some earlier ∧
      polled (lit "job") second = some later ∧ earlier.status = .queued ∧ later.status = .done ∧
      earlier.Precedes later ∧ later.progress.total ≤ later.progress.completed ∧ 100 ≤ later.progress.percent := by
  have leads : Leads (step (samplePod {})) (fun _ _ => True)
      (fun state => state.exchanges.map (fun exchange => (exchange.since, (polled (lit "job") exchange).map (·.status))) =
        [(0, none), (1, some .queued), (2, some .done)]) .initial pollsTwice := by decide +kernel
  obtain ⟨state, reached, holds⟩ := leads.exists_reaches
  obtain ⟨submission, rest, listed, _, others⟩ := List.map_eq_cons_iff.mp holds
  obtain ⟨first, last, rfl, one, others⟩ := List.map_eq_cons_iff.mp others
  obtain ⟨second, nobody, rfl, two, ends⟩ := List.map_eq_cons_iff.mp others
  cases List.map_eq_nil_iff.mp ends
  obtain ⟨earlier, shown, queued⟩ := Option.map_eq_some_iff.mp (congrArg Prod.snd one)
  obtain ⟨later, alsoShown, done⟩ := Option.map_eq_some_iff.mp (congrArg Prod.snd two)
  have since : second.since = 2 := congrArg Prod.fst two
  have before : first ∈ state.exchanges.take second.since := by simp [listed, since]
  obtain ⟨firstRoute, firstResult⟩ := polled_eq_some shown
  obtain ⟨secondRoute, secondResult⟩ := polled_eq_some alsoShown
  have closed : second ∈ state.exchanges := by simp [listed]
  obtain ⟨precedes, complete⟩ := polls_advance reached closed before firstRoute secondRoute firstResult secondResult
  exact ⟨state, first, second, earlier, later, reached, before, shown, alsoShown, queued, done, precedes,
    complete done⟩

/-- In every run without a `fail_chunk` of a done chunk of an active job no poll shows fewer chunks than none or
more than there are, and a job that is shown as done is shown with exactly its chunks. -/
theorem polls_bounded {state : Cluster}
    (reached : Reaches (step pod) (fun state move => state.sparesDone move) .initial state) {exchange : Exchange}
    {jobId : Str} {payload : JobPayload} (closed : exchange ∈ state.exchanges) (polled : exchange.route = .job jobId)
    (answered : exchange.result = .ok (some (.job payload))) :
    0 ≤ payload.progress.completed ∧ payload.progress.completed ≤ payload.progress.total ∧
      0 ≤ payload.progress.percent ∧ payload.progress.percent ≤ 100 ∧
      (payload.status = .done → payload.progress.completed = payload.progress.total ∧ payload.progress.percent = 100) := by
  have strict : Reaches (step pod) (fun state move => True → state.sparesDone move) .initial state :=
    reached.mono fun _ _ holds _ => holds
  obtain ⟨_, _, sound⟩ := watched_of_reaches strict closed jobId payload polled answered
  obtain ⟨low, high, least, most⟩ := sound.bounded trivial
  refine ⟨low, high, least, most, fun done => ?_⟩
  obtain ⟨all, full⟩ := sound.finished done
  exact ⟨Int.le_antisymm high all, Int.le_antisymm most full⟩

theorem polls_bounded_of_converted_job :
    ∃ state, Reaches (step (samplePod {})) (fun state move => state.sparesDone move) .initial state ∧
      ∃ exchange ∈ state.exchanges, ∃ payload, polled (lit "job") exchange = some payload ∧
        payload.status = .done ∧ payload.progress.completed = payload.progress.total ∧
        payload.progress.percent = 100 := by
  have leads : Leads (step (samplePod {})) (fun state move => state.sparesDone move)
      (fun state => state.exchanges.any fun exchange => (polled (lit "job") exchange).map (·.status) = some .done)
      .initial pollsTwice := by decide +kernel
  obtain ⟨state, reached, holds⟩ := leads.exists_reaches
  obtain ⟨exchange, closed, shows⟩ := List.any_eq_true.mp holds
  obtain ⟨payload, answered, done⟩ := Option.map_eq_some_iff.mp (of_decide_eq_true shows)
  obtain ⟨route, result⟩ := polled_eq_some answered
  obtain ⟨_, _, _, _, whole⟩ := polls_bounded reached closed route result
  exact ⟨state, reached, exchange, closed, payload, answered, done, whole done⟩

end Cluster

end MarkitdownServer
