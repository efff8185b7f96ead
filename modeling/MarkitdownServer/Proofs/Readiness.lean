import MarkitdownServer.Proofs.Layout
import MarkitdownServer.Proofs.Undisturbed

/-! # What an undisturbed handler brings along

When no call outside a conversion fails, a handler gives its chunk up only after the conversion has failed at the
last attempt. Until then a chunk is marked as done only once its part is stored, so an assembler that is told that
no chunk is left finds its job and every part.
-/

namespace MarkitdownServer

open Effects Transition

/-- The conversion of a task fails: a tool raises, or there is no source to fetch. -/
def Step.spoils (task : ChunkTask) : Step → Bool
  | ⟨.tool _, .error _⟩ => true
  | ⟨.s3 (.getObject _), .ok (some (.source _))⟩ => false
  | ⟨.s3 (.getObject key), _⟩ => key = sourceKey task.fileHash
  | _ => false

/-- The part of a chunk is stored. -/
def World.HasPart (world : World) (docKey : Str) (chunkIndex : ℕ) : Prop :=
  ∃ markdown, world.store (partKey docKey chunkIndex) = some (.text markdown)

namespace Handler

variable {config : Config} {owner : Str} {task : ChunkTask} {origin : ℕ} {world after : World} {phase : Phase} {op : Op}
  {onward : Except Exc op.Reply → Phase} {reply : Except Exc op.Reply} {fate : Fate}

private theorem stage_failure (error : Exc) :
    (failure config task error).stage = .exhausting → config.maxAttempts ≤ task.attempt := by
  unfold failure
  split
  · next last => exact fun _ => last
  · rintro ⟨⟩

private theorem converts_part (docKey : Str) (chunkIndex : ℕ) :
    (Op.s3 (.getObject (partKey docKey chunkIndex))).converts task = false :=
  decide_eq_false (partKey_ne_sourceKey docKey task.fileHash chunkIndex)

/-- A handler gives its chunk up when the conversion fails at the last attempt. -/
theorem spoils_of_exhausting (moves : step config owner task phase = some ⟨op, onward⟩)
    (carried : op.carry config (some ⟨origin, .task task⟩) world fate = some (reply, after))
    (done : op.converts task = false → fate = .done) (stage : (onward reply).stage = .exhausting) :
    phase.stage = .exhausting ∨ config.maxAttempts ≤ task.attempt ∧ Step.spoils task ⟨op, reply⟩ = true := by
  cases phase with
  | dropped | counted | finished | aborted | failed | retried | escaped => cases moves
  | parking | failingChunk | failingJob => exact .inl rfl
  | fetching =>
    cases moves
    refine .inr ?_
    rcases reply with error | _ | _ | _ | _ <;>
      first | exact ⟨stage_failure _ stage, decide_eq_true rfl⟩ | cases stage
  | preparing source | converting source =>
    cases moves
    refine .inr ?_
    cases reply with
    | ok => cases stage
    | error error => exact ⟨stage_failure _ stage, rfl⟩
  | storing markdown =>
    cases moves
    cases done rfl
    cases carried
    cases stage
  | looking | startingRow | startingJob | rescheduling | completing | loading | recording | finishing | aborting =>
    cases moves
    dsimp only at stage
    split at stage <;> (try split at stage) <;> cases stage
  | listing | reading =>
    cases moves
    dsimp only at stage
    split at stage <;> first | cases stage | cases (stage_gather _ _ _).symm.trans stage
  | writing =>
    simp only [Handler.step] at moves
    split at moves <;> cases moves <;> dsimp only at stage <;> split at stage <;> cases stage
  | retrying sending =>
    refine absurd stage (Sending.onward_of_step (fun phase => phase.stage ≠ .exhausting) moves (fun _ _ => ?_) ?_
      (fun _ => ?_) reply) <;> rintro ⟨⟩

/-- An assembler gives up when its job or one of the parts is missing. -/
theorem missing_of_aborting (moves : step config owner task phase = some ⟨op, onward⟩)
    (carried : op.carry config (some ⟨origin, .task task⟩) world fate = some (reply, after))
    (done : op.converts task = false → fate = .done) (stage : (onward reply).stage = .aborting) :
    phase.stage = .aborting ∨ (phase = .loading ∧ world.db.getJob task.jobId = none) ∨
      ∃ job parts index rest, phase = .reading job parts index rest ∧ ¬ world.HasPart job.docKey index := by
  have carries (error : Exc) : (failure config task error).stage ≠ .aborting := by
    unfold failure
    split <;> rintro ⟨⟩
  cases phase with
  | dropped | counted | finished | aborted | failed | retried | escaped => cases moves
  | aborting => exact .inl rfl
  | loading =>
    cases moves
    cases done rfl
    cases carried
    refine .inr (.inl ⟨rfl, ?_⟩)
    dsimp only [Stmt.exec] at stage
    cases found : world.db.getJob task.jobId with
    | none => rfl
    | some job =>
      rw [found] at stage
      cases stage
  | reading job parts index rest =>
    cases moves
    cases done (converts_part job.docKey index)
    cases carried
    refine .inr (.inr ⟨job, parts, index, rest, rfl, ?_⟩)
    rintro ⟨markdown, stored⟩
    dsimp only [S3.exec] at stage
    rw [stored] at stage
    cases (stage_gather _ _ _).symm.trans stage
  | looking =>
    cases moves
    dsimp only at stage
    split at stage <;> (try split at stage) <;> cases stage
  | startingRow | startingJob | rescheduling | recording | finishing | failingChunk | failingJob =>
    cases moves
    cases done rfl
    cases carried
    cases stage
  | completing =>
    cases moves
    dsimp only at stage
    split at stage <;> (try split at stage) <;> cases stage
  | listing job =>
    cases moves
    cases done rfl
    cases carried
    cases (stage_gather _ _ _).symm.trans stage
  | fetching | preparing | converting | storing =>
    cases moves
    dsimp only at stage
    split at stage <;> first | cases stage | exact absurd stage (carries _)
  | writing job parts written =>
    simp only [Handler.step] at moves
    split at moves <;> cases moves <;> cases done rfl <;> cases carried <;> cases stage
  | parking error sending =>
    refine absurd stage (Sending.onward_of_step (fun phase => phase.stage ≠ .aborting) moves (fun _ _ => ?_) ?_
      (fun _ => ?_) reply) <;> rintro ⟨⟩
  | retrying sending =>
    refine absurd stage (Sending.onward_of_step (fun phase => phase.stage ≠ .aborting) moves (fun _ _ => ?_) ?_
      (fun _ => ?_) reply) <;> rintro ⟨⟩

/-- A part that is stored stays stored. -/
theorem hasPart_of_step {docKey : Str} {chunkIndex : ℕ} (moves : step config owner task phase = some ⟨op, onward⟩)
    (carried : op.carry config (some ⟨origin, .task task⟩) world fate = some (reply, after))
    (stored : world.HasPart docKey chunkIndex) : after.HasPart docKey chunkIndex := by
  obtain ⟨markdown, found⟩ := stored
  have put {key : Str} {obj : Obj} {reply : Except Exc Unit}
      (carried : (Op.s3 (.putObject key obj)).carry config (some ⟨origin, .task task⟩) world fate = some (reply, after))
      (fits : key = partKey docKey chunkIndex → ∃ text, obj = .text text) : after.HasPart docKey chunkIndex := by
    have written : World.HasPart { world with store := world.store.put key obj } docKey chunkIndex := by
      by_cases same : partKey docKey chunkIndex = key
      · obtain ⟨text, rfl⟩ := fits same.symm
        exact ⟨text, by simp [same]⟩
      · exact ⟨markdown, by simpa [same] using found⟩
    rcases carry_s3 carried with ⟨_, _, rfl⟩ | ⟨_, _, _, rfl⟩ | ⟨_, _, _, rfl⟩
    · exact written
    · exact ⟨markdown, found⟩
    · exact written
  cases op with
  | db stmt =>
    rcases carry_db carried with ⟨_, _, rfl⟩ | ⟨_, _, _, rfl⟩ | ⟨_, _, _, rfl⟩ <;> exact ⟨markdown, found⟩
  | amqp request =>
    rcases carry_amqp carried with ⟨_, _, rfl⟩ | ⟨_, _, _, rfl⟩ | ⟨_, _, _, rfl⟩ <;> exact ⟨markdown, found⟩
  | tool request =>
    rw [carry_tool carried]
    exact ⟨markdown, found⟩
  | s3 request =>
    cases request with
    | getObject | headObject =>
      rcases carry_s3 carried with ⟨_, _, rfl⟩ | ⟨_, _, _, rfl⟩ | ⟨_, _, _, rfl⟩ <;> exact ⟨markdown, found⟩
    | putObject key obj =>
      refine put carried ?_
      cases phase with
      | storing text =>
        cases moves
        exact fun _ => ⟨text, rfl⟩
      | writing job parts written =>
        simp only [Handler.step] at moves
        split at moves <;> cases moves <;> intro same
        · exact absurd same (pageKey_ne_partKey _ _ _ _)
        · exact absurd same (manifestKey_ne_partKey _ _ _)
      | parking | retrying =>
        obtain ⟨_, other⟩ := Sending.op_of_step moves
        cases other
      | _ => cases moves

end Handler

/-! ## What an assembler needs -/

/-- The document of the task is that of its job. -/
def Database.Named (db : Database) (task : ChunkTask) : Prop :=
  ∀ job, db.getJob task.jobId = some job → job.docKey = task.docKey

/-- The job of the task exists, and the parts of its chunks are stored. -/
def World.Complete (world : World) (task : ChunkTask) : Prop :=
  (∃ job, world.db.getJob task.jobId = some job) ∧
    ∀ chunkIndex status, world.db.chunkStatus task.jobId chunkIndex = some status →
      world.HasPart task.docKey chunkIndex

/-- What a handler owes to the way that leads to its phase, if no conversion has failed for good. -/
def Handler.Ready (world : World) (task : ChunkTask) (spoiled : Prop) : Handler.Phase → Prop
  | .completing => world.HasPart task.docKey task.chunkIndex
  | .loading => spoiled ∨ world.Complete task
  | .listing job => spoiled ∨ job.docKey = task.docKey ∧ world.Complete task
  | .reading job _ index rest => spoiled ∨ job.docKey = task.docKey ∧ ∀ i ∈ index :: rest, world.HasPart task.docKey i
  | .parking _ _ | .failingChunk _ | .failingJob _ | .aborting _ => spoiled
  | _ => True

namespace Handler

variable {config : Config} {owner : Str} {task : ChunkTask} {origin : ℕ} {world after : World} {phase : Phase} {op : Op}
  {onward : Except Exc op.Reply → Phase} {reply : Except Exc op.Reply} {fate : Fate} {spoiled later : Prop}

theorem ready_iff_of_stage (stage : phase.stage = .exhausting ∨ phase.stage = .aborting) :
    Ready world task spoiled phase ↔ spoiled := by
  cases phase with
  | parking | failingChunk | failingJob | aborting => exact Iff.rfl
  | _ => rcases stage with stage | stage <;> cases stage

/-- A chunk that is listed exists. -/
theorem chunkStatus_of_mem {db : Database} {jobId : Str} {index : ℕ} (member : index ∈ db.chunkIndices jobId) :
    ∃ status, db.chunkStatus jobId index = some status := by
  obtain ⟨row, inside, rfl⟩ := List.mem_map.mp ((List.mem_insertionSort _).mp member)
  obtain ⟨present, named⟩ := List.mem_filter.mp inside
  exact ⟨row.status, (Database.chunkStatus_eq_some_iff _ _ _ _).mpr ⟨row, present, of_decide_eq_true named, rfl, rfl⟩⟩

private theorem ready_gather (job : JobRow) (parts : List Str) (indices : List ℕ)
    (stored : spoiled ∨ job.docKey = task.docKey ∧ ∀ i ∈ indices, world.HasPart task.docKey i) :
    Ready world task spoiled (gather job parts indices) := by
  cases indices with
  | nil => trivial
  | cons index rest => exact stored

/-- A handler that gives up owes it to a conversion that has failed for good. -/
theorem Ready.spoiled_of_stage (ready : Ready world task spoiled phase)
    (moves : step config owner task phase = some ⟨op, onward⟩)
    (carried : op.carry config (some ⟨origin, .task task⟩) world fate = some (reply, after))
    (done : op.converts task = false → fate = .done) (stays : spoiled → later)
    (spoils : config.maxAttempts ≤ task.attempt → Step.spoils task ⟨op, reply⟩ = true → later)
    (stage : (onward reply).stage = .exhausting ∨ (onward reply).stage = .aborting) : later := by
  rcases stage with exhausting | aborting
  · rcases spoils_of_exhausting moves carried done exhausting with before | ⟨last, fails⟩
    · exact stays ((ready_iff_of_stage (.inl before)).mp ready)
    · exact spoils last fails
  · rcases missing_of_aborting moves carried done aborting with
      before | ⟨rfl, absent⟩ | ⟨job, parts, index, rest, rfl, none⟩
    · exact stays ((ready_iff_of_stage (.inr before)).mp ready)
    · rcases ready with spoiled | ⟨⟨job, found⟩, _⟩
      · exact stays spoiled
      · cases absent.symm.trans found
    · rcases ready with spoiled | ⟨same, parts⟩
      · exact stays spoiled
      · rw [same] at none
        exact absurd (parts index (List.mem_cons_self ..)) none

/-- A handler arrives with what the next phase needs. -/
theorem Ready.step (ready : Ready world task spoiled phase) (named : world.db.Named task)
    (proper : Proper config task phase) (moves : step config owner task phase = some ⟨op, onward⟩)
    (carried : op.carry config (some ⟨origin, .task task⟩) world fate = some (reply, after))
    (done : op.converts task = false → fate = .done) (stays : spoiled → later)
    (spoils : config.maxAttempts ≤ task.attempt → Step.spoils task ⟨op, reply⟩ = true → later)
    (completes : phase = .completing → onward reply = .loading → later ∨ after.Complete task) :
    Ready after task later (onward reply) := by
  have givesUp (stage : (onward reply).stage = .exhausting ∨ (onward reply).stage = .aborting) :
      Ready after task later (onward reply) :=
    (ready_iff_of_stage stage).mpr (ready.spoiled_of_stage moves carried done stays spoils stage)
  have failing (error : Exc) (at_ : onward reply = failure config task error) :
      Ready after task later (failure config task error) := by
    rw [← at_]
    by_cases last : config.maxAttempts ≤ task.attempt
    · exact givesUp (.inl (by rw [at_, failure, if_pos last]; rfl))
    · rw [at_, failure, if_neg last]
      trivial
  cases phase with
  | dropped | counted | finished | aborted | failed | retried | escaped => cases moves
  | storing markdown =>
    cases moves
    cases done rfl
    cases carried
    exact ⟨markdown, by simp [S3.exec]⟩
  | completing =>
    cases moves
    cases done rfl
    cases carried
    dsimp only [Stmt.exec] at completes ⊢
    split
    · next zero => exact completes rfl (if_pos zero)
    · trivial
  | loading =>
    cases moves
    cases done rfl
    cases carried
    dsimp only [Stmt.exec] at givesUp ⊢
    cases found : world.db.getJob task.jobId with
    | none =>
      rw [found] at givesUp
      exact givesUp (.inr rfl)
    | some job => exact ready.imp stays fun complete => ⟨named job found, complete⟩
  | listing job =>
    cases moves
    cases done rfl
    cases carried
    have same : job.jobId = task.jobId := proper
    refine ready_gather _ _ _ (ready.imp stays ?_)
    rintro ⟨docKey, _, parts⟩
    refine ⟨docKey, fun i member => ?_⟩
    obtain ⟨status, found⟩ := chunkStatus_of_mem (same ▸ member : i ∈ world.db.chunkIndices task.jobId)
    exact parts i status found
  | reading job parts index rest =>
    cases moves
    cases done (converts_part job.docKey index)
    cases carried
    dsimp only [S3.exec]
    rcases ready with spoiled | ⟨same, stored⟩
    · split <;> first | exact stays spoiled | exact ready_gather _ _ _ (.inl (stays spoiled))
    · obtain ⟨part, found⟩ := stored index (List.mem_cons_self ..)
      rw [same, found]
      exact ready_gather _ _ _ (.inr ⟨same, fun i member => stored i (List.mem_cons_of_mem _ member)⟩)
  | fetching =>
    cases moves
    rcases reply with error | _ | _ | _ | _ <;> first | trivial | exact failing _ rfl
  | preparing | converting =>
    cases moves
    cases reply <;> first | trivial | exact failing _ rfl
  | looking | startingRow | startingJob | rescheduling | aborting | failingJob =>
    cases moves
    dsimp only
    split <;> (try split) <;> trivial
  | recording | finishing =>
    cases moves
    cases done rfl
    cases carried
    trivial
  | failingChunk error =>
    cases moves
    cases done rfl
    cases carried
    exact givesUp (.inl rfl)
  | writing job parts written =>
    simp only [Handler.step] at moves
    split at moves <;> cases moves <;> cases done rfl <;> cases carried <;> trivial
  | parking error sending =>
    exact Sending.onward_of_step (Ready after task later) moves (fun _ _ => stays ready) (stays ready)
      (fun _ => trivial) reply
  | retrying sending =>
    exact Sending.onward_of_step (Ready after task later) moves (fun _ _ => trivial) trivial (fun _ => trivial) reply

end Handler

/-! ## What a statement keeps -/

section Kept

variable {db : Database} {stmt : Stmt} {task : ChunkTask} {jobId : Str}

/-- A job after a statement that creates none was there before. -/
theorem getJob_before (creates : ∀ job docKey fileHash url ranges useLlm,
      stmt ≠ .createJob job docKey fileHash url ranges useLlm) {later : JobRow}
    (found : (stmt.exec db).2.getJob jobId = some later) :
    ∃ row, db.getJob jobId = some row ∧ JobChange stmt row later := by
  rcases getJob_exec stmt found with before | ⟨_, docKey, fileHash, url, ranges, useLlm, created, _⟩
  · exact before
  · exact absurd created (creates _ _ _ _ _ _)

theorem Database.Named.exec (named : db.Named task) (creates : ∀ job docKey fileHash url ranges useLlm,
      stmt ≠ .createJob job docKey fileHash url ranges useLlm) : (stmt.exec db).2.Named task := by
  intro later found
  obtain ⟨row, before, change⟩ := getJob_before creates found
  exact change.columns.2.1.trans (named row before)

theorem World.Complete.exec {world after : World} (complete : world.Complete task)
    (db : after.db = (stmt.exec world.db).2)
    (parts : ∀ docKey chunkIndex, world.HasPart docKey chunkIndex → after.HasPart docKey chunkIndex) :
    after.Complete task := by
  obtain ⟨⟨job, found⟩, stored⟩ := complete
  obtain ⟨later, same, _⟩ := jobChange stmt found
  refine ⟨⟨later, db ▸ same⟩, fun chunkIndex status chunk => ?_⟩
  rw [db] at chunk
  cases before : world.db.chunkStatus task.jobId chunkIndex with
  | none =>
    rcases chunkStatus_fresh stmt before with absent | ⟨_, _, _, _, _, _, fresh, _⟩
    · cases chunk.symm.trans absent
    · cases fresh.symm.trans found
  | some old => exact parts _ _ (stored chunkIndex old before)

theorem Handler.Ready.mono {world after : World} {phase : Phase} {spoiled later : Prop}
    (ready : Ready world task spoiled phase) (stays : spoiled → later)
    (parts : ∀ docKey chunkIndex, world.HasPart docKey chunkIndex → after.HasPart docKey chunkIndex)
    (complete : world.Complete task → after.Complete task) : Ready after task later phase := by
  cases phase with
  | completing => exact parts _ _ ready
  | loading => exact ready.imp stays complete
  | listing => exact ready.imp stays fun ⟨same, all⟩ => ⟨same, complete all⟩
  | reading => exact ready.imp stays fun ⟨same, all⟩ => ⟨same, fun i member => parts _ _ (all i member)⟩
  | parking | failingChunk | failingJob | aborting => exact stays ready
  | _ => trivial

end Kept

/-- A handler of a task of its job, with what its phase needs. -/
def Agent.Ready (world : World) (spoiled : Str → Prop) : Agent → Prop
  | .producer .. => True
  | .handler _ _ task phase _ => world.db.Named task ∧ Handler.Ready world task (spoiled task.jobId) phase

theorem Agent.Ready.mono {world : World} {spoiled later : Str → Prop} {agent : Agent}
    (ready : agent.Ready world spoiled) (stays : ∀ jobId, spoiled jobId → later jobId) : agent.Ready world later := by
  cases agent with
  | producer => trivial
  | handler => exact ⟨ready.1, ready.2.mono (stays _) (fun _ _ stored => stored) fun complete => complete⟩

end MarkitdownServer
