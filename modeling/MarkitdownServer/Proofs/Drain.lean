import MarkitdownServer.Proofs.Readiness
import MarkitdownServer.Proofs.Tally

/-! # The queue drains to terminal jobs

Every open chunk of an active job is on a queue or with a handler, and once none is open somebody assembles, unless
a handler is already about to fail the job. Runs of undisturbed workers are finite, so they come to rest, and then
nobody is left to carry a chunk: every job is terminal.
-/

namespace MarkitdownServer

open Effects Transition

/-- A conversion of a chunk of this job has failed at its last attempt. -/
def Spoiled (config : Config) (trace : List Event) (jobId : Str) : Prop :=
  ∃ origin task call, .called (some ⟨origin, .task task⟩) call ∈ trace ∧ task.jobId = jobId ∧
    config.maxAttempts ≤ task.attempt ∧ call.spoils task = true

theorem Spoiled.mono {config : Config} {trace : List Event} {jobId : Str} (spoiled : Spoiled config trace jobId)
    (more : List Event) : Spoiled config (trace ++ more) jobId := by
  obtain ⟨origin, task, call, member, rest⟩ := spoiled
  exact ⟨origin, task, call, List.mem_append_left _ member, rest⟩

/-! ## What is known of every job -/

namespace Fleet

variable (fleet : Fleet) (jobId : Str)

/-- Some handler is at work on a task in this way. -/
def Has (holds : ChunkTask → Handler.Stage → Prop) : Prop :=
  ∃ owner origin task phase calls, .handler owner origin task phase calls ∈ fleet.agents ∧ holds task phase.stage

/-- A handler is about to fail the job. -/
def Doomed : Prop :=
  fleet.Has fun task stage => task.jobId = jobId ∧ (stage = .exhausting ∨ stage = .aborting)

/-- A handler assembles the document of the job. -/
def Assembled : Prop := fleet.Has fun task stage => task.jobId = jobId ∧ stage = .assembling

/-- A chunk is on a queue, or a handler carries it. -/
def Carried (chunkIndex : ℕ) : Prop :=
  (fleet.Has fun task stage => task.jobId = jobId ∧ task.chunkIndex = chunkIndex ∧ stage = .carrying) ∨
    ∃ entry ∈ fleet.world.broker.messages, ∃ task, entry.2.body = .task task ∧ task.jobId = jobId ∧
      task.chunkIndex = chunkIndex

/-- The counter is right, every open chunk is carried, and once no chunk is open somebody assembles. -/
structure Pursued (row : JobRow) : Prop where
  counts : row.remainingChunks = fleet.world.db.openChunks jobId
  carried : ∀ chunkIndex, fleet.world.db.Unfinished jobId chunkIndex → fleet.Carried jobId chunkIndex
  assembled : fleet.world.db.openChunks jobId = 0 → fleet.Assembled jobId

/-- A job is failed only after a conversion has failed for good, and an active job is on its way. -/
structure Outcome (config : Config) (row : JobRow) : Prop where
  failed : row.status = .failed → Spoiled config fleet.trace jobId
  onWay : row.status.isTerminal = true ∨ fleet.Doomed jobId ∨ fleet.Pursued jobId row

/-- What holds in every state of a run of undisturbed workers. -/
structure Draining (env : Env) : Prop extends Working env fleet where
  named : ∀ entry ∈ fleet.world.broker.messages, ∀ task, entry.2.body = .task task → fleet.world.db.Named task
  ready : ∀ agent ∈ fleet.agents, agent.Ready fleet.world (Spoiled env.toConfig fleet.trace)
  parts : ∀ jobId job chunkIndex, fleet.world.db.getJob jobId = some job →
    fleet.world.db.chunkStatus jobId chunkIndex = some .done → fleet.world.HasPart job.docKey chunkIndex
  outcome : ∀ jobId row, fleet.world.db.getJob jobId = some row → fleet.Outcome jobId env.toConfig row

variable {fleet jobId} {env : Env} {after : Fleet} {label : Label}

theorem Draining.handler (draining : Draining fleet env) {owner : Str} {origin : ℕ} {task : ChunkTask}
    {phase : Handler.Phase} {calls : List Step} (member : .handler owner origin task phase calls ∈ fleet.agents) :
    fleet.world.db.Named task ∧
      Handler.Ready fleet.world task (Spoiled env.toConfig fleet.trace task.jobId) phase :=
  draining.ready _ member

/-- A job that is about to be failed has had a conversion fail for good. -/
theorem Draining.spoiled_of_doomed (draining : Draining fleet env) (doomed : fleet.Doomed jobId) :
    Spoiled env.toConfig fleet.trace jobId := by
  obtain ⟨owner, origin, task, phase, calls, member, rfl, stage⟩ := doomed
  exact (Handler.ready_iff_of_stage stage).mp (draining.handler member).2

section Moved

variable {before rest : List Agent} {owner : Str} {origin : ℕ} {task : ChunkTask} {phase : Handler.Phase}
  {calls : List Step} {op : Op} {onward : Except Exc op.Reply → Handler.Phase} {reply : Except Exc op.Reply}
  {world : World} {fate : Fate}

theorem Has.moved {holds : ChunkTask → Handler.Stage → Prop} {next : Handler.Phase} {more : List Step}
    {trace : List Event} (has : fleet.Has holds)
    (found : fleet.agents = before ++ .handler owner origin task phase calls :: rest)
    (keeps : holds task phase.stage → holds task next.stage) :
    Has ⟨world, before ++ .handler owner origin task next more :: rest, trace⟩ holds := by
  obtain ⟨owner', origin', task', phase', calls', member, fits⟩ := has
  rw [found] at member
  rcases List.mem_cons.mp (List.perm_middle.mem_iff.mp member) with same | old
  · cases same
    exact ⟨owner, origin, task, next, more, List.mem_append_right _ (List.mem_cons_self ..), keeps fits⟩
  · exact ⟨owner', origin', task', phase', calls', List.perm_middle.mem_iff.mpr (List.mem_cons_of_mem _ old), fits⟩

theorem Has.arrived {holds : ChunkTask → Handler.Stage → Prop} {next : Handler.Phase} {more : List Step}
    {trace : List Event} (fits : holds task next.stage) :
    Has ⟨world, before ++ .handler owner origin task next more :: rest, trace⟩ holds :=
  ⟨owner, origin, task, next, more, List.mem_append_right _ (List.mem_cons_self ..), fits⟩

end Moved

/-- The next attempt of a task is put on its tier. -/
theorem mem_retried {config : Config} (delays : config.retryDelays ≠ []) {task : ChunkTask}
    (positive : 1 ≤ task.attempt) (origin : ℕ) (broker : Broker) :
    (config.retryQueueName task.attempt, ⟨origin, .task task.nextAttempt⟩) ∈
      (broker.publish (declare config) (some ⟨origin, .task task⟩) config.retryExchange
        (config.retryQueueName task.attempt) (.task task.nextAttempt)).messages := by
  refine List.mem_append_right _ ?_
  rw [config.route_retryQueueName, if_pos ⟨positive, delays⟩]
  exact List.mem_singleton_self _

/-! ## One call of a handler -/

section Handled

variable {env : Env} {fleet : Fleet} {label : Label} {before rest : List Agent} {owner : Str} {origin : ℕ}
  {task : ChunkTask} {phase : Handler.Phase} {calls : List Step} {op : Op}
  {onward : Except Exc op.Reply → Handler.Phase} {reply : Except Exc op.Reply} {world : World} {fate : Fate}
  (draining : Draining fleet env) (undisturbed : Undisturbed env fleet label) (acts : label = .act before.length fate)
  (found : fleet.agents = before ++ .handler owner origin task phase calls :: rest)
  (moves : Handler.step env.toConfig owner task phase = some ⟨op, onward⟩)
  (carried : op.carry env.toConfig (some ⟨origin, .task task⟩) fleet.world fate = some (reply, world))

include draining undisturbed acts found moves carried

/-- The statement of the call. -/
theorem Draining.does : ∃ stmt : Stmt, world.db = (stmt.exec fleet.world.db).2 ∧
    Handler.Does fleet.world.db task phase (onward reply) stmt ∧
    ∀ job docKey fileHash url ranges useLlm, stmt ≠ .createJob job docKey fileHash url ranges useLlm := by
  obtain ⟨stmt, db, does, _⟩ := (undisturbed.advance draining.toWorking acts found moves carried).does
  refine ⟨stmt, db, does, ?_⟩
  rintro job docKey fileHash url ranges useLlm rfl
  exact does

theorem Draining.parts_of_handled {jobId : Str} {job : JobRow} {chunkIndex : ℕ}
    (here : world.db.getJob jobId = some job) (done : world.db.chunkStatus jobId chunkIndex = some .done) :
    world.HasPart job.docKey chunkIndex := by
  obtain ⟨stmt, db, does, creates⟩ := draining.does undisturbed acts found moves carried
  rw [db] at here done
  obtain ⟨row, there, change⟩ := getJob_before creates here
  rw [change.columns.2.1]
  refine Handler.hasPart_of_step moves carried ?_
  rcases Database.done_of_exec there done with already | ⟨s3Key, rfl⟩
  · exact draining.parts jobId row chunkIndex there already
  · obtain ⟨rfl, rfl, rfl, _⟩ := does
    obtain ⟨named, stored⟩ := draining.handler (found ▸ List.mem_append_right _ (List.mem_cons_self ..))
    rw [named row there]
    exact stored

/-- Whoever is told that no chunk is left finds all parts, if no conversion has failed for good. -/
theorem Draining.complete_of_told (at_ : phase = .completing) (told : onward reply = .loading) :
    Spoiled env.toConfig fleet.trace task.jobId ∨ world.Complete task := by
  have advance := undisturbed.advance draining.toWorking acts found moves carried
  obtain ⟨named, _⟩ := draining.handler (found ▸ List.mem_append_right _ (List.mem_cons_self ..))
  rcases advance.assembling (by rw [told]; rfl) with before | ⟨key, zero, db⟩
  · rw [at_] at before
    cases before
  obtain ⟨_, row, there, active, _⟩ := Database.counted_of_told zero
  rcases (draining.outcome task.jobId row there).onWay with terminal | doomed | pursued
  · cases active.symm.trans terminal
  · exact .inl (draining.spoiled_of_doomed doomed)
  · obtain ⟨⟨job, here⟩, none⟩ := Database.openChunks_of_told zero fun other same _ => by
      cases there.symm.trans same
      exact pursued.counts
    rw [← db] at here none
    refine .inr ⟨⟨job, here⟩, fun chunkIndex status chunk => ?_⟩
    cases Database.openChunks_eq_zero_iff_status.mp none chunkIndex status chunk
    obtain ⟨stmt, effect, does, creates⟩ := draining.does undisturbed acts found moves carried
    have same : job.docKey = task.docKey := (effect ▸ named.exec creates : world.db.Named task) job here
    rw [← same]
    exact draining.parts_of_handled undisturbed acts found moves carried here chunk

/-- The calls of the others are kept, and the one that moves arrives with what it needs. -/
theorem Draining.ready_of_handled :
    ∀ agent ∈ before ++ .handler owner origin task (onward reply) (calls ++ [⟨op, reply⟩]) :: rest,
      agent.Ready world (Spoiled env.toConfig (fleet.trace ++ [.called (some ⟨origin, .task task⟩) ⟨op, reply⟩])) := by
  obtain ⟨stmt, db, does, creates⟩ := draining.does undisturbed acts found moves carried
  have parts (docKey : Str) (chunkIndex : ℕ) (stored : fleet.world.HasPart docKey chunkIndex) :
      world.HasPart docKey chunkIndex := Handler.hasPart_of_step moves carried stored
  have rests {agent : Agent} (member : agent ∈ fleet.agents) :
      agent.Ready world (Spoiled env.toConfig (fleet.trace ++ [.called (some ⟨origin, .task task⟩) ⟨op, reply⟩])) := by
    cases agent with
    | producer => trivial
    | handler owner' origin' task' phase' calls' =>
      obtain ⟨named, ready⟩ := draining.handler member
      exact ⟨db ▸ named.exec creates, ready.mono (fun spoiled => spoiled.mono _) parts fun complete =>
        complete.exec db parts⟩
  intro agent member
  rcases List.mem_cons.mp (List.perm_middle.mem_iff.mp member) with rfl | old
  · have own := draining.handler (found ▸ List.mem_append_right _ (List.mem_cons_self ..))
    refine ⟨db ▸ own.1.exec creates, own.2.step own.1 (draining.toWorking.handler found).1 moves carried
      (undisturbed.done _ _ _ _ _ _ _ _ _ _ acts found moves) (fun spoiled => spoiled.mono _) ?_ ?_⟩
    · intro last fails
      exact ⟨origin, task, ⟨op, reply⟩, List.mem_append_right _ (List.mem_singleton_self _), rfl, last, fails⟩
    · intro at_ told
      exact (draining.complete_of_told undisturbed acts found moves carried at_ told).imp
        (fun spoiled => spoiled.mono _) id
  · exact rests (found ▸ List.perm_middle.mem_iff.mpr (List.mem_cons_of_mem _ old))

/-- A call takes no message off the queues. -/
theorem Draining.messages_of_handled {entry : Str × Message} (queued : entry ∈ fleet.world.broker.messages) :
    entry ∈ world.broker.messages := by
  have advance := undisturbed.advance draining.toWorking acts found moves carried
  generalize onward reply = next at advance
  cases advance with
  | stay _ _ _ _ broker | exhaust _ _ _ broker | abort _ _ broker => exact broker ▸ queued
  | retry | park => exact List.mem_append_left _ queued
  | _ => exact queued

theorem Draining.named_of_handled {entry : Str × Message} {other : ChunkTask} (queued : entry ∈ world.broker.messages)
    (body : entry.2.body = .task other) : world.db.Named other := by
  obtain ⟨stmt, db, does, creates⟩ := draining.does undisturbed acts found moves carried
  have advance := undisturbed.advance draining.toWorking acts found moves carried
  have old (before : entry ∈ fleet.world.broker.messages) : world.db.Named other :=
    db ▸ (draining.named entry before other body).exec creates
  have own := (draining.handler (found ▸ List.mem_append_right _ (List.mem_cons_self ..))).1.exec creates
  generalize onward reply = next at advance
  cases advance with
  | stay _ _ _ _ broker | exhaust _ _ _ broker | abort _ _ broker => exact old (broker ▸ queued)
  | retry =>
    rcases List.mem_append.mp queued with before | new
    · exact old before
    · obtain ⟨queue, _, rfl⟩ := List.mem_map.mp new
      cases body
      exact db ▸ own
  | park =>
    rcases List.mem_append.mp queued with before | new
    · exact old before
    · obtain ⟨queue, _, rfl⟩ := List.mem_map.mp new
      cases body
  | _ => exact old queued

/-- A handler that is about to fail its job goes on to do so until the job is terminal. -/
theorem Draining.doomed_of_handled {jobId : Str} {row later : JobRow} (there : fleet.world.db.getJob jobId = some row)
    (active : row.status.isTerminal = false) (here : world.db.getJob jobId = some later)
    (stays : later.status.isTerminal = false) (named : task.jobId = jobId)
    (stage : phase.stage = .exhausting ∨ phase.stage = .aborting) :
    (onward reply).stage = .exhausting ∨ (onward reply).stage = .aborting := by
  have advance := undisturbed.advance draining.toWorking acts found moves carried
  subst named
  generalize onward reply = next at advance
  cases advance with
  | stay stmt same => exact same.symm ▸ stage
  | park | failChunk => exact .inl rfl
  | failJob text =>
    cases (getJob_failJob there active text (some task.chunkIndex)).symm.trans here
    cases stays
  | aborted text =>
    cases (getJob_failJob there active text none).symm.trans here
    cases stays
  | exhaust carrying | abort carrying =>
    rw [carrying] at stage
    rcases stage with stage | stage <;> cases stage
  | _ => rcases stage with stage | stage <;> cases stage

/-- An assembler goes on until the job is terminal, unless it gives up. -/
theorem Draining.assembled_of_handled {jobId : Str} {row later : JobRow}
    (there : fleet.world.db.getJob jobId = some row) (here : world.db.getJob jobId = some later)
    (stays : later.status.isTerminal = false) (named : task.jobId = jobId) (stage : phase.stage = .assembling)
    (keeps : ¬ (task.jobId = jobId ∧ ((onward reply).stage = .exhausting ∨ (onward reply).stage = .aborting))) :
    (onward reply).stage = .assembling := by
  have advance := undisturbed.advance draining.toWorking acts found moves carried
  subst named
  generalize onward reply = next at advance keeps
  cases advance with
  | stay stmt same => exact same.trans stage
  | abort => exact absurd ⟨rfl, .inr rfl⟩ keeps
  | finish =>
    cases (getJob_finishJob there).symm.trans here
    cases stays
  | exhaust carrying => cases stage.symm.trans carrying
  | _ => cases stage

/-- A chunk that is still open is still carried, unless its handler gives it up. -/
theorem Draining.carried_of_handled (delays : env.retryDelays ≠ []) {jobId : Str} {row : JobRow} {chunkIndex : ℕ}
    (there : fleet.world.db.getJob jobId = some row) (active : row.status.isTerminal = false)
    (unfinished : world.db.Unfinished jobId chunkIndex)
    (keeps : ¬ (task.jobId = jobId ∧ ((onward reply).stage = .exhausting ∨ (onward reply).stage = .aborting)))
    (was : fleet.Carried jobId chunkIndex) {trace : List Event} {more : List Step} :
    Carried ⟨world, before ++ .handler owner origin task (onward reply) more :: rest, trace⟩ jobId chunkIndex := by
  rcases was with has | ⟨entry, queued, waiting⟩
  · by_cases own : task.jobId = jobId ∧ task.chunkIndex = chunkIndex ∧ phase.stage = .carrying
    · obtain ⟨rfl, rfl, stage⟩ := own
      have advance := undisturbed.advance draining.toWorking acts found moves carried
      generalize onward reply = next at advance keeps
      cases advance with
      | stay stmt same => exact .inl (Has.arrived ⟨rfl, rfl, same.trans stage⟩)
      | drop inactive => cases active.symm.trans (inactive row there)
      | exhaust => exact absurd ⟨rfl, .inl rfl⟩ keeps
      | retry left =>
        exact .inr ⟨_, mem_retried delays (draining.toWorking.handler found).2 origin _, task.nextAttempt, rfl, rfl,
          rfl⟩
      | complete key =>
        have other := (@Database.Unfinished.of_exec _ _ _ row there (.completeChunk task.jobId task.chunkIndex key)
          unfinished fun _ => Stmt.noConfusion).2
        exact absurd rfl (other key)
      | abort assembling => cases stage.symm.trans assembling
      | _ => cases stage
    · exact .inl (has.moved found fun fits => absurd fits own)
  · exact .inr ⟨entry, draining.messages_of_handled undisturbed acts found moves carried queued, waiting⟩

/-- Every job stays on its way. -/
theorem Draining.outcome_of_handled (delays : env.retryDelays ≠ []) {jobId : Str} {later : JobRow}
    (here : world.db.getJob jobId = some later) :
    Outcome ⟨world, before ++ .handler owner origin task (onward reply) (calls ++ [⟨op, reply⟩]) :: rest,
      fleet.trace ++ [.called (some ⟨origin, .task task⟩) ⟨op, reply⟩]⟩ jobId env.toConfig later := by
  obtain ⟨stmt, db, does, creates⟩ := draining.does undisturbed acts found moves carried
  have arrived := db ▸ here
  obtain ⟨row, there, change⟩ := getJob_before creates arrived
  have named := ((Database.getJob_eq_some_iff _ _ _).mp there).2
  obtain ⟨spoils, onWay⟩ := draining.outcome jobId row there
  constructor
  · intro failed
    cases change with
    | same => exact (spoils failed).mono _
    | started | counted | finished => cases failed
    | failed =>
      obtain ⟨same, stage, _⟩ := does
      obtain ⟨_, ready⟩ := draining.handler (found ▸ List.mem_append_right _ (List.mem_cons_self ..))
      rw [← named, same]
      exact ((Handler.ready_iff_of_stage stage).mp ready).mono _
  · cases ended : later.status.isTerminal with
    | true => exact .inl rfl
    | false =>
      have active := change.active ended
      refine .inr ?_
      rcases onWay with terminal | doomed | pursued
      · cases active.symm.trans terminal
      · refine .inl (doomed.moved found ?_)
        rintro ⟨same, stage⟩
        exact ⟨same, draining.doomed_of_handled undisturbed acts found moves carried there active here ended same stage⟩
      · by_cases dooms : task.jobId = jobId ∧ ((onward reply).stage = .exhausting ∨ (onward reply).stage = .aborting)
        · exact .inl (Has.arrived dooms)
        · have spared (chunkIndex : ℕ) (error : Str) : stmt ≠ .failChunk jobId chunkIndex error := by
            rintro rfl
            exact dooms ⟨does.1.symm, .inl does.2.2.2⟩
          refine .inr ⟨?_, fun chunkIndex unfinished => ?_, fun none => ?_⟩
          · obtain ⟨done, opened, remaining⟩ := Database.tally_exec there active spared arrived
            have counts := pursued.counts
            rw [← db] at opened
            dsimp only
            omega
          · refine draining.carried_of_handled undisturbed acts found moves carried delays there active unfinished dooms
              (pursued.carried chunkIndex ?_)
            exact (Database.Unfinished.of_exec there (db ▸ unfinished) (spared chunkIndex)).1
          · rcases Database.told_of_last there active pursued.counts spared arrived (db ▸ none) with
              already | ⟨chunkIndex, s3Key, rfl, zero⟩
            · refine (pursued.assembled already).moved found ?_
              rintro ⟨same, stage⟩
              exact ⟨same, draining.assembled_of_handled undisturbed acts found moves carried there here ended same
                stage dooms⟩
            · obtain ⟨same, _, _, leads⟩ := does
              exact Has.arrived ⟨same.symm, by rw [leads, if_pos zero]; rfl⟩

end Handled

/-! ## The other steps -/

variable {env : Env} {fleet after : Fleet} {label : Label} {jobId : Str}

/-- A handler that has come to its end is about nothing. -/
theorem stage_of_ended {config : Config} {owner : Str} {task : ChunkTask} {phase : Handler.Phase}
    (ended : Handler.step config owner task phase = none) : phase.stage = .over ∨ phase.stage = .dropped := by
  cases phase with
  | dropped | escaped => exact .inr rfl
  | counted | finished | aborted | failed | retried => exact .inl rfl
  | writing job parts written =>
    simp only [Handler.step] at ended
    split at ended <;> cases ended
  | _ => cases ended

/-- A job keeps its outcome when the database stays, what is at work stays at work, and chunks stay carried. -/
theorem Outcome.keep {config : Config} {row : JobRow} (outcome : fleet.Outcome jobId config row)
    (db : after.world.db = fleet.world.db) (trace : ∃ more, after.trace = fleet.trace ++ more)
    (has : ∀ holds : ChunkTask → Handler.Stage → Prop, (∀ task, ¬ holds task .over ∧ ¬ holds task .dropped) →
      fleet.Has holds → after.Has holds)
    (carried : ∀ chunkIndex, fleet.Carried jobId chunkIndex → after.Carried jobId chunkIndex) :
    after.Outcome jobId config row := by
  obtain ⟨more, same⟩ := trace
  refine ⟨fun failed => same ▸ (outcome.failed failed).mono more, ?_⟩
  refine outcome.onWay.imp id (Or.imp (has _ ?_) fun pursued => ⟨?_, fun chunkIndex unfinished => ?_, fun none => ?_⟩)
  · exact fun task => ⟨by simp, by simp⟩
  · rw [db]
    exact pursued.counts
  · exact carried chunkIndex (pursued.carried chunkIndex (db ▸ unfinished))
  · exact has _ (fun task => ⟨by simp, by simp⟩) (pursued.assembled (db ▸ none))

theorem Draining.step (delays : env.retryDelays ≠ []) (draining : Draining fleet env)
    (undisturbed : Undisturbed env fleet label) (stepped : Stepped env fleet label after) : Draining after env := by
  have working := working_of_stepped draining.toWorking undisturbed stepped
  cases stepped with
  | submit url useLlm => exact absurd rfl (undisturbed.submits url useLlm)
  | duplicate => exact absurd rfl (undisturbed.copies _)
  | crash => exact absurd rfl (undisturbed.dies _)
  | produced found => exact (draining.toWorking.no_producer found).elim
  | @deliver index owner origin task front rest found =>
    have inside {entry : Str × Message} (member : entry ∈ front ++ rest) : entry ∈ fleet.world.broker.messages := by
      rw [found]
      exact List.perm_middle.mem_iff.mpr (List.mem_cons_of_mem _ member)
    refine ⟨working, fun entry member => draining.named entry (inside member), ?_, draining.parts,
      fun jobId row there => (draining.outcome jobId row there).keep rfl ⟨_, rfl⟩ ?_ ?_⟩
    · intro agent member
      rcases List.mem_append.mp member with old | new
      · exact (draining.ready agent old).mono (fun _ spoiled => spoiled.mono _)
      · cases List.mem_singleton.mp new
        exact ⟨draining.named _ (found ▸ List.mem_append_right _ (List.mem_cons_self ..)) task rfl, trivial⟩
    · rintro holds _ ⟨owner, origin, task, phase, calls, member, fits⟩
      exact ⟨owner, origin, task, phase, calls, List.mem_append_left _ member, fits⟩
    · rintro chunkIndex (⟨owner, origin, task, phase, calls, member, fits⟩ | ⟨entry, member, other, body, fits⟩)
      · exact .inl ⟨owner, origin, task, phase, calls, List.mem_append_left _ member, fits⟩
      · rw [found] at member
        rcases List.mem_cons.mp (List.perm_middle.mem_iff.mp member) with rfl | old
        · cases body
          exact .inl ⟨owner, origin, task, .looking, [], List.mem_append_right _ (List.mem_singleton_self _), fits.1,
            fits.2, rfl⟩
        · exact .inr ⟨entry, old, other, body, fits⟩
  | @expire index queue exchange message decl front rest found declared named timed target =>
    have routed := @Config.route_expired env.toConfig queue _ _ declared timed target
    refine ⟨working, fun entry member task body => ?_, draining.ready, draining.parts,
      fun jobId row there => (draining.outcome jobId row there).keep rfl ⟨[], (List.append_nil _).symm⟩
        (fun _ _ has => has) ?_⟩
    · rw [routed] at member
      rcases List.mem_append.mp member with old | again
      · refine draining.named entry ?_ task body
        rw [found]
        exact List.perm_middle.mem_iff.mpr (List.mem_cons_of_mem _ old)
      · cases List.mem_singleton.mp again
        exact draining.named (queue, message) (found ▸ List.mem_append_right _ (List.mem_cons_self ..)) task body
    · rintro chunkIndex (has | ⟨entry, member, task, body, fits⟩)
      · exact .inl has
      · refine .inr ?_
        dsimp only [World.setMessages]
        rw [routed]
        rw [found] at member
        rcases List.mem_cons.mp (List.perm_middle.mem_iff.mp member) with rfl | old
        · exact ⟨(env.rabbitmqQueue, message), List.mem_append_right _ (List.mem_singleton_self _), task, body, fits⟩
        · exact ⟨entry, List.mem_append_left _ old, task, body, fits⟩
  | @finish index agent front rest found position ended =>
    have has {holds : ChunkTask → Handler.Stage → Prop} (idle : ∀ task, ¬ holds task .over ∧ ¬ holds task .dropped)
        (was : fleet.Has holds) : Has ⟨fleet.world, front ++ rest, fleet.trace ++ [.returned agent.message]⟩ holds := by
      obtain ⟨owner, origin, task, phase, calls, member, fits⟩ := was
      rw [found] at member
      rcases List.mem_cons.mp (List.perm_middle.mem_iff.mp member) with rfl | old
      · rcases stage_of_ended (Option.map_eq_none_iff.mp ended) with stage | stage
        · exact absurd (stage ▸ fits) (idle task).1
        · exact absurd (stage ▸ fits) (idle task).2
      · exact ⟨owner, origin, task, phase, calls, old, fits⟩
    refine ⟨working, draining.named, fun other member => ?_, draining.parts,
      fun jobId row there => (draining.outcome jobId row there).keep rfl ⟨_, rfl⟩ (fun _ => has) ?_⟩
    · refine (draining.ready other (found ▸ ?_)).mono fun _ spoiled => spoiled.mono _
      exact List.perm_middle.mem_iff.mpr (List.mem_cons_of_mem _ member)
    · exact fun chunkIndex => Or.imp (has fun task => ⟨by simp, by simp⟩) id
  | @handled index fate owner origin task phase calls op onward reply world front rest found position moves carried =>
    have acts : Label.act index fate = .act front.length fate := by rw [position]
    obtain ⟨stmt, db, does, creates⟩ := draining.does undisturbed acts found moves carried
    refine ⟨working, fun entry member other body => ?_, draining.ready_of_handled undisturbed acts found moves carried,
      fun jobId job chunkIndex => draining.parts_of_handled undisturbed acts found moves carried,
      fun jobId row => draining.outcome_of_handled undisturbed acts found moves carried delays⟩
    exact draining.named_of_handled undisturbed acts found moves carried member body

end Fleet

/-! ## The queue drains -/

/-- A message of this lineage is delivered. -/
def Event.delivers (lineage : ℕ) : Event → Bool
  | .delivered message => message.origin = lineage
  | _ => false

theorem Fleet.sum_delivering (env : Env) (lineage : ℕ) (trace : List Event) :
    (trace.map (Fleet.delivering env lineage).event).sum = trace.countP (Event.delivers lineage) := by
  induction trace with
  | nil => rfl
  | cons event trace ih =>
    rw [List.map_cons, List.sum_cons, ih, List.countP_cons, Nat.add_comm]
    cases event with
    | delivered message => simp only [Fleet.delivering_delivered, Event.delivers, decide_eq_true_eq]
    | _ => rfl

namespace Deployment

variable (env : Env)

/-- Jobs that have just been created, with at least one chunk each, and tasks on the work queue that nobody has taken:
any number of them, but at least one for each chunk at its first attempt. -/
structure Loaded (state : Deployment) : Prop where
  idle : state.procs = []
  begun : state.trace = []
  jobs : ∀ job ∈ state.world.db.jobs.rows, job.status = .queued ∧ 0 < state.world.db.chunkCount job.jobId ∧
    job.remainingChunks = state.world.db.chunkCount job.jobId
  chunks : ∀ row ∈ state.world.db.jobChunks.rows, row.status = .pending
  queued : ∀ entry ∈ state.world.broker.messages, entry.1 = env.rabbitmqQueue ∧
    ∃ task, entry.2.body = .task task ∧ 1 ≤ task.attempt ∧ state.world.db.Named task
  published : ∀ row ∈ state.world.db.jobChunks.rows, ∃ entry ∈ state.world.broker.messages, ∃ task,
    entry.2.body = .task task ∧ task.jobId = row.jobId ∧ task.chunkIndex = row.chunkIndex ∧ task.attempt = 1
  origins : (state.world.broker.messages.map fun entry => entry.2.origin).Nodup

/-- No message is queued, delayed or being handled; only parked ones are left. -/
def Quiet (state : Deployment) : Prop :=
  state.procs = [] ∧ ∀ entry ∈ state.world.broker.messages, entry.1 = env.failedQueue

/-- A state that undisturbed workers can come to. -/
def Drained (start : Deployment) : Deployment → Prop :=
  Reaches (step env) (fun state label => state.undisturbed label = true) start

/-- Every run of undisturbed workers is finite and handles a message no more often than it has attempts left; when it
comes to rest every job is terminal, and done if no conversion for it failed at the last attempt. -/
structure Drains (start : Deployment) : Prop where
  finite : ∀ run : ℕ → Deployment, run 0 = start →
    ∃ n, ¬ Next (step env) (fun state label => state.undisturbed label = true) (run n) (run (n + 1))
  handled : ∀ state, Drained env start state → ∀ entry ∈ start.world.broker.messages, ∀ task,
    entry.2.body = .task task →
    (state.trace.countP (Event.delivers entry.2.origin) : ℤ) ≤ max 1 (env.maxAttempts - task.attempt + 1)
  terminal : ∀ state, Drained env start state → Quiet env state → ∀ jobId job,
    state.world.db.getJob jobId = some job → job.status.isTerminal = true
  done : ∀ state, Drained env start state → Quiet env state → ∀ jobId job,
    state.world.db.getJob jobId = some job →
    (∀ origin task call, .called (some ⟨origin, .task task⟩) call ∈ state.trace → task.jobId = jobId →
      env.maxAttempts ≤ task.attempt → call.spoils task = false) → job.status = .done

variable {env}

theorem Loaded.mirrors {state : Deployment} (loaded : Loaded env state) :
    Fleet.Mirrors env state ⟨state.world, [], []⟩ :=
  ⟨rfl, loaded.begun.symm, by rw [loaded.idle]; exact .nil⟩

theorem Loaded.draining {state : Deployment} (loaded : Loaded env state) :
    Fleet.Draining ⟨state.world, [], []⟩ env := by
  have pending {jobId : Str} {chunkIndex : ℕ} {status : ChunkStatus}
      (found : state.world.db.chunkStatus jobId chunkIndex = some status) : status = .pending := by
    obtain ⟨row, member, _, _, rfl⟩ := (Database.chunkStatus_eq_some_iff _ _ _ _).mp found
    exact loaded.chunks row member
  refine ⟨⟨fun _ member => (by cases member), fun entry member => ?_⟩, fun entry member task body => ?_,
    fun _ member => (by cases member), fun jobId job chunkIndex _ done => ?_, fun jobId row found => ?_⟩
  · obtain ⟨work, task, body, positive, _⟩ := loaded.queued entry member
    exact .inl ⟨task, body, positive, .inl work⟩
  · obtain ⟨_, other, same, _, named⟩ := loaded.queued entry member
    cases body.symm.trans same
    exact named
  · cases pending done
  · obtain ⟨member, rfl⟩ := (Database.getJob_eq_some_iff _ _ _).mp found
    obtain ⟨queued, some, remaining⟩ := loaded.jobs row member
    have opened : state.world.db.openChunks row.jobId = state.world.db.chunkCount row.jobId :=
      List.countP_congr fun chunk inside => by simp [loaded.chunks chunk inside]
    refine ⟨fun failed => (by cases queued.symm.trans failed), .inr (.inr ⟨?_, ?_, fun none => ?_⟩)⟩
    · rw [opened, remaining]
    · rintro chunkIndex ⟨status, chunk, _⟩
      obtain ⟨chunkRow, inside, named, numbered, _⟩ := (Database.chunkStatus_eq_some_iff _ _ _ _).mp chunk
      obtain ⟨entry, queued, task, body, first, second, _⟩ := loaded.published chunkRow inside
      exact .inr ⟨entry, queued, task, body, first.trans named, second.trans numbered⟩
    · have none : state.world.db.openChunks row.jobId = 0 := none
      omega

/-- What a lineage can come to is what its one message can. -/
theorem Loaded.delivering_le {state : Deployment} (loaded : Loaded env state) {entry : Str × Message} {task : ChunkTask}
    (member : entry ∈ state.world.broker.messages) (body : entry.2.body = .task task) :
    (Fleet.delivering env entry.2.origin).total ⟨state.world, [], []⟩ ≤ env.patience task.attempt := by
  obtain ⟨before, rest, split⟩ := List.append_of_mem member
  have origins := loaded.origins
  rw [split, List.map_append, List.map_cons, List.nodup_append, List.nodup_cons] at origins
  have others {entries : List (Str × Message)} (apart : ∀ other ∈ entries, other.2.origin ≠ entry.2.origin) :
      (Fleet.delivering env entry.2.origin).queued entries = 0 := by
    refine List.sum_eq_zero fun weight inside => ?_
    obtain ⟨⟨queue, origin, _ | _⟩, present, rfl⟩ := List.mem_map.mp inside
    · exact if_neg (apart _ present)
    · rfl
  have own : (Fleet.delivering env entry.2.origin).message entry ≤ env.patience task.attempt := by
    obtain ⟨queue, origin, _⟩ := entry
    cases body
    rw [Fleet.delivering_task]
    split
    · exact Nat.le_refl _
    · exact Nat.zero_le _
  have first := others fun other inside same =>
    origins.2.2 _ (List.mem_map_of_mem inside) _ (List.mem_cons_self ..) same
  have second := others fun other inside same => origins.2.1.1 (same ▸ List.mem_map_of_mem inside)
  simp only [Ledger.total, split, Ledger.queued_append, Ledger.queued_cons, first, second, List.map_nil, List.sum_nil]
  omega

/-- The queue drains to terminal jobs. -/
theorem drains_of_loaded (delays : env.retryDelays ≠ []) {start : Deployment} (loaded : Loaded env start) :
    Drains env start := by
  have reached {state : Deployment} (drained : Drained env start state) :
      ∃ fleet, Fleet.Mirrors env state fleet ∧ Fleet.Draining fleet env := by
    refine Fleet.Mirrors.invariant (fun fleet => Fleet.Draining fleet env) drained loaded.mirrors loaded.draining ?_
    intro state fleet label after mirrors draining undisturbed stepped
    exact draining.step delays (mirrors.undisturbed undisturbed) stepped
  have settled {state : Deployment} (drained : Drained env start state) (quiet : Quiet env state) {jobId : Str}
      {job : JobRow} (found : state.world.db.getJob jobId = some job) :
      job.status.isTerminal = true ∧ (job.status = .failed → Spoiled env.toConfig state.trace jobId) := by
    obtain ⟨fleet, mirrors, draining⟩ := reached drained
    have nobody (holds : ChunkTask → Handler.Stage → Prop) : ¬ fleet.Has holds := by
      rintro ⟨owner, origin, task, phase, calls, member, _⟩
      have agents := mirrors.agents
      rw [quiet.1, List.forall₂_nil_left_iff] at agents
      rw [agents] at member
      cases member
    obtain ⟨failed, onWay⟩ := draining.outcome jobId job (mirrors.world ▸ found)
    refine ⟨?_, mirrors.trace ▸ failed⟩
    rcases onWay with terminal | doomed | pursued
    · exact terminal
    · exact absurd doomed (nobody _)
    · refine absurd (pursued.assembled ?_) (nobody _)
      refine Database.openChunks_eq_zero_iff_status.mpr fun chunkIndex status chunk => ?_
      by_contra opened
      rcases pursued.carried chunkIndex ⟨status, chunk, opened⟩ with has | ⟨entry, member, task, body, _⟩
      · exact nobody _ has
      · have parked := quiet.2 entry (mirrors.world ▸ member)
        rcases draining.messages entry member with ⟨_, _, _, work | ⟨tier, waiting⟩⟩ | ⟨_, _, _, other⟩
        · exact env.failedQueue_ne (parked.symm.trans work)
        · exact env.failedQueue_ne_tierQueue tier (parked.symm.trans waiting)
        · cases body.symm.trans other
  refine ⟨(terminates_of_mirrors loaded.mirrors loaded.draining.toWorking).stops, ?_, ?_, ?_⟩
  · intro state drained entry member task body
    obtain ⟨fleet, mirrors, working, most⟩ := Fleet.Mirrors.invariant
      (fun fleet => Fleet.Working env fleet ∧
        (Fleet.delivering env entry.2.origin).total fleet ≤ env.patience task.attempt)
      drained loaded.mirrors ⟨loaded.draining.toWorking, loaded.delivering_le member body⟩
      fun state fleet label after mirrors holds undisturbed stepped =>
        ⟨Fleet.working_of_stepped holds.1 (mirrors.undisturbed undisturbed) stepped,
          (Fleet.delivering_of_stepped _ holds.1 (mirrors.undisturbed undisturbed) stepped).trans holds.2⟩
    have counted := Fleet.sum_delivering env entry.2.origin state.trace
    rw [← mirrors.trace] at counted ⊢
    unfold Ledger.total at most
    unfold Config.patience at most
    omega
  · intro state drained quiet jobId job found
    exact (settled drained quiet found).1
  · intro state drained quiet jobId job found clean
    obtain ⟨terminal, spoils⟩ := settled drained quiet found
    cases status : job.status with
    | done => rfl
    | failed =>
      obtain ⟨origin, task, call, member, named, last, fails⟩ := spoils status
      cases fails.symm.trans (clean origin task call member named last)
    | queued | running =>
      rw [status] at terminal
      cases terminal

/-- A job of two chunks. The message of the first one has been published twice. -/
def twoChunks : Deployment where
  world :=
    { db := (Database.empty.createJob (lit "job") (lit "key") (lit "hash") (lit "http://host/file") [(0, 1), (1, 2)]
        false).getD .empty
      store := fun key => if key = sourceKey (lit "hash") then some (.source [0, 1]) else none
      broker := ⟨[(lit "markitdown.chunks", ⟨0, .task (chunk 0)⟩), (lit "markitdown.chunks", ⟨1, .task (chunk 0)⟩),
        (lit "markitdown.chunks", ⟨2, .task (chunk 1)⟩)], 3⟩ }
  procs := []
where
  /-- The task of one of the chunks. -/
  chunk (index : ℕ) : ChunkTask :=
    { jobId := lit "job", chunkIndex := index, docKey := lit "key", fileHash := lit "hash", startPage := index,
      endPage := index + 1, totalChunks := 2, useLlm := false }

theorem loaded_twoChunks : Loaded (sampleEnv {}) twoChunks := by
  have named (index : ℕ) : twoChunks.world.db.Named (twoChunks.chunk index) := by
    intro job found
    have own : twoChunks.world.db.getJob (lit "job") = some (Database.newJob (lit "job") (lit "key") (lit "hash")
      (lit "http://host/file") [(0, 1), (1, 2)] false) := by decide +kernel
    cases own.symm.trans found
    rfl
  refine ⟨rfl, rfl, by decide +kernel, by decide +kernel, ?_, ?_, by decide +kernel⟩
  · intro entry member
    simp only [twoChunks, List.mem_cons, List.not_mem_nil, or_false] at member
    rcases member with rfl | rfl | rfl <;> exact ⟨rfl, _, rfl, Nat.le_refl 1, named _⟩
  · intro row member
    have indices : row.chunkIndex = 0 ∨ row.chunkIndex = 1 := by
      revert row
      decide +kernel
    have owner : row.jobId = lit "job" := by
      revert row
      decide +kernel
    rcases indices with index | index
    · exact ⟨_, List.mem_cons_self .., twoChunks.chunk 0, rfl, owner.symm, index.symm, rfl⟩
    · exact ⟨_, .tail _ (.tail _ (.head _)), twoChunks.chunk 1, rfl, owner.symm, index.symm, rfl⟩

/-- A conversion of the first chunk fails, its duplicate and the second chunk are converted by two workers at a time,
and the retry comes back when the job is done. -/
def convertsTwoChunks : List Label :=
  .deliver 0 (lit "first") :: Script.fails 0 ++ Script.acts 0 3 ++ .finish 0 :: .deliver 0 (lit "first") ::
    .deliver 0 (lit "second") :: Script.converts 0 (lit "one") ++ Script.converts 1 (lit "two") ++ Script.acts 1 1 ++
    .finish 1 :: Script.acts 0 9 ++ .finish 0 :: .expire 0 :: .deliver 0 (lit "first") :: Script.acts 0 1 ++ [.finish 0]

theorem drains_of_twoChunks : Loaded (sampleEnv {}) twoChunks ∧ Drains (sampleEnv {}) twoChunks ∧
    ∃ state, Drained (sampleEnv {}) twoChunks state ∧ Quiet (sampleEnv {}) state := by
  have leads : Leads (step (sampleEnv {})) (fun state label => state.undisturbed label = true)
      (fun state => state.procs.isEmpty = true ∧ state.world.broker.messages = []) twoChunks
      convertsTwoChunks := by decide +kernel
  obtain ⟨state, drained, idle, none⟩ := leads.exists_reaches
  refine ⟨loaded_twoChunks, drains_of_loaded (by decide) loaded_twoChunks, state, drained,
    List.isEmpty_iff.mp idle, fun entry member => ?_⟩
  rw [none] at member
  cases member

end Deployment

end MarkitdownServer
