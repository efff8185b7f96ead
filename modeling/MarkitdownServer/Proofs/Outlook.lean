import MarkitdownServer.Machine.Fleet
import MarkitdownServer.Proofs.JobTable

/-! # What a task makes of its job

The outlook of a task is the status that its job has after a handler without faults has worked on it alone. The
calls before `complete_chunk` do not change the outlook. After `complete_chunk` the chunk is done, so that from
there on another run would stop at once: of the last open chunk the outlook is then `running`.
-/

namespace MarkitdownServer

open Effects Transition

/-- An object that `get_part` can decode. -/
def Obj.isText : Obj → Bool
  | .text _ => true
  | _ => false

/-- The parts of the chunks are stored. -/
def Store.hasParts (store : Store) (docKey : Str) (indices : List ℕ) : Bool :=
  indices.all fun index => (store (partKey docKey index)).any Obj.isText

namespace Handler

variable {task : ChunkTask} {world : World}

/-- The chunk of the task is the last open chunk of an active job. -/
def isLast (task : ChunkTask) (world : World) : Bool :=
  match world.db.getJob task.jobId, world.db.chunkStatus task.jobId task.chunkIndex with
  | some job, some status => !job.status.isTerminal && status ≠ .done && job.remainingChunks = 1
  | _, _ => false

theorem isLast_iff : isLast task world = true ↔ ∃ job status, world.db.getJob task.jobId = some job ∧
    world.db.chunkStatus task.jobId task.chunkIndex = some status ∧ job.status.isTerminal = false ∧
    status ≠ .done ∧ job.remainingChunks = 1 := by
  unfold isLast
  split
  · next job status found chunk => simp [found, chunk, and_assoc]
  · next none => simpa using fun job found status chunk => (none job status found chunk).elim

/-- The bucket after the task has stored its part. -/
def withPart (task : ChunkTask) (store : Store) : Store := store.put (partKey task.docKey task.chunkIndex) (.text [])

/-- The status that the job of the task has when the task has been handled without a fault. -/
def outlook (task : ChunkTask) (world : World) : Option JobStatus :=
  (world.db.getJob task.jobId).map fun job =>
    if job.status.isTerminal then job.status
    else if isLast task world then
      if (withPart task world.store).hasParts job.docKey (world.db.chunkIndices task.jobId) then .done else .failed
    else .running

/-! ## The calls before `complete_chunk` do not change the outlook -/

/-- Two worlds in which the job of the task is active and that differ in nothing the outlook depends on. -/
structure SameView (task : ChunkTask) (before after : World) : Prop where
  job : ∃ old new, before.db.getJob task.jobId = some old ∧ after.db.getJob task.jobId = some new ∧
    old.status.isTerminal = false ∧ new.status.isTerminal = false ∧
    new.remainingChunks = old.remainingChunks ∧ new.docKey = old.docKey
  chunk : (after.db.chunkStatus task.jobId task.chunkIndex).map (fun status => decide (status = .done)) =
    (before.db.chunkStatus task.jobId task.chunkIndex).map fun status => decide (status = .done)
  indices : after.db.chunkIndices task.jobId = before.db.chunkIndices task.jobId
  parts : ∀ key, (withPart task after.store key).any Obj.isText = (withPart task before.store key).any Obj.isText

theorem SameView.refl {job : JobRow} (found : world.db.getJob task.jobId = some job)
    (active : job.status.isTerminal = false) : SameView task world world :=
  ⟨⟨job, job, found, found, active, active, rfl, rfl⟩, rfl, rfl, fun _ => rfl⟩

theorem SameView.trans {first second third : World} (left : SameView task first second)
    (right : SameView task second third) : SameView task first third := by
  obtain ⟨old, middle, before, between, active, _, remaining, docKey⟩ := left.job
  obtain ⟨other, new, same, after, _, still, remainingLater, docKeyLater⟩ := right.job
  cases between.symm.trans same
  exact ⟨⟨old, new, before, after, active, still, remainingLater.trans remaining, docKeyLater.trans docKey⟩,
    right.chunk.trans left.chunk, right.indices.trans left.indices,
    fun key => (right.parts key).trans (left.parts key)⟩

theorem SameView.broker {start : World} (same : SameView task start world) (broker : Broker) :
    SameView task start { world with broker } := ⟨same.job, same.chunk, same.indices, same.parts⟩

theorem SameView.isLast {before after : World} (same : SameView task before after) :
    isLast task after = isLast task before := by
  obtain ⟨old, new, found, later, active, still, remaining, _⟩ := same.job
  have chunk := same.chunk
  simp only [Handler.isLast, found, later]
  cases one : before.db.chunkStatus task.jobId task.chunkIndex <;>
    cases two : after.db.chunkStatus task.jobId task.chunkIndex <;> simp_all

theorem SameView.outlook {before after : World} (same : SameView task before after) :
    outlook task after = outlook task before := by
  have last := same.isLast
  obtain ⟨old, new, found, later, active, still, _, docKey⟩ := same.job
  have parts : (withPart task after.store).hasParts old.docKey (after.db.chunkIndices task.jobId) =
      (withPart task before.store).hasParts old.docKey (before.db.chunkIndices task.jobId) := by
    simp only [Store.hasParts, same.indices, same.parts]
  simp only [Handler.outlook, found, later, Option.map_some, active, still, Bool.false_eq_true, if_false, last, docKey,
    parts]

variable {job : JobRow} (found : world.db.getJob task.jobId = some job) (active : job.status.isTerminal = false)

include found active

/-- A statement that changes no job and completes no chunk. -/
private theorem SameView.chunk_exec (stmt : Stmt) (jobs : (stmt.exec world.db).2.jobs = world.db.jobs)
    (keeps : ∀ status, decide (stmt.chunkEffect task.jobId task.chunkIndex status = .done) = decide (status = .done))
    (updates : ∀ docKey fileHash url ranges useLlm, stmt ≠ .createJob task.jobId docKey fileHash url ranges useLlm) :
    SameView task world { world with db := (stmt.exec world.db).2 } := by
  have still : (stmt.exec world.db).2.getJob task.jobId = some job := by rw [Database.getJob, jobs]; exact found
  refine ⟨⟨job, job, found, still, active, active, rfl, rfl⟩, ?_, chunkIndices_exec stmt found, fun _ => rfl⟩
  cases chunk : world.db.chunkStatus task.jobId task.chunkIndex with
  | none =>
    rcases chunkStatus_fresh stmt chunk with absent | ⟨docKey, fileHash, url, ranges, useLlm, same, _⟩
    · simp only [absent, Option.map_none]
    · exact absurd same (updates docKey fileHash url ranges useLlm)
  | some status => simp only [chunkStatus_exec stmt chunk, Option.map_some, keeps]

theorem SameView.startChunkRow (owner : Str) (attempt : ℕ) :
    SameView task world { world with db := world.db.startChunkRow task.jobId task.chunkIndex owner attempt } := by
  refine SameView.chunk_exec found active (.startChunkRow task.jobId task.chunkIndex owner attempt) rfl
    (fun status => ?_) (by rintro _ _ _ _ _ ⟨⟩)
  by_cases done : status = .done <;> simp [Stmt.chunkEffect, done]

theorem SameView.rescheduleChunk (error : Str) :
    SameView task world { world with db := world.db.rescheduleChunk task.jobId task.chunkIndex error } := by
  refine SameView.chunk_exec found active (.rescheduleChunk task.jobId task.chunkIndex error) rfl
    (fun status => ?_) (by rintro _ _ _ _ _ ⟨⟩)
  by_cases done : status = .done <;> simp [Stmt.chunkEffect, done]

theorem SameView.startChunkJob : SameView task world { world with db := world.db.startChunkJob task.jobId } := by
  refine ⟨⟨job, _, found, getJob_startChunkJob found, active, ?_⟩, rfl, rfl, fun _ => rfl⟩
  split
  · exact ⟨rfl, rfl, rfl⟩
  · exact ⟨active, rfl, rfl⟩

theorem SameView.putPart (content : Str) :
    SameView task world { world with
      store := world.store.put (partKey task.docKey task.chunkIndex) (.text content) } := by
  refine ⟨⟨job, job, found, found, active, active, rfl, rfl⟩, rfl, rfl, fun key => ?_⟩
  simp only [withPart, Store.put_apply]
  split <;> rfl

omit found active

/-! ## A run without faults -/

/-- How an assembly ends that has yet to read the parts of these chunks. -/
def verdict (store : Store) (docKey : Str) (indices : List ℕ) : JobStatus :=
  if store.hasParts docKey indices then .done else .failed

/-- The worker has counted the last chunk of the job and is on its way to give it the status. -/
structure Assembling (task : ChunkTask) (start : World) (calls : List Step) (world : World) (status : JobStatus) :
    Prop where
  running : (world.db.getJob task.jobId).map (·.status) = some .running
  closed : world.db.chunkStatus task.jobId task.chunkIndex = some .done
  outlook : outlook task start = some status
  last : isLast task start = true
  late : 7 < calls.length

/-- The worker has started the chunk and not yet counted it. -/
structure Started (task : ChunkTask) (start world : World) : Prop where
  same : SameView task start world
  running : (world.db.getJob task.jobId).map (·.status) = some .running

/-- Where a run without faults stands that began in the world `start`. -/
def Heading (task : ChunkTask) (start : World) (calls : List Step) (world : World) : Phase → Prop
  | .looking => calls.length = 0 ∧ world = start
  | .startingRow => calls.length = 1 ∧ SameView task start world
  | .startingJob => calls.length = 2 ∧ SameView task start world
  | .fetching => calls.length = 3 ∧ Started task start world
  | .preparing _ => calls.length = 4 ∧ Started task start world
  | .converting _ => calls.length = 5 ∧ Started task start world
  | .storing _ => calls.length = 6 ∧ Started task start world
  | .completing => calls.length = 7 ∧ Started task start world ∧
      (world.store (partKey task.docKey task.chunkIndex)).any Obj.isText = true
  | .loading => ∃ job, world.db.getJob task.jobId = some job ∧ Assembling task start calls world
      (verdict world.store job.docKey (world.db.chunkIndices task.jobId))
  | .listing job => job.jobId = task.jobId ∧ Assembling task start calls world
      (verdict world.store job.docKey (world.db.chunkIndices task.jobId))
  | .reading job _ index rest => job.jobId = task.jobId ∧ Assembling task start calls world
      (verdict world.store job.docKey (index :: rest))
  | .writing job _ _ | .recording job _ | .finishing job =>
      job.jobId = task.jobId ∧ Assembling task start calls world .done
  | .aborting _ => Assembling task start calls world .failed
  | .dropped => world = start ∧ ∀ job, start.db.getJob task.jobId = some job → job.status.isTerminal = true
  | .counted => isLast task start = false ∧ outlook task start = some .running ∧
      (world.db.getJob task.jobId).map (·.status) = some .running ∧
      ∀ status, world.db.chunkStatus task.jobId task.chunkIndex = some status → status = .done
  | .finished => outlook task start = some .done ∧ (world.db.getJob task.jobId).map (·.status) = some .done
  | .aborted => outlook task start = some .failed ∧ (world.db.getJob task.jobId).map (·.status) = some .failed
  | _ => False

/-- The source of the task is stored. -/
def HasSource (task : ChunkTask) (world : World) : Prop :=
  ∃ source, world.store (sourceKey task.fileHash) = some (.source source)

section Steps

variable {config : Config} {owner : Str} {start : World} {calls : List Step} {parent : Option Message} {markdown : Str}

/-- An assembly that leaves the job and its chunks alone goes on. -/
theorem Assembling.later {status : JobStatus} {after : World} {call : Step}
    (assembling : Assembling task start calls world status)
    (job : after.db.getJob task.jobId = world.db.getJob task.jobId)
    (chunk : after.db.chunkStatus task.jobId task.chunkIndex = world.db.chunkStatus task.jobId task.chunkIndex) :
    Assembling task start (calls ++ [call]) after status :=
  ⟨job ▸ assembling.running, chunk ▸ assembling.closed, assembling.outlook, assembling.last,
    Nat.lt_of_lt_of_le assembling.late (by simp)⟩

/-- The next chunk, or all parts have been read. -/
theorem heading_gather {job : JobRow} {parts : List Str} {indices : List ℕ} (named : job.jobId = task.jobId)
    (assembling : Assembling task start calls world (verdict world.store job.docKey indices)) :
    Heading task start calls world (gather job parts indices) := by
  cases indices with
  | nil => exact ⟨named, assembling⟩
  | cons index rest => exact ⟨named, assembling⟩

/-- `complete_chunk` counts the chunk and finds out whether it was the last. -/
theorem Started.complete (started : Started task start world) (stored : (world.store (partKey task.docKey
      task.chunkIndex)).any Obj.isText = true) (length : calls.length = 7) (call : Step) :
    Heading task start (calls ++ [call])
      { world with db := (world.db.completeChunk task.jobId task.chunkIndex
          (partKey task.docKey task.chunkIndex)).2 }
      (if (world.db.completeChunk task.jobId task.chunkIndex (partKey task.docKey task.chunkIndex)).1 = 0 then .loading
        else .counted) := by
  have last := started.same.isLast
  have outlook := started.same.outlook
  obtain ⟨_, job, _, found, _, active, _, _⟩ := started.same.job
  by_cases closed : ∀ status, world.db.chunkStatus task.jobId task.chunkIndex = some status → status = .done
  · have notLast : isLast task world = false := by
      cases chunk : world.db.chunkStatus task.jobId task.chunkIndex with
      | none => simp [isLast, found, chunk]
      | some status => simp [isLast, found, chunk, closed status chunk]
    rw [completeChunk_closed closed]
    refine ⟨last ▸ notLast, ?_, started.running, closed⟩
    rw [← outlook]
    simp [Handler.outlook, found, active, notLast]
  · simp only [not_forall, exists_prop] at closed
    obtain ⟨status, chunk, opened⟩ := closed
    obtain ⟨value, counted⟩ := completeChunk_counted chunk opened found active (partKey task.docKey task.chunkIndex)
    have done := chunkStatus_exec
      (.completeChunk task.jobId task.chunkIndex (partKey task.docKey task.chunkIndex)) chunk
    simp only [Stmt.exec, Stmt.chunkEffect, and_self, if_true] at done
    have indices := chunkIndices_exec
      (.completeChunk task.jobId task.chunkIndex (partKey task.docKey task.chunkIndex)) found
    simp only [Stmt.exec] at indices
    rw [value]
    split
    · next zero =>
      have lastHere : isLast task world = true := by
        simp [isLast, found, chunk, active, opened, show job.remainingChunks = 1 by omega]
      refine ⟨_, counted, by simp [counted], done, ?_, last ▸ lastHere, by simp [length]⟩
      rw [← outlook]
      have parts : (withPart task world.store).hasParts job.docKey (world.db.chunkIndices task.jobId) =
          world.store.hasParts job.docKey (world.db.chunkIndices task.jobId) := by
        have texts (key : Str) :
            (withPart task world.store key).any Obj.isText = (world.store key).any Obj.isText := by
          simp only [withPart, Store.put_apply]
          split
          · next own => rw [own, stored]; rfl
          · rfl
        simp only [Store.hasParts, texts]
      simp only [Handler.outlook, found, Option.map_some, active, Bool.false_eq_true, if_false, lastHere, if_true,
        parts, verdict, indices]
    · next positive =>
      have notLast : isLast task world = false := by
        simp [isLast, found, chunk, active, opened, show job.remainingChunks ≠ 1 by omega]
      refine ⟨last ▸ notLast, ?_, by simp [counted], by simp [done]⟩
      rw [← outlook]
      simp [Handler.outlook, found, active, notLast]

/-- Every call that does not raise leads on. -/
theorem Heading.step {phase : Phase} {op : Op} {onward : Except Exc op.Reply → Phase} {raises : ℕ → Option Exc}
    (well : raises calls.length = none) (source : HasSource task world)
    (heading : Heading task start calls world phase) (moves : step config owner task phase = some ⟨op, onward⟩) :
    Heading task start (calls ++ [⟨op, (serve config parent markdown raises calls op world).1⟩])
      (serve config parent markdown raises calls op world).2
      (onward (serve config parent markdown raises calls op world).1) := by
  cases phase with
  | looking =>
    obtain ⟨length, rfl⟩ := heading
    cases moves
    rw [serve_db well]
    simp only [Stmt.exec]
    cases found : world.db.getJob task.jobId with
    | none => exact ⟨rfl, by simp [found]⟩
    | some job =>
      dsimp only
      split
      · next terminal => exact ⟨rfl, by simp [found, terminal]⟩
      · next active => exact ⟨by simp [length], .refl found (by simpa using active)⟩
  | startingRow =>
    obtain ⟨length, same⟩ := heading
    obtain ⟨_, job, _, found, _, active, _⟩ := same.job
    cases moves
    rw [serve_db well]
    exact ⟨by simp [length], same.trans (.startChunkRow found active owner task.attempt)⟩
  | startingJob =>
    obtain ⟨length, same⟩ := heading
    obtain ⟨_, job, _, found, _, active, _⟩ := same.job
    cases moves
    rw [serve_db well]
    refine ⟨by simp [length], same.trans (.startChunkJob found active), ?_⟩
    simp only [Stmt.exec, getJob_startChunkJob found, Option.map_some]
    cases status : job.status <;> simp_all [JobStatus.isTerminal]
  | fetching =>
    obtain ⟨length, started⟩ := heading
    obtain ⟨file, stored⟩ := source
    cases moves
    rw [serve_s3 well]
    simp only [S3.exec, stored]
    exact ⟨by simp [length], started⟩
  | preparing file =>
    obtain ⟨length, started⟩ := heading
    cases moves
    rw [serve_markItDown well]
    exact ⟨by simp [length], started⟩
  | converting file =>
    obtain ⟨length, started⟩ := heading
    cases moves
    rw [serve_convert well]
    exact ⟨by simp [length], started⟩
  | storing text =>
    obtain ⟨length, started⟩ := heading
    obtain ⟨_, job, _, found, _, active, _⟩ := started.same.job
    cases moves
    rw [serve_s3 well]
    refine ⟨by simp [length], ⟨started.same.trans (.putPart found active text), started.running⟩, ?_⟩
    simp [S3.exec]
    rfl
  | completing =>
    obtain ⟨length, started, stored⟩ := heading
    cases moves
    rw [serve_db well]
    exact started.complete stored length _
  | loading =>
    obtain ⟨job, found, assembling⟩ := heading
    have named := ((Database.getJob_eq_some_iff _ _ _).mp found).2
    cases moves
    rw [serve_db well]
    simp only [Stmt.exec, found]
    exact ⟨named, assembling.later rfl rfl⟩
  | listing job =>
    obtain ⟨named, assembling⟩ := heading
    cases moves
    rw [serve_db well]
    simp only [Stmt.exec, named]
    exact heading_gather named (assembling.later rfl rfl)
  | reading job parts index rest =>
    obtain ⟨named, assembling⟩ := heading
    cases moves
    rw [serve_s3 well]
    simp only [S3.exec]
    have fails (unread : (world.store (partKey job.docKey index)).any Obj.isText = false) :
        Assembling task start calls world .failed := by
      have failed : verdict world.store job.docKey (index :: rest) = .failed := by
        simp [verdict, Store.hasParts, unread]
      exact failed ▸ assembling
    cases found : world.store (partKey job.docKey index) with
    | none => exact (fails (by simp [found])).later rfl rfl
    | some obj =>
      cases obj with
      | text part =>
        refine heading_gather named ?_
        have same : verdict world.store job.docKey (index :: rest) = verdict world.store job.docKey rest := by
          simp [verdict, Store.hasParts, found, Obj.isText]
        exact same ▸ assembling.later rfl rfl
      | source file => exact (fails (by simp [found, Obj.isText])).later rfl rfl
      | manifest manifest => exact (fails (by simp [found, Obj.isText])).later rfl rfl
  | writing job parts written =>
    obtain ⟨named, assembling⟩ := heading
    simp only [Handler.step] at moves
    split at moves <;> cases moves <;> rw [serve_s3 well] <;> exact ⟨named, assembling.later rfl rfl⟩
  | recording job parts =>
    obtain ⟨named, assembling⟩ := heading
    cases moves
    rw [serve_db well]
    exact ⟨named, assembling.later rfl rfl⟩
  | finishing job =>
    obtain ⟨named, assembling⟩ := heading
    cases moves
    rw [serve_db well]
    obtain ⟨row, found, _⟩ := Option.map_eq_some_iff.mp assembling.running
    refine ⟨assembling.outlook, ?_⟩
    simp only [Stmt.exec, named, getJob_finishJob found, Option.map_some]
  | aborting error =>
    cases moves
    rw [serve_db well]
    obtain ⟨row, found, running⟩ := Option.map_eq_some_iff.mp heading.running
    refine ⟨heading.outlook, ?_⟩
    simp only [Stmt.exec, getJob_failJob found (by rw [running]; rfl), Option.map_some]
  | parking | failingChunk | failingJob | rescheduling | retrying => cases heading
  | dropped | counted | finished | aborted | failed | retried | escaped => cases moves

/-- A handler never overwrites a source. -/
theorem HasSource.step {phase : Phase} {op : Op} {onward : Except Exc op.Reply → Phase} {raises : ℕ → Option Exc}
    (source : HasSource task world) (moves : step config owner task phase = some ⟨op, onward⟩) :
    HasSource task (serve config parent markdown raises calls op world).2 := by
  cases raised : raises calls.length with
  | some error => rwa [serve_raised raised]
  | none =>
    obtain ⟨file, stored⟩ := source
    cases op with
    | db stmt => exact ⟨file, by rwa [serve_db raised]⟩
    | amqp request => exact ⟨file, by rwa [serve_amqp raised]⟩
    | tool request =>
      refine ⟨file, ?_⟩
      simp only [serve, raised]
      cases request <;> exact stored
    | s3 request =>
      rw [serve_s3 raised]
      cases request with
      | getObject key => exact ⟨file, stored⟩
      | headObject key => exact ⟨file, stored⟩
      | putObject key obj =>
        have other : sourceKey task.fileHash ≠ key := by
          cases phase with
          | storing text =>
            cases moves
            exact sourceKey_ne_partKey _ _ _
          | writing job parts written =>
            simp only [Handler.step] at moves
            split at moves <;> cases moves
            · exact sourceKey_ne_pageKey _ _ _
            · exact sourceKey_ne_manifestKey _ _
          | parking error sending | retrying sending =>
            obtain ⟨_, same⟩ := Sending.op_of_step moves
            cases same
          | _ => cases moves
        exact ⟨file, by simpa [S3.exec, other] using stored⟩

end Steps

/-! ## The outlook where a run stops -/

section Outlook

variable {start : World} {calls : List Step} {phase : Phase}

/-- When the run has ended, the job has the status it was heading for, and keeps it. -/
theorem Heading.ended {config : Config} {owner : Str} (heading : Heading task start calls world phase)
    (ended : Handler.step config owner task phase = none) :
    (world.db.getJob task.jobId).map (·.status) = outlook task start ∧ outlook task world = outlook task start := by
  cases phase with
  | dropped =>
    obtain ⟨rfl, terminal⟩ := heading
    refine ⟨?_, rfl⟩
    cases found : world.db.getJob task.jobId with
    | none => simp [outlook, found]
    | some job => simp [outlook, found, terminal job found]
  | counted =>
    obtain ⟨_, expected, running, closed⟩ := heading
    refine ⟨running.trans expected.symm, ?_⟩
    obtain ⟨job, found, status⟩ := Option.map_eq_some_iff.mp running
    have notLast : isLast task world = false := by
      cases chunk : world.db.chunkStatus task.jobId task.chunkIndex with
      | none => simp [isLast, found, chunk]
      | some status => simp [isLast, found, chunk, closed status chunk]
    rw [expected]
    simp [outlook, found, status, notLast, JobStatus.isTerminal]
  | finished =>
    obtain ⟨expected, done⟩ := heading
    refine ⟨done.trans expected.symm, ?_⟩
    obtain ⟨job, found, status⟩ := Option.map_eq_some_iff.mp done
    rw [expected]
    simp [outlook, found, status, JobStatus.isTerminal]
  | aborted =>
    obtain ⟨expected, failed⟩ := heading
    refine ⟨failed.trans expected.symm, ?_⟩
    obtain ⟨job, found, status⟩ := Option.map_eq_some_iff.mp failed
    rw [expected]
    simp [outlook, found, status, JobStatus.isTerminal]
  | failed | retried | escaped => cases heading
  | writing job parts written =>
    simp only [Handler.step] at ended
    split at ended <;> cases ended
  | _ => cases ended

/-- The last chunk of a job decides it. -/
theorem outlook_of_isLast (last : isLast task world = true) :
    outlook task world = some .done ∨ outlook task world = some .failed := by
  obtain ⟨job, _, found, _, active, _⟩ := isLast_iff.mp last
  simp only [outlook, found, Option.map_some, active, Bool.false_eq_true, if_false, last, if_true]
  split
  · exact .inl rfl
  · exact .inr rfl

/-- Up to `complete_chunk` the outlook is what it was; after it the job is to stay running. -/
theorem Heading.underway {config : Config} {owner : Str} {next : Σ op : Op, Except Exc op.Reply → Phase}
    (heading : Heading task start calls world phase) (moves : Handler.step config owner task phase = some next) :
    (calls.length ≤ 7 ∧ outlook task world = outlook task start) ∨
      (7 < calls.length ∧ isLast task start = true ∧ outlook task world = some .running) := by
  have stuck {status : JobStatus} (assembling : Assembling task start calls world status) :
      7 < calls.length ∧ isLast task start = true ∧ outlook task world = some .running := by
    obtain ⟨job, found, running⟩ := Option.map_eq_some_iff.mp assembling.running
    have notLast : isLast task world = false := by simp [isLast, found, assembling.closed]
    refine ⟨assembling.late, assembling.last, ?_⟩
    simp [outlook, found, running, notLast, JobStatus.isTerminal]
  cases phase with
  | looking =>
    obtain ⟨length, rfl⟩ := heading
    exact .inl ⟨by omega, rfl⟩
  | startingRow | startingJob =>
    obtain ⟨length, same⟩ := heading
    exact .inl ⟨by omega, same.outlook⟩
  | fetching | preparing | converting | storing =>
    obtain ⟨length, started⟩ := heading
    exact .inl ⟨by omega, started.same.outlook⟩
  | completing =>
    obtain ⟨length, started, _⟩ := heading
    exact .inl ⟨by omega, started.same.outlook⟩
  | loading =>
    obtain ⟨job, _, assembling⟩ := heading
    exact .inr (stuck assembling)
  | listing | reading | writing | recording | finishing => exact .inr (stuck heading.2)
  | aborting => exact .inr (stuck heading)
  | parking | failingChunk | failingJob | rescheduling | retrying => cases heading
  | dropped | counted | finished | aborted | failed | retried | escaped => cases moves

end Outlook

end Handler

end MarkitdownServer
