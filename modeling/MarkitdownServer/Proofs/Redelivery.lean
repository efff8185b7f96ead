import MarkitdownServer.Proofs.Outlook

/-! # A crash and the redelivery that follows

A worker dies after any number of its calls, the broker delivers the message again, and a healthy worker
handles it to the end; nobody else works on the job meanwhile. Up to `complete_chunk` nothing is lost: the
second run finds the chunk open and ends the job as the first would have. After `complete_chunk` the chunk is
done, so the second run stops there; if the first worker had taken the counter to zero, nobody assembles the
document and the job stays running. If the conversion of the first worker failed, the redelivery gives the
chunk another chance: the job does better than it would have, unless `fail_job` has been carried out.
-/

namespace MarkitdownServer

open Effects Transition

namespace Handler

variable {task : ChunkTask} {world : World}

/-! ## A run whose conversion fails -/

/-- The job of the task is there and active. -/
def isActive (task : ChunkTask) (world : World) : Bool :=
  (world.db.getJob task.jobId).any fun job => !job.status.isTerminal

/-- The chunk of the task is the last one of its job, and with its own part the parts of the job are not all there. -/
def missesParts (task : ChunkTask) (world : World) : Bool :=
  isLast task world && !((world.db.getJob task.jobId).any fun job =>
    (withPart task world.store).hasParts job.docKey (world.db.chunkIndices task.jobId))

/-- The world after `fail_chunk` of the chunk of the task. -/
def failedChunk (task : ChunkTask) (error : Exc) (world : World) : World :=
  { world with db := world.db.failChunk task.jobId task.chunkIndex error.describe }

theorem isActive_iff : isActive task world = true ↔
    ∃ job, world.db.getJob task.jobId = some job ∧ job.status.isTerminal = false := by
  simp [isActive, Option.any_eq_true]

theorem isActive_of_isLast (last : isLast task world = true) : isActive task world = true := by
  obtain ⟨job, _, found, _, active, _⟩ := isLast_iff.mp last
  exact isActive_iff.mpr ⟨job, found, active⟩

theorem outlook_of_idle (idle : isActive task world = false) :
    outlook task world = (world.db.getJob task.jobId).map (·.status) := by
  cases found : world.db.getJob task.jobId with
  | none => simp only [outlook, found, Option.map_none]
  | some job =>
    have terminal : job.status.isTerminal = true := by simpa [isActive, found] using idle
    simp only [outlook, found, Option.map_some, terminal, if_true]

/-- A redelivery brings an active job to `running` if its chunk is not the last one. -/
theorem outlook_eq_running_iff (active : isActive task world = true) :
    outlook task world = some .running ↔ isLast task world = false := by
  obtain ⟨job, found, active⟩ := isActive_iff.mp active
  simp only [outlook, found, Option.map_some, active, Bool.false_eq_true, if_false, Option.some.injEq]
  cases isLast task world with
  | false => simp
  | true =>
    rw [if_pos rfl]
    split <;> simp

/-- A redelivery brings an active job to `failed` if its chunk is the last one and the document cannot be assembled. -/
theorem outlook_eq_failed_iff (active : isActive task world = true) :
    outlook task world = some .failed ↔ missesParts task world = true := by
  obtain ⟨job, found, active⟩ := isActive_iff.mp active
  simp only [outlook, missesParts, found, Option.map_some, active, Bool.false_eq_true, if_false, Option.some.injEq,
    Option.any_some]
  cases isLast task world with
  | false => simp
  | true => simp

theorem chunkStatus_failedChunk (task : ChunkTask) (error : Exc) (world : World) :
    (failedChunk task error world).db.chunkStatus task.jobId task.chunkIndex =
      (world.db.chunkStatus task.jobId task.chunkIndex).map fun _ => .failed := by
  cases chunk : world.db.chunkStatus task.jobId task.chunkIndex with
  | none =>
    rcases chunkStatus_fresh (.failChunk task.jobId task.chunkIndex error.describe) chunk with
      absent | ⟨_, _, _, _, _, ⟨⟩, _⟩
    exact absent
  | some status =>
    have failed := chunkStatus_exec (.failChunk task.jobId task.chunkIndex error.describe) chunk
    simp only [Stmt.chunkEffect, and_self, if_true] at failed
    exact failed

/-- `fail_chunk` leaves the last chunk of a job the last one. -/
theorem isLast_failedChunk (last : isLast task world = true) (error : Exc) :
    isLast task (failedChunk task error world) = true := by
  obtain ⟨job, status, found, chunk, active, _, remaining⟩ := isLast_iff.mp last
  have failed := chunkStatus_failedChunk task error world
  rw [chunk] at failed
  exact isLast_iff.mpr ⟨job, .failed, found, failed, active, by simp, remaining⟩

/-- `fail_chunk` changes nothing for a job that is not active. -/
theorem outlook_failedChunk_of_idle (idle : isActive task world = false) (error : Exc) :
    outlook task (failedChunk task error world) = outlook task world := by
  have later : isActive task (failedChunk task error world) = false := idle
  rw [outlook_of_idle idle, outlook_of_idle later]
  rfl

/-- `fail_chunk` in both worlds leaves them alike. -/
theorem SameView.failedChunk {before after : World} (same : SameView task before after) (error : Exc) :
    SameView task (failedChunk task error before) (failedChunk task error after) := by
  obtain ⟨old, new, found, later, rest⟩ := same.job
  have chunk := congrArg Option.isSome same.chunk
  refine ⟨⟨old, new, found, later, rest⟩, ?_, ?_, same.parts⟩
  · rw [chunkStatus_failedChunk, chunkStatus_failedChunk]
    simp only [Option.isSome_map] at chunk
    cases one : before.db.chunkStatus task.jobId task.chunkIndex <;>
      cases two : after.db.chunkStatus task.jobId task.chunkIndex <;> simp_all
  · have kept {world : World} {job : JobRow} (found : world.db.getJob task.jobId = some job) :=
      chunkIndices_exec (.failChunk task.jobId task.chunkIndex error.describe) found
    exact (kept later).trans (same.indices.trans (kept found).symm)

/-- What a worker does on the queues changes nothing of this. -/
theorem Started.published {start : World} (started : Started task start world) (broker : Broker) :
    Started task start { world with broker } :=
  ⟨started.same.broker broker, started.running⟩

/-- Where a run stands that began in the world `start` and in which call number `broken` raises, one of the
four calls of the `try`. -/
def Failing (config : Config) (task : ChunkTask) (start : World) (broken : ℕ) (error : Exc) (calls : List Step)
    (world : World) : Phase → Prop
  | .looking => Heading task start calls world .looking
  | .startingRow => Heading task start calls world .startingRow
  | .startingJob => Heading task start calls world .startingJob
  | .fetching => Heading task start calls world .fetching
  | .preparing source => 3 < broken ∧ Heading task start calls world (.preparing source)
  | .converting source => 4 < broken ∧ Heading task start calls world (.converting source)
  | .storing markdown => 5 < broken ∧ Heading task start calls world (.storing markdown)
  | .parking raised (.opening false) => config.maxAttempts ≤ task.attempt ∧ raised = error ∧
      calls.length = broken + 1 ∧ Started task start world
  | .parking raised (.sending false _ []) => config.maxAttempts ≤ task.attempt ∧ raised = error ∧
      calls.length = broken + 2 ∧ Started task start world
  | .failingChunk raised => config.maxAttempts ≤ task.attempt ∧ raised = error ∧
      calls.length = broken + 3 ∧ Started task start world
  | .failingJob _ => config.maxAttempts ≤ task.attempt ∧ calls.length = broken + 4 ∧
      Started task (failedChunk task error start) world
  | .failed => config.maxAttempts ≤ task.attempt ∧ calls.length = broken + 5 ∧ isActive task start = true ∧
      (world.db.getJob task.jobId).map (·.status) = some .failed
  | .rescheduling _ | .retrying _ | .retried =>
      task.attempt < config.maxAttempts ∧ broken < calls.length ∧ Started task start world
  | .dropped => Heading task start calls world .dropped
  | _ => False

section Failures

variable {config : Config} {owner markdown : Str} {parent : Option Message} {start : World} {broken : ℕ} {error : Exc}
  {calls : List Step} {phase : Phase}

/-- The call that raises leads to `_handle_failure`. -/
theorem Started.failure (started : Started task start world) (length : calls.length = broken + 1) :
    Failing config task start broken error calls world (failure config task error) := by
  unfold Handler.failure
  split
  · next exhausted => exact ⟨exhausted, rfl, length, started⟩
  · next left => exact ⟨by omega, by omega, started⟩

theorem Failing.step {op : Op} {onward : Except Exc op.Reply → Phase} (low : 3 ≤ broken) (high : broken ≤ 6)
    (source : HasSource task world) (failing : Failing config task start broken error calls world phase)
    (moves : Handler.step config owner task phase = some ⟨op, onward⟩) :
    let answer := serve config parent markdown (fun n => if n = broken then some error else none) calls op world
    Failing config task start broken error (calls ++ [⟨op, answer.1⟩]) answer.2 (onward answer.1) := by
  have well (other : calls.length ≠ broken) : (if calls.length = broken then some error else none) = none :=
    if_neg other
  have heads (heading : Heading task start calls world phase) (other : calls.length ≠ broken) :
      let answer := serve config parent markdown (fun n => if n = broken then some error else none) calls op world
      Heading task start (calls ++ [⟨op, answer.1⟩]) answer.2 (onward answer.1) :=
    heading.step (well other) source moves
  have length (call : Step) : (calls ++ [call]).length = calls.length + 1 := by simp
  dsimp only at heads ⊢
  cases phase with
  | looking =>
    obtain ⟨zero, rfl⟩ := failing
    have next := heads ⟨zero, rfl⟩ (by omega)
    cases moves
    rw [serve_db (well (by omega))] at next ⊢
    simp only [Stmt.exec] at next ⊢
    cases found : world.db.getJob task.jobId with
    | none =>
      simp only [found] at next
      exact next
    | some job =>
      simp only [found] at next ⊢
      split <;> simp_all [Failing]
  | startingRow =>
    obtain ⟨one, same⟩ := failing
    have next := heads ⟨one, same⟩ (by omega)
    cases moves
    rw [serve_db (well (by omega))] at next ⊢
    exact next
  | startingJob =>
    obtain ⟨two, same⟩ := failing
    have next := heads ⟨two, same⟩ (by omega)
    cases moves
    rw [serve_db (well (by omega))] at next ⊢
    exact next
  | fetching =>
    obtain ⟨three, started⟩ := failing
    by_cases here : calls.length = broken
    · cases moves
      rw [serve_raised (if_pos here)]
      exact started.failure (by rw [length, here])
    · have next := heads ⟨three, started⟩ here
      obtain ⟨file, stored⟩ := source
      cases moves
      rw [serve_s3 (well here)] at next ⊢
      simp only [S3.exec, stored] at next ⊢
      exact ⟨by omega, next⟩
  | preparing file =>
    obtain ⟨_, four, started⟩ := failing
    by_cases here : calls.length = broken
    · cases moves
      rw [serve_raised (if_pos here)]
      exact started.failure (by rw [length, here])
    · have next := heads ⟨four, started⟩ here
      cases moves
      rw [serve_markItDown (well here)] at next ⊢
      exact ⟨by omega, next⟩
  | converting file =>
    obtain ⟨_, five, started⟩ := failing
    by_cases here : calls.length = broken
    · cases moves
      rw [serve_raised (if_pos here)]
      exact started.failure (by rw [length, here])
    · have next := heads ⟨five, started⟩ here
      cases moves
      rw [serve_convert (well here)] at next ⊢
      exact ⟨by omega, next⟩
  | storing text =>
    obtain ⟨late, six, started⟩ := failing
    have here : calls.length = broken := by omega
    cases moves
    rw [serve_raised (if_pos here)]
    exact started.failure (by rw [length, here])
  | parking raised sending =>
    cases sending with
    | opening resending =>
      cases resending with
      | true => cases failing
      | false =>
        obtain ⟨exhausted, rfl, one, started⟩ := failing
        cases moves
        rw [serve_amqp (well (by omega))]
        exact ⟨exhausted, rfl, by rw [length, one], started.published _⟩
    | sending resending body rest =>
      cases resending with
      | true => cases failing
      | false =>
        cases rest with
        | cons => cases failing
        | nil =>
          obtain ⟨exhausted, rfl, two, started⟩ := failing
          cases moves
          rw [serve_amqp (well (by omega))]
          exact ⟨exhausted, rfl, by rw [length, two], started.published _⟩
  | failingChunk raised =>
    obtain ⟨exhausted, rfl, three, started⟩ := failing
    cases moves
    rw [serve_db (well (by omega))]
    exact ⟨exhausted, by rw [length, three], started.same.failedChunk raised, started.running⟩
  | failingJob raised =>
    obtain ⟨exhausted, four, started⟩ := failing
    obtain ⟨old, job, found, later, active, still, _⟩ := started.same.job
    cases moves
    rw [serve_db (well (by omega))]
    refine ⟨exhausted, by rw [length, four], isActive_iff.mpr ⟨old, found, active⟩, ?_⟩
    simp only [Stmt.exec, getJob_failJob later still, Option.map_some]
  | rescheduling raised =>
    obtain ⟨left, late, started⟩ := failing
    obtain ⟨_, job, _, found, _, active, _⟩ := started.same.job
    cases moves
    rw [serve_db (well (by omega))]
    exact ⟨left, by rw [length]; omega, started.same.trans (.rescheduleChunk found active _), started.running⟩
  | retrying sending =>
    obtain ⟨left, late, started⟩ := failing
    obtain ⟨request, rfl⟩ := Sending.op_of_step moves
    rw [serve_amqp (well (by omega))]
    have goesOn : task.attempt < config.maxAttempts ∧ broken < (calls ++ [(⟨.amqp request, .ok ()⟩ : Step)]).length ∧
        Started task start { world with broker := request.exec config parent world.broker } :=
      ⟨left, by rw [length]; omega, started.published _⟩
    exact Sending.onward_of_ok (Failing config task start broken error _ _) moves (fun _ => goesOn) goesOn
  | dropped | counted | finished | aborted | failed | retried | escaped => cases moves
  | _ => cases failing

/-- What a run whose `try` fails has made of the job after so many calls. -/
inductive Standing (config : Config) (task : ChunkTask) (start : World) (broken : ℕ) (error : Exc) (made : ℕ)
    (world : World) (isOver : Bool) : Prop where
  | dropped (idle : isActive task start = false) (same : world = start)
  | underway (early : made ≤ broken + 3) (same : outlook task world = outlook task start) (moves : isOver = false)
  | reopened (exhausted : config.maxAttempts ≤ task.attempt) (late : made = broken + 4)
      (active : isActive task start = true) (same : outlook task world = outlook task (failedChunk task error start))
      (moves : isOver = false)
  | failed (exhausted : config.maxAttempts ≤ task.attempt) (late : made = broken + 5)
      (active : isActive task start = true) (status : (world.db.getJob task.jobId).map (·.status) = some .failed)
  | retried (left : task.attempt < config.maxAttempts) (active : isActive task start = true)
      (same : outlook task world = outlook task start)
      (status : (world.db.getJob task.jobId).map (·.status) = some .running)

theorem Failing.standing (owner : Str) (failing : Failing config task start broken error calls world phase)
    (low : 3 ≤ broken) : Standing config task start broken error calls.length world
      (Handler.step config owner task phase).isNone := by
  have active {start : World} (started : Started task start world) : isActive task start = true := by
    obtain ⟨job, _, found, _, active, _⟩ := started.same.job
    exact isActive_iff.mpr ⟨job, found, active⟩
  cases phase with
  | looking =>
    obtain ⟨length, rfl⟩ := failing
    exact .underway (by omega) rfl rfl
  | startingRow | startingJob =>
    obtain ⟨length, same⟩ := failing
    exact .underway (by omega) same.outlook rfl
  | fetching =>
    obtain ⟨length, started⟩ := failing
    exact .underway (by omega) started.same.outlook rfl
  | preparing | converting | storing =>
    obtain ⟨_, length, started⟩ := failing
    exact .underway (by omega) started.same.outlook rfl
  | parking raised sending =>
    cases sending with
    | opening resending =>
      cases resending with
      | true => cases failing
      | false =>
        obtain ⟨_, _, length, started⟩ := failing
        exact .underway (by omega) started.same.outlook rfl
    | sending resending body rest =>
      cases resending with
      | true => cases failing
      | false =>
        cases rest with
        | cons => cases failing
        | nil =>
          obtain ⟨_, _, length, started⟩ := failing
          exact .underway (by omega) started.same.outlook rfl
  | failingChunk =>
    obtain ⟨_, _, length, started⟩ := failing
    exact .underway (by omega) started.same.outlook rfl
  | failingJob =>
    obtain ⟨exhausted, length, started⟩ := failing
    have before : isActive task (failedChunk task error start) = true := active started
    exact .reopened exhausted length before started.same.outlook rfl
  | failed =>
    obtain ⟨exhausted, length, active, status⟩ := failing
    exact .failed exhausted length active status
  | rescheduling | retrying | retried =>
    obtain ⟨left, _, started⟩ := failing
    exact .retried left (active started) started.same.outlook started.running
  | dropped =>
    obtain ⟨rfl, terminal⟩ := failing
    refine .dropped (Bool.eq_false_iff.mpr fun active => ?_) rfl
    obtain ⟨job, found, active⟩ := isActive_iff.mp active
    exact Bool.false_ne_true (active.symm.trans (terminal job found))
  | _ => cases failing

end Failures

end Handler

namespace Worker

/-- What becomes of the `try` of a worker: the converter answers with a text, or one of the four calls raises
(the fetch, the opening of the converter, the conversion, the upload of the part). -/
inductive Attempt where
  | converts (markdown : Str)
  | fails (call : Fin 4) (error : Exc)

namespace Attempt

/-- The text of the conversion. -/
def markdown : Attempt → Str
  | converts markdown => markdown
  | fails .. => []

/-- Which calls of the worker raise; the `try` starts with its fourth call. -/
def raises : Attempt → ℕ → Option Exc
  | converts _ => fun _ => none
  | fails call error => fun n => if n = call + 3 then some error else none

end Attempt

variable (config : Config) (owner : Str) (message : Message) (task : ChunkTask)

/-- The world after a worker has handled a task to the end. -/
def handled (attempt : Attempt) (world : World) : World :=
  ((onTask config owner task).eval (serve config (some message) attempt.markdown attempt.raises) [] world).2.2

/-- What is left of a worker's program after so many calls, with the calls and the world. -/
def interrupted (attempt : Attempt) (count : ℕ) (world : World) : Prog Unit × List Step × World :=
  (onTask config owner task).steps (serve config (some message) attempt.markdown attempt.raises) count [] world

/-- The status of a job. -/
def statusOf (world : World) (jobId : Str) : Option JobStatus := (world.db.getJob jobId).map (·.status)

/-- A worker that dies after so many calls has counted its chunk and not come to its end. -/
def strands (attempt : Attempt) (count : ℕ) (world : World) : Prop :=
  match attempt with
  | .converts _ => 7 < count ∧ (interrupted config owner message task attempt count world).1.isDone = false
  | .fails .. => False

/-- When the redelivery brings the job to the status that the worker would have brought it to. A worker that
fails on its last attempt ends the job with its `fail_job`; before it, after `fail_chunk`, a chunk that was
done is open again. -/
def recovers (attempt : Attempt) (count : ℕ) (world : World) : Prop :=
  match attempt with
  | .converts _ => ¬ (Handler.isLast task world = true ∧ strands config owner message task attempt count world)
  | .fails call error =>
    Handler.isActive task world = true →
      if config.maxAttempts ≤ task.attempt then
        call + 8 ≤ count ∨
          Handler.missesParts task (if count = call + 7 then Handler.failedChunk task error world else world) = true
      else Handler.isLast task world = false

variable {config owner message task} {world : World}

/-- A task handled without a fault brings its job to the status of its outlook. -/
theorem statusOf_handled (source : Handler.HasSource task world) (markdown : Str) :
    statusOf (handled config owner message task (.converts markdown) world) task.jobId =
      Handler.outlook task world := by
  have start : Handler.HasSource task world ∧ Handler.Heading task world [] world .looking := ⟨source, rfl, rfl⟩
  have well (calls : List Step) : (Attempt.converts markdown).raises calls.length = none := rfl
  obtain ⟨phase, ended, _, heading⟩ := Program.Tracks.eval
    (fun calls after phase => Handler.HasSource task after ∧ Handler.Heading task world calls after phase)
    Handler.onTask_tracks start
    fun calls after phase op onward holds moves => ⟨holds.1.step moves, holds.2.step (well calls) holds.1 moves⟩
  exact (heading.ended ended).1

/-- A task whose `try` fails leaves an active job `failed` if that was the last attempt, and else `running`. -/
theorem statusOf_handled_fails (source : Handler.HasSource task world) (call : Fin 4) (error : Exc) :
    statusOf (handled config owner message task (.fails call error) world) task.jobId =
      if Handler.isActive task world = true then
        some (if config.maxAttempts ≤ task.attempt then .failed else .running)
      else Handler.outlook task world := by
  have start : Handler.HasSource task world ∧
      Handler.Failing config task world (call + 3) error [] world .looking := ⟨source, rfl, rfl⟩
  obtain ⟨phase, ended, _, failing⟩ : ∃ phase, Handler.step config owner task phase = none ∧
      Handler.HasSource task (handled config owner message task (.fails call error) world) ∧
      Handler.Failing config task world (call + 3) error _
        (handled config owner message task (.fails call error) world) phase := Program.Tracks.eval
    (fun calls after phase => Handler.HasSource task after ∧
      Handler.Failing config task world (call + 3) error calls after phase)
    Handler.onTask_tracks start
    fun calls after phase op onward holds moves =>
      ⟨holds.1.step moves, holds.2.step (by omega) (by omega) holds.1 moves⟩
  cases failing.standing owner (by omega) with
  | dropped idle same => rw [if_neg (by simp [idle]), statusOf, same, Handler.outlook_of_idle idle]
  | underway _ _ moves | reopened _ _ _ _ moves =>
    rw [ended] at moves
    cases moves
  | failed exhausted _ active status =>
    rw [if_pos active, if_pos exhausted]
    exact status
  | retried left active _ status =>
    rw [if_pos active, if_neg (by omega)]
    exact status

/-- Where a worker stands whose `try` goes well. -/
theorem heading_interrupted (source : Handler.HasSource task world) (markdown : Str) (count : ℕ) :
    ∃ phase, (interrupted config owner message task (.converts markdown) count world).1.Tracks
        (Handler.step config owner task) (fun _ phase => Handler.step config owner task phase = none) phase ∧
      Handler.HasSource task (interrupted config owner message task (.converts markdown) count world).2.2 ∧
      Handler.Heading task world (interrupted config owner message task (.converts markdown) count world).2.1
        (interrupted config owner message task (.converts markdown) count world).2.2 phase := by
  have start : Handler.HasSource task world ∧ Handler.Heading task world [] world .looking := ⟨source, rfl, rfl⟩
  have well (calls : List Step) : (Attempt.converts markdown).raises calls.length = none := rfl
  exact Program.Tracks.steps
    (fun calls after phase => Handler.HasSource task after ∧ Handler.Heading task world calls after phase)
    Handler.onTask_tracks start
    (fun calls after phase op onward holds moves =>
      ⟨holds.1.step moves, holds.2.step (well calls) holds.1 moves⟩) count

/-- Where a worker stands whose `try` fails. -/
theorem failing_interrupted (source : Handler.HasSource task world) (call : Fin 4) (error : Exc) (count : ℕ) :
    ∃ phase, (interrupted config owner message task (.fails call error) count world).1.Tracks
        (Handler.step config owner task) (fun _ phase => Handler.step config owner task phase = none) phase ∧
      Handler.HasSource task (interrupted config owner message task (.fails call error) count world).2.2 ∧
      Handler.Failing config task world (call + 3) error
        (interrupted config owner message task (.fails call error) count world).2.1
        (interrupted config owner message task (.fails call error) count world).2.2 phase := by
  have start : Handler.HasSource task world ∧
      Handler.Failing config task world (call + 3) error [] world .looking := ⟨source, rfl, rfl⟩
  exact Program.Tracks.steps
    (fun calls after phase => Handler.HasSource task after ∧
      Handler.Failing config task world (call + 3) error calls after phase)
    Handler.onTask_tracks start
    (fun calls after phase op onward holds moves =>
      ⟨holds.1.step moves, holds.2.step (by omega) (by omega) holds.1 moves⟩) count

/-- After a first worker whose `try` goes well. -/
theorem statusOf_redelivered_converts (source : Handler.HasSource task world) (other first second : Str) (count : ℕ) :
    (statusOf (handled config other message task (.converts second)
        (interrupted config owner message task (.converts first) count world).2.2) task.jobId =
          Handler.outlook task world ∧
      ¬ (Handler.isLast task world = true ∧ strands config owner message task (.converts first) count world)) ∨
    (statusOf (handled config other message task (.converts second)
        (interrupted config owner message task (.converts first) count world).2.2) task.jobId = some .running ∧
      Handler.isLast task world = true ∧ strands config owner message task (.converts first) count world) := by
  obtain ⟨phase, tracks, still, heading⟩ :
      ∃ phase, (interrupted config owner message task (.converts first) count world).1.Tracks
        (Handler.step config owner task) (fun _ phase => Handler.step config owner task phase = none) phase ∧ _ :=
    heading_interrupted source first count
  have past := tracks.isDone_eq
  rw [statusOf_handled still]
  cases moves : Handler.step config owner task phase with
  | none =>
    rw [moves, Option.isNone_none] at past
    exact .inl ⟨(heading.ended moves).2, by simp [strands, past]⟩
  | some next =>
    rw [moves, Option.isNone_some] at past
    have length : (interrupted config owner message task (.converts first) count world).2.1.length = count := by
      simpa [interrupted] using Program.length_steps _ _ _ _ _ past
    rcases heading.underway moves with ⟨early, same⟩ | ⟨late, last, stays⟩
    · refine .inl ⟨same, ?_⟩
      rintro ⟨_, late, _⟩
      omega
    · exact .inr ⟨stays, last, by omega, past⟩

/-- After a first worker whose `try` fails. -/
theorem statusOf_redelivered_fails (source : Handler.HasSource task world) (other second : Str) (call : Fin 4)
    (error : Exc) (count : ℕ) :
    statusOf (handled config other message task (.converts second)
        (interrupted config owner message task (.fails call error) count world).2.2) task.jobId =
      if Handler.isActive task world = true ∧ config.maxAttempts ≤ task.attempt ∧ call + 8 ≤ count then some .failed
      else if config.maxAttempts ≤ task.attempt ∧ count = call + 7 then
        Handler.outlook task (Handler.failedChunk task error world)
      else Handler.outlook task world := by
  obtain ⟨phase, tracks, still, failing⟩ :
      ∃ phase, (interrupted config owner message task (.fails call error) count world).1.Tracks
        (Handler.step config owner task) (fun _ phase => Handler.step config owner task phase = none) phase ∧ _ :=
    failing_interrupted source call error count
  have past := tracks.isDone_eq
  have most : (interrupted config owner message task (.fails call error) count world).2.1.length ≤ count :=
    (Program.length_steps_le _ _ _ _ _).trans_eq (Nat.zero_add count)
  have reached (moves : (Handler.step config owner task phase).isNone = false) :
      (interrupted config owner message task (.fails call error) count world).2.1.length = count :=
    (Program.length_steps _ _ _ _ _ (past.trans moves)).trans (Nat.zero_add count)
  rw [statusOf_handled still]
  cases failing.standing owner (by omega) with
  | dropped idle same => rw [same, if_neg (by simp [idle]), Handler.outlook_failedChunk_of_idle idle, ite_self]
  | underway early same moves =>
    have length := reached moves
    rw [if_neg (by omega), if_neg (by omega)]
    exact same
  | reopened exhausted late active same moves =>
    have length := reached moves
    rw [if_neg (by omega), if_pos (by omega)]
    exact same
  | failed exhausted late active status =>
    obtain ⟨job, found, failed⟩ := Option.map_eq_some_iff.mp status
    rw [if_pos ⟨active, exhausted, by omega⟩]
    simp [Handler.outlook, found, failed, JobStatus.isTerminal]
  | retried left active same status =>
    rw [if_neg (by omega), if_neg (by omega)]
    exact same

/-- A worker dies after `count` calls and the message is handled again without a fault.

The job ends as if the worker had not died in exactly the cases of `recovers`. In an undisturbed run the last
open chunk ends the job, and so does its redelivery, unless the dead worker `strands` the job. -/
theorem status_after_redelivery (source : Handler.HasSource task world) (other first second : Str)
    (attempt : Attempt) (count : ℕ) :
    (statusOf (handled config other message task (.converts second)
        (interrupted config owner message task attempt count world).2.2) task.jobId =
      statusOf (handled config owner message task attempt world) task.jobId ↔
        recovers config owner message task attempt count world) ∧
      (Handler.isLast task world = true → ∃ status, status.isTerminal = true ∧
        statusOf (handled config owner message task (.converts first) world) task.jobId = some status) ∧
      (Handler.isLast task world = true → ((∃ status, status.isTerminal = true ∧
        statusOf (handled config other message task (.converts second)
          (interrupted config owner message task attempt count world).2.2) task.jobId = some status) ↔
        ¬ strands config owner message task attempt count world)) := by
  have decided {world : World} (last : Handler.isLast task world = true) :
      ∃ status, status.isTerminal = true ∧ Handler.outlook task world = some status := by
    rcases Handler.outlook_of_isLast last with done | failed
    · exact ⟨.done, rfl, done⟩
    · exact ⟨.failed, rfl, failed⟩
  refine ⟨?_, ?_, ?_⟩
  · cases attempt with
    | converts markdown =>
      rw [statusOf_handled source]
      rcases statusOf_redelivered_converts source other markdown second count with
        ⟨same, fine⟩ | ⟨stays, last, strands⟩
      · exact iff_of_true same fine
      · obtain ⟨status, terminal, expected⟩ := decided last
        refine iff_of_false ?_ (not_not.mpr ⟨last, strands⟩)
        rw [stays, expected, Option.some.injEq]
        rintro rfl
        cases terminal
    | fails call error =>
      rw [statusOf_handled_fails source, statusOf_redelivered_fails source]
      unfold recovers
      by_cases active : Handler.isActive task world = true
      · have later : Handler.isActive task (Handler.failedChunk task error world) = true := active
        by_cases exhausted : config.maxAttempts ≤ task.attempt
        · simp only [active, exhausted, true_and, if_true, forall_const]
          by_cases carried : call + 8 ≤ count
          · simp only [carried, if_true, true_or]
          · simp only [carried, if_false, false_or]
            split
            · exact Handler.outlook_eq_failed_iff later
            · exact Handler.outlook_eq_failed_iff active
        · simp only [active, exhausted, false_and, and_false, if_true, if_false, forall_const]
          exact Handler.outlook_eq_running_iff active
      · have idle := Handler.outlook_failedChunk_of_idle (Bool.eq_false_iff.mpr active) error
        simp only [active, Bool.false_eq_true, false_and, if_false, idle, ite_self, false_implies]
  · intro last
    rw [statusOf_handled source]
    exact decided last
  · intro last
    cases attempt with
    | converts markdown =>
      rcases statusOf_redelivered_converts source other markdown second count with
        ⟨same, fine⟩ | ⟨stays, _, strands⟩
      · rw [same]
        exact iff_of_true (decided last) fun strands => fine ⟨last, strands⟩
      · rw [stays]
        refine iff_of_false ?_ (not_not.mpr strands)
        rintro ⟨status, terminal, same⟩
        cases same
        cases terminal
    | fails call error =>
      rw [statusOf_redelivered_fails source]
      refine iff_of_true ?_ not_false
      split
      · exact ⟨.failed, rfl, rfl⟩
      split
      · exact decided (Handler.isLast_failedChunk last error)
      · exact decided last

end Worker
namespace Deployment

/-- The task of a job with one chunk. -/
def sampleTask (env : Env) : ChunkTask :=
  { jobId := lit "job", chunkIndex := 0, docKey := env.makeDocKey (env.sha256 [0]) false, fileHash := env.sha256 [0],
    startPage := wholeFile.1, endPage := wholeFile.2, totalChunks := 1, useLlm := false }

/-- A worker that dies before `complete_chunk` is made good by the redelivery. -/
theorem redelivery_finishes_job :
    let task := sampleTask (sampleEnv {})
    ∃ state, Reaches (step (sampleEnv {})) (fun _ _ => True) .initial state ∧ Handler.HasSource task state.world ∧
      Worker.statusOf (Worker.handled {} (lit "other") ⟨0, .task task⟩ task (.converts (lit "second"))
          (Worker.interrupted {} (lit "worker") ⟨0, .task task⟩ task (.converts (lit "first")) 7 state.world).2.2)
          (lit "job") =
        Worker.statusOf (Worker.handled {} (lit "worker") ⟨0, .task task⟩ task (.converts (lit "first")) state.world)
          (lit "job") := by
  have leads : Leads (step (sampleEnv {})) (fun _ _ => True)
      (fun state => state.world.store (sourceKey (sampleTask (sampleEnv {})).fileHash) = some (.source [0])) .initial
      (Script.submits 0 [0] (lit "job") false) := by decide +kernel
  obtain ⟨state, reached, stored⟩ := leads.exists_reaches
  have source : Handler.HasSource (sampleTask (sampleEnv {})) state.world := ⟨[0], stored⟩
  refine ⟨state, reached, source, ?_⟩
  refine (Worker.status_after_redelivery source (lit "other") (lit "first") (lit "second")
    (.converts (lit "first")) 7).1.mpr ?_
  rintro ⟨_, late, _⟩
  exact absurd late (by decide)

/-- A worker that dies right after `complete_chunk`, its eighth call, leaves its job running for good: the
redelivered message is handled and acked, nothing is left on the queues, and nobody is at work. Undisturbed,
the job is done. -/
theorem crash_strands_job :
    let task := sampleTask (sampleEnv {})
    (∃ state, Reaches (step (sampleEnv {})) (fun _ _ => True) .initial state ∧
      state.world.broker.messages = [((sampleEnv {}).rabbitmqQueue, ⟨0, .task task⟩)] ∧
      Handler.HasSource task state.world ∧
      Worker.statusOf (Worker.handled {} (lit "worker") ⟨0, .task task⟩ task (.converts (lit "text"))
          (Worker.interrupted {} (lit "worker") ⟨0, .task task⟩ task (.converts (lit "text")) 8 state.world).2.2)
          (lit "job") = some .running ∧
        Worker.statusOf (Worker.handled {} (lit "worker") ⟨0, .task task⟩ task (.converts (lit "text")) state.world)
          (lit "job") = some .done) ∧
      ∃ state, Reaches (step (sampleEnv {})) (fun _ _ => True) .initial state ∧ state.procs = [] ∧
        state.world.broker.messages = [] ∧ Worker.statusOf state.world (lit "job") = some .running := by
  have before : Leads (step (sampleEnv {})) (fun _ _ => True)
      (fun state =>
        state.world.broker.messages = [((sampleEnv {}).rabbitmqQueue, ⟨0, .task (sampleTask (sampleEnv {}))⟩)] ∧
        state.world.store (sourceKey (sampleTask (sampleEnv {})).fileHash) = some (.source [0]) ∧
        Worker.statusOf (Worker.handled {} (lit "worker") ⟨0, .task (sampleTask (sampleEnv {}))⟩
          (sampleTask (sampleEnv {})) (.converts (lit "text")) (Worker.interrupted {} (lit "worker")
            ⟨0, .task (sampleTask (sampleEnv {}))⟩ (sampleTask (sampleEnv {})) (.converts (lit "text")) 8
              state.world).2.2)
          (lit "job") = some .running ∧
        Worker.statusOf (Worker.handled {} (lit "worker") ⟨0, .task (sampleTask (sampleEnv {}))⟩
          (sampleTask (sampleEnv {})) (.converts (lit "text")) state.world) (lit "job") = some .done) .initial
      (Script.submits 0 [0] (lit "job") false) := by decide +kernel
  have after : Leads (step (sampleEnv {})) (fun _ _ => True)
      (fun state => state.procs.isEmpty ∧ state.world.broker.messages = [] ∧
        Worker.statusOf state.world (lit "job") = some .running) .initial
      (Script.submits 0 [0] (lit "job") false ++ .deliver 0 (lit "worker") :: Script.converts 0 (lit "text") ++
        Script.acts 0 1 ++ .crash 0 :: .deliver 0 (lit "worker") :: Script.converts 0 (lit "text") ++
        Script.acts 0 1 ++ [.finish 0]) := by decide +kernel
  obtain ⟨state, reached, queued, stored, stranded, finished⟩ := before.exists_reaches
  obtain ⟨last, arrived, idle, drained, running⟩ := after.exists_reaches
  exact ⟨⟨state, reached, queued, ⟨[0], stored⟩, stranded, finished⟩, last, arrived, List.isEmpty_iff.mp idle, drained,
    running⟩

end Deployment

end MarkitdownServer
