import MarkitdownServer.Model.Deployment
import MarkitdownServer.Proofs.JobTable

/-! # The life of a job

The status of a job moves from queued over running to done or failed. All statements but one keep a job
that is done or failed as it is; `finish_job` has no guard, so it turns a failed job into a done one that
still carries its error. Runs without such a `finish_job` only move forward.
-/

namespace MarkitdownServer

open Transition

/-- `queued -> running -> done | failed`, with steps left out. -/
def JobStatus.Precedes (first second : JobStatus) : Prop :=
  first = second ∨ first = .queued ∨ first = .running ∧ second.isTerminal

theorem JobStatus.Precedes.trans {first second third : JobStatus} (left : first.Precedes second)
    (right : second.Precedes third) : first.Precedes third := by
  rcases left with rfl | rfl | ⟨rfl, terminal⟩
  · exact right
  · exact .inr (.inl rfl)
  · rcases right with rfl | rfl | ⟨rfl, _⟩
    · exact .inr (.inr ⟨rfl, terminal⟩)
    · cases terminal
    · cases terminal

/-- An active job may go anywhere but back to the queue. -/
theorem JobStatus.precedes_of_active {first second : JobStatus} (active : first.isTerminal = false)
    (onward : second ≠ .queued) : first.Precedes second := by
  cases first with
  | queued => exact .inr (.inl rfl)
  | running =>
    cases second with
    | queued => exact absurd rfl onward
    | running => exact .inl rfl
    | done | failed => exact .inr (.inr ⟨rfl, rfl⟩)
  | done | failed => cases active

theorem JobStatus.ne_failed_of_active {status : JobStatus} (active : status.isTerminal = false) :
    status ≠ .failed := by
  rintro rfl
  cases active

/-- What a later row of the same job may differ in. -/
def JobRow.Precedes (row later : JobRow) : Prop :=
  row.status.Precedes later.status ∧
    (row.status.isTerminal → later.status = row.status ∧ later.error = row.error ∧ later.errorChunk = row.errorChunk)

theorem JobRow.Precedes.refl (row : JobRow) : row.Precedes row := ⟨.inl rfl, fun _ => ⟨rfl, rfl, rfl⟩⟩

theorem JobRow.Precedes.trans {first second third : JobRow} (left : first.Precedes second)
    (right : second.Precedes third) : first.Precedes third := by
  refine ⟨left.1.trans right.1, fun terminal => ?_⟩
  obtain ⟨status, error, chunk⟩ := left.2 terminal
  obtain ⟨statusAfter, errorAfter, chunkAfter⟩ := right.2 (status ▸ terminal)
  exact ⟨statusAfter.trans status, errorAfter.trans error, chunkAfter.trans chunk⟩

/-- `error` is set exactly when the job is failed. -/
def JobRow.Explained (row : JobRow) : Prop := row.error.isSome ↔ row.status = .failed

/-- A statement other than a `finish_job` of a failed job moves a row forward and keeps its error right. -/
theorem JobChange.precedes {stmt : Stmt} {row after : JobRow} (change : JobChange stmt row after)
    (spared : stmt = .finishJob row.jobId → row.status ≠ .failed) (explained : row.Explained) :
    row.Precedes after ∧ after.Explained := by
  have onward {later : JobRow} (active : row.status.isTerminal = false) (moved : later.status ≠ .queued) :
      row.Precedes later :=
    ⟨JobStatus.precedes_of_active active moved, fun terminal => absurd (active.symm.trans terminal) (by decide)⟩
  have plain {later : JobRow} (calm : row.status ≠ .failed) (error : later.error = row.error)
      (status : later.status ≠ .failed) : later.Explained := by
    simp only [JobRow.Explained, calm, iff_false] at explained
    simp only [JobRow.Explained, error, status, iff_false]
    exact explained
  cases change with
  | same => exact ⟨.refl row, explained⟩
  | started _ queued =>
    have active : row.status.isTerminal = false := by rw [queued]; rfl
    exact ⟨onward active (by simp), plain (JobStatus.ne_failed_of_active active) rfl (by simp)⟩
  | counted _ _ _ active =>
    exact ⟨onward active (by simp), plain (JobStatus.ne_failed_of_active active) rfl (by simp)⟩
  | failed _ _ _ active => exact ⟨onward active (by simp), by simp [JobRow.Explained]⟩
  | finished =>
    have calm := spared rfl
    refine ⟨?_, plain calm rfl (by simp)⟩
    cases status : row.status with
    | queued | running => exact onward (by rw [status]; rfl) (by simp)
    | done => exact ⟨.inl status, fun _ => ⟨status.symm, rfl, rfl⟩⟩
    | failed => exact absurd status calm

namespace Deployment

/-- No `finish_job` of a job that is failed. -/
def sparesFailed (state : Deployment) (label : Label) : Bool :=
  match state.statement label with
  | some (.finishJob jobId) => (state.world.db.getJob jobId).map (·.status) ≠ some .failed
  | _ => true

/-- Every job of `state` is explained, and is found again in `later`, as far or further on. -/
def MovesForward (state later : Deployment) : Prop :=
  ∀ jobId row, state.world.db.getJob jobId = some row → row.Explained ∧
    ∃ after, later.world.db.getJob jobId = some after ∧ row.Precedes after

variable {env : Env}

private theorem explained_of_step {state next : Deployment} {label : Label}
    (explained : ∀ jobId row, state.world.db.getJob jobId = some row → row.Explained)
    (spared : state.sparesFailed label) (stepped : step env state label = some next) :
    (∀ jobId row, next.world.db.getJob jobId = some row → row.Explained) ∧ MovesForward state next := by
  have same := db_of_step stepped
  cases statement : state.statement label with
  | none =>
    simp only [statement] at same
    simp only [MovesForward, same]
    exact ⟨explained, fun jobId row found => ⟨explained jobId row found, row, found, .refl row⟩⟩
  | some stmt =>
    simp only [statement] at same
    have calm {jobId : Str} {row : JobRow} (found : state.world.db.getJob jobId = some row) :
        stmt = .finishJob row.jobId → row.status ≠ .failed := by
      rintro rfl
      have named := ((Database.getJob_eq_some_iff _ _ _).mp found).2
      simpa [sparesFailed, statement, named, found] using spared
    constructor
    · intro jobId after found
      rw [same] at found
      rcases getJob_exec stmt found with ⟨row, before, change⟩ | ⟨_, _, _, _, _, _, _, _, rfl⟩
      · exact (change.precedes (calm before) (explained _ _ before)).2
      · simp [JobRow.Explained, Database.newJob]
    · intro jobId row found
      obtain ⟨after, present, change⟩ := jobChange stmt found
      refine ⟨explained _ _ found, after, same ▸ present, ?_⟩
      exact (change.precedes (calm found) (explained _ _ found)).1

/-- Along every run in which no failed job is finished, a job moves forward only, a job that is done or
failed keeps its status and error, and the error is set exactly on failed jobs. -/
theorem movesForward_of_reaches {state later : Deployment}
    (reached : Reaches (step env) (fun state label => state.sparesFailed label) .initial state)
    (continued : Reaches (step env) (fun state label => state.sparesFailed label) state later) :
    MovesForward state later := by
  have explained : ∀ jobId row, state.world.db.getJob jobId = some row → row.Explained :=
    reached.invariant (fun jobId row found => by cases found)
      fun _ _ _ holds spared stepped => (explained_of_step holds spared stepped).1
  induction continued with
  | refl => exact fun jobId row found => ⟨explained jobId row found, row, found, .refl row⟩
  | tail earlier last ih =>
    obtain ⟨label, spared, stepped⟩ := last
    have before := (reached.trans earlier).invariant (fun jobId row found => by cases found)
      fun _ _ _ holds spared stepped => (explained_of_step holds spared stepped).1
    intro jobId row found
    obtain ⟨right, middle, present, first⟩ := ih jobId row found
    obtain ⟨_, after, arrived, second⟩ := (explained_of_step before spared stepped).2 jobId middle present
    exact ⟨right, after, arrived, first.trans second⟩

/-- A job that is running when its only chunk is done, and done seven calls later. -/
theorem movesForward_of_undisturbed_job :
    ∃ state later, Reaches (step (sampleEnv {})) (fun state label => state.sparesFailed label) .initial state ∧
      Reaches (step (sampleEnv {})) (fun state label => state.sparesFailed label) state later ∧
      (state.world.db.getJob (lit "job")).map (·.status) = some .running ∧
      (later.world.db.getJob (lit "job")).map (·.status) = some .done ∧ MovesForward state later := by
  have leads : Leads (step (sampleEnv {})) (fun state label => state.sparesFailed label)
      (fun state => (state.world.db.getJob (lit "job")).map (·.status) = some .running ∧
        Leads (step (sampleEnv {})) (fun state label => state.sparesFailed label)
          (fun later => (later.world.db.getJob (lit "job")).map (·.status) = some .done) state (Script.acts 0 7))
      .initial (Script.submits 0 [0] (lit "job") false ++ .deliver 0 (lit "worker") ::
        Script.converts 0 (lit "text") ++ Script.acts 0 1) := by decide +kernel
  obtain ⟨state, reached, running, leads⟩ := leads.exists_reaches
  obtain ⟨later, continued, done⟩ := leads.exists_reaches
  exact ⟨state, later, reached, continued, running, done, movesForward_of_reaches reached continued⟩

/-- The message is delivered twice. One copy is converted and its worker is about to finish the job when
the other copy has failed its last attempt. -/
def failedThenFinished : List Label :=
  Script.submits 0 [0] (lit "job") false ++ [.duplicate 0, .deliver 0 (lit "worker")] ++
    Script.retries 1 ++ Script.retries 1 ++ [.deliver 0 (lit "worker")] ++ Script.fails 1 ++
    Script.converts 0 (lit "text") ++ Script.acts 0 7 ++ Script.acts 1 4

theorem failed_job_finishes :
    ∃ state later, Reaches (step (sampleEnv {})) (fun _ _ => True) .initial state ∧
      Reaches (step (sampleEnv {})) (fun _ _ => True) state later ∧ ¬ MovesForward state later := by
  have leads : Leads (step (sampleEnv {})) (fun _ _ => True)
      (fun state => (state.world.db.getJob (lit "job")).map (·.status) = some .failed ∧
        Leads (step (sampleEnv {})) (fun _ _ => True)
          (fun later => (later.world.db.getJob (lit "job")).map (·.status) = some .done) state [.act 0 .done])
      .initial failedThenFinished := by decide +kernel
  obtain ⟨state, reached, failed, leads⟩ := leads.exists_reaches
  obtain ⟨later, continued, done⟩ := leads.exists_reaches
  refine ⟨state, later, reached, continued, fun forward => ?_⟩
  obtain ⟨row, found, status⟩ := Option.map_eq_some_iff.mp failed
  obtain ⟨_, after, arrived, _, kept⟩ := forward _ row found
  rw [arrived, Option.map_some, (kept (by rw [status]; rfl)).1, status] at done
  cases done

end Deployment

end MarkitdownServer
