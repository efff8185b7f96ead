import MarkitdownServer.Proofs.Counter

/-! # The open chunks of one job

How a statement moves one job towards its end: a chunk is completed by `complete_chunk` only, a job whose
chunks are all done stays so unless `fail_chunk` hits one of them, and whoever takes the last open chunk is told
so.
-/

namespace MarkitdownServer

open Relational

namespace Database

/-- A chunk that exists has not been completed. -/
def Unfinished (db : Database) (jobId : Str) (chunkIndex : ℕ) : Prop :=
  ∃ status, db.chunkStatus jobId chunkIndex = some status ∧ status ≠ .done

variable {db : Database} {jobId : Str} {chunkIndex : ℕ}

theorem openChunks_eq_zero_iff_status :
    db.openChunks jobId = 0 ↔ ∀ chunkIndex status, db.chunkStatus jobId chunkIndex = some status → status = .done := by
  rw [openChunks_eq_zero_iff]
  constructor
  · intro all chunkIndex status found
    obtain ⟨row, member, named, _, rfl⟩ := (db.chunkStatus_eq_some_iff _ _ _).mp found
    exact all row member named
  · intro all row member named
    exact all row.chunkIndex row.status ((db.chunkStatus_eq_some_iff _ _ _).mpr ⟨row, member, named, rfl, rfl⟩)

theorem Unfinished.openChunks_ne_zero (unfinished : db.Unfinished jobId chunkIndex) : db.openChunks jobId ≠ 0 := by
  obtain ⟨status, found, opened⟩ := unfinished
  exact fun none => opened (openChunks_eq_zero_iff_status.mp none _ _ found)

/-- A chunk is completed by `complete_chunk` only. -/
theorem Unfinished.exec (unfinished : db.Unfinished jobId chunkIndex) (stmt : Stmt)
    (other : ∀ s3Key, stmt ≠ .completeChunk jobId chunkIndex s3Key) :
    (stmt.exec db).2.Unfinished jobId chunkIndex := by
  obtain ⟨status, found, opened⟩ := unfinished
  refine ⟨_, chunkStatus_exec stmt found, ?_⟩
  cases stmt with
  | startChunkRow | rescheduleChunk | failChunk =>
    simp only [Stmt.chunkEffect]
    split
    · exact ChunkStatus.noConfusion
    · exact opened
  | completeChunk job index s3Key =>
    simp only [Stmt.chunkEffect]
    split
    · next same => exact absurd (by rw [same.1, same.2]) (other s3Key)
    · exact opened
  | _ => exact opened

/-- A chunk of an existing job that is done was done before, or is completed now. -/
theorem done_of_exec {row : JobRow} (found : db.getJob jobId = some row) {stmt : Stmt}
    (done : (stmt.exec db).2.chunkStatus jobId chunkIndex = some .done) :
    db.chunkStatus jobId chunkIndex = some .done ∨ ∃ s3Key, stmt = .completeChunk jobId chunkIndex s3Key := by
  by_cases completes : ∃ s3Key, stmt = .completeChunk jobId chunkIndex s3Key
  · exact .inr completes
  cases before : db.chunkStatus jobId chunkIndex with
  | none =>
    rcases chunkStatus_fresh stmt before with absent | ⟨_, _, _, _, _, _, fresh, _⟩
    · cases done.symm.trans absent
    · cases fresh.symm.trans found
  | some status =>
    by_cases already : status = .done
    · exact .inl (by rw [already])
    · obtain ⟨later, same, opened⟩ := Unfinished.exec ⟨status, before, already⟩ stmt fun s3Key same =>
        completes ⟨s3Key, same⟩
      exact absurd (Option.some.inj (same.symm.trans done)) opened

/-- A chunk of an existing job that is not done was not done before, unless `fail_chunk` hits it. -/
theorem Unfinished.of_exec {row : JobRow} (found : db.getJob jobId = some row) {stmt : Stmt}
    (unfinished : (stmt.exec db).2.Unfinished jobId chunkIndex)
    (spared : ∀ error, stmt ≠ .failChunk jobId chunkIndex error) :
    db.Unfinished jobId chunkIndex ∧ ∀ s3Key, stmt ≠ .completeChunk jobId chunkIndex s3Key := by
  obtain ⟨later, same, opened⟩ := unfinished
  cases before : db.chunkStatus jobId chunkIndex with
  | none =>
    rcases chunkStatus_fresh stmt before with absent | ⟨_, _, _, _, _, _, fresh, _⟩
    · cases same.symm.trans absent
    · cases fresh.symm.trans found
  | some status =>
    have effect := chunkStatus_exec stmt before
    cases same.symm.trans effect
    refine ⟨⟨status, before, ?_⟩, ?_⟩
    · rintro rfl
      apply opened
      cases stmt with
      | startChunkRow | rescheduleChunk | completeChunk => simp [Stmt.chunkEffect]
      | failChunk job index error =>
        simp only [Stmt.chunkEffect]
        split
        · next same => exact absurd (by rw [same.1, same.2]) (spared error)
        · rfl
      | _ => rfl
    · rintro s3Key rfl
      exact opened (by simp [Stmt.chunkEffect])

/-- The chunks of a job that are all done stay so unless `fail_chunk` hits one of them. -/
theorem openChunks_exec_eq_zero {row : JobRow} (found : db.getJob jobId = some row) (none : db.openChunks jobId = 0)
    (stmt : Stmt) (spared : ∀ chunkIndex error, stmt = .failChunk jobId chunkIndex error →
      db.Unfinished jobId chunkIndex) : (stmt.exec db).2.openChunks jobId = 0 := by
  rw [openChunks_eq_zero_iff_status] at none ⊢
  intro chunkIndex status later
  cases before : db.chunkStatus jobId chunkIndex with
  | none =>
    rcases chunkStatus_fresh stmt before with absent | ⟨_, _, _, _, _, _, fresh, _⟩
    · cases later.symm.trans absent
    · cases fresh.symm.trans found
  | some old =>
    cases none _ _ before
    cases later.symm.trans (chunkStatus_exec stmt before)
    cases stmt with
    | startChunkRow | rescheduleChunk => simp [Stmt.chunkEffect]
    | completeChunk => simp [Stmt.chunkEffect]
    | failChunk job index error =>
      simp only [Stmt.chunkEffect]
      split
      · next same =>
        obtain ⟨status, found, opened⟩ := spared index error (by rw [same.1])
        rw [← same.2] at found
        exact absurd (none _ _ found) opened
      · rfl
    | _ => rfl

/-- A job that is not done is failed after `fail_job`. -/
theorem failed_of_failJob {row : JobRow} (found : db.getJob jobId = some row) (undone : row.status ≠ .done)
    (error : Str) (failing : Option ℕ) :
    ∃ later, (db.failJob jobId error failing).getJob jobId = some later ∧ later.status = .failed := by
  cases terminal : row.status.isTerminal with
  | false => exact ⟨_, getJob_failJob found terminal error failing, rfl⟩
  | true =>
    obtain ⟨later, same, change⟩ := jobChange (.failJob jobId error failing) found
    refine ⟨later, same, ?_⟩
    cases change with
    | failed => rfl
    | same =>
      cases status : row.status with
      | failed => rfl
      | done => exact absurd status undone
      | queued | running =>
        rw [status] at terminal
        cases terminal

/-! ## The tally of one job -/

variable {stmt : Stmt} {row after : JobRow}

/-- The counter of an active job stays right under every statement but a `fail_chunk` of one of its chunks. -/
theorem tally_exec (found : db.getJob jobId = some row) (active : row.status.isTerminal = false)
    (spared : ∀ chunkIndex error, stmt ≠ .failChunk jobId chunkIndex error)
    (arrived : (stmt.exec db).2.getJob jobId = some after) :
    ∃ done : ℕ, (stmt.exec db).2.openChunks jobId + done = db.openChunks jobId ∧
      after.remainingChunks + done = row.remainingChunks := by
  cases stmt with
  | failChunk other chunkIndex error =>
    cases found.symm.trans arrived
    refine ⟨0, ?_, by omega⟩
    exact openChunks_failChunk db other jobId chunkIndex error fun same =>
      absurd (by rw [same]) (spared chunkIndex error)
  | _ => exact openChunks_exec _ rfl found active arrived

/-- Whoever takes the last open chunk from an active job is told so. -/
theorem told_of_last (found : db.getJob jobId = some row) (active : row.status.isTerminal = false)
    (counts : row.remainingChunks = db.openChunks jobId)
    (spared : ∀ chunkIndex error, stmt ≠ .failChunk jobId chunkIndex error)
    (arrived : (stmt.exec db).2.getJob jobId = some after) (none : (stmt.exec db).2.openChunks jobId = 0) :
    db.openChunks jobId = 0 ∨ ∃ chunkIndex s3Key, stmt = .completeChunk jobId chunkIndex s3Key ∧
      (db.completeChunk jobId chunkIndex s3Key).1 = 0 := by
  obtain ⟨done, opened, remaining⟩ := tally_exec found active spared arrived
  obtain ⟨later, same, change⟩ := jobChange stmt found
  cases arrived.symm.trans same
  have named := ((getJob_eq_some_iff _ _ _).mp found).2
  cases change with
  | same => exact .inl (by omega)
  | started | failed | finished =>
    refine .inl ?_
    dsimp only at remaining
    omega
  | counted _ chunkIndex s3Key =>
    refine .inr ⟨chunkIndex, s3Key, by rw [named], ?_⟩
    have exits := db.completed jobId chunkIndex s3Key
    have counted : (db.completeChunk jobId chunkIndex s3Key).2.getJob jobId =
        some { row with remainingChunks := row.remainingChunks - 1, status := .running } := named ▸ arrived
    generalize db.completeChunk jobId chunkIndex s3Key = result at exits counted ⊢
    cases exits with
    | already =>
      have unchanged := congrArg JobRow.remainingChunks (Option.some.inj (found.symm.trans counted))
      dsimp only at unchanged
      omega
    | terminal _ _ inactive =>
      have idle := inactive row ((getJob_eq_some_iff _ _ _).mp found).1
      simp [isActiveJob, named, active] at idle
    | counted _ _ member activeJob =>
      cases (getJob_of_isActiveJob member activeJob).1.symm.trans found
      dsimp only at remaining ⊢
      omega

/-- Whoever is told that no chunk is left has completed a chunk of an active job that counted one more. -/
theorem counted_of_told {s3Key : Str} (zero : (db.completeChunk jobId chunkIndex s3Key).1 = 0) :
    db.Unfinished jobId chunkIndex ∧ ∃ row, db.getJob jobId = some row ∧ row.status.isTerminal = false ∧
      row.remainingChunks = 1 := by
  have exits := db.completed jobId chunkIndex s3Key
  generalize db.completeChunk jobId chunkIndex s3Key = result at exits zero
  cases exits with
  | already | terminal => cases zero
  | @counted chunk job present opened member activeJob =>
    obtain ⟨found, active⟩ := getJob_of_isActiveJob member activeJob
    simp only [isOpenChunk, Bool.and_eq_true, decide_eq_true_eq] at opened
    refine ⟨⟨chunk.status, (db.chunkStatus_eq_some_iff _ _ _).mpr ⟨chunk, present, opened.1.1, opened.1.2, rfl⟩,
      opened.2⟩, job, found, active, ?_⟩
    dsimp only at zero
    omega

/-- Whoever is told that no chunk is left by a counter that is right leaves a job with all chunks done. -/
theorem openChunks_of_told {s3Key : Str} (zero : (db.completeChunk jobId chunkIndex s3Key).1 = 0)
    (counts : ∀ row, db.getJob jobId = some row → row.status.isTerminal = false →
      row.remainingChunks = db.openChunks jobId) :
    (∃ job, (db.completeChunk jobId chunkIndex s3Key).2.getJob jobId = some job) ∧
      (db.completeChunk jobId chunkIndex s3Key).2.openChunks jobId = 0 := by
  obtain ⟨⟨status, chunk, opened⟩, row, found, active, one⟩ := counted_of_told zero
  obtain ⟨_, arrived⟩ := completeChunk_counted chunk opened found active s3Key
  obtain ⟨done, fewer, remaining⟩ := @tally_exec db jobId (.completeChunk jobId chunkIndex s3Key) row _ found active
    (fun _ _ => Stmt.noConfusion) arrived
  have right := counts row found active
  dsimp only [Stmt.exec] at fewer remaining
  exact ⟨⟨_, arrived⟩, by omega⟩

end Database

end MarkitdownServer
