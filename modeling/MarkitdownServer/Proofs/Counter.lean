import MarkitdownServer.Proofs.Lifecycle

/-! # The counter of remaining chunks

As long as a job is active, `remaining_chunks` is the number of its chunks that are not done. The one
statement that breaks this is a `fail_chunk` of a chunk that is already done, since it lacks the guard of
its siblings. Whatever the order of the statements, the values that `complete_chunk` returns for a job
decrease, so one caller at most is told to assemble.
-/

namespace MarkitdownServer

open Relational Transition

/-! ## The counter counts the open chunks -/

/-- The counters of the active jobs are right, and every chunk belongs to a job of its size. -/
structure Database.Counted (db : Database) : Prop where
  owned : ∀ row ∈ db.jobChunks.rows, ∃ job, db.getJob row.jobId = some job
  sized : ∀ jobId job, db.getJob jobId = some job → db.chunkCount jobId = job.totalChunks
  counts : ∀ jobId job, db.getJob jobId = some job → job.status.isTerminal = false →
    job.remainingChunks = db.openChunks jobId

/-- A `fail_chunk` hits a chunk that is not done, or a job that is not active. -/
def Stmt.sparesDone (db : Database) : Stmt → Bool
  | .failChunk jobId chunkIndex _ =>
    db.jobChunks.rows.all (fun row => row.jobId ≠ jobId || row.chunkIndex ≠ chunkIndex || row.status ≠ .done) ||
      db.jobs.rows.all fun job => !Database.isActiveJob jobId job
  | _ => true

namespace Database

variable {db : Database}

/-- No chunk belongs to a job that does not exist. -/
theorem Counted.chunkCount_fresh (counted : db.Counted) {jobId : Str} (absent : db.getJob jobId = none) :
    db.chunkCount jobId = 0 := by
  rw [chunkCount, List.countP_eq_zero]
  intro row member named
  obtain ⟨job, found⟩ := counted.owned row member
  rw [of_decide_eq_true named, absent] at found
  cases found

/-- A statement takes as much from the counter of an active job as from its open chunks. -/
theorem openChunks_exec (stmt : Stmt) (spared : stmt.sparesDone db) {jobId : Str} {row after : JobRow}
    (found : db.getJob jobId = some row) (active : row.status.isTerminal = false)
    (arrived : (stmt.exec db).2.getJob jobId = some after) :
    ∃ done : ℕ, (stmt.exec db).2.openChunks jobId + done = db.openChunks jobId ∧
      after.remainingChunks + done = row.remainingChunks := by
  obtain ⟨member, named⟩ := (getJob_eq_some_iff _ _ _).mp found
  have unchanged {jobs : Table JobRow Str JobRow.jobId} {chunks : Table ChunkRow (Str × ℕ) ChunkRow.key}
      {documents : Table DocumentRow Str DocumentRow.docKey}
      (same : (⟨documents, jobs, chunks⟩ : Database).openChunks jobId = db.openChunks jobId)
      (remaining : after.remainingChunks = row.remainingChunks) :
      ∃ done : ℕ, (⟨documents, jobs, chunks⟩ : Database).openChunks jobId + done = db.openChunks jobId ∧
        after.remainingChunks + done = row.remainingChunks := ⟨0, by omega, by omega⟩
  cases stmt with
  | findCachedDocument | recordDocument | getJob | chunkIndices =>
    cases found.symm.trans arrived
    exact unchanged rfl rfl
  | startChunkRow other chunkIndex owner attempt =>
    cases found.symm.trans arrived
    exact unchanged (openChunks_startChunkRow _ _ _ _ _ _) rfl
  | rescheduleChunk other chunkIndex error =>
    cases found.symm.trans arrived
    exact unchanged (openChunks_rescheduleChunk _ _ _ _ _) rfl
  | failChunk other chunkIndex error =>
    cases found.symm.trans arrived
    refine unchanged (openChunks_failChunk _ _ _ _ _ ?_) rfl
    rintro rfl chunk present owner index
    simp only [Stmt.sparesDone, Bool.or_eq_true, List.all_eq_true, decide_eq_true_eq] at spared
    rcases spared with done | inactive
    · rcases done chunk present with (first | second) | third
      · exact absurd owner first
      · exact absurd index second
      · exact third
    · have idle := inactive row member
      simp [isActiveJob, named, active] at idle
  | createJob other docKey fileHash url ranges useLlm =>
    obtain ⟨_, same, change⟩ := jobChange (.createJob other docKey fileHash url ranges useLlm) found
    cases arrived.symm.trans same
    have kept : after = row := by cases change; rfl
    subst kept
    refine ⟨0, ?_, by omega⟩
    simp only [Stmt.exec]
    split
    · next created =>
      have fresh := (createJob_eq_some created).1
      have different : other ≠ jobId := by
        rintro rfl
        cases fresh.symm.trans found
      rw [(chunkCount_createJob _ _ _ created).2, if_neg different]
      rfl
    · rfl
  | finishJob other | failJob other error chunkIndex | startChunkJob other =>
    obtain ⟨_, same, change⟩ := jobChange _ found
    cases arrived.symm.trans same
    exact unchanged rfl (by cases change <;> rfl)
  | completeChunk other chunkIndex s3Key =>
    have exits := db.completed other chunkIndex s3Key
    simp only [Stmt.exec] at arrived ⊢
    generalize db.completeChunk other chunkIndex s3Key = result at exits arrived ⊢
    cases exits with
    | already =>
      cases found.symm.trans arrived
      exact unchanged rfl rfl
    | terminal present opened inactive =>
      cases found.symm.trans arrived
      have different : other ≠ jobId := by
        rintro rfl
        simpa [isActiveJob, named, active] using inactive row member
      have counted := db.openChunks_markDone other jobId chunkIndex s3Key present opened db.jobs
      rw [if_neg different] at counted
      exact unchanged counted rfl
    | counted present opened _ _ =>
      have counted := db.openChunks_markDone other jobId chunkIndex s3Key present opened (db.countDown other)
      refine ⟨_, counted, ?_⟩
      have lookup := db.jobs.find?_update (isActiveJob other)
        (fun row => { row with remainingChunks := row.remainingChunks - 1, status := .running }) (fun _ => rfl) jobId
      rw [show db.jobs.find? jobId = some row from found, Option.map_some] at lookup
      cases arrived.symm.trans lookup
      by_cases same : other = jobId
      · rw [if_pos same, if_pos (by simp [isActiveJob, named, same, active])]
        simp
      · rw [if_neg same, if_neg (by simp [isActiveJob, named, Ne.symm same])]
        simp

/-- The counters stay right. -/
theorem Counted.exec (counted : db.Counted) (stmt : Stmt) (spared : stmt.sparesDone db) :
    (stmt.exec db).2.Counted := by
  refine ⟨fun row member => ?_, fun jobId job found => ?_, fun jobId job found active => ?_⟩
  · exact owned_exec stmt counted.owned row member
  · rcases getJob_exec stmt found with ⟨row, before, change⟩ | ⟨absent, _, _, _, _, _, _, created, rfl⟩
    · have size := counted.sized jobId row before
      rw [change.columns.2.2.2.1, ← size, chunkCount_eq, chunkCount_eq]
      rcases chunkKeys_exec stmt db with keys | ⟨other, _, _, _, ranges, _, _, fresh, _, rows⟩
      · rw [keys]
      · have different : other ≠ jobId := by
          rintro rfl
          cases fresh.symm.trans before
        rw [rows, List.map_append, List.countP_append, Nat.add_eq_left, List.countP_eq_zero]
        intro key new
        obtain ⟨row, member, rfl⟩ := List.mem_map.mp new
        obtain ⟨i, bound, rfl⟩ := List.mem_mapIdx.mp member
        exact fun same => different (of_decide_eq_true same)
    · rw [(chunkCount_createJob _ _ _ created).1, if_pos rfl, counted.chunkCount_fresh absent, Nat.zero_add]
      rfl
  · rcases getJob_exec stmt found with ⟨row, before, change⟩ | ⟨absent, _, _, _, _, _, _, created, rfl⟩
    · have activeBefore := change.active active
      obtain ⟨done, opened, remaining⟩ := openChunks_exec stmt spared before activeBefore found
      have right := counted.counts jobId row before activeBefore
      omega
    · have none := db.openChunks_le_chunkCount jobId
      rw [counted.chunkCount_fresh absent] at none
      rw [(chunkCount_createJob _ _ _ created).2, if_pos rfl, Nat.le_zero.mp none, Nat.zero_add]
      rfl

/-- What the counter promises: it is right and within its bounds for every active job, `complete_chunk`
returns zero only when it leaves every chunk of the job done, a value it takes from the counter is not
negative, and it returns a sentinel exactly in the sentinel's case. -/
structure CounterSound (db : Database) : Prop where
  counts : ∀ jobId job, db.getJob jobId = some job → job.status.isTerminal = false →
    job.remainingChunks = db.openChunks jobId ∧ 0 ≤ job.remainingChunks ∧ job.remainingChunks ≤ job.totalChunks
  last : ∀ jobId chunkIndex s3Key, (db.completeChunk jobId chunkIndex s3Key).1 = 0 →
    ∀ row ∈ (db.completeChunk jobId chunkIndex s3Key).2.jobChunks.rows, row.jobId = jobId → row.status = .done
  alreadyDone : ∀ jobId chunkIndex s3Key, (db.completeChunk jobId chunkIndex s3Key).1 = chunkAlreadyDone ↔
    ∀ row ∈ db.jobChunks.rows, isOpenChunk jobId chunkIndex row = false
  alreadyTerminal : ∀ jobId chunkIndex s3Key, (db.completeChunk jobId chunkIndex s3Key).1 = jobAlreadyTerminal ↔
    (∃ row ∈ db.jobChunks.rows, isOpenChunk jobId chunkIndex row) ∧
      ∀ job ∈ db.jobs.rows, isActiveJob jobId job = false
  counted : ∀ jobId chunkIndex s3Key job, db.getJob jobId = some job → job.status.isTerminal = false →
    (∃ row ∈ db.jobChunks.rows, isOpenChunk jobId chunkIndex row) →
    (db.completeChunk jobId chunkIndex s3Key).1 = job.remainingChunks - 1 ∧ 0 ≤ job.remainingChunks - 1

/-- A job with an open chunk has something left to count down. -/
theorem Counted.remaining_pos (counted : db.Counted) {jobId : Str} {chunkIndex : ℕ} {row : ChunkRow} {job : JobRow}
    (present : row ∈ db.jobChunks.rows) (opened : isOpenChunk jobId chunkIndex row)
    (found : db.getJob jobId = some job) (active : job.status.isTerminal = false) : 0 < job.remainingChunks := by
  rw [counted.counts jobId job found active]
  simp only [isOpenChunk, Bool.and_eq_true, decide_eq_true_eq] at opened
  have positive : 0 < db.openChunks jobId :=
    List.countP_pos_iff.mpr ⟨row, present, by simp [opened.1.1, opened.2]⟩
  exact_mod_cast positive

theorem getJob_of_isActiveJob {jobId : Str} {job : JobRow} (member : job ∈ db.jobs.rows)
    (active : isActiveJob jobId job) : db.getJob jobId = some job ∧ job.status.isTerminal = false := by
  simp only [isActiveJob, Bool.and_eq_true, decide_eq_true_eq, Bool.not_eq_eq_eq_not, Bool.not_true] at active
  exact ⟨(getJob_eq_some_iff _ _ _).mpr ⟨member, active.1⟩, active.2⟩

theorem Counted.sound (counted : db.Counted) : db.CounterSound := by
  refine ⟨fun jobId job found active => ?_, fun jobId chunkIndex s3Key zero => ?_, fun jobId chunkIndex s3Key => ?_,
    fun jobId chunkIndex s3Key => ?_, fun jobId chunkIndex s3Key job found active opened => ?_⟩
  · have right := counted.counts jobId job found active
    have bound := db.openChunks_le_chunkCount jobId
    rw [counted.sized jobId job found] at bound
    omega
  · have exits := db.completed jobId chunkIndex s3Key
    generalize db.completeChunk jobId chunkIndex s3Key = result at exits zero ⊢
    cases exits with
    | already | terminal => cases zero
    | @counted row job present opened member activeJob =>
      have value : job.remainingChunks - 1 = 0 := zero
      obtain ⟨found, active⟩ := getJob_of_isActiveJob member activeJob
      have right := counted.counts jobId _ found active
      have less := db.openChunks_markDone jobId jobId chunkIndex s3Key present opened (db.countDown jobId)
      rw [if_pos rfl] at less
      refine (openChunks_eq_zero_iff _ jobId).mp ?_
      dsimp only
      omega
  · have exits := db.completed jobId chunkIndex s3Key
    generalize db.completeChunk jobId chunkIndex s3Key = result at exits ⊢
    cases exits with
    | already closed => exact iff_of_true rfl closed
    | terminal present opened =>
      exact iff_of_false (by decide : jobAlreadyTerminal ≠ chunkAlreadyDone) fun closed =>
        Bool.false_ne_true ((closed _ present).symm.trans opened)
    | counted present opened member activeJob =>
      obtain ⟨found, active⟩ := getJob_of_isActiveJob member activeJob
      have positive := counted.remaining_pos present opened found active
      refine iff_of_false (fun same => ?_) fun closed => Bool.false_ne_true ((closed _ present).symm.trans opened)
      simp only [chunkAlreadyDone] at same
      omega
  · have exits := db.completed jobId chunkIndex s3Key
    generalize db.completeChunk jobId chunkIndex s3Key = result at exits ⊢
    cases exits with
    | already closed =>
      refine iff_of_false (by decide : chunkAlreadyDone ≠ jobAlreadyTerminal) ?_
      rintro ⟨⟨row, present, opened⟩, _⟩
      exact Bool.false_ne_true ((closed row present).symm.trans opened)
    | terminal present opened inactive => exact iff_of_true rfl ⟨⟨_, present, opened⟩, inactive⟩
    | counted present opened member activeJob =>
      obtain ⟨found, active⟩ := getJob_of_isActiveJob member activeJob
      have positive := counted.remaining_pos present opened found active
      refine iff_of_false (fun same => ?_) ?_
      · simp only [jobAlreadyTerminal] at same
        omega
      · rintro ⟨_, inactive⟩
        exact Bool.false_ne_true ((inactive _ member).symm.trans activeJob)
  · obtain ⟨row, present, isOpen⟩ := opened
    have positive := counted.remaining_pos present isOpen found active
    refine ⟨?_, by omega⟩
    obtain ⟨member, named⟩ := (getJob_eq_some_iff _ _ _).mp found
    have exits := db.completed jobId chunkIndex s3Key
    generalize db.completeChunk jobId chunkIndex s3Key = result at exits ⊢
    cases exits with
    | already closed => exact absurd ((closed row present).symm.trans isOpen) Bool.false_ne_true
    | terminal _ _ inactive => simpa [isActiveJob, named, active] using inactive job member
    | counted _ _ other otherActive =>
      cases (getJob_of_isActiveJob other otherActive).1.symm.trans found
      rfl

end Database

namespace Deployment

/-- No `fail_chunk` of a done chunk of an active job. -/
def sparesDone (state : Deployment) (label : Label) : Bool :=
  match state.statement label with
  | some stmt => stmt.sparesDone state.world.db
  | none => true

variable {env : Env}

theorem counted_of_step {state next : Deployment} {label : Label} (counted : state.world.db.Counted)
    (spared : state.sparesDone label) (stepped : step env state label = some next) : next.world.db.Counted := by
  have same := db_of_step stepped
  rw [sparesDone] at spared
  cases statement : state.statement label with
  | none =>
    simp only [statement] at same
    exact same ▸ counted
  | some stmt =>
    simp only [statement] at same spared
    exact same ▸ counted.exec stmt spared

theorem counted_initial : initial.world.db.Counted :=
  ⟨fun _ member => (by cases member), fun _ _ found => (by cases found), fun _ _ found => (by cases found)⟩

/-- In every run without a `fail_chunk` of a done chunk of an active job the counter keeps its promises. -/
theorem counterSound_of_reaches {state : Deployment}
    (reached : Reaches (step env) (fun state label => state.sparesDone label) .initial state) :
    state.world.db.CounterSound :=
  (reached.invariant counted_initial fun _ _ _ counted spared stepped =>
    counted_of_step counted spared stepped).sound

/-- A job with one of its two chunks done. -/
theorem counterSound_of_half_done_job :
    ∃ state, Reaches (step (sampleEnv { pagesPerChunk := 1, minPagesForParallel := 2 }))
        (fun state label => state.sparesDone label) .initial state ∧
      (state.world.db.getJob (lit "job")).map (·.remainingChunks) = some 1 ∧ state.world.db.CounterSound := by
  have leads : Leads (step (sampleEnv { pagesPerChunk := 1, minPagesForParallel := 2 }))
      (fun state label => state.sparesDone label)
      (fun state => (state.world.db.getJob (lit "job")).map (·.remainingChunks) = some 1) .initial
      (.submit (lit "http://host/file") false :: .act 0 (.downloaded [0, 1]) :: Script.acts 0 3 ++
        .act 0 (.drawn (lit "job")) :: Script.acts 0 4 ++ .finish 0 :: .deliver 0 (lit "worker") ::
        Script.converts 0 (lit "text") ++ Script.acts 0 1) := by decide +kernel
  obtain ⟨state, reached, remaining⟩ := leads.exists_reaches
  exact ⟨state, reached, remaining, counterSound_of_reaches reached⟩

/-- The message is delivered twice. One copy is converted; the other fails its last attempt after that,
and its worker has marked the chunk failed but not yet the job. -/
def doneThenFailed : List Label :=
  Script.submits 0 [0] (lit "job") false ++ [.duplicate 0, .deliver 0 (lit "worker")] ++
    Script.retries 1 ++ Script.retries 1 ++ [.deliver 0 (lit "worker")] ++ Script.fails 1 ++
    Script.converts 0 (lit "text") ++ Script.acts 0 1 ++ Script.acts 1 3

theorem counter_misses_failed_chunk :
    ∃ state, Reaches (step (sampleEnv {})) (fun _ _ => True) .initial state ∧ ¬ state.world.db.CounterSound := by
  have leads : Leads (step (sampleEnv {})) (fun _ _ => True)
      (fun state => (state.world.db.getJob (lit "job")).map (fun job => (job.status, job.remainingChunks)) =
        some (.running, 0) ∧ state.world.db.openChunks (lit "job") = 1)
      .initial doneThenFailed := by decide +kernel
  obtain ⟨state, reached, job, opened⟩ := leads.exists_reaches
  refine ⟨state, reached, fun sound => ?_⟩
  obtain ⟨row, found, same⟩ := Option.map_eq_some_iff.mp job
  obtain ⟨status, remaining⟩ := Prod.mk.inj same
  have counts := (sound.counts _ row found (by rw [status]; rfl)).1
  rw [remaining, opened] at counts
  cases counts

end Deployment

end MarkitdownServer
