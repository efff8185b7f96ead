import MarkitdownServer.Model.Jobstore

/-! # What a statement can do to the rows

For every statement of the job store: the row of a job changes in one of five ways, the rows of
`job_chunks` change in their status only, and the count of chunks that are not done moves with the
completions and, through `fail_chunk`, with the chunks that were done.
-/

namespace MarkitdownServer

open Relational

namespace Database

/-! ## Completing a chunk -/

/-- The three exits of `complete_chunk`, with the condition for each. -/
inductive Completed (db : Database) (jobId : Str) (chunkIndex : ℕ) (s3Key : Str) : ℤ × Database → Prop
  | already (closed : ∀ row ∈ db.jobChunks.rows, isOpenChunk jobId chunkIndex row = false) :
      Completed db jobId chunkIndex s3Key (chunkAlreadyDone, db)
  | terminal {row : ChunkRow} (present : row ∈ db.jobChunks.rows) (opened : isOpenChunk jobId chunkIndex row)
      (inactive : ∀ job ∈ db.jobs.rows, isActiveJob jobId job = false) :
      Completed db jobId chunkIndex s3Key
        (jobAlreadyTerminal, { db with jobChunks := db.markDone jobId chunkIndex s3Key })
  | counted {row : ChunkRow} {job : JobRow} (present : row ∈ db.jobChunks.rows)
      (opened : isOpenChunk jobId chunkIndex row) (member : job ∈ db.jobs.rows) (active : isActiveJob jobId job) :
      Completed db jobId chunkIndex s3Key (job.remainingChunks - 1,
        { db with jobChunks := db.markDone jobId chunkIndex s3Key, jobs := db.countDown jobId })

theorem completed (db : Database) (jobId : Str) (chunkIndex : ℕ) (s3Key : Str) :
    Completed db jobId chunkIndex s3Key (db.completeChunk jobId chunkIndex s3Key) := by
  simp only [completeChunk]
  split
  · next unchanged =>
    have closed : ∀ row ∈ db.jobChunks.rows, isOpenChunk jobId chunkIndex row = false := by
      simpa using List.countP_eq_zero.mp unchanged
    have same : db.markDone jobId chunkIndex s3Key = db.jobChunks := Table.update_eq_self _ _ _ _ closed
    rw [same]
    exact .already closed
  · next changed =>
    have opened : ∃ row ∈ db.jobChunks.rows, isOpenChunk jobId chunkIndex row = true :=
      List.countP_pos_iff.mp (Nat.pos_of_ne_zero changed)
    obtain ⟨row, present, opened⟩ := opened
    cases found : db.jobs.rows.filter (isActiveJob jobId) with
    | nil =>
      have inactive : ∀ job ∈ db.jobs.rows, isActiveJob jobId job = false := by
        simpa using List.filter_eq_nil_iff.mp found
      simp only [List.map_nil]
      have same : db.countDown jobId = db.jobs := Table.update_eq_self _ _ _ _ inactive
      rw [same]
      exact .terminal present opened inactive
    | cons job rest =>
      have first : job ∈ db.jobs.rows.filter (isActiveJob jobId) := found ▸ List.mem_cons_self ..
      obtain ⟨member, active⟩ := List.mem_filter.mp first
      simp only [List.map_cons]
      exact .counted present opened member active

/-! ## Creating a job -/

theorem insertChunks_rows {jobId : Str} {index : ℕ} {ranges : List (ℤ × ℤ)}
    {chunks after : Table ChunkRow (Str × ℕ) ChunkRow.key}
    (inserted : insertChunks jobId index ranges chunks = some after) :
    after.rows = chunks.rows ++ ranges.mapIdx fun i range => newChunk jobId (index + i) range := by
  induction ranges generalizing index chunks with
  | nil =>
    cases inserted
    simp
  | cons range ranges ih =>
    obtain ⟨middle, first, rest⟩ := Option.bind_eq_some_iff.mp inserted
    rw [ih rest, ((Table.insert?_eq_some_iff _ _ _).mp first).2, List.mapIdx_cons]
    simp only [List.append_assoc, List.singleton_append, Nat.add_zero, Nat.add_assoc, Nat.add_comm 1]

/-- A created job is new, starts queued, and comes with one pending chunk for each range. -/
theorem createJob_eq_some {db after : Database} {jobId docKey fileHash url : Str} {ranges : List (ℤ × ℤ)}
    {useLlm : Bool} (created : db.createJob jobId docKey fileHash url ranges useLlm = some after) :
    db.getJob jobId = none ∧ after.documents = db.documents ∧
      after.jobs.rows = db.jobs.rows ++ [newJob jobId docKey fileHash url ranges useLlm] ∧
      after.jobChunks.rows = db.jobChunks.rows ++ ranges.mapIdx fun i range => newChunk jobId i range := by
  obtain ⟨jobs, job, chunks⟩ := Option.bind_eq_some_iff.mp created
  obtain ⟨table, inserted, rfl⟩ := Option.map_eq_some_iff.mp chunks
  obtain ⟨fresh, rows⟩ := (Table.insert?_eq_some_iff _ _ _).mp job
  refine ⟨fresh, rfl, rows, ?_⟩
  simpa only [Nat.zero_add] using insertChunks_rows inserted

theorem getJob_createJob {db after : Database} {jobId docKey fileHash url : Str} {ranges : List (ℤ × ℤ)}
    {useLlm : Bool} (created : db.createJob jobId docKey fileHash url ranges useLlm = some after) (other : Str) :
    after.getJob other =
      if jobId = other then some (newJob jobId docKey fileHash url ranges useLlm) else db.getJob other := by
  obtain ⟨jobs, job, chunks⟩ := Option.bind_eq_some_iff.mp created
  obtain ⟨table, _, rfl⟩ := Option.map_eq_some_iff.mp chunks
  exact Table.find?_insert? job other

theorem getJob_eq_some_iff (db : Database) (jobId : Str) (job : JobRow) :
    db.getJob jobId = some job ↔ job ∈ db.jobs.rows ∧ job.jobId = jobId := Table.find?_eq_some_iff _ _ _

end Database

/-! ## The row of a job -/

/-- What a statement may do to the row of a job. -/
inductive JobChange : Stmt → JobRow → JobRow → Prop
  | same (stmt : Stmt) (row : JobRow) : JobChange stmt row row
  | started (row : JobRow) (queued : row.status = .queued) :
      JobChange (.startChunkJob row.jobId) row { row with status := .running }
  | counted (row : JobRow) (chunkIndex : ℕ) (s3Key : Str) (active : row.status.isTerminal = false) :
      JobChange (.completeChunk row.jobId chunkIndex s3Key) row
        { row with remainingChunks := row.remainingChunks - 1, status := .running }
  | failed (row : JobRow) (error : Str) (chunkIndex : Option ℕ) (active : row.status.isTerminal = false) :
      JobChange (.failJob row.jobId error chunkIndex) row
        { row with status := .failed, error := some (error.take 2000), errorChunk := chunkIndex }
  | finished (row : JobRow) : JobChange (.finishJob row.jobId) row { row with status := .done }

/-- An `UPDATE jobs` changes the row of a job by what it sets, if it selects it. -/
private theorem getJob_update (db : Database) (selects : JobRow → Bool) (set : JobRow → JobRow)
    (keeps : ∀ row, (set row).jobId = row.jobId) {jobId : Str} {row : JobRow} (found : db.getJob jobId = some row) :
    ({ db with jobs := db.jobs.update selects set keeps } : Database).getJob jobId =
      some (if selects row then set row else row) := by
  rw [Database.getJob, Table.find?_update]
  rw [Database.getJob] at found
  rw [found, Option.map_some]

/-- An existing job keeps its row, up to the change its statement makes. -/
theorem jobChange (stmt : Stmt) {db : Database} {jobId : Str} {row : JobRow} (found : db.getJob jobId = some row) :
    ∃ after, (stmt.exec db).2.getJob jobId = some after ∧ JobChange stmt row after := by
  have named : row.jobId = jobId := ((db.getJob_eq_some_iff _ _).mp found).2
  cases stmt with
  | findCachedDocument | recordDocument | getJob | startChunkRow | failChunk | rescheduleChunk | chunkIndices =>
    exact ⟨row, found, .same _ _⟩
  | createJob other docKey fileHash url ranges useLlm =>
    simp only [Stmt.exec]
    split
    · next created =>
      have fresh := (Database.createJob_eq_some created).1
      refine ⟨row, ?_, .same _ _⟩
      rw [Database.getJob_createJob created, if_neg, found]
      rintro rfl
      rw [fresh] at found
      cases found
    · exact ⟨row, found, .same _ _⟩
  | finishJob other =>
    refine ⟨_, getJob_update db _ _ _ found, ?_⟩
    simp only [decide_eq_true_eq]
    split
    · next same => exact same ▸ .finished row
    · exact .same _ _
  | failJob other error chunkIndex =>
    refine ⟨_, getJob_update db _ _ _ found, ?_⟩
    split
    · next selected =>
      simp only [Bool.and_eq_true, decide_eq_true_eq, Bool.not_eq_eq_eq_not, Bool.not_true] at selected
      exact selected.1 ▸ .failed row error chunkIndex selected.2
    · exact .same _ _
  | startChunkJob other =>
    refine ⟨_, getJob_update db _ _ _ found, ?_⟩
    split
    · next selected =>
      simp only [Bool.and_eq_true, decide_eq_true_eq] at selected
      exact selected.1 ▸ .started row selected.2
    · exact .same _ _
  | completeChunk other chunkIndex s3Key =>
    have exits := db.completed other chunkIndex s3Key
    simp only [Stmt.exec]
    generalize db.completeChunk other chunkIndex s3Key = result at exits ⊢
    cases exits with
    | already => exact ⟨row, found, .same _ _⟩
    | terminal => exact ⟨row, found, .same _ _⟩
    | counted =>
      refine ⟨_, getJob_update db _ _ _ found, ?_⟩
      split
      · next selected =>
        simp only [Database.isActiveJob, Bool.and_eq_true, decide_eq_true_eq, Bool.not_eq_eq_eq_not,
          Bool.not_true] at selected
        exact selected.1 ▸ .counted row chunkIndex s3Key selected.2
      · exact .same _ _

/-- A job appears through `create_job` only. -/
theorem getJob_fresh (stmt : Stmt) {db : Database} {jobId : Str} (absent : db.getJob jobId = none) :
    (stmt.exec db).2.getJob jobId = none ∨
      ∃ docKey fileHash url ranges useLlm, stmt = .createJob jobId docKey fileHash url ranges useLlm ∧
        db.createJob jobId docKey fileHash url ranges useLlm = some (stmt.exec db).2 ∧
        (stmt.exec db).2.getJob jobId = some (Database.newJob jobId docKey fileHash url ranges useLlm) := by
  have update (selects : JobRow → Bool) (set : JobRow → JobRow) (keeps : ∀ row, (set row).jobId = row.jobId) :
      ({ db with jobs := db.jobs.update selects set keeps } : Database).getJob jobId = none := by
    rw [Database.getJob, Table.find?_update]
    rw [Database.getJob] at absent
    rw [absent, Option.map_none]
  cases stmt with
  | findCachedDocument | recordDocument | getJob | startChunkRow | failChunk | rescheduleChunk | chunkIndices =>
    exact .inl absent
  | createJob other docKey fileHash url ranges useLlm =>
    cases created : db.createJob other docKey fileHash url ranges useLlm with
    | none =>
      simp only [Stmt.exec, created]
      exact .inl absent
    | some after =>
      have lookup := Database.getJob_createJob created jobId
      split_ifs at lookup with same
      · subst same
        refine .inr ⟨docKey, fileHash, url, ranges, useLlm, rfl, ?_, ?_⟩
        · simp only [Stmt.exec, created]
        · simp only [Stmt.exec, created, lookup]
      · simp only [Stmt.exec, created, lookup]
        exact .inl absent
  | finishJob | failJob | startChunkJob => exact .inl (update _ _ _)
  | completeChunk other chunkIndex s3Key =>
    have exits := db.completed other chunkIndex s3Key
    simp only [Stmt.exec]
    generalize db.completeChunk other chunkIndex s3Key = result at exits ⊢
    cases exits with
    | already => exact .inl absent
    | terminal => exact .inl absent
    | counted => exact .inl (update _ _ _)

/-- Where the row of a job after a statement comes from. -/
theorem getJob_exec (stmt : Stmt) {db : Database} {jobId : Str} {after : JobRow}
    (found : (stmt.exec db).2.getJob jobId = some after) :
    (∃ row, db.getJob jobId = some row ∧ JobChange stmt row after) ∨
      (db.getJob jobId = none ∧ ∃ docKey fileHash url ranges useLlm,
        stmt = .createJob jobId docKey fileHash url ranges useLlm ∧
          db.createJob jobId docKey fileHash url ranges useLlm = some (stmt.exec db).2 ∧
          after = Database.newJob jobId docKey fileHash url ranges useLlm) := by
  cases before : db.getJob jobId with
  | some row =>
    obtain ⟨other, same, change⟩ := jobChange stmt before
    cases found.symm.trans same
    exact .inl ⟨row, rfl, change⟩
  | none =>
    rcases getJob_fresh stmt before with absent | ⟨docKey, fileHash, url, ranges, useLlm, rfl, inserted, created⟩
    · cases found.symm.trans absent
    · cases found.symm.trans created
      exact .inr ⟨rfl, docKey, fileHash, url, ranges, useLlm, rfl, inserted, rfl⟩

/-- The columns that `create_job` writes stay as they are, but for status and counter. -/
theorem JobChange.columns {stmt : Stmt} {row after : JobRow} (change : JobChange stmt row after) :
    after.jobId = row.jobId ∧ after.docKey = row.docKey ∧ after.fileHash = row.fileHash ∧
      after.totalChunks = row.totalChunks ∧ after.useLlm = row.useLlm := by
  cases change <;> exact ⟨rfl, rfl, rfl, rfl, rfl⟩

/-- A job that is active after a statement was active before it. -/
theorem JobChange.active {stmt : Stmt} {row after : JobRow} (change : JobChange stmt row after)
    (active : after.status.isTerminal = false) : row.status.isTerminal = false := by
  cases change with
  | same => exact active
  | started _ queued =>
    rw [queued]
    rfl
  | counted _ _ _ before => exact before
  | failed _ _ _ before => exact before
  | finished => cases active

/-! ## The rows of `job_chunks` -/

/-- The keys of the chunk rows are those of before, or those of a new job are appended. -/
theorem chunkKeys_exec (stmt : Stmt) (db : Database) :
    (stmt.exec db).2.jobChunks.rows.map ChunkRow.key = db.jobChunks.rows.map ChunkRow.key ∨
      ∃ jobId docKey fileHash url ranges useLlm, stmt = .createJob jobId docKey fileHash url ranges useLlm ∧
        db.getJob jobId = none ∧
        (stmt.exec db).2.getJob jobId = some (Database.newJob jobId docKey fileHash url ranges useLlm) ∧
        (stmt.exec db).2.jobChunks.rows =
          db.jobChunks.rows ++ ranges.mapIdx fun i range => Database.newChunk jobId i range := by
  cases stmt with
  | findCachedDocument | recordDocument | getJob | finishJob | failJob | startChunkJob | chunkIndices =>
    exact .inl rfl
  | startChunkRow | failChunk | rescheduleChunk => exact .inl (Table.map_key_update _ _ _ fun _ => by rfl)
  | createJob jobId docKey fileHash url ranges useLlm =>
    simp only [Stmt.exec]
    split
    · next created =>
      obtain ⟨fresh, _, _, chunks⟩ := Database.createJob_eq_some created
      refine .inr ⟨jobId, docKey, fileHash, url, ranges, useLlm, rfl, fresh, ?_, chunks⟩
      rw [Database.getJob_createJob created, if_pos rfl]
    · exact .inl rfl
  | completeChunk jobId chunkIndex s3Key =>
    have exits := db.completed jobId chunkIndex s3Key
    simp only [Stmt.exec]
    generalize db.completeChunk jobId chunkIndex s3Key = result at exits ⊢
    cases exits with
    | already => exact .inl rfl
    | terminal | counted => exact .inl (Table.map_key_update _ _ _ fun _ => by rfl)

/-- Every chunk belongs to a job, and keeps it. -/
theorem owned_exec (stmt : Stmt) {db : Database}
    (owned : ∀ row ∈ db.jobChunks.rows, ∃ job, db.getJob row.jobId = some job) :
    ∀ row ∈ (stmt.exec db).2.jobChunks.rows, ∃ job, (stmt.exec db).2.getJob row.jobId = some job := by
  intro row member
  have key : row.key ∈ (stmt.exec db).2.jobChunks.rows.map ChunkRow.key := List.mem_map_of_mem member
  have old (present : row.key ∈ db.jobChunks.rows.map ChunkRow.key) :
      ∃ job, (stmt.exec db).2.getJob row.jobId = some job := by
    obtain ⟨chunk, inside, same⟩ := List.mem_map.mp present
    obtain ⟨job, found⟩ := owned chunk inside
    rw [show chunk.jobId = row.jobId from congrArg Prod.fst same] at found
    obtain ⟨after, arrived, _⟩ := jobChange stmt found
    exact ⟨after, arrived⟩
  rcases chunkKeys_exec stmt db with keys | ⟨jobId, _, _, _, ranges, _, _, _, created, rows⟩
  · exact old (keys ▸ key)
  · rw [rows] at member
    rcases List.mem_append.mp member with inside | new
    · exact old (List.mem_map_of_mem inside)
    · obtain ⟨i, bound, rfl⟩ := List.mem_mapIdx.mp new
      exact ⟨_, created⟩

/-- The chunk indices of a job, read off the keys. -/
theorem chunkIndices_eq (db : Database) (jobId : Str) :
    db.chunkIndices jobId =
      (((db.jobChunks.rows.map ChunkRow.key).filter fun key => key.1 = jobId).map (·.2)).insertionSort (· ≤ ·) := by
  rw [List.filter_map, List.map_map]
  rfl

/-- The chunks of an existing job are settled when it is created. -/
theorem chunkIndices_exec (stmt : Stmt) {db : Database} {jobId : Str} {row : JobRow}
    (found : db.getJob jobId = some row) : (stmt.exec db).2.chunkIndices jobId = db.chunkIndices jobId := by
  rw [chunkIndices_eq, chunkIndices_eq]
  rcases chunkKeys_exec stmt db with keys | ⟨other, _, _, _, ranges, _, _, fresh, _, rows⟩
  · rw [keys]
  · have different : other ≠ jobId := by
      rintro rfl
      cases fresh.symm.trans found
    have none : (((ranges.mapIdx fun i range => Database.newChunk other i range).map ChunkRow.key).filter
        fun key => key.1 = jobId) = [] := by
      rw [List.filter_eq_nil_iff]
      intro key new
      obtain ⟨chunk, member, rfl⟩ := List.mem_map.mp new
      obtain ⟨i, bound, rfl⟩ := List.mem_mapIdx.mp member
      exact fun same => different (of_decide_eq_true same)
    rw [rows, List.map_append, List.filter_append, none, List.append_nil]

/-- The chunk rows of a new job are those inserted for its ranges. -/
theorem chunkRows_createJob {db after : Database} {jobId docKey fileHash url : Str} {ranges : List (ℤ × ℤ)}
    {useLlm : Bool} (owned : ∀ row ∈ db.jobChunks.rows, ∃ job, db.getJob row.jobId = some job)
    (created : db.createJob jobId docKey fileHash url ranges useLlm = some after) :
    after.jobChunks.rows.filter (fun row => row.jobId = jobId) =
      ranges.mapIdx fun i range => Database.newChunk jobId i range := by
  obtain ⟨fresh, _, _, rows⟩ := Database.createJob_eq_some created
  have none : db.jobChunks.rows.filter (fun row => row.jobId = jobId) = [] := by
    rw [List.filter_eq_nil_iff]
    intro row inside same
    obtain ⟨job, found⟩ := owned row inside
    rw [show row.jobId = jobId from of_decide_eq_true same, fresh] at found
    cases found
  rw [rows, List.filter_append, none, List.nil_append, List.filter_eq_self]
  intro row new
  obtain ⟨i, bound, rfl⟩ := List.mem_mapIdx.mp new
  exact decide_eq_true rfl

/-- A new job has one chunk for each range, in order. -/
theorem chunkIndices_createJob {db after : Database} {jobId docKey fileHash url : Str} {ranges : List (ℤ × ℤ)}
    {useLlm : Bool} (owned : ∀ row ∈ db.jobChunks.rows, ∃ job, db.getJob row.jobId = some job)
    (created : db.createJob jobId docKey fileHash url ranges useLlm = some after) :
    after.chunkIndices jobId = List.range ranges.length := by
  have indices : (ranges.mapIdx fun i range => Database.newChunk jobId i range).map (fun row => row.chunkIndex) =
      List.range ranges.length := by
    refine List.ext_getElem (by simp) fun i _ _ => ?_
    simp [Database.newChunk]
  rw [Database.chunkIndices, chunkRows_createJob owned created, indices]
  exact List.pairwise_le_range.insertionSort_eq

/-! ## The status of a chunk -/

/-- The status of a chunk, if it exists. -/
def Database.chunkStatus (db : Database) (jobId : Str) (chunkIndex : ℕ) : Option ChunkStatus :=
  (db.jobChunks.find? (jobId, chunkIndex)).map (·.status)

/-- What a statement makes of the status of a chunk. -/
def Stmt.chunkEffect (jobId : Str) (chunkIndex : ℕ) (status : ChunkStatus) : Stmt → ChunkStatus
  | .startChunkRow job index _ _ => if jobId = job ∧ chunkIndex = index ∧ status ≠ .done then .running else status
  | .failChunk job index _ => if jobId = job ∧ chunkIndex = index then .failed else status
  | .rescheduleChunk job index _ => if jobId = job ∧ chunkIndex = index ∧ status ≠ .done then .pending else status
  | .completeChunk job index _ => if jobId = job ∧ chunkIndex = index then .done else status
  | _ => status

private theorem chunkStatus_update (db : Database) (selects : ChunkRow → Bool) (set : ChunkRow → ChunkRow)
    (keeps : ∀ row, (set row).key = row.key) (jobId : Str) (chunkIndex : ℕ) (effect : ChunkStatus → ChunkStatus)
    (agree : ∀ row, row.jobId = jobId → row.chunkIndex = chunkIndex →
      (if selects row then set row else row).status = effect row.status) :
    ({ db with jobChunks := db.jobChunks.update selects set keeps } : Database).chunkStatus jobId chunkIndex =
      (db.chunkStatus jobId chunkIndex).map effect := by
  simp only [Database.chunkStatus, Table.find?_update, Option.map_map]
  cases found : db.jobChunks.find? (jobId, chunkIndex) with
  | none => rfl
  | some row =>
    obtain ⟨_, key⟩ := (Table.find?_eq_some_iff _ _ _).mp found
    obtain ⟨named, numbered⟩ := Prod.mk.inj key
    simp only [Option.map_some, Function.comp_apply, agree row named numbered]

theorem Database.chunkStatus_eq_some_iff (db : Database) (jobId : Str) (chunkIndex : ℕ) (status : ChunkStatus) :
    db.chunkStatus jobId chunkIndex = some status ↔ ∃ row ∈ db.jobChunks.rows,
      row.jobId = jobId ∧ row.chunkIndex = chunkIndex ∧ row.status = status := by
  simp only [chunkStatus, Option.map_eq_some_iff, Table.find?_eq_some_iff, ChunkRow.key, Prod.mk.injEq, and_assoc]

/-- The status of an existing chunk changes by the effect of the statement. -/
theorem chunkStatus_exec (stmt : Stmt) {db : Database} {jobId : Str} {chunkIndex : ℕ} {status : ChunkStatus}
    (found : db.chunkStatus jobId chunkIndex = some status) :
    (stmt.exec db).2.chunkStatus jobId chunkIndex = some (stmt.chunkEffect jobId chunkIndex status) := by
  have updated (selects : ChunkRow → Bool) (set : ChunkRow → ChunkRow) (keeps : ∀ row, (set row).key = row.key)
      (jobs : Table JobRow Str JobRow.jobId)
      (agree : ∀ row, row.jobId = jobId → row.chunkIndex = chunkIndex →
        (if selects row then set row else row).status = stmt.chunkEffect jobId chunkIndex row.status) :
      ({ db with jobChunks := db.jobChunks.update selects set keeps, jobs } : Database).chunkStatus jobId chunkIndex =
        some (stmt.chunkEffect jobId chunkIndex status) := by
    have mapped := chunkStatus_update db selects set keeps jobId chunkIndex
      (fun status => stmt.chunkEffect jobId chunkIndex status) agree
    rw [found] at mapped
    exact mapped
  cases stmt with
  | findCachedDocument | recordDocument | getJob | finishJob | failJob | startChunkJob | chunkIndices => exact found
  | startChunkRow job index owner attempt =>
    refine updated _ _ _ _ ?_
    rintro row rfl rfl
    simp only [Stmt.chunkEffect, Bool.and_eq_true, decide_eq_true_eq, and_assoc]
    split <;> rfl
  | failChunk job index error =>
    refine updated _ _ _ _ ?_
    rintro row rfl rfl
    simp only [Stmt.chunkEffect, Bool.and_eq_true, decide_eq_true_eq]
    split <;> rfl
  | rescheduleChunk job index error =>
    refine updated _ _ _ _ ?_
    rintro row rfl rfl
    simp only [Stmt.chunkEffect, Bool.and_eq_true, decide_eq_true_eq, and_assoc]
    split <;> rfl
  | createJob job docKey fileHash url ranges useLlm =>
    simp only [Stmt.exec]
    split
    · next created =>
      obtain ⟨_, _, _, rows⟩ := Database.createJob_eq_some created
      obtain ⟨row, member, rest⟩ := (Database.chunkStatus_eq_some_iff _ _ _ _).mp found
      exact (Database.chunkStatus_eq_some_iff _ _ _ _).mpr ⟨row, rows ▸ List.mem_append_left _ member, rest⟩
    · exact found
  | completeChunk job index s3Key =>
    have marked (row : ChunkRow) (named : row.jobId = jobId) (numbered : row.chunkIndex = chunkIndex) :
        (if Database.isOpenChunk job index row then
          { row with status := .done, s3Key := some s3Key, leaseOwner := none, lastError := none }
          else row : ChunkRow).status = (Stmt.completeChunk job index s3Key).chunkEffect jobId chunkIndex row.status := by
      subst named numbered
      simp only [Stmt.chunkEffect, Database.isOpenChunk, Bool.and_eq_true, decide_eq_true_eq]
      by_cases own : row.jobId = job ∧ row.chunkIndex = index
      · simp only [own, and_self, true_and, if_true]
        split
        · rfl
        · next finished => exact not_not.mp finished
      · simp only [own, false_and, if_false]
    have exits := db.completed job index s3Key
    simp only [Stmt.exec]
    generalize db.completeChunk job index s3Key = result at exits ⊢
    cases exits with
    | already closed =>
      obtain ⟨row, member, rfl, rfl, rfl⟩ := (Database.chunkStatus_eq_some_iff _ _ _ _).mp found
      rw [← marked row rfl rfl, if_neg (by simp [closed row member])]
      exact found
    | terminal | counted => exact updated _ _ (fun _ => by rfl) _ marked

theorem Database.chunkStatus_eq_none_iff (db : Database) (jobId : Str) (chunkIndex : ℕ) :
    db.chunkStatus jobId chunkIndex = none ↔ (jobId, chunkIndex) ∉ db.jobChunks.rows.map ChunkRow.key := by
  simp only [chunkStatus, Option.map_eq_none_iff, Table.find?_eq_none_iff, List.mem_map, not_exists, not_and]

/-- A chunk appears pending, with its job. -/
theorem chunkStatus_fresh (stmt : Stmt) {db : Database} {jobId : Str} {chunkIndex : ℕ}
    (absent : db.chunkStatus jobId chunkIndex = none) :
    (stmt.exec db).2.chunkStatus jobId chunkIndex = none ∨
      ∃ docKey fileHash url ranges useLlm, stmt = .createJob jobId docKey fileHash url ranges useLlm ∧
        db.getJob jobId = none ∧ chunkIndex < ranges.length ∧
        (stmt.exec db).2.chunkStatus jobId chunkIndex = some .pending := by
  rcases chunkKeys_exec stmt db with keys | ⟨job, docKey, fileHash, url, ranges, useLlm, created, fresh, _, rows⟩
  · rw [Database.chunkStatus_eq_none_iff, keys]
    exact .inl ((db.chunkStatus_eq_none_iff _ _).mp absent)
  · cases later : (stmt.exec db).2.chunkStatus jobId chunkIndex with
    | none => exact .inl rfl
    | some status =>
      obtain ⟨row, member, named, numbered, rfl⟩ := (Database.chunkStatus_eq_some_iff _ _ _ _).mp later
      rw [rows] at member
      rcases List.mem_append.mp member with old | new
      · refine absurd ?_ ((db.chunkStatus_eq_none_iff _ _).mp absent)
        exact List.mem_map.mpr ⟨row, old, Prod.ext named numbered⟩
      · obtain ⟨i, bound, rfl⟩ := List.mem_mapIdx.mp new
        cases named
        cases numbered
        exact .inr ⟨docKey, fileHash, url, ranges, useLlm, created, fresh, bound, rfl⟩

/-! ## What a statement does to the job it names -/

section Named

variable {db : Database} {jobId : Str} {row : JobRow}

theorem getJob_startChunkJob (found : db.getJob jobId = some row) :
    (db.startChunkJob jobId).getJob jobId =
      some (if row.status = .queued then { row with status := .running } else row) := by
  have named := ((db.getJob_eq_some_iff _ _).mp found).2
  refine (getJob_update db _ _ _ found).trans ?_
  simp only [named, decide_true, Bool.true_and, decide_eq_true_eq]

theorem getJob_finishJob (found : db.getJob jobId = some row) :
    (db.finishJob jobId).getJob jobId = some { row with status := .done } := by
  have named := ((db.getJob_eq_some_iff _ _).mp found).2
  refine (getJob_update db _ _ _ found).trans ?_
  simp only [named, decide_true, if_true]

theorem getJob_failJob (found : db.getJob jobId = some row) (active : row.status.isTerminal = false) (error : Str)
    (chunkIndex : Option ℕ) :
    (db.failJob jobId error chunkIndex).getJob jobId =
      some { row with status := .failed, error := some (error.take 2000), errorChunk := chunkIndex } := by
  have named := ((db.getJob_eq_some_iff _ _).mp found).2
  refine (getJob_update db _ _ _ found).trans ?_
  simp only [named, active, decide_true, Bool.not_false, Bool.and_self, if_true]

/-- A chunk that is done or does not exist is not counted. -/
theorem completeChunk_closed {chunkIndex : ℕ} (closed : ∀ status, db.chunkStatus jobId chunkIndex = some status →
      status = .done) (s3Key : Str) :
    db.completeChunk jobId chunkIndex s3Key = (Database.chunkAlreadyDone, db) := by
  have exits := db.completed jobId chunkIndex s3Key
  have opens {chunk : ChunkRow} (present : chunk ∈ db.jobChunks.rows)
      (opened : Database.isOpenChunk jobId chunkIndex chunk = true) : False := by
    simp only [Database.isOpenChunk, Bool.and_eq_true, decide_eq_true_eq] at opened
    exact opened.2 (closed _ ((db.chunkStatus_eq_some_iff _ _ _).mpr ⟨chunk, present, opened.1.1, opened.1.2, rfl⟩))
  generalize db.completeChunk jobId chunkIndex s3Key = result at exits ⊢
  cases exits with
  | already => rfl
  | terminal present opened => exact (opens present opened).elim
  | counted present opened => exact (opens present opened).elim

/-- An open chunk of an active job is counted. -/
theorem completeChunk_counted {chunkIndex : ℕ} {status : ChunkStatus}
    (chunk : db.chunkStatus jobId chunkIndex = some status) (opened : status ≠ .done)
    (found : db.getJob jobId = some row) (active : row.status.isTerminal = false) (s3Key : Str) :
    (db.completeChunk jobId chunkIndex s3Key).1 = row.remainingChunks - 1 ∧
      (db.completeChunk jobId chunkIndex s3Key).2.getJob jobId =
        some { row with remainingChunks := row.remainingChunks - 1, status := .running } := by
  obtain ⟨member, named⟩ := (db.getJob_eq_some_iff _ _).mp found
  have chosen : Database.isActiveJob jobId row = true := by
    simp only [Database.isActiveJob, named, active, decide_true, Bool.not_false, Bool.and_self]
  obtain ⟨chunkRow, present, owner, number, rfl⟩ := (db.chunkStatus_eq_some_iff _ _ _).mp chunk
  have exits := db.completed jobId chunkIndex s3Key
  generalize db.completeChunk jobId chunkIndex s3Key = result at exits ⊢
  cases exits with
  | already closed =>
    have shut := closed chunkRow present
    simp [Database.isOpenChunk, owner, number, opened] at shut
  | terminal _ _ inactive => cases (inactive row member).symm.trans chosen
  | @counted _ job _ _ inside selected =>
    have same : job = row := by
      simp only [Database.isActiveJob, Bool.and_eq_true, decide_eq_true_eq] at selected
      exact db.jobs.eq_of_key inside member (selected.1.trans named.symm)
    subst same
    refine ⟨rfl, (getJob_update db _ _ _ found).trans ?_⟩
    rw [if_pos chosen]

end Named

namespace Database

/-- The number of chunks of a job. -/
def chunkCount (db : Database) (jobId : Str) : ℕ := db.jobChunks.rows.countP fun row => row.jobId = jobId

/-- The number of chunks of a job that are not done. -/
def openChunks (db : Database) (jobId : Str) : ℕ :=
  db.jobChunks.rows.countP fun row => row.jobId = jobId && row.status ≠ .done

variable (db : Database) (jobId other : Str) (chunkIndex : ℕ)

theorem chunkCount_eq : db.chunkCount jobId = (db.jobChunks.rows.map ChunkRow.key).countP fun key => key.1 = jobId := by
  rw [List.countP_map]
  rfl

theorem openChunks_le_chunkCount : db.openChunks jobId ≤ db.chunkCount jobId :=
  List.countP_mono_left fun row _ counted => by
    simp only [Bool.and_eq_true] at counted
    exact counted.1

theorem openChunks_eq_zero_iff :
    db.openChunks jobId = 0 ↔ ∀ row ∈ db.jobChunks.rows, row.jobId = jobId → row.status = .done := by
  simp only [openChunks, List.countP_eq_zero, Bool.and_eq_true, decide_eq_true_eq, not_and, not_not]

/-- A write that keeps what is done and what is not keeps the number of open chunks. -/
private theorem openChunks_update (selects : ChunkRow → Bool) (set : ChunkRow → ChunkRow)
    (keeps : ∀ row, (set row).key = row.key)
    (agree : ∀ row ∈ db.jobChunks.rows, selects row = true → row.jobId = other →
      (set row).status ≠ .done ∧ row.status ≠ .done) :
    ({ db with jobChunks := db.jobChunks.update selects set keeps } : Database).openChunks other =
      db.openChunks other := by
  refine Table.countP_update_of_agree _ _ _ keeps _ fun row member selected => ?_
  have same : (set row).jobId = row.jobId := congrArg Prod.fst (keeps row)
  by_cases named : row.jobId = other
  · obtain ⟨after, before⟩ := agree row member selected named
    simp only [same, after, before, ne_eq, not_false_eq_true]
  · simp only [same, named, decide_false, Bool.false_and]

theorem openChunks_startChunkRow (owner : Str) (attempt : ℕ) :
    (db.startChunkRow jobId chunkIndex owner attempt).openChunks other = db.openChunks other :=
  openChunks_update db other _ _ _ fun row _ selected _ => by
    simp only [Bool.and_eq_true, decide_eq_true_eq] at selected
    exact ⟨by simp, selected.2⟩

theorem openChunks_rescheduleChunk (error : Str) :
    (db.rescheduleChunk jobId chunkIndex error).openChunks other = db.openChunks other :=
  openChunks_update db other _ _ _ fun row _ selected _ => by
    simp only [Bool.and_eq_true, decide_eq_true_eq] at selected
    exact ⟨by simp, selected.2⟩

/-- `fail_chunk` keeps the number of open chunks of a job unless it hits a done chunk of that job. -/
theorem openChunks_failChunk (error : Str) (spared : jobId = other →
      ∀ row ∈ db.jobChunks.rows, row.jobId = jobId → row.chunkIndex = chunkIndex → row.status ≠ .done) :
    (db.failChunk jobId chunkIndex error).openChunks other = db.openChunks other :=
  openChunks_update db other _ _ _ fun row member selected named => by
    simp only [Bool.and_eq_true, decide_eq_true_eq] at selected
    exact ⟨by simp, spared (selected.1.symm.trans named) row member selected.1 selected.2⟩

/-- Completing an open chunk takes one from the open chunks of its job. -/
theorem openChunks_markDone (s3Key : Str) {row : ChunkRow} (present : row ∈ db.jobChunks.rows)
    (opened : isOpenChunk jobId chunkIndex row) (jobs : Table JobRow Str JobRow.jobId) :
    ({ db with jobChunks := db.markDone jobId chunkIndex s3Key, jobs } : Database).openChunks other +
      (if jobId = other then 1 else 0) = db.openChunks other := by
  have selected := opened
  simp only [isOpenChunk, Bool.and_eq_true, decide_eq_true_eq] at selected
  have counted := db.jobChunks.countP_update (isOpenChunk jobId chunkIndex)
    (fun row => { row with status := .done, s3Key := some s3Key, leaseOwner := none, lastError := none })
    (fun _ => rfl) (fun row => row.jobId = other && row.status ≠ .done) present fun second _ chosen => by
      simp only [isOpenChunk, Bool.and_eq_true, decide_eq_true_eq] at chosen
      simp only [ChunkRow.key, chosen.1.1, chosen.1.2, selected.1.1, selected.1.2]
  rw [if_pos opened] at counted
  simp only [selected.1.1, selected.2, ne_eq, not_false_eq_true, decide_true, Bool.and_true, decide_eq_true_eq,
    not_true_eq_false, decide_false, Bool.and_false, Bool.false_eq_true, if_false, Nat.add_zero] at counted
  exact counted

/-- The new chunks of a job that satisfy a predicate are all of them or none. -/
private theorem countP_newChunks (ranges : List (ℤ × ℤ)) (counts : ChunkRow → Bool) (flag : Bool)
    (agree : ∀ i range, counts (newChunk jobId i range) = flag) :
    (ranges.mapIdx fun i range => newChunk jobId i range).countP counts = if flag then ranges.length else 0 := by
  have each (row : ChunkRow) (member : row ∈ ranges.mapIdx fun i range => newChunk jobId i range) :
      counts row = flag := by
    obtain ⟨i, bound, rfl⟩ := List.mem_mapIdx.mp member
    exact agree _ _
  cases flag with
  | true =>
    rw [if_pos rfl, List.countP_eq_length.mpr each, List.length_mapIdx]
  | false =>
    rw [if_neg (by decide), List.countP_eq_zero]
    exact fun row member => by simp [each row member]

/-- A new job adds its chunks, all of them open, to its own counts only. -/
theorem chunkCount_createJob {after : Database} {docKey fileHash url : Str} {ranges : List (ℤ × ℤ)} {useLlm : Bool}
    (created : db.createJob jobId docKey fileHash url ranges useLlm = some after) :
    after.chunkCount other = db.chunkCount other + (if jobId = other then ranges.length else 0) ∧
      after.openChunks other = db.openChunks other + (if jobId = other then ranges.length else 0) := by
  obtain ⟨_, _, _, chunks⟩ := createJob_eq_some created
  rw [chunkCount, openChunks, chunks, List.countP_append, List.countP_append,
    countP_newChunks jobId ranges _ (decide (jobId = other)) fun _ _ => rfl,
    countP_newChunks jobId ranges _ (decide (jobId = other)) fun _ _ => Bool.and_true _]
  simp only [decide_eq_true_eq]
  exact ⟨rfl, rfl⟩

end Database

end MarkitdownServer
