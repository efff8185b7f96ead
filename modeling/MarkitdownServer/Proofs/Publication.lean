import MarkitdownServer.Machine.Fleet
import MarkitdownServer.Proofs.JobTable

/-! # The publication chain

A document is published from the bottom up: pages, manifest, row, status. Each link is written only when
the one below it is there, objects and rows are never taken away, and a page is only ever overwritten by a
page. So at any moment of any run, whichever assemblies have stopped halfway, a done job has its row, a row
its manifest, and a manifest all its pages.
-/

namespace MarkitdownServer

open Effects Transition

def Store.HasPage (store : Store) (docKey : Str) (page : ℕ) : Prop :=
  ∃ content, store (pageKey docKey page) = some (.text content)

def Store.HasManifest (store : Store) (docKey : Str) : Prop :=
  ∃ manifest, store (manifestKey docKey) = some (.manifest manifest)

namespace World

/-- No link of the chain hangs in the air. -/
structure Published (world : World) : Prop where
  finished : ∀ jobId row, world.db.getJob jobId = some row → row.status = .done →
    (world.db.findCachedDocument row.docKey).isSome
  recorded : ∀ docKey, (world.db.findCachedDocument docKey).isSome → world.store.HasManifest docKey
  stored : ∀ docKey obj, world.store (manifestKey docKey) = some obj → ∃ manifest, obj = .manifest manifest ∧
    1 ≤ manifest.totalPages ∧ ∀ page, 1 ≤ page → page ≤ manifest.totalPages → world.store.HasPage docKey page

/-- What is there stays there. -/
structure Grows (before after : World) : Prop where
  jobs : ∀ jobId row, before.db.getJob jobId = some row →
    ∃ later, after.db.getJob jobId = some later ∧ later.docKey = row.docKey
  documents : ∀ docKey, (before.db.findCachedDocument docKey).isSome → (after.db.findCachedDocument docKey).isSome
  manifests : ∀ docKey, before.store.HasManifest docKey → after.store.HasManifest docKey
  pages : ∀ docKey page, before.store.HasPage docKey page → after.store.HasPage docKey page

theorem Grows.refl (world : World) : Grows world world :=
  ⟨fun _ row found => ⟨row, found, rfl⟩, fun _ there => there, fun _ there => there, fun _ _ there => there⟩

theorem Grows.trans {first second third : World} (left : Grows first second) (right : Grows second third) :
    Grows first third := by
  refine ⟨fun jobId row found => ?_, fun docKey there => right.documents _ (left.documents _ there),
    fun docKey there => right.manifests _ (left.manifests _ there),
    fun docKey page there => right.pages _ _ (left.pages _ _ there)⟩
  obtain ⟨middle, arrived, same⟩ := left.jobs jobId row found
  obtain ⟨later, there, kept⟩ := right.jobs jobId middle arrived
  exact ⟨later, there, kept.trans same⟩

end World

/-! ## Statements -/

/-- Only `record_document` touches the documents. -/
theorem documents_exec (db : Database) (stmt : Stmt) :
    (∃ row, stmt = .recordDocument row) ∨ (stmt.exec db).2.documents = db.documents := by
  cases stmt with
  | recordDocument row => exact .inl ⟨row, rfl⟩
  | createJob jobId docKey fileHash url ranges useLlm =>
    right
    simp only [Stmt.exec]
    split
    · next created => exact (Database.createJob_eq_some created).2.1
    · rfl
  | completeChunk jobId chunkIndex s3Key =>
    right
    have exits := db.completed jobId chunkIndex s3Key
    simp only [Stmt.exec]
    generalize db.completeChunk jobId chunkIndex s3Key = result at exits ⊢
    cases exits <;> rfl
  | _ => exact .inr rfl

theorem findCachedDocument_exec (db : Database) (stmt : Stmt) (docKey : Str) :
    ((stmt.exec db).2.findCachedDocument docKey).isSome ↔
      (db.findCachedDocument docKey).isSome ∨ ∃ row, stmt = .recordDocument row ∧ row.docKey = docKey := by
  rcases documents_exec db stmt with ⟨row, rfl⟩ | same
  · simp only [Stmt.exec, Database.recordDocument, Database.findCachedDocument,
      Relational.Table.find?_insertOrReplace, Stmt.recordDocument.injEq]
    split
    · next named => simp [named]
    · next named => simp [named]
  · simp only [Database.findCachedDocument, same]
    refine ⟨.inl, ?_⟩
    rintro (there | ⟨row, rfl, rfl⟩)
    · exact there
    · simp only [Stmt.exec, Database.recordDocument] at same
      rw [← same, Relational.Table.find?_insertOrReplace, if_pos rfl]
      rfl

namespace World

variable {world after : World}

/-- What a statement needs of the world to keep the chain whole. -/
def Careful (world : World) : Stmt → Prop
  | .recordDocument row => world.store.HasManifest row.docKey
  | .finishJob jobId => ∀ row, world.db.getJob jobId = some row → (world.db.findCachedDocument row.docKey).isSome
  | _ => True

theorem Published.exec (published : world.Published) {stmt : Stmt} (careful : world.Careful stmt) :
    ({ world with db := (stmt.exec world.db).2 } : World).Published ∧
      world.Grows { world with db := (stmt.exec world.db).2 } := by
  have documents (docKey : Str) (there : (world.db.findCachedDocument docKey).isSome) :
      ((stmt.exec world.db).2.findCachedDocument docKey).isSome :=
    (findCachedDocument_exec _ _ _).mpr (.inl there)
  refine ⟨⟨fun jobId row found done => ?_, fun docKey there => ?_, published.stored⟩,
    fun jobId row found => ?_, documents, fun _ there => there, fun _ _ there => there⟩
  · rcases getJob_exec stmt found with ⟨old, before, change⟩ | ⟨_, _, _, _, _, _, _, _, rfl⟩
    · cases change with
      | same => exact documents _ (published.finished jobId row before done)
      | finished =>
        have named := ((Database.getJob_eq_some_iff _ _ _).mp before).2
        exact documents _ (careful old (named ▸ before))
      | started | counted | failed => cases done
    · cases done
  · rcases (findCachedDocument_exec _ _ _).mp there with before | ⟨row, rfl, rfl⟩
    · exact published.recorded docKey before
    · exact careful
  · obtain ⟨later, arrived, change⟩ := jobChange stmt found
    exact ⟨later, arrived, change.columns.2.1⟩

/-! ## Objects -/

/-- The objects that the code puts, and what it needs of the world to put them. -/
inductive Puts (world : World) : Str → Obj → Prop
  | source (hash : Str) (obj : Obj) : Puts world (sourceKey hash) obj
  | part (docKey : Str) (index : ℕ) (obj : Obj) : Puts world (partKey docKey index) obj
  | page (docKey : Str) (page : ℕ) (content : Str) : Puts world (pageKey docKey page) (.text content)
  | manifest (docKey : Str) (manifest : Manifest) (positive : 1 ≤ manifest.totalPages)
      (complete : ∀ page, 1 ≤ page → page ≤ manifest.totalPages → world.store.HasPage docKey page) :
      Puts world (manifestKey docKey) (.manifest manifest)

theorem Puts.grows {key : Str} {obj : Obj} (puts : world.Puts key obj) :
    world.Grows { world with store := world.store.put key obj } := by
  refine ⟨fun _ row found => ⟨row, found, rfl⟩, fun _ there => there, ?_, ?_⟩
  · rintro docKey ⟨manifest, found⟩
    cases puts with
    | source | part | page => exact ⟨manifest, by simpa using found⟩
    | manifest other new =>
      by_cases same : docKey = other
      · exact ⟨new, by simp [same]⟩
      · exact ⟨manifest, by simpa [same] using found⟩
  · rintro docKey page ⟨content, found⟩
    cases puts with
    | source | part | manifest => exact ⟨content, by simpa using found⟩
    | page other number new =>
      by_cases same : docKey = other ∧ page = number
      · exact ⟨new, by simp [same]⟩
      · exact ⟨content, by simpa [same] using found⟩

theorem Published.put (published : world.Published) {key : Str} {obj : Obj} (puts : world.Puts key obj) :
    ({ world with store := world.store.put key obj } : World).Published := by
  have grows := puts.grows
  refine ⟨published.finished, fun docKey there => grows.manifests _ (published.recorded docKey there), ?_⟩
  have old {docKey : Str} {found : Obj} (before : world.store (manifestKey docKey) = some found) :
      ∃ manifest, found = .manifest manifest ∧ 1 ≤ manifest.totalPages ∧ ∀ page, 1 ≤ page →
        page ≤ manifest.totalPages → (world.store.put key obj).HasPage docKey page := by
    obtain ⟨manifest, rfl, positive, complete⟩ := published.stored docKey found before
    exact ⟨manifest, rfl, positive, fun page low high => grows.pages _ _ (complete page low high)⟩
  intro docKey found there
  cases puts with
  | source | part | page => exact old (by simpa using there)
  | manifest other manifest positive complete =>
    by_cases same : docKey = other
    · subst same
      simp only [Store.put_apply, if_true, Option.some.injEq] at there
      subst there
      exact ⟨manifest, rfl, positive, fun page low high => grows.pages _ _ (complete page low high)⟩
    · exact old (by simpa [same] using there)

end World

/-! ## Processes -/

section Calls

variable {config : Config} {parent : Option Message} {world after : World} {fate : Fate}

private theorem published_db {stmt : Stmt} {reply : Except Exc stmt.Reply} (published : world.Published)
    (carried : (Op.db stmt).carry config parent world fate = some (reply, after)) (careful : world.Careful stmt) :
    after.Published ∧ world.Grows after := by
  rcases carry_db carried with ⟨_, _, rfl⟩ | ⟨_, _, _, rfl⟩ | ⟨_, _, _, rfl⟩
  · exact published.exec careful
  · exact ⟨published, .refl _⟩
  · exact published.exec careful

private theorem published_put {key : Str} {obj : Obj} {reply : Except Exc Unit} (published : world.Published)
    (carried : (Op.s3 (.putObject key obj)).carry config parent world fate = some (reply, after))
    (puts : world.Puts key obj) :
    after.Published ∧ world.Grows after := by
  rcases carry_s3 carried with ⟨_, _, rfl⟩ | ⟨_, _, _, rfl⟩ | ⟨_, _, _, rfl⟩
  · exact ⟨published.put puts, puts.grows⟩
  · exact ⟨published, .refl _⟩
  · exact ⟨published.put puts, puts.grows⟩

/-- Calls that change neither rows nor objects. -/
private theorem published_frame (published : world.Published) (db : after.db = world.db)
    (store : after.store = world.store) : after.Published ∧ world.Grows after := by
  refine ⟨⟨?_, ?_, ?_⟩, ?_, ?_, ?_, ?_⟩
  · exact db ▸ published.finished
  · rw [db, store]
    exact published.recorded
  · exact store ▸ published.stored
  · rw [db]
    exact fun _ row found => ⟨row, found, rfl⟩
  · exact db ▸ fun _ there => there
  · exact store ▸ fun _ there => there
  · exact store ▸ fun _ _ there => there

private theorem published_get {key : Str} {reply : Except Exc (Option Obj)} (published : world.Published)
    (carried : (Op.s3 (.getObject key)).carry config parent world fate = some (reply, after)) :
    after.Published ∧ world.Grows after := by
  rcases carry_s3 carried with ⟨_, _, rfl⟩ | ⟨_, _, _, rfl⟩ | ⟨_, _, _, rfl⟩ <;>
    exact published_frame published rfl rfl

private theorem published_amqp {request : Amqp} {reply : Except Exc Unit} (published : world.Published)
    (carried : (Op.amqp request).carry config parent world fate = some (reply, after)) :
    after.Published ∧ world.Grows after := by
  rcases carry_amqp carried with ⟨_, _, rfl⟩ | ⟨_, _, _, rfl⟩ | ⟨_, _, _, rfl⟩ <;>
    exact published_frame published rfl rfl

private theorem published_tool {request : Tool} {reply : Except Exc request.Reply} (published : world.Published)
    (carried : (Op.tool request).carry config parent world fate = some (reply, after)) :
    after.Published ∧ world.Grows after := by
  rw [carry_tool carried]
  exact ⟨published, .refl _⟩

/-- A call that leaves every link of the chain whole. -/
def World.CarefulOp (world : World) : Op → Prop
  | .db stmt => world.Careful stmt
  | .s3 (.putObject key obj) => world.Puts key obj
  | _ => True

theorem World.Published.carry {op : Op} {reply : Except Exc op.Reply} (published : world.Published)
    (careful : world.CarefulOp op) (carried : op.carry config parent world fate = some (reply, after)) :
    after.Published ∧ world.Grows after := by
  cases op with
  | db stmt => exact published_db published carried careful
  | s3 request =>
    cases request with
    | putObject key obj => exact published_put published carried careful
    | getObject key => exact published_get published carried
    | headObject key =>
      rcases carry_s3 carried with ⟨_, _, rfl⟩ | ⟨_, _, _, rfl⟩ | ⟨_, _, _, rfl⟩ <;>
        exact published_frame published rfl rfl
  | amqp request => exact published_amqp published carried
  | tool request => exact published_tool published carried

end Calls

namespace Handler

/-- The row that `assemble` was given is that of its job. -/
def IsOf (world : World) (job : JobRow) : Prop :=
  ∃ row, world.db.getJob job.jobId = some row ∧ row.docKey = job.docKey

/-- What an assembler has written so far. -/
def Wrote (world : World) : Phase → Prop
  | .listing job | .reading job _ _ _ => IsOf world job
  | .writing job _ written => IsOf world job ∧ ∀ page, 1 ≤ page → page ≤ written → world.store.HasPage job.docKey page
  | .recording job _ => IsOf world job ∧ world.store.HasManifest job.docKey
  | .finishing job => IsOf world job ∧ (world.db.findCachedDocument job.docKey).isSome
  | _ => True

variable {config : Config} {owner : Str} {task : ChunkTask} {world after : World}

theorem IsOf.later {job : JobRow} (isOf : IsOf world job) (grows : world.Grows after) : IsOf after job := by
  obtain ⟨row, found, same⟩ := isOf
  obtain ⟨later, arrived, kept⟩ := grows.jobs _ row found
  exact ⟨later, arrived, kept.trans same⟩

/-- What is written stays written. -/
theorem Wrote.later {phase : Phase} (wrote : Wrote world phase) (grows : world.Grows after) : Wrote after phase := by
  cases phase with
  | listing job | reading job parts index rest => exact IsOf.later wrote grows
  | writing job parts written =>
    exact ⟨wrote.1.later grows, fun page low high => grows.pages _ _ (wrote.2 page low high)⟩
  | recording job parts => exact ⟨wrote.1.later grows, grows.manifests _ wrote.2⟩
  | finishing job => exact ⟨wrote.1.later grows, grows.documents _ wrote.2⟩
  | _ => trivial

theorem wrote_failure (error : Exc) : Wrote world (failure config task error) := by
  unfold failure
  split <;> trivial

theorem wrote_gather {job : JobRow} (isOf : IsOf world job) (parts : List Str) (indices : List ℕ) :
    Wrote world (gather job parts indices) := by
  cases indices with
  | nil => exact ⟨isOf, fun page low high => by omega⟩
  | cons index rest => exact isOf

/-- A handler keeps the chain whole and knows what it has written. -/
theorem Wrote.step {phase : Phase} {op : Op} {onward : Except Exc op.Reply → Phase} {reply : Except Exc op.Reply}
    {parent : Option Message} {fate : Fate} (published : world.Published) (wrote : Wrote world phase)
    (moves : step config owner task phase = some ⟨op, onward⟩)
    (carried : op.carry config parent world fate = some (reply, after)) :
    (after.Published ∧ world.Grows after) ∧ Wrote after (onward reply) := by
  cases phase with
  | dropped | counted | finished | aborted | failed | retried | escaped => cases moves
  | looking | startingRow | startingJob | aborting | failingChunk | failingJob | rescheduling | completing =>
    cases moves
    refine ⟨published_db published carried trivial, ?_⟩
    dsimp only
    split <;> (try split) <;> trivial
  | fetching =>
    cases moves
    refine ⟨published_get published carried, ?_⟩
    dsimp only
    split <;> first | trivial | exact wrote_failure _
  | preparing | converting =>
    cases moves
    refine ⟨published_tool published carried, ?_⟩
    dsimp only
    split <;> first | trivial | exact wrote_failure _
  | storing markdown =>
    cases moves
    refine ⟨published_put published carried (.part _ _ _), ?_⟩
    dsimp only
    split <;> first | trivial | exact wrote_failure _
  | parking | retrying =>
    obtain ⟨request, rfl⟩ := Sending.op_of_step moves
    exact ⟨published_amqp published carried,
      Sending.onward_of_step (Wrote after) moves (fun _ _ => trivial) trivial (fun _ => trivial) reply⟩
  | loading =>
    cases moves
    refine ⟨published_db published carried trivial, ?_⟩
    rcases carry_db carried with ⟨_, rfl, rfl⟩ | ⟨_, _, rfl, _⟩ | ⟨_, _, rfl, _⟩
    · simp only [Stmt.exec]
      cases found : world.db.getJob task.jobId with
      | none => trivial
      | some job =>
        have named := ((Database.getJob_eq_some_iff _ _ _).mp found).2
        exact ⟨job, named ▸ found, rfl⟩
    · trivial
    · trivial
  | listing job =>
    cases moves
    have kept := published_db published carried trivial
    refine ⟨kept, ?_⟩
    dsimp only
    split
    · exact wrote_gather (IsOf.later wrote kept.2) _ _
    · trivial
  | reading job parts index rest =>
    cases moves
    have kept := published_get published carried
    refine ⟨kept, ?_⟩
    dsimp only
    split <;> first | trivial | exact wrote_gather (IsOf.later wrote kept.2) _ _
  | writing job parts written =>
    obtain ⟨isOf, pagesWritten⟩ := wrote
    simp only [Handler.step] at moves
    split at moves
    · next content found =>
      cases moves
      have kept := published_put published carried (.page _ _ _)
      refine ⟨kept, ?_⟩
      dsimp only
      split
      · refine ⟨isOf.later kept.2, fun page low high => ?_⟩
        by_cases last : page = written + 1
        · rcases carry_s3 carried with ⟨_, _, rfl⟩ | ⟨_, _, raised, _⟩ | ⟨_, _, raised, _⟩
          · exact ⟨content, by simp [S3.exec, last]⟩
          · cases raised
          · cases raised
        · exact kept.2.pages _ _ (pagesWritten page low (by omega))
      · trivial
    · next past =>
      cases moves
      have complete : (pages config parts).length ≤ written := List.getElem?_eq_none_iff.mp past
      have positive : 1 ≤ (pages config parts).length := List.length_pos_iff.mpr (paginate_ne_nil _ _)
      have kept := published_put published carried (.manifest _ _ positive
        fun page low high => pagesWritten page low (Nat.le_trans high complete))
      refine ⟨kept, ?_⟩
      dsimp only
      split
      · refine ⟨isOf.later kept.2, ?_⟩
        rcases carry_s3 carried with ⟨_, _, rfl⟩ | ⟨_, _, raised, _⟩ | ⟨_, _, raised, _⟩
        · exact ⟨manifest config job.docKey parts, by simp [S3.exec]⟩
        · cases raised
        · cases raised
      · trivial
  | recording job parts =>
    obtain ⟨isOf, hasManifest⟩ := wrote
    cases moves
    have kept := published_db published carried hasManifest
    refine ⟨kept, ?_⟩
    dsimp only
    split
    · refine ⟨isOf.later kept.2, ?_⟩
      rcases carry_db carried with ⟨_, _, rfl⟩ | ⟨_, _, raised, _⟩ | ⟨_, _, raised, _⟩
      · exact (findCachedDocument_exec _ _ _).mpr (.inr ⟨_, rfl, rfl⟩)
      · cases raised
      · cases raised
    · trivial
  | finishing job =>
    obtain ⟨⟨row, found, same⟩, recorded⟩ := wrote
    cases moves
    have careful : world.Careful (.finishJob job.jobId) := by
      intro other present
      cases found.symm.trans present
      exact same ▸ recorded
    refine ⟨published_db published carried careful, ?_⟩
    dsimp only
    split <;> trivial

end Handler

namespace Fleet

variable {env : Env} {fleet after : Fleet} {label : Label}

def AgentWrote (world : World) : Agent → Prop
  | .producer .. => True
  | .handler _ _ _ phase _ => Handler.Wrote world phase

/-- A producer touches no link of the chain. -/
private theorem published_producer {url : Str} {useLlm : Bool} {phase : Producer.Phase} {op : Op}
    {onward : Except Exc op.Reply → Producer.Phase} {reply : Except Exc op.Reply} {fate : Fate} {world after : World}
    (published : world.Published) (moves : Producer.step env url useLlm phase = some ⟨op, onward⟩)
    (carried : op.carry env.toConfig none world fate = some (reply, after)) :
    after.Published ∧ world.Grows after := by
  cases phase with
  | returned | escaped => cases moves
  | downloading | drawing =>
    cases moves
    exact published_tool published carried
  | consulting | creating =>
    cases moves
    exact published_db published carried trivial
  | fetchingManifest | fetchingPage =>
    cases moves
    exact published_get published carried
  | probing =>
    cases moves
    rcases carry_s3 carried with ⟨_, _, rfl⟩ | ⟨_, _, _, rfl⟩ | ⟨_, _, _, rfl⟩ <;>
      exact published_frame published rfl rfl
  | uploading =>
    cases moves
    exact published_put published carried (.source _ _)
  | publishing file ranges job sending =>
    obtain ⟨request, rfl⟩ := Sending.op_of_step moves
    exact published_amqp published carried

/-- Every step of the fleet keeps the chain whole. -/
theorem published_of_stepped (stepped : Stepped env fleet label after) (published : fleet.world.Published)
    (wrote : ∀ agent ∈ fleet.agents, AgentWrote fleet.world agent) :
    after.world.Published ∧ fleet.world.Grows after.world := by
  cases stepped with
  | submit url useLlm => exact ⟨published, .refl _⟩
  | deliver found => exact published_frame published rfl rfl
  | duplicate found => exact published_frame published rfl rfl
  | expire found declared named timed target => exact published_frame published rfl rfl
  | produced found position moves carried => exact published_producer published moves carried
  | @handled _ _ owner origin task phase calls _ _ _ _ _ _ found position moves carried =>
    have holds : Handler.Wrote fleet.world phase := wrote (.handler owner origin task phase calls)
      (found ▸ List.mem_append_right _ (List.mem_cons_self ..))
    exact (Handler.Wrote.step published holds moves carried).1
  | finish found position ended => exact ⟨published, .refl _⟩
  | crash found position => exact published_frame published rfl rfl

theorem agentWrote_of_stepped (stepped : Stepped env fleet label after) (published : fleet.world.Published)
    (wrote : ∀ agent ∈ fleet.agents, AgentWrote fleet.world agent) :
    ∀ agent ∈ after.agents, AgentWrote after.world agent := by
  have grows := (published_of_stepped stepped published wrote).2
  refine stepped.forall_agents AgentWrote wrote ?_ (fun _ _ _ => trivial) (fun _ _ _ _ _ _ => trivial)
    (fun _ _ _ _ _ _ _ _ _ _ _ _ _ _ _ _ => trivial) ?_
  · intro agent _ holds
    cases agent with
    | producer => trivial
    | handler => exact Handler.Wrote.later holds grows
  · intro _ _ owner origin task phase calls op onward reply before rest _ found _ moves carried
    have holds : Handler.Wrote fleet.world phase := wrote (.handler owner origin task phase calls)
      (found ▸ List.mem_append_right _ (List.mem_cons_self ..))
    exact (Handler.Wrote.step published holds moves carried).2

end Fleet

/-! ## Readers -/

/-- A reader whose successive calls see successive worlds. -/
def Api.readFrom (config : Config) (worlds : ℕ → World) (calls : List Step) (op : Op) (_ : Unit) :
    Except Exc op.Reply × Unit :=
  (((op.exec config none (worlds calls.length)).map (·.1)).getD (.error Storage.clientError), ())

namespace Api

variable {config : Config} {worlds : ℕ → World} {job : JobRow} {manifest : Manifest}

/-- The payload of a job that is not failed is the first page, if manifest and page are found. -/
theorem completedJobPayload_ok {content : Str} (alive : job.status ≠ .failed)
    (found : (worlds 0).store (manifestKey job.docKey) = some (.manifest manifest))
    (first : (worlds 1).store (pageKey job.docKey 1) = some (.text content)) :
    ((completedJobPayload job).eval (readFrom config worlds) [] ()).1 = .ok ⟨job.docKey, content,
      buildPagination job.docKey 1 manifest.totalPages manifest.totalLength manifest.pageSize⟩ := by
  simp only [completedJobPayload, alive, if_false, Storage.getManifest, Storage.getBytes, firstPagePayload,
    Storage.getPage, request, Program.perform, Program.monad_bind, Program.call_bind, Program.eval, readFrom, Op.exec,
    S3.exec, List.length_nil, found, Option.map_some, Option.getD_some, Program.ofExcept, Program.pure_bind,
    Program.monad_pure, List.nil_append, List.length_singleton, first, Storage.decode]

/-- A page in the range of the manifest is served, if it is found. -/
theorem getPageEndpoint_ok {docKey content : Str} {page : ℕ} (low : 1 ≤ page) (high : page ≤ manifest.totalPages)
    (found : (worlds 0).store (manifestKey docKey) = some (.manifest manifest))
    (there : (worlds 1).store (pageKey docKey page) = some (.text content)) :
    ((getPageEndpoint docKey page).eval (readFrom config worlds) [] ()).1 = .ok ⟨docKey, content,
      buildPagination docKey page manifest.totalPages manifest.totalLength manifest.pageSize⟩ := by
  have inRange : ¬ ((page : ℤ) < 1 ∨ (manifest.totalPages : ℤ) < page) := by omega
  simp only [getPageEndpoint, Storage.getManifest, Storage.getBytes, Storage.getPage, request, Program.perform,
    Program.monad_bind, Program.call_bind, Program.eval, readFrom, Op.exec, S3.exec, List.length_nil, found,
    Option.map_some, Option.getD_some, Program.ofExcept, Program.pure_bind, Program.monad_pure, inRange, if_false,
    Int.toNat_natCast, List.nil_append, List.length_singleton, there, Storage.decode]

end Api

namespace Deployment

variable {env : Env}

/-- The chain is whole in every reachable state, and what is there stays there. -/
theorem published_of_reaches {state later : Deployment}
    (reached : Reaches (step env) (fun _ _ => True) .initial state)
    (continued : Reaches (step env) (fun _ _ => True) state later) :
    state.world.Published ∧ state.world.Grows later.world := by
  have start : Deployment.initial.world.Published :=
    ⟨fun _ _ found => (by cases found), fun _ there => (by cases there), fun _ _ found => (by cases found)⟩
  obtain ⟨fleet, mirrors, published, wrote⟩ := Fleet.Mirrors.invariant
    (fun fleet => fleet.world.Published ∧ ∀ agent ∈ fleet.agents, Fleet.AgentWrote fleet.world agent) reached
    Fleet.mirrors_initial ⟨start, fun _ member => (by cases member)⟩
    fun _ _ _ _ _ holds _ stepped => ⟨(Fleet.published_of_stepped stepped holds.1 holds.2).1,
      Fleet.agentWrote_of_stepped stepped holds.1 holds.2⟩
  rw [← mirrors.world]
  refine ⟨published, ?_⟩
  obtain ⟨after, mirrored, _, _, grows⟩ := Fleet.Mirrors.invariant
    (fun after => after.world.Published ∧ (∀ agent ∈ after.agents, Fleet.AgentWrote after.world agent) ∧
      fleet.world.Grows after.world) continued mirrors ⟨published, wrote, .refl _⟩
    fun _ _ _ _ _ holds _ stepped => ⟨(Fleet.published_of_stepped stepped holds.1 holds.2.1).1,
      Fleet.agentWrote_of_stepped stepped holds.1 holds.2.1,
      holds.2.2.trans (Fleet.published_of_stepped stepped holds.1 holds.2.1).2⟩
  exact mirrored.world ▸ grows

/-- In every reachable state a done job has its documents row, a row its manifest and a manifest its pages,
of which there is at least one. A reader who has seen the job done finds the document and every page in its
range, however far the deployment moves on between two of its calls. -/
theorem publication_chain {state : Deployment} (reached : Reaches (step env) (fun _ _ => True) .initial state) :
    state.world.Published ∧ ∀ jobId row, state.world.db.getJob jobId = some row → row.status = .done →
      ∀ seen : ℕ → Deployment, Reaches (step env) (fun _ _ => True) state (seen 0) →
        (∀ n, Reaches (step env) (fun _ _ => True) (seen n) (seen (n + 1))) →
        (∃ payload, ((Api.completedJobPayload row).eval (Api.readFrom env.toConfig fun n => (seen n).world)
          [] ()).1 = .ok payload) ∧
        ∃ manifest, (seen 0).world.store (manifestKey row.docKey) = some (.manifest manifest) ∧
          ∀ page : ℕ, 1 ≤ page → page ≤ manifest.totalPages → ∃ payload,
            ((Api.getPageEndpoint row.docKey page).eval (Api.readFrom env.toConfig fun n => (seen n).world)
              [] ()).1 = .ok payload := by
  have published := (published_of_reaches reached (.refl state)).1
  refine ⟨published, fun jobId row found done seen first chain => ?_⟩
  have grows := (published_of_reaches reached first).2
  have hasManifest := grows.manifests _ (published.recorded _ (published.finished jobId row found done))
  obtain ⟨manifest, stored⟩ := hasManifest
  have next := published_of_reaches (reached.trans first) (chain 0)
  obtain ⟨_, same, positive, complete⟩ := next.1.stored _ _ stored
  cases same
  have page (number : ℕ) (low : 1 ≤ number) (high : number ≤ manifest.totalPages) :
      (seen 1).world.store.HasPage row.docKey number := next.2.pages _ _ (complete number low high)
  refine ⟨?_, manifest, stored, fun number low high => ?_⟩
  · obtain ⟨content, there⟩ := page 1 (Nat.le_refl 1) positive
    exact ⟨_, Api.completedJobPayload_ok (by simp [done]) stored there⟩
  · obtain ⟨content, there⟩ := page number low high
    exact ⟨_, Api.getPageEndpoint_ok low high stored there⟩

/-- A done job and the page that its reader is served. -/
theorem publication_of_done_job :
    ∃ state row, Reaches (step (sampleEnv {})) (fun _ _ => True) .initial state ∧
      state.world.db.getJob (lit "job") = some row ∧ row.status = .done ∧ state.world.Published ∧
      ∃ payload, ((Api.completedJobPayload row).eval
        (Api.readFrom (sampleEnv {}).toConfig fun _ => state.world) [] ()).1 = .ok payload := by
  have leads : Leads (step (sampleEnv {})) (fun _ _ => True)
      (fun state => (state.world.db.getJob (lit "job")).map (·.status) = some .done) .initial
      (Script.submits 0 [0] (lit "job") false ++ .deliver 0 (lit "worker") ::
        Script.converts 0 (lit "text") ++ Script.acts 0 8) := by decide +kernel
  obtain ⟨state, reached, done⟩ := leads.exists_reaches
  obtain ⟨row, found, status⟩ := Option.map_eq_some_iff.mp done
  obtain ⟨published, reads⟩ := publication_chain reached
  obtain ⟨payload, _⟩ := reads _ row found status (fun _ => state) (.refl state) fun _ => .refl state
  exact ⟨state, row, reached, found, status, published, payload⟩

end Deployment

end MarkitdownServer
