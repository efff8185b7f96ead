import MarkitdownServer.Proofs.JobTable
import MarkitdownServer.Proofs.Publishing
import MarkitdownServer.Model.Deployment

/-! # What a submission leaves behind

`submit` plans the ranges of a file, writes a job row and chunk rows and publishes tasks, each from the same
list. When it has queued a job the three agree. The list can be empty: a file with no pages is below every
threshold but one that is not positive, and then the job has no chunk that could ever finish it.
-/

namespace MarkitdownServer

open Effects Effects.Program Transition

namespace Api

/-- The job has chunks, and its row, its chunk rows and the messages published for it are those of the plan. A
broker that raised was sent a beginning of the list before. -/
structure Finishable (env : Env) (file : Bytes) (useLlm : Bool) (fates : List Step → Op → Fate) (before after : World)
    (jobId docKey : Str) (total : ℕ) : Prop where
  work : 1 ≤ total
  agree : ∃ job ranges again, after.db.getJob jobId = some job ∧
    planChunks (env.pageCount file) env.pagesPerChunk env.minPagesForParallel = .ok ranges ∧ ranges.length = total ∧
    job.totalChunks = total ∧ job.remainingChunks = total ∧ job.docKey = docKey ∧
    docKey = env.makeDocKey (env.sha256 file) useLlm ∧ job.fileHash = env.sha256 file ∧ job.useLlm = useLlm ∧
    (after.db.jobChunks.rows.filter fun row => row.jobId = jobId).map
        (fun row => (row.chunkIndex, row.startPage, row.endPage)) =
      ranges.mapIdx (fun index range => (index, range.1, range.2)) ∧
    after.broker.contents = before.broker.contents ++ (again ++ ranges.mapIdx fun index range =>
      (env.rabbitmqQueue, .task ⟨jobId, index, job.docKey, job.fileHash, range.1, range.2, total, job.useLlm, 1⟩)) ∧
    again <+: (ranges.mapIdx fun index range =>
      (env.rabbitmqQueue, .task ⟨jobId, index, job.docKey, job.fileHash, range.1, range.2, total, job.useLlm, 1⟩)) ∧
    ((∀ calls request, fates calls (.amqp request) = .done) → again = [])

/-- The plan is empty for a file without pages when the threshold lets it through. -/
theorem plan_eq_nil_iff {count : Option ℕ} {pagesPerChunk minPages : ℤ} {ranges : List (ℤ × ℤ)}
    (planned : planChunks count pagesPerChunk minPages = .ok ranges) :
    ranges.length = 0 ↔ count = some 0 ∧ minPages ≤ 0 := by
  unfold planChunks at planned
  split at planned
  · cases planned
  · next accepted =>
    cases count with
    | none =>
      cases planned
      simp
    | some pages =>
      dsimp only at planned
      split at planned
      · next small =>
        cases planned
        simp only [List.length_singleton, Nat.one_ne_zero, Option.some.injEq, false_iff, not_and]
        rintro rfl
        omega
      · next large =>
        cases planned
        rw [List.length_map, rangeTo, List.length_map, List.length_range, Nat.div_eq_zero_iff, Option.some.injEq]
        omega

/-! ## Running alone -/

/-- Looking up a document and requests to the bucket. -/
def isLookup : Op → Bool
  | .db (.findCachedDocument _) | .s3 _ => true
  | _ => false

/-- The database and the queues stay as they are. -/
def SameRecords (world after : World) : Prop := after.db = world.db ∧ after.broker = world.broker

theorem SameRecords.trans {first second third : World} (left : SameRecords first second)
    (right : SameRecords second third) : SameRecords first third :=
  ⟨right.1.trans left.1, right.2.trans left.2⟩

variable {config : Config} {fates : List Step → Op → Fate} {calls : List Step} {world after : World}

/-- An answer is what the call comes to, or the exception of a fate that does not fit. -/
theorem respond_cases {parent : Option Message} {op : Op} {reply : Except Exc op.Reply}
    (answered : respond config parent fates calls op world = (reply, after)) :
    (reply = .error unansweredError ∧ after = world) ∨
      op.carry config parent world (fates calls op) = some (reply, after) := by
  unfold respond at answered
  cases carried : op.carry config parent world (fates calls op) with
  | none =>
    rw [carried] at answered
    cases answered
    exact .inl ⟨rfl, rfl⟩
  | some result =>
    rw [carried] at answered
    exact .inr (congrArg some answered)

theorem respond_lookup {parent : Option Message} {op : Op} (lookup : isLookup op = true) :
    SameRecords world (respond config parent fates calls op world).2 := by
  cases answered : respond config parent fates calls op world with
  | mk reply after =>
    rcases respond_cases answered with ⟨_, rfl⟩ | carried
    · exact ⟨rfl, rfl⟩
    · cases op with
      | s3 request => rcases carry_s3 carried with ⟨_, _, rfl⟩ | ⟨_, _, _, rfl⟩ | ⟨_, _, _, rfl⟩ <;> exact ⟨rfl, rfl⟩
      | db stmt =>
        cases stmt with
        | findCachedDocument docKey =>
          rcases carry_db carried with ⟨_, _, rfl⟩ | ⟨_, _, _, rfl⟩ | ⟨_, _, _, rfl⟩ <;> exact ⟨rfl, rfl⟩
        | _ => cases lookup
      | amqp request => cases lookup
      | tool request => cases lookup

/-- A program that only looks things up and stores objects leaves the records alone. -/
theorem sameRecords_eval {α : Type} {parent : Option Message} {program : Prog α} {result : Except Exc α}
    {seen : List Step} (makes : program.Makes (isLookup ·))
    (ran : program.eval (respond config parent fates) calls world = (result, seen, after)) :
    SameRecords world after := by
  have kept : SameRecords world (program.eval (respond config parent fates) calls world).2.2 := by
    refine Makes.eval makes (fun _ => ⟨rfl, rfl⟩) ?_ ?_ calls world
    · exact fun left right => left.trans right
    · exact fun _ _ _ lookup => respond_lookup lookup
  rw [ran] at kept
  exact kept

private theorem firstPagePayload_makes (docKey : Str) (manifest : Manifest) :
    (firstPagePayload docKey manifest).Makes (isLookup ·) := by
  refine Makes.bind (Makes.bind (Makes.perform rfl) fun found => ?_) fun content => ?_
  · rcases found with _ | (_ | _ | _) <;> trivial
  · cases content <;> trivial

private theorem cachedPayload_makes (docKey : Str) : (cachedPayload docKey).Makes (isLookup ·) := by
  refine Makes.bind (Makes.perform rfl) fun row => ?_
  cases row with
  | none => trivial
  | some row =>
    refine Makes.bind (Makes.bind (Makes.perform rfl) fun found => ?_) fun manifest => ?_
    · rcases found with _ | (_ | _ | _) <;> trivial
    · cases manifest with
      | none => trivial
      | some manifest => exact firstPagePayload_makes docKey manifest

private theorem putSource_makes (fileHash : Str) (file : Bytes) :
    (Storage.putSource fileHash file).Makes (isLookup ·) := by
  refine Makes.bind (Makes.bind (Makes.attempt (Makes.perform rfl)) fun answer => ?_) fun found => ?_
  · cases answer with
    | ok found => trivial
    | error error =>
      dsimp only
      split <;> trivial
  · split
    · trivial
    · exact Makes.bind (Makes.perform rfl) fun _ => trivial

/-! ## Publishing under any fate -/

/-- What one pass over the bodies has put on the queues: a beginning of the list, and all of it if it returned. -/
structure Passed (fates : List Step → Op → Fate) (queue : Str) (bodies : List Body)
    (result : Except Exc Unit) (world after : World) : Prop where
  db : after.db = world.db
  contents : ∃ first, first <+: bodies ∧
    after.broker.contents = world.broker.contents ++ first.map (fun body => (queue, body)) ∧
    (result = .ok () → first = bodies)
  quiet : (∀ calls request, fates calls (.amqp request) = .done) → result = .ok ()

/-- What becomes of a call on the broker. -/
private theorem respond_amqp (config : Config) (parent : Option Message) (fates : List Step → Op → Fate)
    (calls : List Step) (request : Amqp) (world : World) :
    respond config parent fates calls (.amqp request) world =
        (.ok (), { world with broker := request.exec config parent world.broker }) ∨
      (∃ error after, respond config parent fates calls (.amqp request) world = (.error error, after) ∧
        (after = world ∨ after = { world with broker := request.exec config parent world.broker }) ∧
        fates calls (.amqp request) ≠ .done) := by
  unfold respond
  cases fates calls (.amqp request) with
  | done => exact .inl rfl
  | raised error => exact .inr ⟨_, _, rfl, .inl rfl, by rintro ⟨⟩⟩
  | lost error => exact .inr ⟨_, _, rfl, .inr rfl, by rintro ⟨⟩⟩
  | _ => exact .inr ⟨_, _, rfl, .inl rfl, by rintro ⟨⟩⟩

section Publishing

variable {exchange routingKey queue : Str} (routed : (declare config).route exchange routingKey = [queue])

include routed

private theorem contents_sent (parent : Option Message) (broker : Broker) (body : Body) :
    ((Amqp.basicPublish exchange routingKey body).exec config parent broker).contents =
      broker.contents ++ [(queue, body)] := by
  rw [Amqp.exec, contents_publish, routed]
  rfl

private theorem publishEach_passes (parent : Option Message) (bodies : List Body) (calls : List Step) (world : World) :
    ∃ result seen after,
      (Taskqueue.publishEach exchange routingKey bodies).eval (respond config parent fates) calls world =
        (result, seen, after) ∧ Passed fates queue bodies result world after := by
  induction bodies generalizing calls world with
  | nil =>
    refine ⟨_, _, _, rfl, rfl, ⟨[], List.prefix_rfl, ?_, fun _ => rfl⟩, fun _ => rfl⟩
    rw [List.map_nil, List.append_nil]
  | cons body rest ih =>
    rcases respond_amqp config parent fates calls (.basicPublish exchange routingKey body) world with
      sent | ⟨error, after, raised, effect, faulty⟩
    · obtain ⟨result, seen, after, same, db, ⟨first, beginning, contents, whole⟩, quiet⟩ :=
        ih (calls ++ [Step.sent exchange routingKey body])
          { world with broker := (Amqp.basicPublish exchange routingKey body).exec config parent world.broker }
      refine ⟨result, seen, after, (eval_perform_ok sent).trans same, db,
        ⟨body :: first, List.cons_prefix_cons.mpr ⟨rfl, beginning⟩, ?_, fun ok => by rw [whole ok]⟩, quiet⟩
      rw [contents, contents_sent routed, List.append_assoc]
      rfl
    · refine ⟨_, _, _, eval_perform_error raised, ?_, ?_, fun quiet => absurd (quiet _ _) faulty⟩
      · rcases effect with rfl | rfl <;> rfl
      · rcases effect with rfl | rfl
        · exact ⟨[], List.nil_prefix, by rw [List.map_nil, List.append_nil], by rintro ⟨⟩⟩
        · exact ⟨[body], List.cons_prefix_cons.mpr ⟨rfl, List.nil_prefix⟩, contents_sent routed _ _ _, by rintro ⟨⟩⟩

private theorem publishOn_passes (parent : Option Message) (bodies : List Body) (calls : List Step) (world : World) :
    ∃ result seen after,
      (Taskqueue.publishOn exchange routingKey bodies).eval (respond config parent fates) calls world =
        (result, seen, after) ∧ Passed fates queue bodies result world after := by
  rcases respond_amqp config parent fates calls .channel world with opened | ⟨error, after, raised, effect, faulty⟩
  · obtain ⟨result, seen, after, same, passed⟩ :=
      publishEach_passes routed parent bodies (calls ++ [Step.opened]) world
    exact ⟨result, seen, after, (eval_perform_ok opened).trans same, passed⟩
  · have unchanged : after = world := effect.elim id id
    refine ⟨_, _, _, eval_perform_error raised, ?_, ⟨[], List.nil_prefix, ?_, by rintro ⟨⟩⟩,
      fun quiet => absurd (quiet _ _) faulty⟩
    · rw [unchanged]
    · rw [unchanged, List.map_nil, List.append_nil]

/-- A list that was published is on the queue, perhaps after a beginning of it that a failed channel took. -/
theorem contents_publishBodies (parent : Option Message) {bodies : List Body} {calls seen : List Step}
    {world after : World}
    (published : (Taskqueue.publishBodies exchange routingKey bodies).eval (respond config parent fates) calls world =
      (.ok (), seen, after)) :
    after.db = world.db ∧ ∃ again, again <+: bodies ∧
      after.broker.contents = world.broker.contents ++ (again ++ bodies).map (fun body => (queue, body)) ∧
      ((∀ calls request, fates calls (.amqp request) = .done) → again = []) := by
  obtain ⟨result, earlier, middle, same, db, ⟨first, beginning, contents, whole⟩, quiet⟩ :=
    publishOn_passes routed parent bodies calls world
  rw [Taskqueue.publishBodies, monad_bind, eval_bind, eval_attempt, same] at published
  cases result with
  | ok value =>
    cases published
    refine ⟨db, [], List.nil_prefix, ?_, fun _ => rfl⟩
    rw [contents, whole rfl, List.nil_append]
  | error error =>
    dsimp only at published
    split at published
    · obtain ⟨result, later, final, again, dbMore, ⟨second, _, contentsMore, wholeMore⟩, _⟩ :=
        publishOn_passes routed parent bodies earlier middle
      cases again.symm.trans published
      refine ⟨dbMore.trans db, first, beginning, ?_, fun calm => ?_⟩
      · rw [contentsMore, wholeMore rfl, contents, List.map_append, List.append_assoc]
      · cases quiet calm
    · cases published

end Publishing

/-! ## A queued job -/

variable {env : Env} {url : Str} {useLlm : Bool} {file : Bytes} {jobId docKey : Str} {total : ℕ} {seen : List Step}

/-- The tasks of a plan, numbered from `index`. -/
private theorem tasksFrom_eq (index : ℕ) (ranges : List (ℤ × ℤ)) (fileHash : Str) :
    tasksFrom jobId docKey fileHash total useLlm index ranges = ranges.mapIdx fun i range =>
      ⟨jobId, index + i, docKey, fileHash, range.1, range.2, total, useLlm, 1⟩ := by
  induction ranges generalizing index with
  | nil => rfl
  | cons range ranges ih =>
    rw [tasksFrom, ih, List.mapIdx_cons]
    simp only [Nat.add_zero, Nat.add_assoc, Nat.add_comm 1]

/-- A statement that returned was carried out. -/
private theorem respond_db_eq_ok {parent : Option Message} {stmt : Stmt} {value : stmt.Reply}
    (answered : respond config parent fates calls (.db stmt) world = (.ok value, after)) :
    (stmt.exec world.db).1 = .ok value ∧ after = { world with db := (stmt.exec world.db).2 } := by
  rcases respond_cases answered with ⟨⟨⟩, _⟩ | carried
  rcases carry_db carried with ⟨_, same, rfl⟩ | ⟨_, _, ⟨⟩, _⟩ | ⟨_, _, ⟨⟩, _⟩
  exact ⟨same.symm, rfl⟩

/-- A tool that was asked leaves the world alone. -/
private theorem respond_tool {parent : Option Message} {request : Tool} {reply : Except Exc request.Reply}
    (answered : respond config parent fates calls (.tool request) world = (reply, after)) : after = world := by
  rcases respond_cases answered with ⟨_, same⟩ | carried
  · exact same
  · exact carry_tool carried

/-- A submission that queued a job has planned, created and published it, in this order. -/
private theorem enqueue_eq_queued
    (queued : (enqueue env url useLlm file).eval (respond env.toConfig none fates) calls world =
      (.ok (.queued jobId docKey total), seen, after)) :
    ∃ ranges db middle sent, planChunks (env.pageCount file) env.pagesPerChunk env.minPagesForParallel = .ok ranges ∧
      total = ranges.length ∧ docKey = env.makeDocKey (env.sha256 file) useLlm ∧
      world.db.createJob jobId docKey (env.sha256 file) url ranges useLlm = some db ∧
      middle.db = db ∧ middle.broker = world.broker ∧
      (Taskqueue.publish env.toConfig (tasksFrom jobId docKey (env.sha256 file) total useLlm 0 ranges)).eval
        (respond env.toConfig none fates) sent middle = (.ok (), seen, after) := by
  obtain ⟨ranges, _, _, planned, queued⟩ := eval_bind_eq_ok queued
  cases plan : planChunks (env.pageCount file) env.pagesPerChunk env.minPagesForParallel with
  | error error =>
    rw [plan] at planned
    cases planned
  | ok computed =>
    rw [plan] at planned
    cases planned
    obtain ⟨_, earlier, stored, putSource, queued⟩ := eval_bind_eq_ok queued
    obtain ⟨drawn, _, unchanged, draw, queued⟩ := eval_bind_eq_ok queued
    obtain ⟨_, _, created, create, queued⟩ := eval_bind_eq_ok queued
    obtain ⟨_, _, final, published, queued⟩ := eval_bind_eq_ok queued
    cases queued
    obtain ⟨sameDb, sameBroker⟩ := sameRecords_eval (putSource_makes _ _) putSource
    obtain rfl := respond_tool (eval_perform_eq_ok draw)
    obtain ⟨accepted, rfl⟩ := respond_db_eq_ok (eval_perform_eq_ok create)
    have effect : world.db.createJob jobId (env.makeDocKey (env.sha256 file) useLlm) (env.sha256 file) url ranges useLlm =
        some ((Stmt.createJob jobId (env.makeDocKey (env.sha256 file) useLlm) (env.sha256 file) url ranges
          useLlm).exec unchanged.db).2 := by
      rw [← sameDb]
      simp only [Stmt.exec] at accepted ⊢
      split at accepted
      · assumption
      · cases accepted
    exact ⟨ranges, _, _, _, rfl, rfl, rfl, effect, rfl, by exact sameBroker, published⟩

/-- Every chunk belongs to a job. -/
private def Owned (state : Deployment) : Prop :=
  ∀ row ∈ state.world.db.jobChunks.rows, ∃ job, state.world.db.getJob row.jobId = some job

private theorem owned_of_reaches {state : Deployment}
    (reachable : Reaches (Deployment.step env) (fun _ _ => True) .initial state) : Owned state := by
  refine reachable.invariant ?_ ?_
  · rintro row ⟨⟩
  · intro state label next owned _ stepped
    unfold Owned
    rw [Deployment.db_of_step stepped]
    cases state.statement label with
    | none => exact owned
    | some stmt => exact owned_exec stmt owned

private theorem submit_eq_queued (downloads : fates [] (.tool (.download url)) = .downloaded file)
    (queued : (submit env url useLlm).eval (respond env.toConfig none fates) [] world =
      (.ok (.queued jobId docKey total), seen, after)) :
    ∃ middle sent, SameRecords world middle ∧
      (enqueue env url useLlm file).eval (respond env.toConfig none fates) sent middle =
        (.ok (.queued jobId docKey total), seen, after) := by
  have answered : respond env.toConfig none fates [] (.tool (.download url)) world = (.ok file, world) := by
    rw [respond, downloads]
    rfl
  have rest := (eval_perform_ok answered).symm.trans queued
  obtain ⟨payload, sent, middle, looked, rest⟩ := eval_bind_eq_ok rest
  refine ⟨middle, sent, sameRecords_eval (cachedPayload_makes _) looked, ?_⟩
  cases payload with
  | none => exact rest
  | some payload => cases rest

/-- A job that `submit` has queued from any reachable state agrees with its plan, and has a chunk unless the file has
no pages and the threshold lets it through. -/
theorem finishable_iff (env : Env) (url : Str) (useLlm : Bool) (fates : List Step → Op → Fate) (file : Bytes)
    {state : Deployment} (reachable : Reaches (Deployment.step env) (fun _ _ => True) .initial state)
    (downloads : fates [] (.tool (.download url)) = .downloaded file) {jobId docKey : Str} {total : ℕ}
    {calls : List Step} {after : World}
    (queued : (submit env url useLlm).eval (respond env.toConfig none fates) [] state.world =
      (.ok (.queued jobId docKey total), calls, after)) :
    Finishable env file useLlm fates state.world after jobId docKey total ↔
      ¬ (env.pageCount file = some 0 ∧ env.minPagesForParallel ≤ 0) := by
  obtain ⟨start, sent, ⟨sameDb, sameBroker⟩, enqueued⟩ := submit_eq_queued downloads queued
  obtain ⟨ranges, db, middle, _, planned, rfl, rfl, created, rfl, broker, published⟩ := enqueue_eq_queued enqueued
  obtain ⟨records, again, beginning, contents, calm⟩ := contents_publishBodies env.toConfig.route_work none published
  rw [sameDb] at created
  have rows := chunkRows_createJob (owned_of_reaches reachable) created
  have found := Database.getJob_createJob created jobId
  rw [if_pos rfl] at found
  have tasks : (tasksFrom jobId (env.makeDocKey (env.sha256 file) useLlm) (env.sha256 file) ranges.length useLlm 0
      ranges).map (fun task => (env.rabbitmqQueue, Body.task task)) = ranges.mapIdx fun index range =>
        (env.rabbitmqQueue, .task ⟨jobId, index, env.makeDocKey (env.sha256 file) useLlm, env.sha256 file, range.1,
          range.2, ranges.length, useLlm, 1⟩) := by
    rw [tasksFrom_eq]
    simp only [List.mapIdx_eq_zipIdx_map, List.map_map, Nat.zero_add]
    rfl
  rw [← plan_eq_nil_iff planned]
  constructor
  · intro finishable
    have work := finishable.work
    omega
  · intro some
    refine ⟨by omega, _, ranges, again.map fun body => (env.rabbitmqQueue, body), records ▸ found, planned, rfl, rfl, rfl,
      rfl, rfl, rfl, rfl, ?_, ?_, ?_, ?_⟩
    · rw [records, rows]
      simp only [List.mapIdx_eq_zipIdx_map, List.map_map]
      rfl
    · rw [contents, broker, sameBroker, List.map_append, List.map_map]
      exact congrArg _ (congrArg _ tasks)
    · have shown := beginning.map fun body => (env.rabbitmqQueue, body)
      rw [List.map_map] at shown
      exact tasks ▸ shown
    · intro quiet
      rw [calm quiet, List.map_nil]

/-- Every call goes well, with this file and this job id. -/
def smoothly (file : Bytes) (jobId : Str) : List Step → Op → Fate
  | _, .tool (.download _) => .downloaded file
  | _, .tool .newJobId => .drawn jobId
  | _, _ => .done

/-- A submission of a file on an empty server. -/
def soleSubmission (config : Config) (file : Bytes) : Except Exc Submission × List Step × World :=
  (submit (sampleEnv config) (lit "http://host/file") false).eval (respond config none (smoothly file (lit "job"))) []
    Deployment.initial.world

/-- Two pages, a chunk each. -/
theorem finishable_of_two_pages :
    ∃ docKey, (soleSubmission { pagesPerChunk := 1, minPagesForParallel := 2 } [1, 2]).1 = .ok (.queued (lit "job") docKey 2) ∧
      Finishable (sampleEnv { pagesPerChunk := 1, minPagesForParallel := 2 }) [1, 2] false (smoothly [1, 2] (lit "job"))
        Deployment.initial.world (soleSubmission { pagesPerChunk := 1, minPagesForParallel := 2 } [1, 2]).2.2 (lit "job")
        docKey 2 :=
  ⟨_, rfl, (finishable_iff (sampleEnv { pagesPerChunk := 1, minPagesForParallel := 2 }) _ _ _ [1, 2]
    (Reaches.refl Deployment.initial) rfl rfl).mpr (by decide)⟩

/-- A file without pages and a threshold of zero: the job is queued with no chunk and no message. -/
theorem job_without_chunks :
    ∃ docKey, (soleSubmission { minPagesForParallel := 0 } []).1 = .ok (.queued (lit "job") docKey 0) ∧
      (soleSubmission { minPagesForParallel := 0 } []).2.2.broker.contents = [] ∧
      ¬ Finishable (sampleEnv { minPagesForParallel := 0 }) [] false (smoothly [] (lit "job")) Deployment.initial.world
        (soleSubmission { minPagesForParallel := 0 } []).2.2 (lit "job") docKey 0 := by
  refine ⟨_, rfl, rfl, ?_⟩
  rintro ⟨work, _⟩
  exact absurd work (by decide)

end Api

end MarkitdownServer
