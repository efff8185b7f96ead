import MarkitdownServer.Machine.Clients
import MarkitdownServer.Proofs.Document

/-! # What clients are served

Objects may expire between any two calls, and other requests, workers and assemblies go on meanwhile. What is
read from the bucket is nevertheless what its key says, so an answer that carries a page carries the right page
of the document of the right file: the file behind the key that was asked for, or the file that the request
itself has downloaded.
-/

namespace MarkitdownServer

open Effects Effects.Program Transition

/-- Page `page` of the document of a file, as a reader should get it. -/
def documentPage (env : Env) (conv : Bytes → ℤ → ℤ → Bool → Str) (file : Bytes) (useLlm : Bool) (page : ℤ) :
    Option Api.PagePayload :=
  match Producer.plan env file with
  | .error _ => none
  | .ok ranges =>
    let markdown := Worker.joinParts (partsOf conv file useLlm ranges)
    let pages := paginate markdown env.pageSize
    if page < 1 then none
    else (pages[page.toNat - 1]?).map fun content => ⟨Producer.docKey env useLlm file, content,
      buildPagination (Producer.docKey env useLlm file) page pages.length markdown.length env.pageSize⟩

variable (pod : Pod) (conv : Bytes → ℤ → ℤ → Bool → Str) (files : Set Bytes)

/-- The answers that a route may give, with the calls that were made for it. -/
inductive Suits : Route → List Step → Answer → Prop
  | read {docId : Str} {page : ℤ} {calls : List Step} {file : Bytes} {useLlm : Bool} {payload : Api.PagePayload}
      (known : file ∈ files) (key : docId = Producer.docKey pod.toEnv useLlm file)
      (found : documentPage pod.toEnv conv file useLlm page = some payload) :
      Suits (.page docId page) calls (.page payload)
  | converted {request : ConvertRequest} {polls : ℕ} {url : Str} {calls : List Step} {file : Bytes}
      {payload : Api.PagePayload} (asked : request.file = some url) (known : file ∈ files)
      (downloaded : (⟨.tool (.download url), .ok file⟩ : Step) ∈ calls)
      (found : documentPage pod.toEnv conv file (request.flag pod) 1 = some payload) :
      Suits (.convert (some request) polls) calls (.page payload)
  | cached {request : ConvertRequest} {url : Str} {calls : List Step} {file : Bytes} {payload : Api.PagePayload}
      (asked : request.file = some url) (known : file ∈ files)
      (downloaded : (⟨.tool (.download url), .ok file⟩ : Step) ∈ calls)
      (found : documentPage pod.toEnv conv file (request.flag pod) 1 = some payload) :
      Suits (.asyncConvert (some request)) calls (.page payload)
  | accepted {request : ConvertRequest} {url : Str} {calls : List Step} {file : Bytes} {ranges : List (ℤ × ℤ)}
      {jobId : Str} (asked : request.file = some url)
      (downloaded : (⟨.tool (.download url), .ok file⟩ : Step) ∈ calls)
      (planned : Producer.plan pod.toEnv file = .ok ranges) :
      Suits (.asyncConvert (some request)) calls
        (.accepted ⟨jobId, .queued, Producer.docKey pod.toEnv (request.flag pod) file, ranges.length⟩)
  | polled {jobId : Str} {calls : List Step} {payload : JobPayload} {file : Bytes} {useLlm : Bool}
      (named : payload.jobId = jobId) (known : file ∈ files)
      (key : payload.docKey = Producer.docKey pod.toEnv useLlm file) : Suits (.job jobId) calls (.job payload)

/-- An answer that is given fits its route. -/
def fitting : Cluster.Promise := fun _ visit result calls _ =>
  ∀ answer, result = .ok (some answer) → Suits pod conv files visit.route calls answer

variable {pod conv files} in
/-- Whatever the route, a page is one of the document that it says it is of. -/
theorem Suits.document {route : Route} {calls : List Step} {payload : Api.PagePayload}
    (suits : Suits pod conv files route calls (.page payload)) : ∃ file ∈ files, ∃ useLlm,
      payload.id = Producer.docKey pod.toEnv useLlm file ∧
        documentPage pod.toEnv conv file useLlm payload.pagination.page = some payload := by
  have named {file : Bytes} {useLlm : Bool} {page : ℤ}
      (found : documentPage pod.toEnv conv file useLlm page = some payload) :
      payload.id = Producer.docKey pod.toEnv useLlm file ∧ payload.pagination.page = page := by
    unfold documentPage at found
    split at found
    · cases found
    · dsimp only at found
      split at found
      · cases found
      · obtain ⟨content, _, rfl⟩ := Option.map_eq_some_iff.mp found
        exact ⟨rfl, rfl⟩
  cases suits with
  | read known key found | converted _ known _ found | cached _ known _ found =>
    exact ⟨_, known, _, (named found).1, (named found).2.symm ▸ found⟩

variable (env : Env)

/-- How the calls of a request are served: downloads give known files. -/
def Serves (world : World) (op : Op) (reply : Except Exc op.Reply) (after : World) : Prop :=
  ∃ fate, (∀ file, fate = .downloaded file → file ∈ files) ∧
    op.carry env.toConfig none world fate = some (reply, after)

/-- A program that keeps the world genuine among others that do. -/
abbrev Assured {α : Type} (post : Except Exc α → List Step → World → Prop) (program : Prog α) (calls : List Step)
    (world : World) : Prop :=
  program.Withstands (Serves files env) (Authentic env conv files) World.KeepsJobs post calls world

variable {pod conv files env} {α β : Type} {calls : List Step} {world : World}

/-- A genuine call, and what follows when it is answered. -/
theorem Assured.call {op : Op} {next : op.Reply → Prog α} {holds : α → List Step → World → Prop}
    (genuine : GenuineOp env conv files op)
    (ok : ∀ later value after, Authentic env conv files later → world.KeepsJobs later →
      Serves files env later op (.ok value) after → Authentic env conv files after →
      Assured conv files env (OnOk holds) (next value) (calls ++ [⟨op, .ok value⟩]) after) :
    Assured conv files env (OnOk holds) ((perform op).bind next) calls world := by
  refine Withstands.perform_bind ?_ ?_ (fun _ _ _ _ _ _ _ _ _ => trivial)
  · rintro later reply after authentic _ ⟨fate, _, carried⟩
    exact ⟨authentic.carry genuine carried, keepsJobs_carry carried⟩
  · exact fun later value after authentic kept grown served => ok later value after authentic grown served kept

theorem Assured.pure {value : α} {holds : α → List Step → World → Prop}
    (gives : ∀ later, Authentic env conv files later → world.KeepsJobs later → holds value calls later) :
    Assured conv files env (OnOk holds) (.pure value) calls world := gives

theorem Assured.raise {error : Exc} {holds : α → List Step → World → Prop} :
    Assured conv files env (OnOk holds) (.raise error) calls world := fun _ _ _ => trivial

theorem Assured.bind {program : Prog β} {next : β → Prog α} {mid : β → List Step → World → Prop}
    {holds : α → List Step → World → Prop} (first : Assured conv files env (OnOk mid) program calls world)
    (rest : ∀ value seen after, Authentic env conv files after → mid value seen after →
      Assured conv files env (OnOk holds) (next value) seen after) :
    Assured conv files env (OnOk holds) (program.bind next) calls world :=
  Withstands.bind World.KeepsJobs.refl first rest fun _ _ _ _ _ => trivial

/-- What was there at the beginning may be used at the end. -/
theorem Assured.keeping {program : Prog α} (given : α → List Step → World → Prop) {holds : α → List Step → World → Prop}
    (assured : Assured conv files env (OnOk given) program calls world)
    (joins : ∀ value final later, given value final later → calls <+: final → world.KeepsJobs later →
      holds value final later) : Assured conv files env (OnOk holds) program calls world := by
  refine (assured.framed World.KeepsJobs.trans).weaken ?_
  rintro (error | value) final later _ ⟨found, longer, kept⟩
  · trivial
  · exact joins value final later found longer kept

/-! ## What is read -/

theorem Serves.get {later after : World} {key : Str} {found : Option Obj}
    (served : Serves files env later (.s3 (.getObject key)) (.ok found) after) : found = later.store key := by
  obtain ⟨fate, _, carried⟩ := served
  rcases carry_s3 carried with ⟨_, same, _⟩ | ⟨_, _, same, _⟩ | ⟨_, _, same, _⟩
  · exact Except.ok.inj same
  · cases same
  · cases same

theorem Serves.db {later after : World} {stmt : Stmt} {reply : stmt.Reply}
    (served : Serves files env later (.db stmt) (.ok reply) after) :
    (stmt.exec later.db).1 = .ok reply ∧ after = { later with db := (stmt.exec later.db).2 } := by
  obtain ⟨fate, _, carried⟩ := served
  rcases carry_db carried with ⟨_, same, rfl⟩ | ⟨_, _, same, _⟩ | ⟨_, _, same, _⟩
  · exact ⟨same.symm, rfl⟩
  · cases same
  · cases same

/-- A manifest that is read is that of the document behind its key. -/
theorem assured_getManifest (docKey : Str) :
    Assured conv files env (OnOk fun found _ _ => ∀ manifest, found = some manifest → ∃ file useLlm ranges,
      Belongs env files docKey file useLlm ranges ∧
        manifest = Handler.manifest env.toConfig docKey (partsOf conv file useLlm ranges))
      (Storage.getManifest docKey) calls world := by
  refine Assured.call trivial fun later found after authentic _ served _ => ?_
  cases served.get
  cases stored : later.store (manifestKey docKey) with
  | none => exact Assured.pure (by rintro _ _ _ _ ⟨⟩)
  | some obj =>
    obtain ⟨file, useLlm, ranges, belongs, rfl⟩ := (authentic.objects _ _ stored).of_manifest rfl
    refine Assured.pure ?_
    rintro _ _ _ _ ⟨⟩
    exact ⟨file, useLlm, ranges, belongs, rfl⟩

/-- A page that is read is a page of the document behind its key. -/
theorem assured_getPage (docKey : Str) (index : ℕ) :
    Assured conv files env (OnOk fun found _ _ => ∀ content, found = some content → ∃ file useLlm ranges,
      Belongs env files docKey file useLlm ranges ∧
        (Handler.pages env.toConfig (partsOf conv file useLlm ranges))[index]? = some content)
      (Storage.getPage docKey (index + 1)) calls world := by
  refine Assured.call trivial fun later found after authentic _ served _ => ?_
  cases served.get
  cases stored : later.store (pageKey docKey (index + 1)) with
  | none => exact Assured.pure (by rintro _ _ _ _ ⟨⟩)
  | some obj =>
    obtain ⟨file, useLlm, ranges, content, belongs, read, rfl⟩ := (authentic.objects _ _ stored).of_page rfl
    refine Assured.pure ?_
    rintro _ _ _ _ ⟨⟩
    exact ⟨file, useLlm, ranges, belongs, read⟩

/-- A page of the document with the numbers of its manifest. -/
theorem documentPage_eq {docKey : Str} {file : Bytes} {useLlm : Bool} {ranges : List (ℤ × ℤ)} {page : ℤ}
    {content : Str} (belongs : Belongs env files docKey file useLlm ranges) (low : 1 ≤ page)
    (read : (Handler.pages env.toConfig (partsOf conv file useLlm ranges))[page.toNat - 1]? = some content) :
    let manifest := Handler.manifest env.toConfig docKey (partsOf conv file useLlm ranges)
    documentPage env conv file useLlm page = some ⟨docKey, content,
      buildPagination docKey page manifest.totalPages manifest.totalLength manifest.pageSize⟩ := by
  unfold Handler.pages at read
  simp only [documentPage, belongs.planned, if_neg (show ¬ page < 1 by omega), read, Option.map_some, belongs.key,
    Handler.manifest, Handler.pages]

/-- The first page, read after a manifest of the same document. -/
theorem assured_firstPagePayload (collisionless : env.Collisionless files) {docKey : Str} {file : Bytes}
    {useLlm : Bool} {ranges : List (ℤ × ℤ)} (belongs : Belongs env files docKey file useLlm ranges) :
    Assured conv files env
      (OnOk fun found _ _ => ∀ payload, found = some payload → documentPage env conv file useLlm 1 = some payload)
      (Api.firstPagePayload docKey (Handler.manifest env.toConfig docKey (partsOf conv file useLlm ranges)))
      calls world := by
  refine (assured_getPage docKey 0).bind fun found seen after _ reads => ?_
  cases found with
  | none => exact Assured.pure (by rintro _ _ _ _ ⟨⟩)
  | some content =>
    obtain ⟨other, flag, others, same, read⟩ := reads content rfl
    obtain ⟨rfl, rfl, rfl⟩ := belongs.unique collisionless same
    refine Assured.pure ?_
    rintro _ _ _ _ ⟨⟩
    exact documentPage_eq belongs (Int.le_refl 1) read

theorem assured_cachedPayload (collisionless : env.Collisionless files) {file : Bytes} (known : file ∈ files)
    (useLlm : Bool) :
    Assured conv files env
      (OnOk fun found _ _ => ∀ payload, found = some payload → documentPage env conv file useLlm 1 = some payload)
      (Api.cachedPayload (Producer.docKey env useLlm file)) calls world := by
  refine Assured.call trivial fun _ row _ _ _ _ _ => ?_
  cases row with
  | none => exact Assured.pure (by rintro _ _ _ _ ⟨⟩)
  | some row =>
    refine (assured_getManifest _).bind fun found seen after _ reads => ?_
    cases found with
    | none => exact Assured.pure (by rintro _ _ _ _ ⟨⟩)
    | some manifest =>
      obtain ⟨other, flag, ranges, belongs, rfl⟩ := reads manifest rfl
      obtain ⟨rfl, rfl⟩ := docKey_inj collisionless known belongs.known belongs.key
      exact assured_firstPagePayload collisionless belongs

/-! ## What is submitted -/

theorem assured_publishEach {exchange routingKey : Str} {bodies : List Body}
    (genuine : ∀ body ∈ bodies, GenuineBody env files body) :
    Assured conv files env (OnOk fun _ _ _ => True) (Taskqueue.publishEach exchange routingKey bodies) calls world := by
  induction bodies generalizing calls world with
  | nil => exact Assured.pure fun _ _ _ => trivial
  | cons body rest ih =>
    refine Assured.call (genuine body (List.mem_cons_self ..)) fun _ _ _ _ _ _ _ => ?_
    exact ih fun other member => genuine other (List.mem_cons_of_mem _ member)

theorem assured_publishBodies {exchange routingKey : Str} {bodies : List Body}
    (genuine : ∀ body ∈ bodies, GenuineBody env files body) :
    Assured conv files env (OnOk fun _ _ _ => True) (Taskqueue.publishBodies exchange routingKey bodies)
      calls world := by
  have round {calls : List Step} {world : World} : Assured conv files env (OnOk fun _ _ _ => True)
      (Taskqueue.publishOn exchange routingKey bodies) calls world :=
    Assured.call trivial fun _ _ _ _ _ _ _ => assured_publishEach genuine
  refine Withstands.attempt_bind World.KeepsJobs.refl round ?_
  rintro (error | _) seen after _ _
  · dsimp only
    split
    · exact round
    · exact Assured.raise
  · exact Assured.pure fun _ _ _ => trivial

theorem assured_putSource {file : Bytes} (known : file ∈ files) :
    Assured conv files env (OnOk fun _ _ _ => True) (Storage.putSource (env.sha256 file) file) calls world := by
  have looks : Assured conv files env (fun _ _ _ => True) (request (.s3 (.headObject (sourceKey (env.sha256 file)))))
      calls world := by
    rintro later authentic _ reply after ⟨fate, _, carried⟩
    have genuine : GenuineOp env conv files (.s3 (.headObject (sourceKey (env.sha256 file)))) := trivial
    refine ⟨authentic.carry genuine carried, keepsJobs_carry carried, ?_⟩
    cases reply <;> exact fun _ _ _ => trivial
  have probe : Assured conv files env (OnOk fun _ _ _ => True) (Storage.objectExists (sourceKey (env.sha256 file)))
      calls world := by
    refine Withstands.attempt_bind World.KeepsJobs.refl looks ?_
    rintro (error | found) seen after _ _
    · dsimp only
      split
      · exact Assured.pure fun _ _ _ => trivial
      · exact Assured.raise
    · exact Assured.pure fun _ _ _ => trivial
  refine probe.bind fun found seen after _ _ => ?_
  cases found with
  | true => exact Assured.pure fun _ _ _ => trivial
  | false => exact Assured.call (.source known) fun _ _ _ _ _ _ _ => Assured.pure fun _ _ _ => trivial

/-- What `submit` promises of its file. -/
def SubmissionOf (env : Env) (conv : Bytes → ℤ → ℤ → Bool → Str) (file : Bytes) (useLlm : Bool)
    (submission : Api.Submission) (world : World) : Prop :=
  match submission with
  | .cached payload => documentPage env conv file useLlm 1 = some payload
  | .queued jobId docKey total => docKey = Producer.docKey env useLlm file ∧
      (∃ row, world.db.getJob jobId = some row ∧ row.docKey = docKey) ∧
      ∃ ranges, Producer.plan env file = .ok ranges ∧ total = ranges.length

theorem assured_enqueue {url : Str} {useLlm : Bool} {file : Bytes} (known : file ∈ files) :
    Assured conv files env (OnOk fun submission _ later => SubmissionOf env conv file useLlm submission later)
      (Api.enqueue env url useLlm file) calls world := by
  unfold Api.enqueue
  cases planned : planChunks (env.pageCount file) env.pagesPerChunk env.minPagesForParallel with
  | error error => exact Assured.raise
  | ok ranges =>
    have belongs : Belongs env files (Producer.docKey env useLlm file) file useLlm ranges := ⟨known, rfl, planned⟩
    simp only [Program.ofExcept, monad_bind, pure_bind]
    refine (assured_putSource known).bind fun _ seen after _ _ => ?_
    refine Assured.call trivial fun _ jobId _ _ _ _ _ => ?_
    refine Assured.call ⟨file, belongs⟩ fun later _ created _ _ served _ => ?_
    obtain ⟨replied, rfl⟩ := served.db
    have inserted : ∃ row, ((Stmt.createJob jobId (Producer.docKey env useLlm file) (env.sha256 file) url ranges
        useLlm).exec later.db).2.getJob jobId = some row ∧ row.docKey = Producer.docKey env useLlm file := by
      simp only [Stmt.exec] at replied ⊢
      split
      · next created =>
        rw [Database.getJob_createJob created, if_pos rfl]
        exact ⟨_, rfl, rfl⟩
      · next absent => simp only [absent, reduceCtorEq] at replied
    refine Assured.keeping (fun submission _ _ =>
      submission = .queued jobId (Producer.docKey env useLlm file) ranges.length) ?_ ?_
    · refine (assured_publishBodies fun body member => ?_).bind fun _ _ _ _ _ => Assured.pure fun _ _ _ => rfl
      obtain ⟨task, inside, rfl⟩ := List.mem_map.mp member
      exact Producer.genuine_tasks belongs inside
    · rintro _ final last rfl _ kept
      obtain ⟨row, found, same⟩ := inserted
      obtain ⟨middle, arrived, alike⟩ := kept jobId row found
      exact ⟨rfl, ⟨middle, arrived, alike.trans same⟩, ranges, planned, rfl⟩

theorem assured_submit (collisionless : env.Collisionless files) {url : Str} {useLlm : Bool} :
    Assured conv files env (OnOk fun submission seen later => ∃ file ∈ files,
      (⟨.tool (.download url), .ok file⟩ : Step) ∈ seen ∧ SubmissionOf env conv file useLlm submission later)
      (Api.submit env url useLlm) calls world := by
  refine Assured.call trivial fun _ file _ _ _ served _ => ?_
  have known : file ∈ files := by
    obtain ⟨fate, downloads, carried⟩ := served
    refine downloads file ?_
    cases fate <;> simp_all [Op.carry, Op.exec]
  refine Assured.keeping (fun submission _ later => SubmissionOf env conv file useLlm submission later)
    ((assured_cachedPayload collisionless known useLlm).bind fun found seen after _ reads => ?_) ?_
  · cases found with
    | none => exact assured_enqueue known
    | some payload => exact Assured.pure fun _ _ _ => reads payload rfl
  · intro submission final later given longer _
    exact ⟨file, known, longer.subset (List.mem_append_right _ (List.mem_singleton_self _)), given⟩

/-! ## What the endpoints answer -/

/-- The job that is waited for keeps the document that it was created for. -/
theorem assured_waitForJob {jobId docKey : Str} (polls : ℕ)
    (created : ∃ row, world.db.getJob jobId = some row ∧ row.docKey = docKey) :
    Assured conv files env (OnOk fun found _ _ => ∀ job, found = some job → job.docKey = docKey)
      (Api.waitForJob jobId polls) calls world := by
  induction polls generalizing calls world with
  | zero => exact Assured.pure (by rintro _ _ _ _ ⟨⟩)
  | succ polls ih =>
    refine Assured.call trivial fun later found after _ kept served _ => ?_
    obtain ⟨row, there, same⟩ := created
    obtain ⟨current, arrived, alike⟩ := kept jobId row there
    obtain ⟨replied, rfl⟩ := served.db
    cases (Except.ok.inj replied).symm.trans arrived
    dsimp only
    split
    · refine Assured.pure ?_
      rintro _ _ _ _ ⟨⟩
      exact alike.trans same
    · exact ih ⟨current, arrived, alike.trans same⟩

theorem assured_completedJobPayload (collisionless : env.Collisionless files) {job : JobRow} {file : Bytes}
    {useLlm : Bool} (known : file ∈ files) (key : job.docKey = Producer.docKey env useLlm file) :
    Assured conv files env (OnOk fun payload _ _ => documentPage env conv file useLlm 1 = some payload)
      (Api.completedJobPayload job) calls world := by
  unfold Api.completedJobPayload
  split
  · exact Assured.raise
  · refine (assured_getManifest job.docKey).bind fun found seen after _ reads => ?_
    cases found with
    | none => exact Assured.raise
    | some manifest =>
      obtain ⟨other, flag, ranges, belongs, rfl⟩ := reads manifest rfl
      obtain ⟨rfl, rfl⟩ := docKey_inj collisionless known belongs.known (key.symm.trans belongs.key)
      refine (assured_firstPagePayload collisionless belongs).bind fun found seen after _ serves => ?_
      cases found with
      | none => exact Assured.raise
      | some payload => exact Assured.pure fun _ _ _ => serves payload rfl

/-- A request for a conversion hands on what it has submitted. -/
theorem assured_submitRequest (collisionless : env.Collisionless files) {pod : Pod} (same : pod.toEnv = env)
    (body : Option ConvertRequest) :
    Assured conv files env (OnOk fun submission seen later => ∃ request url file, body = some request ∧
      request.file = some url ∧ file ∈ files ∧ (⟨.tool (.download url), .ok file⟩ : Step) ∈ seen ∧
      SubmissionOf env conv file (request.flag pod) submission later) (Api.submitRequest pod body) calls world := by
  subst same
  rcases body with _ | ⟨_ | _ | ⟨first, rest⟩, useLlm⟩
  · exact Assured.raise
  · exact Assured.raise
  · exact Assured.raise
  · refine Withstands.attempt_bind World.KeepsJobs.refl (assured_submit collisionless) ?_
    rintro (error | submission) seen after _ given
    · exact Assured.raise
    · obtain ⟨file, known, downloaded, holds⟩ := given
      refine Assured.pure fun later _ kept => ⟨_, _, file, rfl, rfl, known, downloaded, ?_⟩
      cases submission with
      | cached payload => exact holds
      | queued jobId docKey total =>
        obtain ⟨key, ⟨row, found, alike⟩, planned⟩ := holds
        obtain ⟨middle, arrived, still⟩ := kept jobId row found
        exact ⟨key, ⟨middle, arrived, still.trans alike⟩, planned⟩

theorem assured_convertEndpoint (collisionless : env.Collisionless files) {pod : Pod} (same : pod.toEnv = env)
    (body : Option ConvertRequest) (polls : ℕ) :
    Assured conv files env (OnOk fun found seen _ => ∀ payload, found = some payload → ∃ request url file,
      body = some request ∧ request.file = some url ∧ file ∈ files ∧
      (⟨.tool (.download url), .ok file⟩ : Step) ∈ seen ∧ documentPage env conv file (request.flag pod) 1 = some payload)
      (Api.convertEndpoint pod body polls) calls world := by
  refine (assured_submitRequest collisionless same body).bind ?_
  rintro (payload | ⟨jobId, docKey, total⟩) seen after _ ⟨request, url, file, rfl, asked, known, downloaded, holds⟩
  · refine Assured.pure ?_
    rintro _ _ _ _ ⟨⟩
    exact ⟨request, url, file, rfl, asked, known, downloaded, holds⟩
  · obtain ⟨rfl, created, _⟩ := holds
    refine Assured.keeping (fun found _ _ => ∀ payload, found = some payload →
      documentPage env conv file (request.flag pod) 1 = some payload) ?_ ?_
    · refine (assured_waitForJob polls created).bind fun found seen after _ waits => ?_
      cases found with
      | none => exact Assured.pure (by rintro _ _ _ _ ⟨⟩)
      | some job =>
        refine (assured_completedJobPayload collisionless known (waits job rfl)).bind fun payload seen after _ given => ?_
        refine Assured.pure ?_
        rintro _ _ _ _ ⟨⟩
        exact given
    · intro found final later given longer _ payload same
      exact ⟨request, url, file, rfl, asked, known, longer.subset downloaded, given payload same⟩

theorem assured_getPageEndpoint (collisionless : env.Collisionless files) (docId : Str) (page : ℤ) :
    Assured conv files env (OnOk fun payload _ _ => ∃ file ∈ files, ∃ useLlm,
      docId = Producer.docKey env useLlm file ∧ documentPage env conv file useLlm page = some payload)
      (Api.getPageEndpoint docId page) calls world := by
  refine (assured_getManifest docId).bind fun found seen after _ reads => ?_
  cases found with
  | none => exact Assured.raise
  | some manifest =>
    obtain ⟨file, useLlm, ranges, belongs, rfl⟩ := reads manifest rfl
    dsimp only
    split
    · exact Assured.raise
    · next inRange =>
      obtain ⟨index, at_⟩ : ∃ index, page.toNat = index + 1 := ⟨page.toNat - 1, by omega⟩
      rw [at_]
      refine (assured_getPage docId index).bind fun found seen after _ reads => ?_
      cases found with
      | none => exact Assured.raise
      | some content =>
        obtain ⟨other, flag, others, same, read⟩ := reads content rfl
        obtain ⟨rfl, rfl, rfl⟩ := belongs.unique collisionless same
        refine Assured.pure fun _ _ _ => ⟨file, belongs.known, useLlm, belongs.key, ?_⟩
        exact documentPage_eq belongs (by omega) (by rw [at_]; exact read)

theorem assured_getJobEndpoint (jobId : Str) :
    Assured conv files env (OnOk fun payload _ _ => payload.jobId = jobId ∧ ∃ file ∈ files, ∃ useLlm,
      payload.docKey = Producer.docKey env useLlm file) (Api.getJobEndpoint jobId) calls world := by
  refine Assured.call trivial fun later found after authentic _ served _ => ?_
  obtain ⟨replied, rfl⟩ := served.db
  cases found with
  | none => exact Assured.raise
  | some job =>
    have stored : later.db.getJob jobId = some job := Except.ok.inj replied
    obtain ⟨file, useLlm, ranges, belongs, _⟩ := authentic.jobs jobId job stored
    have progress : Assured conv files env (OnOk fun _ _ _ => True) (Api.jobProgress job.jobId)
        (calls ++ [⟨.db (.getJob jobId), .ok (some job)⟩]) later :=
      Assured.call trivial fun _ row _ _ _ _ _ => by cases row <;> exact Assured.pure fun _ _ _ => trivial
    refine progress.bind fun _ _ _ _ _ => Assured.pure fun _ _ _ => ?_
    exact ⟨((Database.getJob_eq_some_iff _ _ _).mp stored).2, file, belongs.known, useLlm, belongs.key⟩

theorem assured_asyncConvertEndpoint (collisionless : pod.Collisionless files) (body : Option ConvertRequest) :
    Assured conv files pod.toEnv (OnOk fun answer seen _ => Suits pod conv files (.asyncConvert body) seen answer)
      (Api.asyncConvertEndpoint pod body) calls world := by
  refine (assured_submitRequest collisionless rfl body).bind ?_
  rintro (payload | ⟨jobId, docKey, total⟩) seen after _ ⟨request, url, file, rfl, asked, known, downloaded, holds⟩
  · exact Assured.pure fun _ _ _ => .cached asked known downloaded holds
  · obtain ⟨rfl, _, ranges, planned, rfl⟩ := holds
    exact Assured.pure fun _ _ _ => .accepted asked downloaded planned

/-- Every route keeps the world genuine and answers as it may. -/
theorem assured_serveRoute (collisionless : pod.Collisionless files) (xApiKey : Option Str) (route : Route) :
    Assured conv files pod.toEnv (fun result seen _ => ∀ answer, result = .ok (some answer) →
      Suits pod conv files route seen answer) (Api.serveRoute pod xApiKey route) calls world := by
  have answers : Assured conv files pod.toEnv (OnOk fun found seen _ => ∀ answer, found = some answer →
      Suits pod conv files route seen answer) (Api.serveRoute pod xApiKey route) calls world := by
    unfold Api.serveRoute
    cases Api.verifyApiKey pod xApiKey with
    | error error => exact Assured.raise
    | ok key =>
      simp only [Program.ofExcept, monad_bind, pure_bind]
      cases route with
      | convert body polls =>
        refine (assured_convertEndpoint collisionless rfl body polls).bind fun found seen after _ given => ?_
        cases found with
        | none => exact Assured.pure (by rintro _ _ _ _ ⟨⟩)
        | some payload =>
          obtain ⟨request, url, file, rfl, asked, known, downloaded, holds⟩ := given payload rfl
          refine Assured.pure ?_
          rintro _ _ _ _ ⟨⟩
          exact .converted asked known downloaded holds
      | asyncConvert body =>
        refine (assured_asyncConvertEndpoint collisionless body).bind fun answer seen after _ given => ?_
        refine Assured.pure ?_
        rintro _ _ _ _ ⟨⟩
        exact given
      | job jobId =>
        refine (assured_getJobEndpoint jobId).bind fun payload seen after _ given => ?_
        obtain ⟨named, file, known, useLlm, key⟩ := given
        refine Assured.pure ?_
        rintro _ _ _ _ ⟨⟩
        exact .polled named known key
      | page docId page =>
        refine (assured_getPageEndpoint collisionless docId page).bind fun payload seen after _ given => ?_
        obtain ⟨file, known, useLlm, key, holds⟩ := given
        refine Assured.pure ?_
        rintro _ _ _ _ ⟨⟩
        exact .read known key holds
  refine answers.weaken ?_
  rintro (error | found) seen after _ given answer ⟨⟩
  exact given answer rfl

/-! ## Runs -/

/-- An object that expires leaves the others genuine. -/
theorem Authentic.forget (authentic : Authentic env conv files world) (key : Str) :
    Authentic env conv files (Cluster.forget world key) := by
  refine ⟨fun other obj found => ?_, authentic.jobs, authentic.owned, authentic.messages⟩
  simp only [Cluster.forget, Store.erase_apply] at found
  split_ifs at found
  exact authentic.objects other obj found

namespace Cluster

variable (pod conv files) in
/-- Downloads give known files, and a conversion that succeeds gives what `conv` gives. -/
def faithful (state : Cluster) : Move → Prop
  | .backend label => state.backend.faithful conv files label
  | .call _ (.downloaded file) => file ∈ files
  | _ => True

/-- The workers hold nothing but genuine things. -/
def Vouched (env : Env) (conv : Bytes → ℤ → ℤ → Bool → Str) (files : Set Bytes) (state : Cluster) : Prop :=
  ∃ fleet, Fleet.Mirrors env state.backend fleet ∧ fleet.Vouched env conv files

theorem Vouched.setWorld {state : Cluster} {world : World} (vouched : state.Vouched env conv files)
    (authentic : Authentic env conv files world) (kept : state.world.KeepsJobs world) :
    (state.setWorld world).Vouched env conv files := by
  obtain ⟨fleet, mirrors, vouched⟩ := vouched
  refine ⟨{ fleet with world }, ⟨rfl, mirrors.trace, mirrors.agents⟩, authentic, fun agent member => ?_, vouched.faithful⟩
  have listed := vouched.listed agent member
  cases agent with
  | producer => trivial
  | handler => exact Handler.Listed.later listed (mirrors.world ▸ kept)

theorem lasting_fitting : Lasting World.KeepsJobs (fitting pod conv files) :=
  ⟨World.KeepsJobs.refl, World.KeepsJobs.trans, fun _ _ _ _ _ _ fits _ => fits⟩

/-- Workers and requests keep the world genuine, and the answers fit, whatever expires. -/
theorem upholds_of_step (collisionless : pod.Collisionless files) {state next : Cluster} {move : Move}
    (vouched : state.Vouched pod.toEnv conv files)
    (upholds : state.Upholds (Serves files pod.toEnv) (Authentic pod.toEnv conv files) World.KeepsJobs
      (fitting pod conv files))
    (allowed : state.faithful conv files move) (stepped : step pod state move = some next) :
    next.Vouched pod.toEnv conv files ∧ next.Upholds (Serves files pod.toEnv) (Authentic pod.toEnv conv files)
      World.KeepsJobs (fitting pod conv files) := by
  have moved := moved_of_step stepped
  have inner {label : Label} {backend : Deployment} (labeled : move = .backend label)
      (runs : Deployment.step pod.toEnv state.backend label = some backend) :
      ∃ fleet, Fleet.Mirrors pod.toEnv backend fleet ∧ fleet.Vouched pod.toEnv conv files ∧
        state.world.KeepsJobs fleet.world := by
    subst labeled
    obtain ⟨fleet, mirrors, vouched⟩ := vouched
    obtain ⟨after, steps, mirrored⟩ := mirrors.stepped runs
    have kept := Fleet.keepsJobs_of_stepped steps
    rw [mirrors.world] at kept
    exact ⟨after, mirrored, Fleet.vouched_of_stepped collisionless mirrors vouched allowed steps, kept⟩
  have served {index : ℕ} {fate : Fate} {op : Op} {reply : Except Exc op.Reply} {world : World}
      (labeled : move = .call index fate) (carried : op.carry pod.toConfig none state.world fate = some (reply, world)) :
      Serves files pod.toEnv state.world op reply world := by
    subst labeled
    refine ⟨fate, ?_, carried⟩
    rintro file rfl
    exact allowed
  have after := upholds.moved lasting_fitting moved ?_ ?_ (fun _ _ _ _ _ labeled carried => served labeled carried)
    fun xApiKey route _ => assured_serveRoute collisionless xApiKey route
  · refine ⟨?_, after⟩
    cases moved with
    | backend inside runs =>
      obtain ⟨fleet, mirrors, vouched, _⟩ := inner rfl runs
      exact ⟨fleet, mirrors, vouched⟩
    | arrive | answer | abandon => exact vouched
    | call found position at_ carried => exact vouched.setWorld after.world (keepsJobs_carry carried)
    | vanish key => exact vouched.setWorld (upholds.world.forget key) (.of_db rfl)
  · intro label backend labeled _ runs
    obtain ⟨fleet, mirrors, vouched, kept⟩ := inner labeled runs
    exact mirrors.world ▸ ⟨vouched.authentic, kept⟩
  · exact fun key _ => ⟨upholds.world.forget key, .of_db rfl⟩

/-- In every run of clients, workers and a bucket that may lose any object at any time, in which successful
conversions are given by `conv`, every answer fits its route: a page is the right page of the document of the
file behind the key, or of the file that the request itself has downloaded. -/
theorem answers_fit (collisionless : pod.Collisionless files) {state : Cluster}
    (reached : Reaches (step pod) (fun state move => state.faithful conv files move) .initial state)
    {exchange : Exchange} (closed : exchange ∈ state.exchanges) {answer : Answer}
    (answered : exchange.result = .ok (some answer)) :
    Suits pod conv files exchange.route exchange.calls answer := by
  have genuine : Authentic pod.toEnv conv files initial.world :=
    ⟨fun _ _ found => (by cases found), fun _ _ found => (by cases found), fun _ member => (by cases member),
      fun _ member => (by cases member)⟩
  have start : initial.Vouched pod.toEnv conv files :=
    ⟨_, Fleet.mirrors_initial, genuine, fun _ member => (by cases member), fun _ member => (by cases member)⟩
  obtain ⟨_, upholds⟩ := reached.invariant ⟨start, upholds_initial genuine⟩ fun _ _ _ holds allowed stepped =>
    upholds_of_step collisionless holds.1 holds.2 allowed stepped
  exact upholds.exchanges exchange closed answer answered

/-- The page that an exchange has brought. -/
def servedPage (exchange : Exchange) : Option Api.PagePayload :=
  match exchange.result with
  | .ok (some (.page payload)) => some payload
  | _ => none

theorem result_of_servedPage {exchange : Exchange} {payload : Api.PagePayload}
    (served : servedPage exchange = some payload) : exchange.result = .ok (some (.page payload)) := by
  unfold servedPage at served
  split at served
  · next found =>
    cases served
    exact found
  · cases served

/-- Whoever gets a page of a document, from whichever route and however often the document has expired and has
been converted again, gets the same page as everybody else. -/
theorem pages_agree (collisionless : pod.Collisionless files) {state : Cluster}
    (reached : Reaches (step pod) (fun state move => state.faithful conv files move) .initial state)
    {first second : Exchange} (firstOver : first ∈ state.exchanges) (secondOver : second ∈ state.exchanges)
    {payload other : Api.PagePayload} (firstServed : servedPage first = some payload)
    (secondServed : servedPage second = some other) (sameDocument : payload.id = other.id)
    (samePage : payload.pagination.page = other.pagination.page) : payload = other := by
  have one := (answers_fit collisionless reached firstOver (result_of_servedPage firstServed)).document
  have two := (answers_fit collisionless reached secondOver (result_of_servedPage secondServed)).document
  obtain ⟨file, known, useLlm, key, found⟩ := one
  obtain ⟨another, alsoKnown, flag, alsoKey, alsoFound⟩ := two
  obtain ⟨rfl, rfl⟩ := docKey_inj collisionless known alsoKnown (key.symm.trans (sameDocument.trans alsoKey))
  rw [samePage] at found
  exact Option.some.inj (found.symm.trans alsoFound)

/-! A conversion that is waited for, whose page expires once it has been served. -/

/-- The condition `faithful` for one file and conversions that all give one text. -/
def sampleFaithful (file : Bytes) (text : Str) : Move → Bool
  | .backend (.act _ (.converted markdown)) => markdown = text
  | .backend (.act _ (.downloaded other)) => other = file
  | .call _ (.downloaded other) => other = file
  | _ => true

theorem faithful_of_sample {file : Bytes} {text : Str} {state : Cluster} {move : Move}
    (holds : sampleFaithful file text move) : state.faithful (fun _ _ _ _ => text) {file} move := by
  cases move with
  | backend label =>
    cases label with
    | act index fate =>
      cases fate with
      | converted markdown =>
        intro _ _ _ _ _
        exact of_decide_eq_true holds
      | downloaded other =>
        have same : other = file := of_decide_eq_true holds
        exact same
      | done | raised | lost | drawn => trivial
    | submit | deliver | duplicate | expire | finish | crash => trivial
  | call index fate =>
    cases fate with
    | downloaded other =>
      have same : other = file := of_decide_eq_true holds
      exact same
    | done | raised | lost | drawn | converted => trivial
  | arrive | answer | abandon | vanish => trivial

theorem sample_collisionless : (samplePod {}).Collisionless {[0]} := by
  refine ⟨fun data => ?_, fun first one second two _ => one.trans two.symm, by decide +kernel⟩
  simp [samplePod, sampleEnv]

theorem answers_fit_of_waiting_client :
    ∃ state, Reaches (step (samplePod {})) (fun state move => state.faithful (fun _ _ _ _ => lit "text") {[0]} move)
        .initial state ∧
      ∃ exchange ∈ state.exchanges, ∃ payload, exchange.result = .ok (some (.page payload)) ∧
        Suits (samplePod {}) (fun _ _ _ _ => lit "text") {[0]} exchange.route exchange.calls (.page payload) := by
  have leads : Leads (step (samplePod {})) (fun _ move => sampleFaithful [0] (lit "text") move)
      (fun state => state.exchanges.any fun exchange => (servedPage exchange).isSome) .initial
      (waits [0] (lit "job") (lit "text") ++ expires (sampleDocKey {}) ++ [.answer 0]) := by decide +kernel
  obtain ⟨state, reached, holds⟩ := leads.exists_reaches
  obtain ⟨exchange, closed, page⟩ := List.any_eq_true.mp holds
  have faithful : Reaches (step (samplePod {}))
      (fun state move => state.faithful (fun _ _ _ _ => lit "text") {[0]} move) .initial state :=
    reached.mono fun _ _ => faithful_of_sample
  obtain ⟨payload, same⟩ := Option.isSome_iff_exists.mp page
  have answered := result_of_servedPage same
  exact ⟨state, faithful, exchange, closed, payload, answered, answers_fit sample_collisionless faithful closed answered⟩

/-- Two clients, the second one after the document of the first has expired. -/
theorem pages_agree_after_expiry :
    ∃ state first second payload other, Reaches (step (samplePod {}))
        (fun state move => state.faithful (fun _ _ _ _ => lit "text") {[0]} move) .initial state ∧
      state.exchanges = [first, second] ∧ servedPage first = some payload ∧ servedPage second = some other ∧
      payload = other := by
  have leads : Leads (step (samplePod {})) (fun _ move => sampleFaithful [0] (lit "text") move)
      (fun state => state.exchanges.map (fun exchange => (servedPage exchange).map fun payload =>
        (payload.id, payload.pagination.page)) =
          [some (sampleDocKey {}, 1), some (sampleDocKey {}, 1)]) .initial
      (waits [0] (lit "job") (lit "text") ++ expires (sampleDocKey {}) ++ .answer 0 ::
        waits [0] (lit "again") (lit "text") ++ [.answer 0]) := by decide +kernel
  obtain ⟨state, reached, holds⟩ := leads.exists_reaches
  have faithful : Reaches (step (samplePod {}))
      (fun state move => state.faithful (fun _ _ _ _ => lit "text") {[0]} move) .initial state :=
    reached.mono fun _ _ => faithful_of_sample
  obtain ⟨first, rest, listed, one, others⟩ := List.map_eq_cons_iff.mp holds
  obtain ⟨second, none_, rfl, two, ends⟩ := List.map_eq_cons_iff.mp others
  cases List.map_eq_nil_iff.mp ends
  obtain ⟨payload, served, firstPage⟩ := Option.map_eq_some_iff.mp one
  obtain ⟨other, alsoServed, secondPage⟩ := Option.map_eq_some_iff.mp two
  have same := firstPage.trans secondPage.symm
  exact ⟨state, first, second, payload, other, faithful, listed, served, alsoServed,
    pages_agree sample_collisionless faithful (by simp [listed]) (by simp [listed]) served alsoServed
      (congrArg Prod.fst same) (congrArg Prod.snd same)⟩

end Cluster

end MarkitdownServer
