import MarkitdownServer.Machine.Clients
import MarkitdownServer.Machine.Endpoints
import MarkitdownServer.Proofs.Publication

/-! # As long as nothing expires

The publication chain is whole in every world that a request meets, and what a request has found stays there. So
a client that has waited for its job is not told that the document is missing, and a reader who has seen a
manifest finds every page in its range, unless a call of the request itself has raised. Conversions may give
anything here.
-/

namespace MarkitdownServer

open Effects Effects.Program Transition

/-- The exception of a done job without its document. -/
def Api.documentMissing : Exc := httpException 500 (lit "Converted document is missing")

/-- The exception of a page that is not there. -/
def Api.pageNotFound : Exc := httpException 404 (lit "Document or page not found (it may have expired).")

/-- A call that touches no link of the publication chain. -/
def HarmlessOp : Op → Prop
  | .db (.recordDocument _) | .db (.finishJob _) => False
  | .s3 (.putObject key _) => ∃ hash, key = sourceKey hash
  | _ => True

variable (config : Config)

/-- How the calls of a request are served. -/
def Carries (world : World) (op : Op) (reply : Except Exc op.Reply) (after : World) : Prop :=
  ∃ fate, op.carry config none world fate = some (reply, after)

/-- A program that keeps the publication chain whole among others that do. -/
abbrev Steady {α : Type} (post : Except Exc α → List Step → World → Prop) (program : Prog α) (calls : List Step)
    (world : World) : Prop :=
  program.Withstands (Carries config) World.Published World.Grows post calls world

variable {config} {α β : Type} {calls : List Step} {world : World} {verdict : Exc}

theorem harmless_keeps {op : Op} {reply : Except Exc op.Reply} {after : World} (harmless : HarmlessOp op)
    (published : world.Published) (served : Carries config world op reply after) :
    after.Published ∧ world.Grows after := by
  obtain ⟨fate, carried⟩ := served
  refine published.carry ?_ carried
  cases op with
  | db stmt => cases stmt <;> trivial
  | s3 request =>
    cases request with
    | putObject key obj =>
      obtain ⟨hash, rfl⟩ := harmless
      exact .source hash obj
    | getObject | headObject => trivial
  | amqp | tool => trivial

/-- A call that touches no link of the chain, and what follows when it is answered. -/
theorem Steady.call {op : Op} {next : op.Reply → Prog α} {holds : α → List Step → World → Prop}
    (harmless : HarmlessOp op)
    (ok : ∀ later value after, later.Published → world.Grows later → Carries config later op (.ok value) after →
      later.Grows after →
      Steady config (Excused verdict holds) (next value) (calls ++ [⟨op, .ok value⟩]) after) :
    Steady config (Excused verdict holds) ((perform op).bind next) calls world := by
  refine Withstands.perform_bind ?_ ?_ ?_
  · exact fun later reply after published _ served => harmless_keeps harmless published served
  · exact fun later value after published _ grown served =>
      ok later value after published grown served (harmless_keeps harmless published served).2
  · intro later error after _ _ _ final _ _ _
    exact ⟨_, List.mem_append_right _ (List.mem_singleton_self _), error, rfl⟩

theorem Steady.pure {value : α} {holds : α → List Step → World → Prop}
    (gives : ∀ later, later.Published → world.Grows later → holds value calls later) :
    Steady config (Excused verdict holds) (.pure value) calls world := gives

theorem Steady.raise {error : Exc} {holds : α → List Step → World → Prop} (other : error ≠ verdict) :
    Steady config (Excused verdict holds) (.raise error) calls world := fun _ _ _ same => absurd same other

theorem Steady.bind {program : Prog β} {next : β → Prog α} {mid : β → List Step → World → Prop}
    {holds : α → List Step → World → Prop} (first : Steady config (Excused verdict mid) program calls world)
    (rest : ∀ value seen after, after.Published → mid value seen after →
      Steady config (Excused verdict holds) (next value) seen after) :
    Steady config (Excused verdict holds) (program.bind next) calls world :=
  Withstands.bind World.Grows.refl first rest fun _ _ _ _ raised => raised

theorem Carries.get {later after : World} {key : Str} {found : Option Obj}
    (served : Carries config later (.s3 (.getObject key)) (.ok found) after) : found = later.store key := by
  obtain ⟨fate, carried⟩ := served
  rcases carry_s3 carried with ⟨_, same, _⟩ | ⟨_, _, same, _⟩ | ⟨_, _, same, _⟩
  · exact Except.ok.inj same
  · cases same
  · cases same

theorem Carries.getJob {later after : World} {jobId : Str} {found : Option JobRow}
    (served : Carries config later (.db (.getJob jobId)) (.ok found) after) :
    found = later.db.getJob jobId ∧ after = later := by
  obtain ⟨fate, carried⟩ := served
  rcases carry_db carried with ⟨_, same, rfl⟩ | ⟨_, _, same, _⟩ | ⟨_, _, same, _⟩
  · exact ⟨Except.ok.inj same, rfl⟩
  · cases same
  · cases same

/-! ## Readers -/

/-- A manifest that is there is read, and all its pages are there. -/
theorem steady_getManifest (verdict : Exc) {docKey : Str} :
    Steady config (Excused verdict fun found seen later => seen = calls ++
        [⟨.s3 (.getObject (manifestKey docKey)), .ok (found.map .manifest)⟩] ∧
      (world.store.HasManifest docKey → ∃ manifest, found = some manifest) ∧
      ∀ manifest, found = some manifest → 1 ≤ manifest.totalPages ∧
        ∀ page, 1 ≤ page → page ≤ manifest.totalPages → later.store.HasPage docKey page)
      (Storage.getManifest docKey) calls world := by
  refine Steady.call trivial fun later found after published grown served growth => ?_
  cases served.get
  cases stored : later.store (manifestKey docKey) with
  | none =>
    refine Steady.pure fun _ _ _ => ⟨rfl, fun there => ?_, by rintro _ ⟨⟩⟩
    obtain ⟨manifest, found⟩ := grown.manifests _ there
    cases stored.symm.trans found
  | some obj =>
    obtain ⟨manifest, rfl, positive, complete⟩ := published.stored _ _ stored
    refine Steady.pure fun final _ more => ⟨rfl, fun _ => ⟨manifest, rfl⟩, ?_⟩
    rintro _ ⟨⟩
    exact ⟨positive, fun page low high => (growth.trans more).pages _ _ (complete page low high)⟩

/-- A page that is there is read. -/
theorem steady_getPage (verdict : Exc) {docKey : Str} {page : ℕ} (there : world.store.HasPage docKey page) :
    Steady config (Excused verdict fun found _ _ => ∃ content, found = some content)
      (Storage.getPage docKey page) calls world := by
  refine Steady.call trivial fun later found after _ grown served _ => ?_
  obtain ⟨content, stored⟩ := grown.pages _ _ there
  cases served.get.trans stored
  exact Steady.pure fun _ _ _ => ⟨content, rfl⟩

theorem steady_waitForJob (jobId : Str) (polls : ℕ) :
    Steady config (Excused verdict fun found _ later => ∀ job, found = some job →
      job.status.isTerminal ∧ (job.status = .done → later.store.HasManifest job.docKey))
      (Api.waitForJob jobId polls) calls world := by
  induction polls generalizing calls world with
  | zero => exact Steady.pure (by rintro _ _ _ _ ⟨⟩)
  | succ polls ih =>
    refine Steady.call trivial fun later found after published _ served growth => ?_
    obtain ⟨found, rfl⟩ := served.getJob
    subst found
    split
    · next job found =>
      split
      · next terminal =>
        refine Steady.pure fun final _ more => ?_
        rintro _ ⟨⟩
        refine ⟨terminal, fun done => more.manifests _ ?_⟩
        exact published.recorded _ (published.finished jobId job found done)
      · exact ih
    · exact ih

theorem steady_completedJobPayload {job : JobRow} (terminal : job.status.isTerminal)
    (there : job.status = .done → world.store.HasManifest job.docKey) :
    Steady config (Excused Api.documentMissing fun _ _ _ => True) (Api.completedJobPayload job) calls world := by
  unfold Api.completedJobPayload
  split
  · refine Steady.raise fun same => ?_
    have first := congrArg (fun error => error.text.head?) same
    rw [Api.documentMissing, Api.httpException, Api.httpException, show Str.ofNat 400 = lit "400" by decide,
      show Str.ofNat 500 = lit "500" by decide] at first
    exact absurd first (by simp [lit])
  · next alive =>
    have done : job.status = .done := by
      cases status : job.status <;> simp_all [JobStatus.isTerminal]
    refine (steady_getManifest _).bind fun found seen after _ given => ?_
    obtain ⟨manifest, rfl⟩ := given.2.1 (there done)
    obtain ⟨positive, complete⟩ := given.2.2 manifest rfl
    have payload : Steady config (Excused Api.documentMissing fun payload _ _ => ∃ shown, payload = some shown)
        (Api.firstPagePayload job.docKey manifest) seen after := by
      refine (steady_getPage _ (complete 1 (Nat.le_refl 1) positive)).bind fun found seen after _ reads => ?_
      obtain ⟨content, rfl⟩ := reads
      exact Steady.pure fun _ _ _ => ⟨_, rfl⟩
    refine payload.bind ?_
    rintro _ seen after _ ⟨shown, rfl⟩
    exact Steady.pure fun _ _ _ => trivial

/-- The page endpoint finds every page in the range of the manifest that it has read. -/
theorem steady_getPageEndpoint (docId : Str) (page : ℤ) :
    Steady config (fun result seen _ => result = .error Api.pageNotFound → (∃ call ∈ seen, call.raised) ∨
      ∀ manifest, (⟨.s3 (.getObject (manifestKey docId)), .ok (some (.manifest manifest))⟩ : Step) ∈ seen →
        page < 1 ∨ manifest.totalPages < page) (Api.getPageEndpoint docId page) [] world := by
  refine Withstands.bind World.Grows.refl (steady_getManifest Api.pageNotFound) ?_ ?_
  · rintro found seen after _ ⟨rfl, _, complete⟩
    cases found with
    | none =>
      refine fun _ _ _ _ => .inr fun manifest member => ?_
      cases List.mem_singleton.mp member
    | some manifest =>
      dsimp only
      split
      · next outside =>
        refine fun _ _ _ _ => .inr fun other member => ?_
        cases List.mem_singleton.mp member
        exact outside
      · next inRange =>
        obtain ⟨_, complete⟩ := complete manifest rfl
        refine Withstands.bind World.Grows.refl
          (steady_getPage Api.pageNotFound (complete page.toNat (by omega) (by omega))) ?_ ?_
        · rintro _ _ _ _ ⟨content, rfl⟩
          exact fun _ _ _ same => by cases same
        · rintro error final later _ raises same
          exact .inl (raises (Except.error.inj same))
  · rintro error final later _ raises same
    exact .inl (raises (Except.error.inj same))

/-! ## Clients that wait -/

theorem harmless_of_served {env : Env} (op : Op) (served : ServedOp env op) : HarmlessOp op := by
  cases op with
  | db stmt => cases stmt <;> trivial
  | s3 request =>
    cases request with
    | putObject key obj =>
      obtain ⟨file, rfl, _⟩ := served
      exact ⟨_, rfl⟩
    | getObject | headObject => trivial
  | amqp | tool => trivial

theorem steady_submitRequest {pod : Pod} {body : Option ConvertRequest} :
    Steady config (Excused Api.documentMissing fun _ _ _ => True) (Api.submitRequest pod body) calls world := by
  have other {digits detail : Str} (low : digits.head? = some '4') :
      ({ name := lit "HTTPException", text := digits ++ detail } : Exc) ≠ Api.documentMissing := by
    intro same
    have first := congrArg (fun error => error.text.head?) same
    rw [Api.documentMissing, Api.httpException, show Str.ofNat 500 = lit "500" by decide] at first
    simp only [List.head?_append, low] at first
    exact absurd first (by simp [lit])
  rcases body with _ | ⟨_ | _ | ⟨first, rest⟩, useLlm⟩
  · exact Steady.raise (other (by decide))
  · exact Steady.raise (other (by decide))
  · exact Steady.raise (other (by decide))
  · refine Withstands.attempt_bind World.Grows.refl ((Api.submit_makes.weaken harmless_of_served).withstands fun _ _ _ _ => harmless_keeps) ?_
    rintro (error | submission) seen after _ _
    · refine Steady.raise ?_
      rw [Api.httpException, List.append_assoc]
      exact other (by decide)
    · exact Steady.pure fun _ _ _ => trivial

theorem steady_convertEndpoint (pod : Pod) (body : Option ConvertRequest) (polls : ℕ) :
    Steady config (Excused Api.documentMissing fun _ _ _ => True) (Api.convertEndpoint pod body polls) calls world := by
  refine steady_submitRequest.bind ?_
  rintro (payload | ⟨jobId, docKey, total⟩) seen after _ _
  · exact Steady.pure fun _ _ _ => trivial
  · refine (steady_waitForJob jobId polls).bind fun found seen after _ waits => ?_
    cases found with
    | none => exact Steady.pure fun _ _ _ => trivial
    | some job =>
      obtain ⟨terminal, there⟩ := waits job rfl
      exact (steady_completedJobPayload terminal there).bind fun _ _ _ _ _ => Steady.pure fun _ _ _ => trivial

/-! ## Runs -/

/-- No object is taken away. -/
def Move.durable : Move → Bool
  | .vanish _ => false
  | _ => true

namespace Cluster

/-- A client that waits for its conversion is not told that the document is missing, and a page in the range of
the manifest that has been read is found, unless a call has raised. -/
def findable : Promise := fun _ visit result calls _ =>
  (∀ body polls, visit.route = .convert body polls → result = .error Api.documentMissing →
    ∃ call ∈ calls, call.raised) ∧
  ∀ docId page, visit.route = .page docId page → result = .error Api.pageNotFound → (∃ call ∈ calls, call.raised) ∨
    ∀ manifest, (⟨.s3 (.getObject (manifestKey docId)), .ok (some (.manifest manifest))⟩ : Step) ∈ calls →
      page < 1 ∨ manifest.totalPages < page

variable {pod : Pod}

theorem verifyApiKey_ne {xApiKey : Option Str} {error : Exc} (refused : Api.verifyApiKey pod xApiKey = .error error) :
    error ≠ Api.documentMissing ∧ error ≠ Api.pageNotFound := by
  unfold Api.verifyApiKey at refused
  split at refused
  · cases refused
    decide
  · cases refused
    decide
  · split at refused
    · cases refused
    · cases refused
      decide

theorem steady_serveRoute (past : List Exchange) (visit : Visit) :
    Steady pod.toConfig (findable past visit) (Api.serveRoute pod visit.xApiKey visit.route) [] world := by
  obtain ⟨xApiKey, route, since⟩ := visit
  unfold Api.serveRoute
  cases verified : Api.verifyApiKey pod xApiKey with
  | error error =>
    obtain ⟨notMissing, notLost⟩ := verifyApiKey_ne verified
    exact fun _ _ _ => ⟨fun _ _ _ same => absurd (Except.error.inj same) notMissing,
      fun _ _ _ same => absurd (Except.error.inj same) notLost⟩
  | ok key =>
    simp only [Program.ofExcept, monad_bind, pure_bind]
    cases route with
    | convert body polls =>
      have excused : Steady pod.toConfig (Excused Api.documentMissing fun _ _ _ => True)
          (Api.endpoint pod (.convert body polls)) [] world :=
        (steady_convertEndpoint pod body polls).bind fun _ _ _ _ _ => Steady.pure fun _ _ _ => trivial
      refine excused.weaken ?_
      rintro (error | answer) seen later _ holds
      · exact ⟨fun _ _ _ same => holds (Except.error.inj same), by rintro _ _ ⟨⟩⟩
      · exact ⟨by rintro _ _ _ ⟨⟩, by rintro _ _ ⟨⟩⟩
    | asyncConvert body =>
      have accepts : Steady pod.toConfig (Excused Api.documentMissing fun _ _ _ => True)
          (Api.asyncConvertEndpoint pod body) [] world := by
        refine steady_submitRequest.bind ?_
        rintro (payload | _) _ _ _ _ <;> exact Steady.pure fun _ _ _ => trivial
      have excused : Steady pod.toConfig (Excused Api.documentMissing fun _ _ _ => True)
          (Api.endpoint pod (.asyncConvert body)) [] world :=
        accepts.bind fun _ _ _ _ _ => Steady.pure fun _ _ _ => trivial
      exact excused.weaken fun _ _ _ _ _ => ⟨by rintro _ _ ⟨⟩, by rintro _ _ ⟨⟩⟩
    | job jobId =>
      have made : (Api.endpoint pod (.job jobId)).Makes (ServedOp pod.toEnv) := Api.endpoint_makes _
      have kept : Steady pod.toConfig (fun _ _ _ => True) (Api.endpoint pod (.job jobId)) [] world :=
        (made.weaken harmless_of_served).withstands fun _ _ _ _ => harmless_keeps
      exact kept.weaken fun _ _ _ _ _ => ⟨by rintro _ _ ⟨⟩, by rintro _ _ ⟨⟩⟩
    | page docId page =>
      refine Withstands.bind World.Grows.refl (steady_getPageEndpoint docId page) ?_ ?_
      · exact fun _ _ _ _ _ _ _ _ => ⟨by rintro _ _ ⟨⟩, by rintro _ _ _ ⟨⟩⟩
      · rintro error seen after _ holds
        refine ⟨by rintro _ _ ⟨⟩, ?_⟩
        rintro _ _ ⟨⟩ same
        exact holds (congrArg _ (Except.error.inj same))

theorem lasting_findable : Lasting World.Grows findable :=
  ⟨World.Grows.refl, World.Grows.trans, fun _ _ _ _ _ _ holds _ => holds⟩

/-- The assemblers know what they have written. -/
def Whole (env : Env) (state : Cluster) : Prop :=
  ∃ fleet, Fleet.Mirrors env state.backend fleet ∧ fleet.world.Published ∧
    ∀ agent ∈ fleet.agents, Fleet.AgentWrote fleet.world agent

theorem whole_of_step {state next : Cluster} {move : Move} (whole : state.Whole pod.toEnv)
    (upholds : state.Upholds (Carries pod.toConfig) World.Published World.Grows findable)
    (kept : move.durable) (stepped : step pod state move = some next) :
    next.Whole pod.toEnv ∧ next.Upholds (Carries pod.toConfig) World.Published World.Grows findable := by
  have moved := moved_of_step stepped
  have inner {label : Label} {backend : Deployment}
      (runs : Deployment.step pod.toEnv state.backend label = some backend) :
      ∃ fleet, Fleet.Mirrors pod.toEnv backend fleet ∧ fleet.world.Published ∧
        (∀ agent ∈ fleet.agents, Fleet.AgentWrote fleet.world agent) ∧ state.world.Grows fleet.world := by
    obtain ⟨fleet, mirrors, published, wrote⟩ := whole
    obtain ⟨after, steps, mirrored⟩ := mirrors.stepped runs
    have grown := Fleet.published_of_stepped steps published wrote
    rw [mirrors.world] at grown
    exact ⟨after, mirrored, grown.1, Fleet.agentWrote_of_stepped steps published wrote, grown.2⟩
  have after := upholds.moved lasting_findable moved ?_ (by rintro key rfl; cases kept)
    (fun _ fate _ _ _ _ carried => ⟨fate, carried⟩) fun xApiKey route _ =>
      steady_serveRoute state.exchanges ⟨xApiKey, route, state.exchanges.length⟩
  · refine ⟨?_, after⟩
    cases moved with
    | backend inside runs =>
      obtain ⟨fleet, mirrors, published, wrote, _⟩ := inner runs
      exact ⟨fleet, mirrors, published, wrote⟩
    | arrive | answer | abandon => exact whole
    | vanish key => cases kept
    | @call index fate client op next reply world before rest found position at_ carried =>
      obtain ⟨fleet, mirrors, published, wrote⟩ := whole
      have inside : client ∈ state.clients := found ▸ List.mem_append_right _ (List.mem_cons_self ..)
      have withstands := upholds.clients client inside
      rw [at_] at withstands
      obtain ⟨_, growth, _⟩ := withstands state.world upholds.world (.refl _) reply world ⟨fate, carried⟩
      refine ⟨{ fleet with world }, ⟨rfl, mirrors.trace, mirrors.agents⟩, after.world, fun agent member => ?_⟩
      have holds := wrote agent member
      cases agent with
      | producer => trivial
      | handler => exact Handler.Wrote.later holds (mirrors.world ▸ growth)
  · intro label backend labeled _ runs
    obtain ⟨fleet, mirrors, published, _, grown⟩ := inner runs
    exact mirrors.world ▸ ⟨published, grown⟩

/-- In every run in which no object is taken away, whatever conversions give and whatever else fails, a client
that waits is never told that the document of its done job is missing, and a reader never that a page in the
range of its manifest is, unless a call of that very request has raised. -/
theorem nothing_missing {state : Cluster} (reached : Reaches (step pod) (fun _ move => move.durable) .initial state)
    {exchange : Exchange} (closed : exchange ∈ state.exchanges) :
    (∀ body polls, exchange.route = .convert body polls → exchange.result = .error Api.documentMissing →
      ∃ call ∈ exchange.calls, call.raised) ∧
    ∀ docId page, exchange.route = .page docId page → exchange.result = .error Api.pageNotFound →
      (∃ call ∈ exchange.calls, call.raised) ∨ ∀ manifest,
        (⟨.s3 (.getObject (manifestKey docId)), .ok (some (.manifest manifest))⟩ : Step) ∈ exchange.calls →
          page < 1 ∨ manifest.totalPages < page := by
  have published : initial.world.Published :=
    ⟨fun _ _ found => (by cases found), fun _ there => (by cases there), fun _ _ found => (by cases found)⟩
  have start : initial.Whole pod.toEnv :=
    ⟨_, Fleet.mirrors_initial, published, fun _ member => (by cases member)⟩
  obtain ⟨_, upholds⟩ := reached.invariant ⟨start, upholds_initial published⟩ fun _ _ _ holds kept stepped =>
    whole_of_step holds.1 holds.2 kept stepped
  exact upholds.exchanges exchange closed

/-- The manifest that a reader has read who was then told that there is no such page. -/
def turnedAway (docKey : Str) (page : ℤ) (exchange : Exchange) : Option Manifest :=
  match exchange.route, exchange.result, exchange.calls with
  | .page docId number, .error error, [⟨.s3 (.getObject key), .ok (some (.manifest manifest))⟩] =>
    if docId = docKey ∧ number = page ∧ error = Api.pageNotFound ∧ key = manifestKey docKey then some manifest else none
  | _, _, _ => none

/-- A reader asks for the page after the only page of a document. -/
theorem nothing_missing_past_the_end :
    ∃ state exchange manifest, Reaches (step (samplePod {})) (fun _ move => move.durable) .initial state ∧
      exchange ∈ state.exchanges ∧ turnedAway (sampleDocKey {}) 2 exchange = some manifest ∧
      ((2 : ℤ) < 1 ∨ manifest.totalPages < (2 : ℤ)) := by
  have leads : Leads (step (samplePod {})) (fun _ move => move.durable)
      (fun state => state.exchanges.any fun exchange => (turnedAway (sampleDocKey {}) 2 exchange).isSome) .initial
      (waits [0] (lit "job") (lit "text") ++ .answer 0 :: .arrive (some (lit "key")) (.page (sampleDocKey {}) 2) ::
        callsDone 0 1 ++ [.answer 0]) := by decide +kernel
  obtain ⟨state, reached, holds⟩ := leads.exists_reaches
  obtain ⟨exchange, closed, turned⟩ := List.any_eq_true.mp holds
  obtain ⟨manifest, read⟩ := Option.isSome_iff_exists.mp turned
  refine ⟨state, exchange, manifest, reached, closed, read, ?_⟩
  have missing := (nothing_missing reached closed).2
  unfold turnedAway at read
  split at read
  · next docId number error key shown route result calls =>
    split_ifs at read with fits
    obtain ⟨rfl, rfl, rfl, rfl⟩ := fits
    cases read
    rcases missing _ _ route result with ⟨call, member, raises, raised⟩ | outside
    · rw [calls] at member
      cases List.mem_singleton.mp member
      cases raised
    · exact outside manifest (calls ▸ List.mem_singleton_self _)
  · cases read

end Cluster

end MarkitdownServer
