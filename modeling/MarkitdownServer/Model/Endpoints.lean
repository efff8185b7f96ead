import MarkitdownServer.Model.Api

/-! # The endpoints

The routes of `api/index.py` that need the API key, from the key check to the body of the answer. An
`HTTPException` is the exception `httpException`; what FastAPI makes of a body or of an exception is left to
FastAPI.
-/

namespace MarkitdownServer

open Effects

/-- An API pod: the environment and the two settings that only the endpoints read. -/
structure Pod extends Env where
  adminApiKey : Option Str
  convertUseLlm : Bool

/-- `ConvertRequest`. -/
structure ConvertRequest where
  file : Option Str
  useLlm : Option Bool

/-- `config.CONVERT_USE_LLM if request.use_llm is None else request.use_llm`. -/
def ConvertRequest.flag (pod : Pod) (request : ConvertRequest) : Bool := request.useLlm.getD pod.convertUseLlm

/-- `JobProgress`. -/
structure JobProgress where
  completed : ℤ
  total : ℕ
  percent : ℤ
deriving DecidableEq

/-- `JobStatus`, the body that `_job_payload` makes. -/
structure JobPayload where
  jobId : Str
  status : JobStatus
  docKey : Str
  progress : JobProgress
  error : Option Str
deriving DecidableEq

/-- `JobAccepted`, the body of a 202. -/
structure JobAccepted where
  jobId : Str
  status : JobStatus
  docKey : Str
  totalChunks : ℕ
deriving DecidableEq

/-- The body of an answer. -/
inductive Answer where
  | page (payload : Api.PagePayload)
  | accepted (body : JobAccepted)
  | job (payload : JobPayload)

/-- A request to one of the routes. A synchronous conversion polls its job at most `polls` times before the
run is over. -/
inductive Route where
  | convert (body : Option ConvertRequest) (polls : ℕ)
  | asyncConvert (body : Option ConvertRequest)
  | job (jobId : Str)
  | page (docId : Str) (page : ℤ)

/-- `round(numerator / denominator)`: the nearest integer, the even one of two that are equally near. -/
def roundDiv (numerator : ℤ) (denominator : ℕ) : ℤ :=
  let quotient := numerator / denominator
  let twice := 2 * (numerator % denominator)
  if twice < denominator ∨ twice = denominator ∧ quotient % 2 = 0 then quotient else quotient + 1

/-- The progress of a job of which the row is known. -/
def JobRow.progress (job : JobRow) : JobProgress where
  completed := job.totalChunks - job.remainingChunks
  total := job.totalChunks
  percent := if job.totalChunks = 0 then 0
    else roundDiv (100 * (job.totalChunks - job.remainingChunks)) job.totalChunks

namespace Api

/-- `verify_api_key`. -/
def verifyApiKey (pod : Pod) (xApiKey : Option Str) : Except Exc Str :=
  match pod.adminApiKey with
  | none | some [] => .error (httpException 500 (lit "API key not configured on server"))
  | some adminApiKey =>
    if xApiKey = some adminApiKey then .ok adminApiKey else .error (httpException 401 (lit "Invalid API key"))

/-- `job_progress`. -/
def jobProgress (jobId : Str) : Prog JobProgress := do
  match ← sql (.getJob jobId) with
  | none => pure ⟨0, 0, 0⟩
  | some job => pure job.progress

/-- `_job_payload`. -/
def jobPayload (job : JobRow) : Prog JobPayload := do
  let progress ← jobProgress job.jobId
  pure ⟨job.jobId, job.status, job.docKey, progress, job.error⟩

/-- `_wait_for_job`, left after so many polls if the job is not over by then. -/
def waitForJob (jobId : Str) : ℕ → Prog (Option JobRow)
  | 0 => pure none
  | polls + 1 => do
    match ← sql (.getJob jobId) with
    | some job => if job.status.isTerminal then pure (some job) else waitForJob jobId polls
    | none => waitForJob jobId polls

/-- `_submit_request`. -/
def submitRequest (pod : Pod) (body : Option ConvertRequest) : Prog Submission := do
  let missing := httpException 422 (lit "`file` (a URL) is required")
  match body with
  | none => .raise missing
  | some request =>
    match request.file with
    | none | some [] => .raise missing
    | some url =>
      match ← (submit pod.toEnv url (request.flag pod)).attempt with
      | .ok submission => pure submission
      | .error error => .raise (httpException 400 (lit "Error processing URL: " ++ error.text))

/-- `convert_endpoint`; no answer while it is still polling. -/
def convertEndpoint (pod : Pod) (body : Option ConvertRequest) (polls : ℕ) : Prog (Option PagePayload) := do
  match ← submitRequest pod body with
  | .cached payload => pure (some payload)
  | .queued jobId _ _ =>
    match ← waitForJob jobId polls with
    | none => pure none
    | some job => do
      let payload ← completedJobPayload job
      pure (some payload)

/-- `async_convert_endpoint`. -/
def asyncConvertEndpoint (pod : Pod) (body : Option ConvertRequest) : Prog Answer := do
  match ← submitRequest pod body with
  | .cached payload => pure (.page payload)
  | .queued jobId docKey totalChunks => pure (.accepted ⟨jobId, .queued, docKey, totalChunks⟩)

/-- `get_job_endpoint`. -/
def getJobEndpoint (jobId : Str) : Prog JobPayload := do
  match ← sql (.getJob jobId) with
  | none => .raise (httpException 404 (lit "Job not found"))
  | some job => jobPayload job

/-- The body of a route. -/
def endpoint (pod : Pod) : Route → Prog (Option Answer)
  | .convert body polls => do
    let payload ← convertEndpoint pod body polls
    pure (payload.map .page)
  | .asyncConvert body => do
    let answer ← asyncConvertEndpoint pod body
    pure (some answer)
  | .job jobId => do
    let payload ← getJobEndpoint jobId
    pure (some (.job payload))
  | .page docId page => do
    let payload ← getPageEndpoint docId page
    pure (some (.page payload))

/-- A route behind `Depends(verify_api_key)`. -/
def serveRoute (pod : Pod) (xApiKey : Option Str) (route : Route) : Prog (Option Answer) := do
  let _ ← Program.ofExcept (verifyApiKey pod xApiKey)
  endpoint pod route

end Api

end MarkitdownServer
