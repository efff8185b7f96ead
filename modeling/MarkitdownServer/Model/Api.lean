import MarkitdownServer.Model.Chunker
import MarkitdownServer.Model.Worker

/-! # The producer and the readers

The model of `submit` and of the functions behind the read endpoints of `api/index.py`. The local copy
of a downloaded file is in `Model.Converter`; here its content is the value that the download returns.
-/

namespace MarkitdownServer.Api

open Effects

/-- The body of a page response. -/
structure PagePayload where
  id : Str
  content : Str
  pagination : Pagination
deriving DecidableEq

/-- `_first_page_payload`. -/
def firstPagePayload (docKey : Str) (manifest : Manifest) : Prog (Option PagePayload) := do
  match ← Storage.getPage docKey 1 with
  | none => pure none
  | some content => pure (some ⟨docKey, content,
      buildPagination docKey 1 manifest.totalPages manifest.totalLength manifest.pageSize⟩)

/-- The first page of a cached document, if its row, manifest and page all exist. -/
def cachedPayload (docKey : Str) : Prog (Option PagePayload) := do
  match ← sql (.findCachedDocument docKey) with
  | none => pure none
  | some _ =>
    match ← Storage.getManifest docKey with
    | none => pure none
    | some manifest => firstPagePayload docKey manifest

/-- The result of `submit`. -/
inductive Submission where
  | cached (payload : PagePayload)
  | queued (jobId docKey : Str) (totalChunks : ℕ)

/-- The tasks that `submit` publishes, numbered from `index`. -/
def tasksFrom (jobId docKey fileHash : Str) (totalChunks : ℕ) (useLlm : Bool) :
    ℕ → List (ℤ × ℤ) → List ChunkTask
  | _, [] => []
  | index, (start, stop) :: ranges =>
    { jobId, chunkIndex := index, docKey, fileHash, startPage := start, endPage := stop,
      totalChunks, useLlm } :: tasksFrom jobId docKey fileHash totalChunks useLlm (index + 1) ranges

/-- `submit` after a cache miss: plan, upload, create the job, publish its tasks. -/
def enqueue (env : Env) (url : Str) (useLlm : Bool) (file : Bytes) : Prog Submission := do
  let fileHash := env.sha256 file
  let docKey := env.makeDocKey fileHash useLlm
  let ranges ← Program.ofExcept
    (planChunks (env.pageCount file) env.pagesPerChunk env.minPagesForParallel)
  let _ ← Storage.putSource fileHash file
  let jobId ← request (.tool .newJobId)
  sql (.createJob jobId docKey fileHash url ranges useLlm)
  Taskqueue.publish env.toConfig (tasksFrom jobId docKey fileHash ranges.length useLlm 0 ranges)
  pure (.queued jobId docKey ranges.length)

/-- `submit`. -/
def submit (env : Env) (url : Str) (useLlm : Bool) : Prog Submission := do
  let file ← request (.tool (.download url))
  match ← cachedPayload (env.makeDocKey (env.sha256 file) useLlm) with
  | some payload => pure (.cached payload)
  | none => enqueue env url useLlm file

/-- The answer of an endpoint that raised an `HTTPException`. -/
def httpException (status : ℕ) (detail : Str) : Exc :=
  { name := lit "HTTPException", text := Str.ofNat status ++ lit ": " ++ detail }

/-- `_completed_job_payload`. -/
def completedJobPayload (job : JobRow) : Prog PagePayload :=
  if job.status = .failed then
    .raise (httpException 400 (lit "Conversion failed: " ++ job.error.getD (lit "None")))
  else do
    match ← Storage.getManifest job.docKey with
    | none => .raise (httpException 500 (lit "Converted document is missing"))
    | some manifest =>
      match ← firstPagePayload job.docKey manifest with
      | none => .raise (httpException 500 (lit "Converted document is missing"))
      | some payload => pure payload

/-- `get_page_endpoint`. -/
def getPageEndpoint (docId : Str) (page : ℤ) : Prog PagePayload := do
  let notFound := httpException 404 (lit "Document or page not found (it may have expired).")
  match ← Storage.getManifest docId with
  | none => .raise notFound
  | some manifest =>
    if page < 1 ∨ manifest.totalPages < page then .raise notFound
    else
      match ← Storage.getPage docId page.toNat with
      | none => .raise notFound
      | some content => pure ⟨docId, content,
          buildPagination docId page manifest.totalPages manifest.totalLength manifest.pageSize⟩

end MarkitdownServer.Api
