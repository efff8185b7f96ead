import MarkitdownServer.Lib.Program
import MarkitdownServer.Model.Api
import MarkitdownServer.Model.Disk
import MarkitdownServer.Model.Url

/-! # The producer and its temporary files

The model of `download` in `converter.py` and of `submit` in `api/index.py` with the local copy of the source. The
calls are those on the files of the temporary folder, the request for the URL, and those on the services. A response
is its status, the chunks of its body and the exception that ends the body early. `mkstemp` takes a suffix from the
URL, which it can refuse; the name that it picks is any new one. What `urlparse` says to a network location is up to
the host. A file that is read in blocks is read at once.
-/

namespace MarkitdownServer

open Effects Files

/-- What the server answers to `requests.get`. -/
structure Response where
  statusCode : ℤ
  chunks : List Bytes
  ended : Option Exc

/-- A call of the producer. -/
inductive LocalOp where
  | file (op : FileOp FileName)
  | get (url : Str)
  | urlparse (url : Str)
  | mkstemp (suffix : Str)
  | service (op : Op)

@[reducible] def LocalOp.Reply (Time : Type) : LocalOp → Type
  | .file op => op.Reply Time
  | .get _ => Response
  | .urlparse _ => ParsedUrl
  | .mkstemp _ => FileName
  | .service op => op.Reply

variable {Time : Type}

/-- The programs of the producer. -/
abbrev LocalProg (Time : Type) := Program LocalOp (LocalOp.Reply Time) Exc

/-- A call on the temporary folder. -/
abbrev onTemp (op : FileOp FileName) : LocalProg Time (op.Reply Time) := Program.perform (LocalOp.file op)

/-- A program that calls services only. -/
def onServices {α : Type} : Prog α → LocalProg Time α
  | .pure value => .pure value
  | .raise error => .raise error
  | .call op next => .call (.service op) fun reply => onServices (next reply)

/-- A `finally` that removes a file. -/
def removeFinally {α : Type} (path : FileName) (body : LocalProg Time α) : LocalProg Time α := do
  let result ← body.attempt
  if ← onTemp (.pathExists path) then onTemp (.remove path)
  Program.ofExcept result

namespace Converter

/-- The exception of a response that is not a success. -/
def statusError (url : Str) (statusCode : ℤ) : Exc :=
  { name := lit "Exception"
    text := lit "Failed to download file from " ++ url ++ lit ", status code: " ++ Str.ofInt statusCode }

/-- The exception of a file that is too large. -/
def sizeError (url : Str) (maxBytes : ℤ) : Exc :=
  { name := lit "Exception"
    text := lit "File from " ++ url ++ lit " exceeds the maximum size of " ++ Str.ofInt maxBytes ++ lit " bytes" }

/-- The loop of `download`. -/
def writeChunks (maxBytes : ℤ) (url : Str) (path : FileName) : List Bytes → ℤ → LocalProg Time Unit
  | [], _ => pure ()
  | chunk :: chunks, written =>
    if chunk = [] then writeChunks maxBytes url path chunks written
    else
      let written := written + chunk.length
      if written > maxBytes then .raise (sizeError url maxBytes)
      else do
        onTemp (.append path chunk)
        writeChunks maxBytes url path chunks written

/-- The `try` of `download`. -/
def saveResponse (maxBytes : ℤ) (url : Str) (path : FileName) (response : Response) : LocalProg Time Unit := do
  onTemp (.truncate path)
  writeChunks maxBytes url path response.chunks 0
  match response.ended with
  | none => pure ()
  | some error => .raise error

/-- The name of the download, from the path of its URL. -/
def filename (parsed : ParsedUrl) : Str :=
  let filename := basename parsed.path
  if filename = [] then lit "downloaded_file" else filename

/-- `download`, with the value of `MAX_DOWNLOAD_BYTES`. -/
def download (maxBytes : ℤ) (url : Str) : LocalProg Time FileName := do
  let response ← Program.perform (LocalOp.get url)
  if response.statusCode ≠ 200 then .raise (statusError url response.statusCode)
  else
    let parsed ← Program.perform (LocalOp.urlparse url)
    let path ← Program.perform (LocalOp.mkstemp ('_' :: filename parsed))
    match ← (saveResponse maxBytes url path response).attempt with
    | .ok () => pure path
    | .error error =>
      if ← onTemp (.pathExists path) then onTemp (.remove path)
      .raise error

end Converter

namespace Api

/-- `storage.hash_file`. -/
def hashFile (env : Env) (path : FileName) : LocalProg Time Str := do
  let data ← onTemp (.read path)
  pure (env.sha256 data)

/-- `chunker.page_count`; an exception counts as a file without pages. -/
def pageCount (env : Env) (path : FileName) : LocalProg Time (Option ℕ) := do
  match ← (onTemp (.read path)).attempt with
  | .ok data => pure (env.pageCount data)
  | .error _ => pure none

/-- `storage.put_source` with the path of the source. -/
def putSourceFile (fileHash : Str) (path : FileName) : LocalProg Time Str := do
  let key := sourceKey fileHash
  if ← onServices (Storage.objectExists key) then pure key
  else
    let data ← onTemp (.read path)
    onServices (Storage.putBytes key (.source data))
    pure key

/-- `submit` from the job id on. -/
def queueJob (env : Env) (url : Str) (useLlm : Bool) (fileHash docKey : Str) (ranges : List (ℤ × ℤ)) :
    Prog Submission := do
  let jobId ← request (.tool .newJobId)
  sql (.createJob jobId docKey fileHash url ranges useLlm)
  Taskqueue.publish env.toConfig (tasksFrom jobId docKey fileHash ranges.length useLlm 0 ranges)
  pure (.queued jobId docKey ranges.length)

/-- What the `try` of `submit` comes to: a cached page, or a hash, a key and ranges. -/
inductive Prepared where
  | cached (payload : PagePayload)
  | planned (fileHash docKey : Str) (ranges : List (ℤ × ℤ))

/-- The `try` of `submit`. -/
def prepare (env : Env) (path : FileName) (useLlm : Bool) : LocalProg Time Prepared := do
  let fileHash ← hashFile env path
  let docKey := env.makeDocKey fileHash useLlm
  match ← onServices (cachedPayload docKey) with
  | some payload => pure (.cached payload)
  | none =>
    let pages ← pageCount env path
    let ranges ← Program.ofExcept (planChunks pages env.pagesPerChunk env.minPagesForParallel)
    let _ ← putSourceFile fileHash path
    pure (.planned fileHash docKey ranges)

/-- `submit` with its temporary file. -/
def submitFile (env : Env) (maxBytes : ℤ) (url : Str) (useLlm : Bool) : LocalProg Time Submission := do
  let path ← Converter.download maxBytes url
  match ← removeFinally path (prepare env path useLlm) with
  | .cached payload => pure (.cached payload)
  | .planned fileHash docKey ranges => onServices (queueJob env url useLlm fileHash docKey ranges)

/-- The `try` of `submit` on the bytes of the file. -/
def preparation (env : Env) (file : Bytes) (useLlm : Bool) : Prog Prepared := do
  let docKey := env.makeDocKey (env.sha256 file) useLlm
  match ← cachedPayload docKey with
  | some payload => pure (.cached payload)
  | none =>
    let ranges ← Program.ofExcept (planChunks (env.pageCount file) env.pagesPerChunk env.minPagesForParallel)
    let _ ← Storage.putSource (env.sha256 file) file
    pure (.planned (env.sha256 file) docKey ranges)

/-- What `submit` goes on with. -/
def completion (env : Env) (url : Str) (useLlm : Bool) : Prepared → Prog Submission
  | .cached payload => pure (.cached payload)
  | .planned fileHash docKey ranges => queueJob env url useLlm fileHash docKey ranges

end Api

/-! ## The calls -/

/-- The temporary folder and everything behind the services. -/
structure LocalWorld (Time State : Type) where
  folder : Folder FileName Time
  state : State

/-- What the operating system says to a temporary file whose name ends so: the name begins with three letters and
eight random characters, and can have 255 bytes. -/
def suffixError (suffix : Str) : Option Exc :=
  if '\x00' ∈ suffix then some { name := lit "ValueError", text := lit "embedded null byte" }
  else if 255 < 11 + (suffix.map Char.utf8Size).sum then
    some { name := lit "OSError", text := lit "[Errno 36] File name too long" }
  else none

/-- What the calls depend on: the disk, the response of a URL or what `requests.get` raises, what `urlparse` raises for
a network location, the reads that raise, and the services. -/
structure LocalHost (Time State : Type) extends Disk Time where
  response : Str → Except Exc Response
  netlocError : Str → Option Exc
  unreadable : List (Call LocalOp (LocalOp.Reply Time) Exc) → Option Exc
  service : (op : Op) → State → Except Exc op.Reply × State

/-- Carry out a call. -/
def LocalHost.serve {State : Type} (host : LocalHost Time State)
    (calls : List (Call LocalOp (LocalOp.Reply Time) Exc)) :
    (op : LocalOp) → LocalWorld Time State → Except Exc (op.Reply Time) × LocalWorld Time State
  | .file op, world =>
    match if op.isRead then host.unreadable calls else none with
    | some error => (.error error, world)
    | none =>
      let (reply, folder) := host.exec world.folder op
      (reply, { world with folder })
  | .get url, world => (host.response url, world)
  | .urlparse url, world =>
    match host.netlocError (MarkitdownServer.urlparse url).netloc with
    | some error => (.error error, world)
    | none => (.ok (MarkitdownServer.urlparse url), world)
  | .mkstemp suffix, world =>
    match suffixError suffix with
    | some error => (.error error, world)
    | none =>
      let (reply, folder) := host.exec world.folder .mkstemp
      (reply, { world with folder })
  | .service op, world =>
    let (reply, state) := host.service op world.state
    (reply, { world with state })

section Serve

variable {State : Type} (host : LocalHost Time State) (calls : List (Call LocalOp (LocalOp.Reply Time) Exc))
  {world : LocalWorld Time State}

theorem LocalHost.serve_file {op : FileOp FileName} {reply : Except Exc (op.Reply Time)} {after : Folder FileName Time}
    (writes : op.isRead = false) (served : host.exec world.folder op = (reply, after)) :
    host.serve calls (.file op) world = (reply, { world with folder := after }) := by
  simp only [serve, writes, Bool.false_eq_true, if_false, served]

/-- A read that does not raise. -/
theorem LocalHost.serve_read {path : FileName} {content : Bytes} {atime : Time}
    (readable : host.unreadable calls = none)
    (found : world.folder.find? path = some ⟨path, .file content atime⟩) :
    host.serve calls (.file (.read path)) world = (.ok content, world) := by
  simp only [serve, readable, ite_self, host.exec_read found]

theorem LocalHost.serve_urlparse {url : Str} (located : host.netlocError (urlparse url).netloc = none) :
    host.serve calls (.urlparse url) world = (.ok (urlparse url), world) := by
  rw [serve, located]

theorem LocalHost.serve_urlparse_error {url : Str} {error : Exc}
    (located : host.netlocError (urlparse url).netloc = some error) :
    host.serve calls (.urlparse url) world = (.error error, world) := by
  rw [serve, located]

theorem LocalHost.serve_mkstemp {suffix : Str} (accepted : suffixError suffix = none) :
    host.serve calls (.mkstemp suffix) world = (.ok (host.temp world.folder),
      { world with folder := world.folder.put (host.temp world.folder) [] host.now }) := by
  rw [serve, accepted, host.exec_mkstemp]

theorem LocalHost.serve_mkstemp_error {suffix : Str} {error : Exc} (refused : suffixError suffix = some error) :
    host.serve calls (.mkstemp suffix) world = (.error error, world) := by
  rw [serve, refused]

end Serve

end MarkitdownServer
