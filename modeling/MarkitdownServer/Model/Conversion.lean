import MarkitdownServer.Model.SourceCache

/-! # The conversion of a range and its files

The model of `convert_range` in `worker.py` with the files that it uses: the source in the cache, and the chunk that
`extract_pages` writes to a file of the temporary folder. pypdf and markitdown are functions of the bytes that they
read, and either may raise; `extract_pages` may leave anything in its file then.
-/

namespace MarkitdownServer

open Effects Files

/-- A path of `convert_range`: a source in the cache, or a file of the temporary folder. -/
inductive Place where
  | cached (name : FileName)
  | temporary (name : FileName)

/-- A call of `convert_range`. -/
inductive RangeOp where
  | cache (op : CacheOp)
  | file (op : FileOp FileName)
  | extractPages (source : FileName) (startPage endPage : ℤ) (out : FileName)
  | convertFile (path : Place) (useLlm : Bool)

@[reducible] def RangeOp.Reply (Time : Type) : RangeOp → Type
  | .cache op => op.Reply Time
  | .file op => op.Reply Time
  | .extractPages .. => Unit
  | .convertFile .. => Str

variable {Time : Type}

/-- The programs of a conversion. -/
abbrev RangeProg (Time : Type) := Program RangeOp (RangeOp.Reply Time) Exc

/-- A program on the cache. -/
def onCache {α : Type} : CacheProg Time α → RangeProg Time α
  | .pure value => .pure value
  | .raise error => .raise error
  | .call op next => .call (.cache op) fun reply => onCache (next reply)

namespace Worker

/-- The `try` of `convert_range`. -/
def extractAndConvert (source : FileName) (startPage endPage : ℤ) (chunk : FileName) (useLlm : Bool) :
    RangeProg Time Str := do
  Program.perform (RangeOp.extractPages source startPage endPage chunk)
  Program.perform (RangeOp.convertFile (.temporary chunk) useLlm)

/-- `convert_range` after its `fetch_source`. -/
def convertFetched (source : FileName) (startPage endPage : ℤ) (useLlm : Bool) : RangeProg Time Str := do
  if endPage = -1 then Program.perform (RangeOp.convertFile (.cached source) useLlm)
  else
    let chunk ← Program.perform (RangeOp.file .mkstemp)
    let converted ← (extractAndConvert source startPage endPage chunk useLlm).attempt
    if ← Program.perform (RangeOp.file (.pathExists chunk)) then Program.perform (RangeOp.file (.remove chunk))
    Program.ofExcept converted

/-- `convert_range`. -/
def convertRangeFile [LinearOrder Time] (config : CacheConfig) (fileHash : FileName) (startPage endPage : ℤ)
    (useLlm : Bool) : RangeProg Time Str := do
  let source ← onCache (fetchSource config fileHash)
  convertFetched source startPage endPage useLlm

end Worker

/-! ## The calls -/

/-- The files of a worker and the bucket. -/
structure RangeWorld (Time : Type) extends CacheWorld Time where
  temporary : Folder FileName Time

/-- What the calls depend on: the cache and its download, the temporary folder, and the two libraries. -/
structure RangeHost (Time : Type) extends CacheHost Time where
  disk : Disk Time
  extract : Bytes → ℤ → ℤ → Except (Exc × Bytes) Bytes
  convert : Bytes → Bool → Except Exc Str

/-- The bytes under a path. -/
def RangeWorld.content? (world : RangeWorld Time) : Place → Option Bytes
  | .cached name => world.folder.content? name
  | .temporary name => world.temporary.content? name

/-- What the conversion of a range of a source comes to. -/
def RangeHost.result (host : RangeHost Time) (source : Bytes) (startPage endPage : ℤ) (useLlm : Bool) : Except Exc Str :=
  if endPage = -1 then host.convert source useLlm
  else match host.extract source startPage endPage with
    | .ok chunk => host.convert chunk useLlm
    | .error (error, _) => .error error

/-- Carry out a call. A library that is given a path without a file raises. -/
def RangeHost.serve (host : RangeHost Time) (_ : List (Call RangeOp (RangeOp.Reply Time) Exc)) :
    (op : RangeOp) → RangeWorld Time → Except Exc (op.Reply Time) × RangeWorld Time
  | .cache op, world =>
    let served := host.toCacheHost.serve [] op world.toCacheWorld
    (served.1, { served.2 with temporary := world.temporary })
  | .file op, world =>
    let served := host.disk.exec world.temporary op
    (served.1, { world with temporary := served.2 })
  | .extractPages source startPage endPage out, world =>
    match world.folder.content? source with
    | none => (.error (osError .noEntry), world)
    | some bytes =>
      match host.extract bytes startPage endPage with
      | .ok chunk => (.ok (), { world with temporary := world.temporary.put out chunk host.disk.now })
      | .error (error, left) => (.error error, { world with temporary := world.temporary.put out left host.disk.now })
  | .convertFile path useLlm, world =>
    match world.content? path with
    | none => (.error (osError .noEntry), world)
    | some bytes => (host.convert bytes useLlm, world)

/-! ## The life of a worker -/

/-- What happens to the files of a worker: it converts a range, it dies in the middle of it after so many calls, or
the bucket changes. -/
inductive RangeMove (Time : Type) where
  | convert (host : RangeHost Time) (fileHash : FileName) (startPage endPage : ℤ) (useLlm : Bool)
  | crash (host : RangeHost Time) (fileHash : FileName) (startPage endPage : ℤ) (useLlm : Bool) (calls : ℕ)
  | bucket (store : Store)

/-- The files and the bucket after a move. A worker that starts again finds the files of the one before. -/
def RangeWorld.step [LinearOrder Time] (config : CacheConfig) (world : RangeWorld Time) :
    RangeMove Time → Option (RangeWorld Time)
  | .convert host fileHash startPage endPage useLlm =>
    some ((Worker.convertRangeFile config fileHash startPage endPage useLlm).eval host.serve [] world).2.2
  | .crash host fileHash startPage endPage useLlm calls =>
    some ((Worker.convertRangeFile config fileHash startPage endPage useLlm).steps host.serve calls [] world).2.2
  | .bucket store => some { world with store }

end MarkitdownServer
