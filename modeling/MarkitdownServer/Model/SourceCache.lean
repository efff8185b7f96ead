import Mathlib.Data.Char
import Mathlib.Data.List.Lex
import Mathlib.Data.List.Sort
import Mathlib.Data.Prod.Lex
import MarkitdownServer.Lib.Program
import MarkitdownServer.Model.Disk
import MarkitdownServer.Model.Storage

/-! # The source cache of a worker

The model of `fetch_source` and `prune_source_cache` in `worker.py` over the calls on the files of
`SOURCE_CACHE_DIR`, which `makedirs` has created. The download is a call of its own. It writes the source to its
destination, or raises and leaves there what it likes.
-/

namespace MarkitdownServer

open Effects Files

/-- `os.path.join` of a folder and a name in it. -/
def joinPath (dir : Str) (name : FileName) : Str :=
  if dir = [] ∨ dir.getLast? = some '/' then dir ++ name else dir ++ '/' :: name.val

/-- Whether `except OSError` catches the exception: the built-in classes below `OSError`. -/
def Exc.isOsError (error : Exc) : Bool :=
  [lit "OSError", lit "BlockingIOError", lit "ChildProcessError", lit "ConnectionError", lit "BrokenPipeError",
    lit "ConnectionAbortedError", lit "ConnectionRefusedError", lit "ConnectionResetError", lit "FileExistsError",
    lit "FileNotFoundError", lit "InterruptedError", lit "IsADirectoryError", lit "NotADirectoryError",
    lit "PermissionError", lit "ProcessLookupError", lit "TimeoutError"].contains error.name

/-- The settings of `config.py` about the cache. -/
structure CacheConfig where
  sourceCacheDir : Str := lit "/tmp/markitdown-src"
  sourceCacheMaxBytes : ℤ := 2 * 1024 * 1024 * 1024

/-- A call on the files of the cache, or `storage.get_source`. -/
inductive CacheOp where
  | file (op : FileOp FileName)
  | getSource (fileHash dest : FileName)

@[reducible] def CacheOp.Reply (Time : Type) : CacheOp → Type
  | .file op => op.Reply Time
  | .getSource .. => Unit

variable {Time : Type}

/-- The programs on the cache. -/
abbrev CacheProg (Time : Type) := Program CacheOp (CacheOp.Reply Time) Exc

/-- A call on the files. -/
abbrev onDisk (op : FileOp FileName) : CacheProg Time (op.Reply Time) := Program.perform (CacheOp.file op)

/-- A tuple of `entries` in `prune_source_cache`. -/
structure CacheEntry (Time : Type) where
  atime : Time
  size : ℕ
  name : FileName
deriving DecidableEq

/-- What `sorted(entries)` compares: the time of the last use, the size, and the path. -/
def CacheEntry.key (dir : Str) (entry : CacheEntry Time) : Time ×ₗ ℕ ×ₗ Str :=
  toLex (entry.atime, toLex (entry.size, joinPath dir entry.name))

/-- `sorted(entries)`. -/
def CacheEntry.sort [LinearOrder Time] (dir : Str) (entries : List (CacheEntry Time)) : List (CacheEntry Time) :=
  entries.insertionSort fun first second => first.key dir ≤ second.key dir

namespace Worker

/-- The first loop of `prune_source_cache`. -/
def statEntries : List FileName → List (CacheEntry Time) → ℤ → CacheProg Time (List (CacheEntry Time) × ℤ)
  | [], entries, total => pure (entries, total)
  | name :: rest, entries, total => do
    if ← onDisk (.isfile name) then
      let (atime, size) ← onDisk (.stat name)
      statEntries rest (entries ++ [⟨atime, size, name⟩]) (total + size)
    else statEntries rest entries total

/-- The second loop of `prune_source_cache`. -/
def removeEntries (maxBytes : ℤ) : List (CacheEntry Time) → ℤ → CacheProg Time Unit
  | [], _ => pure ()
  | entry :: rest, total =>
    if total ≤ maxBytes then pure ()
    else do
      onDisk (.remove entry.name)
      removeEntries maxBytes rest (total - entry.size)

variable [LinearOrder Time]

/-- `prune_source_cache`. -/
def pruneSourceCache (config : CacheConfig) (maxBytes : Option ℤ) : CacheProg Time Unit := do
  let maxBytes := maxBytes.getD config.sourceCacheMaxBytes
  let pruned ← (do
    let names ← onDisk .listdir
    let (entries, total) ← statEntries names [] 0
    removeEntries maxBytes (CacheEntry.sort config.sourceCacheDir entries) total : CacheProg Time Unit).attempt
  match pruned with
  | .ok () => pure ()
  | .error error => if error.isOsError then pure () else .raise error

/-- `fetch_source`. -/
def fetchSource (config : CacheConfig) (fileHash : FileName) : CacheProg Time FileName := do
  if ← onDisk (.pathExists fileHash) then
    onDisk (.utime fileHash)
    pure fileHash
  else
    let temp ← onDisk .mkstemp
    let fetched ← (do
      Program.perform (CacheOp.getSource fileHash temp)
      onDisk (.replace temp fileHash) : CacheProg Time Unit).attempt
    match fetched with
    | .ok () =>
      pruneSourceCache config none
      pure fileHash
    | .error error =>
      if ← onDisk (.pathExists temp) then onDisk (.remove temp)
      .raise error

end Worker

/-! ## The calls -/

/-- The folder of the cache and the bucket. -/
structure CacheWorld (Time : Type) where
  folder : Folder FileName Time
  store : Store

/-- What the calls depend on: the disk, and how the download raises, if it does, with the bytes it then leaves at its
destination. -/
structure CacheHost (Time : Type) extends Disk Time where
  failure : Option (Exc × Option Bytes)

/-- What is at the destination after a download that raised. -/
def leave (now : Time) (folder : Folder FileName Time) (dest : FileName) : Option Bytes → Folder FileName Time
  | some content => folder.put dest content now
  | none => folder.delete dest

/-- Carry out a call. -/
def CacheHost.serve (host : CacheHost Time) (_ : List (Call CacheOp (CacheOp.Reply Time) Exc)) :
    (op : CacheOp) → CacheWorld Time → Except Exc (op.Reply Time) × CacheWorld Time
  | .file op, world =>
    let (reply, folder) := host.exec world.folder op
    (reply, { world with folder })
  | .getSource fileHash dest, world =>
    match host.failure with
    | some (error, left) => (.error error, { world with folder := leave host.now world.folder dest left })
    | none =>
      match world.store (sourceKey fileHash) with
      | some (.source file) => (.ok (), { world with folder := world.folder.put dest file host.now })
      | _ => (.error { name := lit "ClientError", text := lit "An error occurred (404)", isClientError := true }, world)

section Serve

variable (host : CacheHost Time) (calls : List (Call CacheOp (CacheOp.Reply Time) Exc))

theorem CacheHost.serve_file {world : CacheWorld Time} {op : FileOp FileName} {reply : Except Exc (op.Reply Time)}
    {after : Folder FileName Time} (served : host.exec world.folder op = (reply, after)) :
    host.serve calls (.file op) world = (reply, { world with folder := after }) := by
  simp only [serve, served]

variable {fileHash dest : FileName} {folder : Folder FileName Time} {store : Store}

theorem CacheHost.serve_getSource {source : Bytes} (works : host.failure = none)
    (stored : store (sourceKey fileHash) = some (.source source)) :
    host.serve calls (.getSource fileHash dest) ⟨folder, store⟩ =
      (.ok (), ⟨folder.put dest source host.now, store⟩) := by
  simp only [serve, works, stored]

theorem CacheHost.serve_getSource_raises {error : Exc} {left : Option Bytes}
    (fails : host.failure = some (error, left)) :
    host.serve calls (.getSource fileHash dest) ⟨folder, store⟩ =
      (.error error, ⟨leave host.now folder dest left, store⟩) := by
  simp only [serve, fails]

end Serve

end MarkitdownServer
