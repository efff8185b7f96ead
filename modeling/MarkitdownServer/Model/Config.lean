import Mathlib.Data.PNat.Notation
import MarkitdownServer.Model.Text

/-! # Settings, exceptions and the tools outside the repository

`Config` holds the settings that the modeled functions read, with the defaults of `config.py`.
`Env` adds what the code takes from third-party packages: the SHA-256 hex digest, the page count
that pypdf reports, and the installed markitdown version. Every pod runs in the same `Env`.
-/

namespace MarkitdownServer

/-- The settings of `config.py` that the modeled code reads. `paginate` does not terminate for a
page size below one, so the page size is a positive number. -/
structure Config where
  openaiModel : Str := lit "google/gemini-3.1-flash-lite-preview"
  pagesPerChunk : ℤ := 20
  minPagesForParallel : ℤ := 40
  pageSize : ℕ+ := ⟨5000, by decide⟩
  rabbitmqExchange : Str := lit "markitdown"
  rabbitmqQueue : Str := lit "markitdown.chunks"
  retryDelays : List ℤ := [5, 30, 300]
  maxAttempts : ℤ := 3

/-- A Python exception: `type(exc).__name__`, `str(exc)`, and whether it is a pika `AMQPError` or a
botocore `ClientError`, the two classes that the code catches by name. -/
structure Exc where
  name : Str
  text : Str
  isAmqpError : Bool := false
  isClientError : Bool := false
deriving DecidableEq

/-- `f"{type(exc).__name__}: {exc}"`. -/
def Exc.describe (e : Exc) : Str := e.name ++ lit ": " ++ e.text

/-- The configuration together with the third-party functions the code relies on. -/
structure Env extends Config where
  /-- `hashlib.sha256(data).hexdigest()` -/
  sha256 : Bytes → Str
  /-- `len(PdfReader(path).pages)`, `none` when pypdf rejects the file -/
  pageCount : Bytes → Option ℕ
  /-- `importlib.metadata.version("markitdown")` -/
  markitdownVersion : Str

/-- `text.encode()`. -/
def encode (text : Str) : Bytes := (String.ofList text).toUTF8.data.toList

theorem encode_injective : Function.Injective encode := by
  intro first second same
  have arrays := Array.toList_inj.mp same
  have bytes : (String.ofList first).toUTF8 = (String.ofList second).toUTF8 := ByteArray.ext arrays
  exact String.ofList_injective (String.toByteArray_inj.mp bytes)

/-- The string that `config_fingerprint` hashes. -/
def Env.fingerprintParts (env : Env) (useLlm : Bool) : Str :=
  Str.join (lit "|") [
    env.markitdownVersion,
    if useLlm then lit "llm" else lit "nollm",
    if useLlm then env.openaiModel else lit "-",
    Str.ofNat env.pageSize,
    Str.ofInt env.pagesPerChunk,
    Str.ofInt env.minPagesForParallel]

/-- `storage.config_fingerprint`. -/
def Env.configFingerprint (env : Env) (useLlm : Bool) : Str :=
  (env.sha256 (encode (env.fingerprintParts useLlm))).take 16

/-- `storage.make_doc_key`. -/
def Env.makeDocKey (env : Env) (fileHash : Str) (useLlm : Bool) : Str :=
  fileHash ++ lit ":" ++ env.configFingerprint useLlm

/-- What `config_fingerprint` reads, with any integer as the page size. -/
structure Settings where
  markitdownVersion : Str
  useLlm : Bool
  openaiModel : Str
  pageSize : ℤ
  pagesPerChunk : ℤ
  minPagesForParallel : ℤ

namespace Settings

/-- The string that `config_fingerprint` hashes. -/
def fingerprintParts (settings : Settings) : Str :=
  Str.join (lit "|") [
    settings.markitdownVersion,
    if settings.useLlm then lit "llm" else lit "nollm",
    if settings.useLlm then settings.openaiModel else lit "-",
    Str.ofInt settings.pageSize,
    Str.ofInt settings.pagesPerChunk,
    Str.ofInt settings.minPagesForParallel]

/-- `config_fingerprint` with a hex digest for `hashlib.sha256`. -/
def configFingerprint (settings : Settings) (sha256 : Bytes → Str) : Str :=
  (sha256 (encode settings.fingerprintParts)).take 16

/-- `make_doc_key`. -/
def makeDocKey (settings : Settings) (sha256 : Bytes → Str) (fileHash : Str) : Str :=
  fileHash ++ lit ":" ++ settings.configFingerprint sha256

end Settings

/-- The settings of an environment. -/
def Env.settings (env : Env) (useLlm : Bool) : Settings :=
  ⟨env.markitdownVersion, useLlm, env.openaiModel, env.pageSize, env.pagesPerChunk, env.minPagesForParallel⟩

theorem Env.makeDocKey_eq (env : Env) (fileHash : Str) (useLlm : Bool) :
    env.makeDocKey fileHash useLlm = (env.settings useLlm).makeDocKey env.sha256 fileHash := rfl

end MarkitdownServer
