import MarkitdownServer.Lib.Hoare
import MarkitdownServer.Lib.Run
import MarkitdownServer.Model.Conversion
import MarkitdownServer.Proofs.Fetching

/-! # The conversions of a worker over its files

A source is cached under its digest, and it comes under that name in one step, when it is complete. So whatever becomes
of a download, and wherever the worker dies, a file of the cache with a digest for a name has that digest; what a
conversion reads is the source that its task is about, and nothing is left in the temporary folder.
-/

namespace MarkitdownServer

open Effects Effects.Program Files Relational Transition

variable {Time : Type}

theorem content?_put (folder : Folder FileName Time) (name other : FileName) (content : Bytes) (atime : Time) :
    (folder.put name content atime).content? other = if name = other then some content else folder.content? other := by
  rw [Folder.content?, Folder.find?_put]
  split <;> rfl

theorem content?_delete (folder : Folder FileName Time) (name other : FileName) :
    Folder.content? (folder.delete name) other = if name = other then none else folder.content? other := by
  rw [Folder.content?, Table.find?_delete]
  split <;> rfl

variable (sha256 : Bytes → Str)

/-- The name is the digest of some file. -/
def IsDigest (name : FileName) : Prop := ∃ file, sha256 file = name.val

/-- Every file with a digest for a name has that digest. -/
def Certified (folder : Folder FileName Time) : Prop :=
  ∀ name content, folder.content? name = some content → IsDigest sha256 name → sha256 content = name.val

/-- Every source in the bucket has the digest in its key. -/
def Store.Addressed (store : Store) : Prop :=
  ∀ name : FileName, ∀ file, store (sourceKey name) = some (.source file) → sha256 file = name.val

/-- `mkstemp` never picks a digest. -/
def Disk.Apart (disk : Disk Time) : Prop := ∀ folder, ¬ IsDigest sha256 (disk.temp folder)

/-- What holds of the cache and the bucket at every moment. -/
def CacheWorld.Trusted (world : CacheWorld Time) : Prop := Certified sha256 world.folder ∧ world.store.Addressed sha256

/-- What holds of the files of a worker at every moment. -/
def RangeWorld.Trusted (world : RangeWorld Time) : Prop := world.toCacheWorld.Trusted sha256

variable {sha256}

theorem Certified.put {folder : Folder FileName Time} (certified : Certified sha256 folder) {name : FileName}
    {content : Bytes} (fits : IsDigest sha256 name → sha256 content = name.val) (atime : Time) :
    Certified sha256 (folder.put name content atime) := by
  intro other found there digest
  rw [content?_put] at there
  split_ifs at there with same
  · cases there
    subst same
    exact fits digest
  · exact certified other found there digest

theorem Certified.delete {folder : Folder FileName Time} (certified : Certified sha256 folder) (name : FileName) :
    Certified sha256 (folder.delete name) := by
  intro other found there digest
  rw [content?_delete] at there
  split_ifs at there
  exact certified other found there digest

/-- What is done with a regular file. -/
theorem Certified.onFile {α : Type} {folder : Folder FileName Time} (certified : Certified sha256 folder)
    {name : FileName} {use : Bytes → Time → α × Folder FileName Time}
    (keeps : ∀ content atime, folder.content? name = some content → Certified sha256 (use content atime).2) :
    Certified sha256 (folder.onFile name use).2 := by
  rw [Folder.onFile]
  cases found : folder.find? name with
  | none => exact certified
  | some entry =>
    obtain ⟨_, node⟩ := entry
    cases node with
    | folder => exact certified
    | file content atime => exact keeps content atime (by rw [Folder.content?, found]; rfl)

/-- The calls that put no bytes under a digest. -/
def FileOp.isSafe : FileOp FileName → Bool
  | .truncate _ | .append _ _ | .replace _ _ => false
  | _ => true

theorem Certified.exec {disk : Disk Time} (apart : disk.Apart sha256) {folder : Folder FileName Time}
    (certified : Certified sha256 folder) {op : FileOp FileName} (safe : FileOp.isSafe op = true) :
    Certified sha256 (disk.exec folder op).2 := by
  cases op with
  | pathExists | isfile | listdir => exact certified
  | stat | read => exact certified.onFile fun content atime there => certified
  | mkstemp => exact certified.put (fun digest => absurd digest (apart folder)) _
  | remove name => exact certified.onFile fun content atime there => certified.delete name
  | utime name =>
    have used : Certified sha256 (folder.exec disk.now (disk.temp folder) (.utime name)).2 := by
      rw [Folder.exec]
      split
      · exact certified
      · exact certified.onFile fun content atime there => certified.put (certified name content there) disk.now
    exact used
  | truncate | append | replace => cases safe

section Fetch

variable {host : CacheHost Time} {fileHash : FileName}

/-- A safe call on the files of the cache. -/
theorem onDisk_triple (apart : host.Apart sha256) {op : FileOp FileName} (safe : FileOp.isSafe op = true) :
    Triple host.serve (CacheWorld.Trusted sha256) (CacheWorld.Trusted sha256) (onDisk op : CacheProg Time _)
      fun _ => CacheWorld.Trusted sha256 := by
  apply Triple.perform
  · exact fun world trusted => trusted
  · rintro calls world ⟨certified, addressed⟩
    have kept : CacheWorld.Trusted sha256 (host.serve calls (.file op) world).2 := ⟨certified.exec apart safe, addressed⟩
    exact ⟨kept, kept⟩

/-- The calls of a pruning. -/
def CacheOp.Prunes (op : CacheOp) : Prop := ∃ call, op = .file call ∧ FileOp.isSafe call = true

private theorem statEntries_makes (names : List FileName) (entries : List (CacheEntry Time)) (total : ℤ) :
    (Worker.statEntries names entries total).Makes CacheOp.Prunes := by
  induction names generalizing entries total with
  | nil => trivial
  | cons name rest ih =>
    apply Makes.bind (Makes.perform ⟨_, rfl, rfl⟩)
    intro regular
    split
    · exact Makes.bind (Makes.perform ⟨_, rfl, rfl⟩) fun _ => ih _ _
    · exact ih _ _

private theorem removeEntries_makes (maxBytes : ℤ) (entries : List (CacheEntry Time)) (total : ℤ) :
    (Worker.removeEntries maxBytes entries total).Makes CacheOp.Prunes := by
  induction entries generalizing total with
  | nil => trivial
  | cons entry rest ih =>
    rw [Worker.removeEntries]
    split
    · trivial
    · exact Makes.bind (Makes.perform ⟨_, rfl, rfl⟩) fun _ => ih _

private theorem pruneSourceCache_makes [LinearOrder Time] (config : CacheConfig) (maxBytes : Option ℤ) :
    (Worker.pruneSourceCache config maxBytes : CacheProg Time Unit).Makes CacheOp.Prunes := by
  apply Makes.bind
  · apply Makes.attempt
    apply Makes.bind (Makes.perform ⟨_, rfl, rfl⟩)
    exact fun names => Makes.bind (statEntries_makes names [] 0) fun _ => removeEntries_makes _ _ _
  · intro pruned
    cases pruned with
    | ok value => trivial
    | error error =>
      dsimp only
      split <;> trivial

/-- The download writes under its temporary name only. -/
private theorem getSource_triple {temp : FileName} :
    Triple host.serve (CacheWorld.Trusted sha256) (fun world => world.Trusted sha256 ∧ ¬ IsDigest sha256 temp)
      (perform (CacheOp.getSource fileHash temp))
      fun result world => world.Trusted sha256 ∧
        ∀ value, result = .ok value → ∀ content, world.folder.content? temp = some content → sha256 content = fileHash.val := by
  apply Triple.perform
  · exact fun world start => start.1
  · rintro calls ⟨folder, store⟩ ⟨⟨certified, addressed⟩, apart⟩
    have under {content : Bytes} (digest : IsDigest sha256 temp) : sha256 content = temp.val := absurd digest apart
    cases failure : host.failure with
    | some failed =>
      obtain ⟨error, left⟩ := failed
      rw [host.serve_getSource_raises calls failure]
      have kept : Certified sha256 (leave host.now folder temp left) := by
        cases left with
        | none => exact certified.delete temp
        | some content => exact certified.put under host.now
      exact ⟨⟨kept, addressed⟩, ⟨kept, addressed⟩, by rintro _ ⟨⟩⟩
    | none =>
      rw [CacheHost.serve, failure]
      dsimp only
      split
      · next file stored =>
        have kept : Certified sha256 (folder.put temp file host.now) := certified.put under host.now
        refine ⟨⟨kept, addressed⟩, ⟨kept, addressed⟩, fun _ _ content there => ?_⟩
        rw [Folder.content?_put_self] at there
        cases there
        exact addressed fileHash _ stored
      · exact ⟨⟨certified, addressed⟩, ⟨certified, addressed⟩, by rintro _ ⟨⟩⟩

/-- What is moved in place is a source with its digest. -/
private theorem replace_triple {temp : FileName} :
    Triple host.serve (CacheWorld.Trusted sha256)
      (fun world => world.Trusted sha256 ∧ ∀ content, world.folder.content? temp = some content → sha256 content = fileHash.val)
      (onDisk (.replace temp fileHash) : CacheProg Time Unit) fun _ => CacheWorld.Trusted sha256 := by
  apply Triple.perform
  · exact fun world start => start.1
  · rintro calls ⟨folder, store⟩ ⟨⟨certified, addressed⟩, genuine⟩
    have moved : Certified sha256 (folder.exec host.now (host.temp folder) (.replace temp fileHash)).2 := by
      rw [Folder.exec]
      split
      · exact certified
      · exact certified.onFile fun content atime there => (certified.delete temp).put (fun _ => genuine content there) atime
    exact ⟨⟨moved, addressed⟩, moved, addressed⟩

private theorem mkstemp_triple (apart : host.Apart sha256) :
    Triple host.serve (CacheWorld.Trusted sha256) (CacheWorld.Trusted sha256) (onDisk .mkstemp : CacheProg Time FileName)
      fun result world => world.Trusted sha256 ∧ ∀ temp, result = .ok temp → ¬ IsDigest sha256 temp := by
  apply Triple.perform
  · exact fun world trusted => trusted
  · rintro calls ⟨folder, store⟩ ⟨certified, addressed⟩
    have kept : Certified sha256 (host.exec folder .mkstemp).2 := certified.exec apart rfl
    refine ⟨⟨kept, addressed⟩, ⟨kept, addressed⟩, ?_⟩
    rintro temp ⟨⟩
    exact apart folder

/-- The body of the `try`. -/
private theorem download_triple {temp : FileName} (apart : ¬ IsDigest sha256 temp) :
    Triple host.serve (CacheWorld.Trusted sha256) (CacheWorld.Trusted sha256)
      (do Program.perform (CacheOp.getSource fileHash temp); onDisk (.replace temp fileHash) : CacheProg Time Unit)
      fun _ => CacheWorld.Trusted sha256 := by
  apply (getSource_triple.strengthen fun world trusted => ⟨trusted, apart⟩).bind
  · exact fun value => replace_triple.strengthen fun world start => ⟨start.1, start.2 value rfl⟩
  · exact fun error world ended => ended.1

/-- Whatever happens to the download, the cache stays as it should be at every moment. -/
theorem fetchSource_triple [LinearOrder Time] (apart : host.Apart sha256) (config : CacheConfig) :
    Triple host.serve (CacheWorld.Trusted sha256) (CacheWorld.Trusted sha256)
      (Worker.fetchSource config fileHash : CacheProg Time FileName)
      fun result world => world.Trusted sha256 ∧ ∀ path, result = .ok path → path = fileHash := by
  have within (world : CacheWorld Time) (trusted : world.Trusted sha256) : world.Trusted sha256 := trusted
  have returned (world : CacheWorld Time) (trusted : world.Trusted sha256) : world.Trusted sha256 ∧
      ∀ path, (Except.ok fileHash : Except Exc FileName) = .ok path → path = fileHash :=
    ⟨trusted, fun path same => (Except.ok.inj same).symm⟩
  have failed (error : Exc) (world : CacheWorld Time) (trusted : world.Trusted sha256) : world.Trusted sha256 ∧
      ∀ path, (Except.error error : Except Exc FileName) = .ok path → path = fileHash :=
    ⟨trusted, by rintro _ ⟨⟩⟩
  refine (onDisk_triple apart rfl).bind (fun there => ?_) failed
  split
  · exact (onDisk_triple apart rfl).bind (fun _ => Triple.pure within returned) failed
  · refine (mkstemp_triple apart).bind (fun temp => ?_) fun error world ended => failed error world ended.1
    intro calls world created
    refine (download_triple (created.2 temp rfl)).attempt_bind (fun result => ?_) calls world created.1
    cases result with
    | ok value =>
      have pruned : Triple host.serve (CacheWorld.Trusted sha256) (CacheWorld.Trusted sha256)
          (Worker.pruneSourceCache config none : CacheProg Time Unit) fun _ => CacheWorld.Trusted sha256 := by
        apply (pruneSourceCache_makes config none).triple
        rintro calls _ world ⟨call, rfl, safe⟩ ⟨certified, addressed⟩
        exact ⟨certified.exec apart safe, addressed⟩
      exact pruned.bind (fun _ => Triple.pure within returned) failed
    | error error =>
      refine (onDisk_triple apart rfl).bind (fun left => ?_) failed
      split
      · exact (onDisk_triple apart rfl).bind (fun _ => Triple.raise within (failed error)) failed
      · exact Triple.raise within (failed error)

end Fetch

/-! ## The conversion -/

section Convert

private theorem onCache_ensures {α : Type} {host : RangeHost Time} {inv : CacheWorld Time → Prop}
    {post : Except Exc α → CacheWorld Time → Prop} {program : CacheProg Time α}
    (earlier : List (Call CacheOp (CacheOp.Reply Time) Exc)) (calls : List (Call RangeOp (RangeOp.Reply Time) Exc))
    (world : RangeWorld Time) (holds : program.Ensures host.toCacheHost.serve inv post earlier world.toCacheWorld) :
    (onCache program).Ensures host.serve (fun world => inv world.toCacheWorld)
      (fun result after => post result after.toCacheWorld ∧ after.temporary = world.temporary) calls world := by
  induction program generalizing earlier calls world with
  | pure value => exact ⟨holds.1, holds.2, rfl⟩
  | raise error => exact ⟨holds.1, holds.2, rfl⟩
  | call op next ih =>
    refine ⟨holds.1, ?_⟩
    exact ih (host.toCacheHost.serve earlier op world.toCacheWorld).1 _ _ (host.serve calls (.cache op) world).2 holds.2

/-- A program on the cache, as a part of a conversion. -/
theorem onCache_triple {α : Type} {host : RangeHost Time} {inv pre : CacheWorld Time → Prop}
    {post : Except Exc α → CacheWorld Time → Prop} {program : CacheProg Time α} (temporary : Folder FileName Time)
    (triple : Triple host.toCacheHost.serve inv pre program post) :
    Triple host.serve (fun world => inv world.toCacheWorld)
      (fun world => pre world.toCacheWorld ∧ world.temporary = temporary) (onCache program)
      fun result world => post result world.toCacheWorld ∧ world.temporary = temporary := by
  rintro calls world ⟨start, rfl⟩
  exact onCache_ensures [] calls world (triple [] world.toCacheWorld start)

variable {host : RangeHost Time} {source : FileName} {startPage endPage : ℤ} {useLlm : Bool}
  {cache : CacheWorld Time} {temporary : Folder FileName Time}

/-- What the conversion of a range comes to when the source is read from a path. -/
def RangeHost.outcome (host : RangeHost Time) (content : Option Bytes) (startPage endPage : ℤ) (useLlm : Bool) :
    Except Exc Str :=
  content.elim (.error (osError .noEntry)) fun bytes => host.result bytes startPage endPage useLlm

section Fetched

variable {inv : RangeWorld Time → Prop} (within : ∀ temporary, inv ⟨cache, temporary⟩)

include within

/-- One call of a conversion on known files. -/
private theorem performAt {op : RangeOp} {reply : Except Exc (op.Reply Time)} {before after : Folder FileName Time}
    (served : host.serve [] op ⟨cache, before⟩ = (reply, ⟨cache, after⟩)) :
    Triple host.serve inv (fun world => world = ⟨cache, before⟩) (perform op)
      fun result world => result = reply ∧ world = ⟨cache, after⟩ := by
  apply Triple.perform
  · rintro _ rfl
    exact within before
  · rintro calls _ rfl
    have same : host.serve calls op ⟨cache, before⟩ = (reply, ⟨cache, after⟩) := served
    rw [same]
    exact ⟨within after, rfl, rfl⟩

private theorem convertFile_triple (host : RangeHost Time) (temporary : Folder FileName Time) (path : Place)
    (useLlm : Bool) :
    Triple host.serve inv (fun world => world = ⟨cache, temporary⟩) (perform (RangeOp.convertFile path useLlm))
      fun result world => world = ⟨cache, temporary⟩ ∧
        result = ((⟨cache, temporary⟩ : RangeWorld Time).content? path).elim (.error (osError .noEntry))
          fun bytes => host.convert bytes useLlm := by
  apply Triple.perform
  · rintro _ rfl
    exact within temporary
  · rintro calls _ rfl
    rw [RangeHost.serve]
    cases (⟨cache, temporary⟩ : RangeWorld Time).content? path with
    | none => exact ⟨within temporary, rfl, rfl⟩
    | some bytes => exact ⟨within temporary, rfl, rfl⟩

/-- The body of the `try` changes nothing but the chunk. -/
private theorem extractAndConvert_triple (sliced : endPage ≠ -1) (chunk : FileName) (empty : Bytes) :
    Triple host.serve inv (fun world => world = ⟨cache, temporary.put chunk empty host.disk.now⟩)
      (Worker.extractAndConvert source startPage endPage chunk useLlm)
      fun result world => (∃ left, world = ⟨cache, temporary.put chunk left host.disk.now⟩) ∧
        result = host.outcome (cache.folder.content? source) startPage endPage useLlm := by
  have raised (error : Exc) (left : Bytes)
      (served : host.serve [] (.extractPages source startPage endPage chunk)
        ⟨cache, temporary.put chunk empty host.disk.now⟩ =
          (.error error, ⟨cache, temporary.put chunk left host.disk.now⟩))
      (same : host.outcome (cache.folder.content? source) startPage endPage useLlm = .error error) :
      Triple host.serve inv (fun world => world = ⟨cache, temporary.put chunk empty host.disk.now⟩)
        (Worker.extractAndConvert source startPage endPage chunk useLlm)
        fun result world => (∃ left, world = ⟨cache, temporary.put chunk left host.disk.now⟩) ∧
          result = host.outcome (cache.folder.content? source) startPage endPage useLlm := by
    apply (performAt within served).bind
    · rintro value calls world ⟨⟨⟩, _⟩
    · rintro _ world ⟨⟨⟩, rfl⟩
      exact ⟨⟨left, rfl⟩, same.symm⟩
  cases there : cache.folder.content? source with
  | none =>
    rw [there] at raised
    refine raised _ empty ?_ rfl
    simp only [RangeHost.serve, there]
  | some bytes =>
    cases extracted : host.extract bytes startPage endPage with
    | error failed =>
      obtain ⟨error, left⟩ := failed
      rw [there] at raised
      refine raised error left ?_ ?_
      · simp only [RangeHost.serve, there, extracted, Folder.put_put]
      · simp only [RangeHost.outcome, Option.elim_some, RangeHost.result, if_neg sliced, extracted]
    | ok part =>
      have served : host.serve [] (.extractPages source startPage endPage chunk)
          ⟨cache, temporary.put chunk empty host.disk.now⟩ =
            (.ok (), ⟨cache, temporary.put chunk part host.disk.now⟩) := by
        simp only [RangeHost.serve, there, extracted, Folder.put_put]
      have written : (⟨cache, temporary.put chunk part host.disk.now⟩ : RangeWorld Time).content? (.temporary chunk) =
          some part := Folder.content?_put_self ..
      apply (performAt within served).bind
      · intro _
        have converted := convertFile_triple within host (temporary.put chunk part host.disk.now) (.temporary chunk) useLlm
        rw [written] at converted
        refine (converted.strengthen fun world ended => ended.2).weaken fun result world ended => ⟨⟨part, ended.1⟩, ?_⟩
        rw [ended.2]
        simp only [RangeHost.outcome, Option.elim_some, RangeHost.result, if_neg sliced, extracted]
      · rintro _ world ⟨⟨⟩, _⟩

end Fetched

/-- The part of a conversion after `fetch_source`: what it comes to depends on the file in the cache only, and the
temporary folder is as before. -/
theorem convertFetched_triple {inv : RangeWorld Time → Prop} (within : ∀ temporary, inv ⟨cache, temporary⟩) :
    Triple host.serve inv (fun world => world = ⟨cache, temporary⟩)
      (Worker.convertFetched source startPage endPage useLlm)
      fun result world => world = ⟨cache, temporary⟩ ∧
        result = host.outcome (cache.folder.content? source) startPage endPage useLlm := by
  rw [Worker.convertFetched]
  split
  · next whole =>
    refine (convertFile_triple within host temporary (.cached source) useLlm).weaken fun result world ended => ⟨ended.1, ?_⟩
    rw [ended.2]
    simp only [RangeHost.outcome, RangeHost.result, if_pos whole]
    rfl
  · next sliced =>
    have fresh := host.disk.fresh temporary
    have created : host.serve [] (.file .mkstemp) ⟨cache, temporary⟩ = (.ok (host.disk.temp temporary),
        ⟨cache, temporary.put (host.disk.temp temporary) [] host.disk.now⟩) := rfl
    apply (performAt within created).bind
    · rintro chunk calls world ⟨same, start⟩
      cases same
      refine (extractAndConvert_triple within sliced _ []).attempt_bind (fun result => ?_) calls world start
      rintro calls _ ⟨⟨left, rfl⟩, came⟩
      have there : host.disk.exec (temporary.put (host.disk.temp temporary) left host.disk.now)
          (.pathExists (host.disk.temp temporary)) =
            (.ok true, temporary.put (host.disk.temp temporary) left host.disk.now) :=
        host.disk.exec_pathExists_put (host.disk.temp temporary) left host.disk.now
      have cleaned := host.disk.exec_remove_put fresh left host.disk.now
      have looked : host.serve [] (.file (.pathExists (host.disk.temp temporary)))
          ⟨cache, temporary.put (host.disk.temp temporary) left host.disk.now⟩ =
            (.ok true, ⟨cache, temporary.put (host.disk.temp temporary) left host.disk.now⟩) := by
        simp only [RangeHost.serve, there]
      have removed : host.serve [] (.file (.remove (host.disk.temp temporary)))
          ⟨cache, temporary.put (host.disk.temp temporary) left host.disk.now⟩ = (.ok (), ⟨cache, temporary⟩) := by
        simp only [RangeHost.serve, cleaned]
      refine (performAt within looked).bind (fun found => ?_) ?_ calls _ rfl
      · rintro calls world ⟨same, start⟩
        cases same
        refine (performAt within removed).bind (fun _ => ?_) ?_ calls world start
        · cases result with
          | ok markdown => exact Triple.pure (fun _ ended => ended.2 ▸ within _) fun _ ended => ⟨ended.2, came⟩
          | error error => exact Triple.raise (fun _ ended => ended.2 ▸ within _) fun _ ended => ⟨ended.2, came⟩
        · rintro _ world ⟨⟨⟩, _⟩
      · rintro _ world ⟨⟨⟩, _⟩
    · rintro _ world ⟨⟨⟩, _⟩

/-- A conversion from trusted files: they stay so at every moment, and what it comes to is what the libraries make of a
source with the digest that the task names. -/
theorem convertRangeFile_triple [LinearOrder Time] (config : CacheConfig) (host : RangeHost Time)
    (apart : host.toCacheHost.Apart sha256) (fileHash : FileName) (startPage endPage : ℤ) (useLlm : Bool) :
    Triple host.serve (RangeWorld.Trusted sha256) (fun world => world.Trusted sha256 ∧ world.temporary = temporary)
      (Worker.convertRangeFile config fileHash startPage endPage useLlm)
      fun result world => world.temporary = temporary ∧ ∀ markdown, result = .ok markdown → IsDigest sha256 fileHash →
        ∃ source, sha256 source = fileHash.val ∧ host.result source startPage endPage useLlm = .ok markdown := by
  apply (onCache_triple temporary (fetchSource_triple apart config)).bind
  · rintro path calls ⟨cache, _⟩ ⟨⟨trusted, returned⟩, rfl⟩
    cases returned path rfl
    have within (temporary : Folder FileName Time) :
        (⟨cache, temporary⟩ : RangeWorld Time).toCacheWorld.Trusted sha256 := trusted
    refine (convertFetched_triple within calls _ rfl).weaken ?_
    rintro result _ ⟨rfl, came⟩
    refine ⟨rfl, fun markdown returned digest => ?_⟩
    rw [returned, RangeHost.outcome] at came
    cases there : cache.folder.content? fileHash with
    | none =>
      rw [there] at came
      cases came
    | some source =>
      rw [there, Option.elim_some] at came
      exact ⟨source, trusted.1 fileHash source there digest, came.symm⟩
  · exact fun error world ended => ⟨ended.2, by rintro _ ⟨⟩⟩

/-- A source that fits into the cache is there when `fetch_source` returns. -/
private theorem fetchSource_returns [LinearOrder Time] (config : CacheConfig) (budget : 0 ≤ config.sourceCacheMaxBytes)
    (host : CacheHost Time) (world : CacheWorld Time) {fileHash : FileName} {source : Bytes}
    (stored : world.store (sourceKey fileHash) = some (.source source))
    (fits : Fits config host fileHash source world.folder)
    (works : world.folder.find? fileHash = none → host.failure = none) :
    ((Worker.fetchSource config fileHash).eval host.serve [] world).1 = .ok fileHash ∧
      ((Worker.fetchSource config fileHash).eval host.serve [] world).2.2.folder.content? fileHash = some source := by
  have usable := (Worker.fetchSource_usable_iff config budget host world fileHash source stored).mpr fits
  have returned : ((Worker.fetchSource config fileHash).eval host.serve [] world).1 = .ok fileHash := by
    cases found : world.folder.find? fileHash with
    | some entry =>
      obtain ⟨seen, after, run, _⟩ := Worker.fetchSource_cached config host [] found
      rw [run]
    | none =>
      obtain ⟨seen, after, removed, kept, run, _⟩ :=
        Worker.fetchSource_pruned config host [] found budget (works found) stored
      rw [run]
  exact ⟨returned, usable.holds fileHash returned⟩

/-- A conversion of a source that fits into the cache is that of the libraries. -/
theorem convertRangeFile_complete [LinearOrder Time] (config : CacheConfig) (budget : 0 ≤ config.sourceCacheMaxBytes)
    (host : RangeHost Time) (world : RangeWorld Time) {fileHash : FileName} {source : Bytes} (startPage endPage : ℤ)
    (useLlm : Bool) (stored : world.store (sourceKey fileHash) = some (.source source))
    (fits : Fits config host.toCacheHost fileHash source world.folder)
    (works : world.folder.find? fileHash = none → host.failure = none) :
    ((Worker.convertRangeFile config fileHash startPage endPage useLlm).eval host.serve [] world).1 =
      host.result source startPage endPage useLlm := by
  have fetched : (Worker.fetchSource config fileHash).Ensures host.toCacheHost.serve (fun _ => True)
      (fun result after => result = .ok fileHash ∧ after.folder.content? fileHash = some source) []
      world.toCacheWorld := .of_eval (fetchSource_returns config budget host.toCacheHost _ stored fits works)
  have converted : (Worker.convertRangeFile config fileHash startPage endPage useLlm).Ensures host.serve
      (fun _ => True) (fun result _ => result = host.result source startPage endPage useLlm) [] world := by
    apply Ensures.bind (onCache_ensures [] [] world fetched)
    · rintro path seen ⟨cache, temporary⟩ _ ⟨⟨same, there⟩, _⟩
      cases same
      refine (convertFetched_triple (fun _ => trivial) seen _ rfl).weaken fun result _ ended => ?_
      rw [ended.2]
      exact congrArg (fun content => host.outcome content startPage endPage useLlm) there
    · rintro error _ ⟨⟨⟨⟩, _⟩, _⟩
  exact converted.eval

end Convert

/-- What a conversion is for: it returns what the libraries make of the source that the task names, it leaves nothing
in the temporary folder, and it returns when the source is there and fits into the cache. -/
structure Converted [LinearOrder Time] (sha256 : Bytes → Str) (config : CacheConfig) (host : RangeHost Time)
    (fileHash : FileName) (startPage endPage : ℤ) (useLlm : Bool) (before : RangeWorld Time) (result : Except Exc Str)
    (after : RangeWorld Time) : Prop where
  right : ∀ markdown, result = .ok markdown →
    ∃ source, sha256 source = fileHash.val ∧ host.result source startPage endPage useLlm = .ok markdown
  clean : after.temporary = before.temporary
  complete : ∀ source, before.store (sourceKey fileHash) = some (.source source) →
    Fits config host.toCacheHost fileHash source before.folder →
    (before.folder.find? fileHash = none → host.failure = none) →
    result = host.result source startPage endPage useLlm

/-- The moves of an environment in which digests stand for sources only. -/
def RangeMove.Allowed (sha256 : Bytes → Str) (_ : RangeWorld Time) : RangeMove Time → Prop
  | .convert host .. | .crash host .. => host.toCacheHost.Apart sha256
  | .bucket store => store.Addressed sha256

/-- In every life of a worker that starts with a trusted cache and bucket and has a budget that is not negative,
whichever conversions it has begun, wherever it has died and whatever has become of its downloads, every file in the
cache with a digest for a name has that digest, and the next conversion is right. -/
theorem Worker.conversions_right [LinearOrder Time] {config : CacheConfig} (budget : 0 ≤ config.sourceCacheMaxBytes)
    {start world : RangeWorld Time} (started : start.Trusted sha256)
    (reached : Reaches (RangeWorld.step config) (RangeMove.Allowed sha256) start world) :
    Certified sha256 world.folder ∧ ∀ host : RangeHost Time, host.toCacheHost.Apart sha256 →
      ∀ fileHash startPage endPage useLlm, IsDigest sha256 fileHash →
        Converted sha256 config host fileHash startPage endPage useLlm world
          ((convertRangeFile config fileHash startPage endPage useLlm).eval host.serve [] world).1
          ((convertRangeFile config fileHash startPage endPage useLlm).eval host.serve [] world).2.2 := by
  have kept : world.Trusted sha256 := by
    refine reached.invariant started fun state move next trusted allowed stepped => ?_
    cases move with
    | convert host fileHash startPage endPage useLlm =>
      cases stepped
      exact (convertRangeFile_triple config host allowed fileHash startPage endPage useLlm [] state ⟨trusted, rfl⟩).finish
    | crash host fileHash startPage endPage useLlm calls =>
      cases stepped
      exact (convertRangeFile_triple config host allowed fileHash startPage endPage useLlm [] state ⟨trusted, rfl⟩).steps
        calls
    | bucket store =>
      cases stepped
      exact ⟨trusted.1, allowed⟩
  refine ⟨kept.1, fun host apart fileHash startPage endPage useLlm digest => ?_⟩
  have ends := (convertRangeFile_triple config host apart fileHash startPage endPage useLlm [] world ⟨kept, rfl⟩).eval
  exact ⟨fun markdown returned => ends.2 markdown returned digest, ends.1, fun source stored fits works =>
    convertRangeFile_complete config budget host world startPage endPage useLlm stored fits works⟩

/-- A host with its way of failing a download. -/
def sampleRangeHost (failure : Option (Exc × Option Bytes)) : RangeHost ℕ where
  toDisk := sampleDisk 7
  failure
  disk := sampleDisk 7
  extract source startPage endPage := .ok ((source.take endPage.toNat).drop startPage.toNat)
  convert source _ := .ok (source.map fun byte => Char.ofNat byte.toNat)

/-- No files, and a bucket with one source. -/
def sampleRangeWorld : RangeWorld ℕ :=
  ⟨⟨Table.empty, fun key => if key = sourceKey sampleHash then some (.source [1, 2, 3]) else none⟩, Table.empty⟩

/-- A worker dies while it downloads, and the one after it converts the second and the third byte of the source. -/
theorem Worker.conversions_right_after_crash :
    ∃ world, Reaches (RangeWorld.step ⟨lit "/cache", 8⟩) (RangeMove.Allowed fun _ => lit "hash") sampleRangeWorld world ∧
      world.folder.rows.length = 1 ∧ Certified (fun _ => lit "hash") world.folder ∧
      ((convertRangeFile ⟨lit "/cache", 8⟩ sampleHash 1 3 false).eval (sampleRangeHost none).serve [] world).1 =
        .ok ['\u0002', '\u0003'] := by
  have started : sampleRangeWorld.Trusted fun _ => lit "hash" := by
    refine ⟨fun name content there => ?_, fun name file stored => ?_⟩
    · cases there
    · rw [sampleRangeWorld] at stored
      dsimp only at stored
      split_ifs at stored with same
      exact ((sourceKey_inj _ _).mp same).symm
  have apart (failure : Option (Exc × Option Bytes)) :
      (sampleRangeHost failure).toCacheHost.Apart fun _ => lit "hash" := by
    rintro folder ⟨_, same⟩
    have first : 'h' ∈ (unusedName folder).val := same ▸ List.mem_cons_self
    cases (List.mem_replicate.mp first).2
  let failure := some (osError .noEntry, some ([1, 2] : Bytes))
  have reached : Reaches (RangeWorld.step ⟨lit "/cache", 8⟩) (RangeMove.Allowed fun _ => lit "hash") sampleRangeWorld
      ((convertRangeFile ⟨lit "/cache", 8⟩ sampleHash 1 3 false).steps (sampleRangeHost failure).serve 3 []
        sampleRangeWorld).2.2 :=
    .single ⟨.crash (sampleRangeHost failure) sampleHash 1 3 false 3, apart failure, rfl⟩
  obtain ⟨certified, right⟩ := conversions_right (by decide) started reached
  refine ⟨_, reached, by decide +kernel, certified, ?_⟩
  refine (right (sampleRangeHost none) (apart none) sampleHash 1 3 false ⟨[], rfl⟩).complete [1, 2, 3] rfl ⟨?_, ?_⟩
    fun _ => rfl
  · intro entry there
    have missing : (((convertRangeFile ⟨lit "/cache", 8⟩ sampleHash 1 3 false).steps (sampleRangeHost failure).serve 3 []
        sampleRangeWorld).2.2.folder.find? sampleHash) = none := by decide +kernel
    cases missing.symm.trans there
  · intro _ _
    decide +kernel

end MarkitdownServer
