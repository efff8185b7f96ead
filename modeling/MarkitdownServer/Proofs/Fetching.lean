import MarkitdownServer.Proofs.Eviction

/-! # Fetching a source

A source that is not in the cache is downloaded under a temporary name, moved in place, and then the cache is pruned.
Pruning counts the new file like every other. It stays exactly if it fits together with the files behind it in the
order of the last use. Otherwise the path that is returned stands for nothing.
-/

namespace MarkitdownServer

open Effects Effects.Program Files Relational

variable {Time : Type}

theorem cacheEntries_put {folder : Folder FileName Time} {name : FileName} (fresh : folder.find? name = none)
    (content : Bytes) (atime : Time) :
    cacheEntries (folder.put name content atime) = cacheEntries folder ++ [⟨atime, content.length, name⟩] := by
  rw [cacheEntries, Folder.put, Table.rows_insertOrReplace_of_find?_eq_none fresh, List.filterMap_append]
  rfl

namespace Worker

variable [LinearOrder Time] (config : CacheConfig) (host : CacheHost Time) {world : CacheWorld Time}
  {fileHash : FileName} (calls : List (Call CacheOp (CacheOp.Reply Time) Exc))

/-- What is in the cache is returned as it is. -/
theorem fetchSource_cached {entry : Entry FileName Time} (found : world.folder.find? fileHash = some entry) :
    ∃ seen after, (fetchSource config fileHash).eval host.serve calls world =
        (.ok fileHash, seen, { world with folder := after }) ∧ after.content? fileHash = entry.node.content? := by
  rw [fetchSource, monad_bind, eval_perform_ok (host.serve_file calls (host.exec_pathExists fileHash))]
  simp only [found, Option.isSome_some, if_true]
  obtain ⟨after, used, same⟩ := host.exec_utime found
  rw [monad_bind, eval_perform_ok (host.serve_file _ used)]
  exact ⟨_, after, rfl, same⟩

variable (missing : world.folder.find? fileHash = none)

include missing

/-- A download that raises leaves the folder as it was. -/
theorem fetchSource_raises {error : Exc} {left : Option Bytes} (fails : host.failure = some (error, left)) :
    ∃ seen, (fetchSource config fileHash).eval host.serve calls world = (.error error, seen, world) := by
  have fresh := host.fresh world.folder
  rw [fetchSource, monad_bind, eval_perform_ok (host.serve_file calls (host.exec_pathExists fileHash))]
  simp only [missing, Option.isSome_none, Bool.false_eq_true, if_false]
  rw [monad_bind, eval_perform_ok (host.serve_file _ host.exec_mkstemp), monad_bind, eval_bind, eval_attempt,
    monad_bind, eval_perform_error (host.serve_getSource_raises _ fails)]
  cases left with
  | none =>
    have clean : leave host.now (world.folder.put (host.temp world.folder) [] host.now) (host.temp world.folder) none =
        world.folder := Folder.delete_put fresh [] host.now
    dsimp only
    rw [clean, monad_bind, eval_perform_ok (host.serve_file _ (host.exec_pathExists _))]
    simp only [fresh, Option.isSome_none, Bool.false_eq_true, if_false]
    exact ⟨_, rfl⟩
  | some content =>
    have partly : leave host.now (world.folder.put (host.temp world.folder) [] host.now) (host.temp world.folder)
        (some content) = world.folder.put (host.temp world.folder) content host.now :=
      Folder.put_put ..
    dsimp only
    rw [partly, monad_bind, eval_perform_ok (host.serve_file _ (host.exec_pathExists_put _ content host.now))]
    simp only [if_true]
    rw [monad_bind, eval_perform_ok (host.serve_file _ (host.exec_remove_put fresh content host.now))]
    exact ⟨_, rfl⟩

/-- A download that succeeds puts the source in place, and then the folder is pruned. -/
theorem fetchSource_pruned (budget : 0 ≤ config.sourceCacheMaxBytes) {source : Bytes} (works : host.failure = none)
    (stored : world.store (sourceKey fileHash) = some (.source source)) :
    ∃ seen after removed kept,
      (fetchSource config fileHash).eval host.serve calls world = (.ok fileHash, seen, { world with folder := after }) ∧
      Pruned config.sourceCacheDir config.sourceCacheMaxBytes (world.folder.put fileHash source host.now) after
        removed kept := by
  have fresh := host.fresh world.folder
  have there := world.folder.find?_put_self (host.temp world.folder) source host.now
  have free : (((world.folder.put (host.temp world.folder) source host.now).find? fileHash).any
      fun entry => entry.node.content?.isNone) = false := by
    rw [Folder.find?_put, missing]
    split_ifs <;> rfl
  rw [fetchSource, monad_bind, eval_perform_ok (host.serve_file calls (host.exec_pathExists fileHash))]
  simp only [missing, Option.isSome_none, Bool.false_eq_true, if_false]
  rw [monad_bind, eval_perform_ok (host.serve_file _ host.exec_mkstemp), monad_bind, eval_bind, eval_attempt,
    monad_bind, eval_perform_ok (host.serve_getSource _ works stored), eval_perform, Folder.put_put,
    host.serve_file _ (host.exec_replace there free), Folder.delete_put fresh]
  obtain ⟨seen, after, removed, kept, pruning, evicts, rows⟩ := pruneSourceCache_eval config none budget host
    { world with folder := world.folder.put fileHash source host.now } _
  refine ⟨seen, after, removed, kept, ?_, .of_evicts evicts rows⟩
  dsimp only
  rw [monad_bind, eval_bind, pruning]
  rfl

end Worker

/-- A file that was put in place and not removed has its bytes. -/
theorem Pruned.content?_eq_some_iff [LinearOrder Time] {dir : Str} {budget : ℤ} {folder after : Folder FileName Time}
    {removed kept : List (CacheEntry Time)} {name : FileName} {content : Bytes} {atime : Time}
    (pruned : Pruned dir budget (folder.put name content atime) after removed kept) :
    after.content? name = some content ↔ (⟨atime, content.length, name⟩ : CacheEntry Time) ∈ kept := by
  have original : ∀ entry, after.find? name = some entry → entry = ⟨name, .file content atime⟩ := by
    intro entry found
    obtain ⟨member, same⟩ := (after.find?_eq_some_iff _ _).mp found
    rw [pruned.rows] at member
    have earlier := (Table.find?_eq_some_iff _ _ _).mpr ⟨(List.mem_filter.mp member).1, same⟩
    rw [Folder.find?_put_self] at earlier
    exact (Option.some.inj earlier).symm
  rw [← pruned.remaining.mem_iff, mem_cacheEntries_iff]
  cases found : after.find? name with
  | none => simp [Folder.content?, found]
  | some entry =>
    cases original entry found
    simp [Folder.content?, found, Node.content?]

/-- What `fetch_source` is for: the path that it returns holds the source, and a download that raises makes it raise
and leaves the folder as it was. -/
structure Usable (host : CacheHost Time) (fileHash : FileName) (source : Bytes) (before : Folder FileName Time)
    (result : Except Exc FileName) (after : Folder FileName Time) : Prop where
  holds : ∀ path, result = .ok path → after.content? path = some source
  raises : before.find? fileHash = none → ∀ error left, host.failure = some (error, left) → result = .error error
  restored : ∀ error, result = .error error → after = before

/-- When the download does not raise, all is well if the path holds the source. -/
theorem Usable.ok_iff {host : CacheHost Time} {fileHash path : FileName} {source : Bytes}
    {before after : Folder FileName Time} (works : before.find? fileHash = none → host.failure = none) :
    Usable host fileHash source before (.ok path) after ↔ after.content? path = some source := by
  constructor
  · intro usable
    exact usable.holds path rfl
  · intro holds
    refine ⟨?_, ?_, ?_⟩
    · rintro _ ⟨⟩
      exact holds
    · intro missing error left fails
      rw [works missing] at fails
      cases fails
    · rintro _ ⟨⟩

/-- What is under the name of the source is the source, and a source that is downloaded fits into the cache together
with the files that the order has behind it. -/
structure Fits [LinearOrder Time] (config : CacheConfig) (host : CacheHost Time) (fileHash : FileName) (source : Bytes)
    (folder : Folder FileName Time) : Prop where
  cached : ∀ entry, folder.find? fileHash = some entry → entry.node.content? = some source
  room : folder.find? fileHash = none → host.failure = none →
    source.length + total CacheEntry.size ((cacheEntries folder).filter fun file =>
      (⟨host.now, source.length, fileHash⟩ : CacheEntry Time).key config.sourceCacheDir <
        file.key config.sourceCacheDir) ≤ config.sourceCacheMaxBytes

/-- `fetch_source` does what it is for exactly if the source fits. -/
theorem Worker.fetchSource_usable_iff [LinearOrder Time] (config : CacheConfig)
    (budget : 0 ≤ config.sourceCacheMaxBytes) (host : CacheHost Time) (world : CacheWorld Time) (fileHash : FileName)
    (source : Bytes) (stored : world.store (sourceKey fileHash) = some (.source source)) :
    Usable host fileHash source world.folder ((fetchSource config fileHash).eval host.serve [] world).1
        ((fetchSource config fileHash).eval host.serve [] world).2.2.folder ↔
      Fits config host fileHash source world.folder := by
  cases found : world.folder.find? fileHash with
  | some entry =>
    obtain ⟨seen, after, run, same⟩ := fetchSource_cached config host [] found
    rw [run, Usable.ok_iff fun missing => absurd (found.symm.trans missing) (Option.some_ne_none entry), same]
    constructor
    · intro holds
      refine ⟨?_, fun missing => absurd (found.symm.trans missing) (Option.some_ne_none entry)⟩
      intro other there
      cases Option.some.inj (found.symm.trans there)
      exact holds
    · intro fits
      exact fits.cached entry found
  | none =>
    cases failure : host.failure with
    | some failed =>
      obtain ⟨error, left⟩ := failed
      obtain ⟨seen, run⟩ := fetchSource_raises config host [] found failure
      rw [run]
      refine iff_of_true ⟨?_, ?_, ?_⟩ ⟨?_, ?_⟩
      · rintro _ ⟨⟩
      · intro _ other rest fails
        cases Option.some.inj (failure.symm.trans fails)
        rfl
      · intro _ _
        rfl
      · intro entry there
        exact absurd (there.symm.trans found) (Option.some_ne_none entry)
      · intro _ works
        exact absurd (failure.symm.trans works) (Option.some_ne_none _)
    | none =>
      obtain ⟨seen, after, removed, kept, run, pruned⟩ := fetchSource_pruned config host [] found budget failure stored
      have listed := cacheEntries_put found source host.now
      rw [run, Usable.ok_iff fun _ => failure, pruned.content?_eq_some_iff,
        pruned.mem_kept_iff (listed ▸ List.mem_append_right _ (List.mem_singleton_self _)), listed, List.filter_append,
        List.filter_singleton, decide_eq_false (lt_irrefl _), cond_false, List.append_nil]
      constructor
      · intro room
        refine ⟨?_, fun _ _ => room⟩
        intro entry there
        exact absurd (there.symm.trans found) (Option.some_ne_none entry)
      · intro fits
        exact fits.room found failure

/-- The name of a source. -/
def sampleHash : FileName := ⟨lit "hash", by decide⟩

/-- A bucket with a source of three bytes. -/
def sampleStore : Store := fun _ => some (.source [1, 2, 3])

/-- With room for four bytes the new file is kept. -/
theorem Worker.fetchSource_usable_sampleFolder :
    Usable (sampleHost 7) sampleHash [1, 2, 3] sampleFolder
      ((fetchSource ⟨lit "/cache", 4⟩ sampleHash).eval (sampleHost 7).serve [] ⟨sampleFolder, sampleStore⟩).1
      ((fetchSource ⟨lit "/cache", 4⟩ sampleHash).eval (sampleHost 7).serve []
        ⟨sampleFolder, sampleStore⟩).2.2.folder := by
  refine (fetchSource_usable_iff ⟨lit "/cache", 4⟩ (by decide) (sampleHost 7) ⟨sampleFolder, sampleStore⟩ sampleHash
    [1, 2, 3] rfl).mpr ⟨?_, ?_⟩
  · have missing : sampleFolder.find? sampleHash = none := by decide +kernel
    rw [missing]
    rintro _ ⟨⟩
  · intro _ _
    decide +kernel

/-- With room for two bytes the new file is removed again, and the path that is returned stands for nothing. -/
theorem Worker.fetchSource_path_missing :
    sampleStore (sourceKey sampleHash) = some (.source [1, 2, 3]) ∧
      ((fetchSource ⟨lit "/cache", 2⟩ sampleHash).eval (sampleHost 7).serve [] ⟨Table.empty, sampleStore⟩).1 =
        .ok sampleHash ∧
      ((fetchSource ⟨lit "/cache", 2⟩ sampleHash).eval (sampleHost 7).serve []
        ⟨Table.empty, sampleStore⟩).2.2.folder.find? sampleHash = none ∧
      ¬ Usable (sampleHost 7) sampleHash [1, 2, 3] Table.empty
        ((fetchSource ⟨lit "/cache", 2⟩ sampleHash).eval (sampleHost 7).serve [] ⟨Table.empty, sampleStore⟩).1
        ((fetchSource ⟨lit "/cache", 2⟩ sampleHash).eval (sampleHost 7).serve []
          ⟨Table.empty, sampleStore⟩).2.2.folder := by
  have returned : ((fetchSource ⟨lit "/cache", 2⟩ sampleHash).eval (sampleHost 7).serve []
      ⟨Table.empty, sampleStore⟩).1 = .ok sampleHash := rfl
  have gone : ((fetchSource ⟨lit "/cache", 2⟩ sampleHash).eval (sampleHost 7).serve []
      ⟨Table.empty, sampleStore⟩).2.2.folder.find? sampleHash = none := by decide +kernel
  refine ⟨rfl, returned, gone, fun usable => ?_⟩
  have holds := usable.holds sampleHash returned
  rw [Folder.content?, gone] at holds
  cases holds

end MarkitdownServer
