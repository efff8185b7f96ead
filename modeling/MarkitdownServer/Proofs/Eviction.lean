import Mathlib.Algebra.Order.Ring.Int
import MarkitdownServer.Model.SourceCache

/-! # What pruning the cache removes

The loop removes files in the order of their last use while the rest is too large, and it checks before each
removal. So it removes the shortest beginning of that order after which the rest fits.
-/

namespace MarkitdownServer

open Effects Effects.Program Files Relational

variable {Time : Type}

/-- The files of a folder as `prune_source_cache` lists them. -/
def cacheFile? (entry : Entry FileName Time) : Option (CacheEntry Time) :=
  match entry.node with
  | .file content atime => some ⟨atime, content.length, entry.name⟩
  | .folder => none

def cacheEntries (folder : Folder FileName Time) : List (CacheEntry Time) := folder.rows.filterMap cacheFile?

/-- The size of the files of a folder. -/
def cacheBytes (folder : Folder FileName Time) : ℕ := total CacheEntry.size (cacheEntries folder)

theorem cacheFile?_eq_some_iff {entry : Entry FileName Time} {file : CacheEntry Time} :
    cacheFile? entry = some file ↔ entry.name = file.name ∧
      ∃ content, entry.node = .file content file.atime ∧ content.length = file.size := by
  obtain ⟨name, node⟩ := entry
  cases node with
  | folder => simp [cacheFile?]
  | file content atime =>
    obtain ⟨used, size, other⟩ := file
    simp only [cacheFile?, Option.some.injEq, CacheEntry.mk.injEq, Node.file.injEq]
    constructor
    · rintro ⟨rfl, rfl, rfl⟩
      exact ⟨rfl, content, ⟨rfl, rfl⟩, rfl⟩
    · rintro ⟨rfl, _, ⟨rfl, rfl⟩, rfl⟩
      exact ⟨rfl, rfl, rfl⟩

theorem map_name_cacheEntries (rows : List (Entry FileName Time)) :
    ((rows.filterMap cacheFile?).map CacheEntry.name).Sublist (rows.map Entry.name) := by
  induction rows with
  | nil => exact .slnil
  | cons entry rows ih =>
    cases file : cacheFile? entry with
    | none =>
      rw [List.filterMap_cons_none file]
      exact ih.cons _
    | some listed =>
      rw [List.filterMap_cons_some file, List.map_cons, List.map_cons, (cacheFile?_eq_some_iff.mp file).1]
      exact ih.cons_cons _

theorem nodup_cacheEntries (folder : Folder FileName Time) : ((cacheEntries folder).map CacheEntry.name).Nodup :=
  folder.unique.sublist (map_name_cacheEntries folder.rows)

theorem mem_cacheEntries_iff {folder : Folder FileName Time} {file : CacheEntry Time} :
    file ∈ cacheEntries folder ↔
      ∃ content, folder.find? file.name = some ⟨file.name, .file content file.atime⟩ ∧ content.length = file.size := by
  rw [cacheEntries, List.mem_filterMap]
  constructor
  · rintro ⟨⟨name, node⟩, member, listed⟩
    obtain ⟨same, content, isFile, length⟩ := cacheFile?_eq_some_iff.mp listed
    dsimp only at same isFile
    subst same isFile
    exact ⟨content, (folder.find?_eq_some_iff _ _).mpr ⟨member, rfl⟩, length⟩
  · rintro ⟨content, found, length⟩
    exact ⟨_, ((folder.find?_eq_some_iff _ _).mp found).1, cacheFile?_eq_some_iff.mpr ⟨rfl, content, rfl, length⟩⟩

theorem cacheEntries_filter {before after : Folder FileName Time} {names : List FileName}
    (rows : after.rows = before.rows.filter fun entry => entry.name ∉ names) :
    cacheEntries after = (cacheEntries before).filter fun file => file.name ∉ names := by
  rw [cacheEntries, cacheEntries, rows, List.filterMap_filter, List.filter_filterMap]
  refine List.filterMap_congr fun entry _ => ?_
  cases listed : cacheFile? entry with
  | none => simp
  | some file => simp [(cacheFile?_eq_some_iff.mp listed).1, Option.filter_some]

/-! ## The two loops -/

namespace Worker

variable (host : CacheHost Time)

/-- The first loop lists the files and adds up their sizes. -/
theorem statEntries_eval (world : CacheWorld Time) (rows : List (Entry FileName Time))
    (inside : ∀ entry ∈ rows, entry ∈ world.folder.rows) (entries : List (CacheEntry Time)) (bytes : ℤ)
    (calls : List (Call CacheOp (CacheOp.Reply Time) Exc)) :
    ∃ seen, (statEntries (rows.map Entry.name) entries bytes).eval host.serve calls world =
      (.ok (entries ++ rows.filterMap cacheFile?, bytes + total CacheEntry.size (rows.filterMap cacheFile?)), seen,
        world) := by
  induction rows generalizing entries bytes calls with
  | nil =>
    refine ⟨calls, ?_⟩
    simp only [List.map_nil, statEntries, List.filterMap_nil, List.append_nil, total_nil, Nat.cast_zero, add_zero]
    rfl
  | cons entry rows ih =>
    have found : world.folder.find? entry.name = some entry :=
      (world.folder.find?_eq_some_iff _ _).mpr ⟨inside entry (List.mem_cons_self ..), rfl⟩
    have others := ih fun other member => inside other (List.mem_cons_of_mem _ member)
    rw [List.map_cons, statEntries, monad_bind, eval_perform_ok (host.serve_file calls (host.exec_isfile entry.name))]
    obtain ⟨name, node⟩ := entry
    cases node with
    | folder =>
      obtain ⟨seen, rest⟩ := others entries bytes _
      simp only [Folder.content?, found, Option.bind_some, Node.content?, Option.isSome_none, Bool.false_eq_true,
        if_false]
      have skipped : cacheFile? (⟨name, .folder⟩ : Entry FileName Time) = none := rfl
      rw [List.filterMap_cons_none skipped]
      exact ⟨seen, rest⟩
    | file content atime =>
      obtain ⟨seen, rest⟩ := others (entries ++ [⟨atime, content.length, name⟩]) (bytes + content.length) _
      simp only [Folder.content?, found, Option.bind_some, Node.content?, Option.isSome_some, if_true]
      have listed : cacheFile? ⟨name, .file content atime⟩ = some ⟨atime, content.length, name⟩ := rfl
      rw [monad_bind, eval_perform_ok (host.serve_file _ (host.exec_stat found)), List.filterMap_cons_some listed,
        total_cons]
      refine ⟨seen, rest.trans ?_⟩
      simp only [List.append_assoc, List.singleton_append, Nat.cast_add, add_assoc]

/-- The second loop removes the shortest beginning of its list after which the rest fits. -/
theorem removeEntries_eval {maxBytes : ℤ} (budget : 0 ≤ maxBytes) (files : List (CacheEntry Time))
    (world : CacheWorld Time) (present : ∀ file ∈ files, file ∈ cacheEntries world.folder)
    (nodup : (files.map CacheEntry.name).Nodup) (calls : List (Call CacheOp (CacheOp.Reply Time) Exc)) :
    ∃ removed kept seen after, Evicts CacheEntry.size maxBytes files removed kept ∧
      (removeEntries maxBytes files (total CacheEntry.size files)).eval host.serve calls world =
        (.ok (), seen, { world with folder := after }) ∧
      after.rows = world.folder.rows.filter fun entry => entry.name ∉ removed.map CacheEntry.name := by
  induction files generalizing world calls with
  | nil => exact ⟨[], [], calls, world.folder, .stop budget, rfl, by simp⟩
  | cons file files ih =>
    rw [removeEntries]
    split_ifs with fits
    · exact ⟨[], file :: files, calls, world.folder, .stop fits, rfl, by simp⟩
    · obtain ⟨content, found, _⟩ := mem_cacheEntries_iff.mp (present file (List.mem_cons_self ..))
      obtain ⟨new, others⟩ := List.nodup_cons.mp nodup
      have remaining : ∀ other ∈ files, other ∈ cacheEntries (world.folder.delete file.name) := by
        intro other member
        have different : file.name ≠ other.name := fun same => new (same ▸ List.mem_map_of_mem member)
        obtain ⟨bytes, there, length⟩ := mem_cacheEntries_iff.mp (present other (List.mem_cons_of_mem _ member))
        refine mem_cacheEntries_iff.mpr ⟨bytes, ?_, length⟩
        rw [Table.find?_delete, if_neg different, there]
      obtain ⟨removed, kept, seen, after, evicts, rest, rows⟩ :=
        ih { world with folder := world.folder.delete file.name } remaining others
          (calls ++ [⟨.file (.remove file.name), .ok ()⟩])
      refine ⟨file :: removed, kept, seen, after, evicts.step (not_le.mp fits), ?_, ?_⟩
      · rw [monad_bind, eval_perform_ok (host.serve_file calls (host.exec_remove found))]
        have left : (total CacheEntry.size (file :: files) : ℤ) - file.size = total CacheEntry.size files := by
          rw [total_cons]
          omega
        rw [left]
        exact rest
      · rw [rows, Table.rows_delete, List.filter_filter]
        refine List.filter_congr fun entry _ => ?_
        rw [← Bool.decide_and, decide_eq_decide, List.map_cons, List.mem_cons, not_or, and_comm]

end Worker

/-! ## The whole function -/

theorem joinPath_injective (dir : Str) : Function.Injective (joinPath dir) := by
  intro first second same
  unfold joinPath at same
  refine Subtype.ext ?_
  split_ifs at same
  · exact List.append_cancel_left same
  · exact (List.cons_eq_cons.mp (List.append_cancel_left same)).2

theorem CacheEntry.injective_key (dir : Str) : Function.Injective (@CacheEntry.key Time dir) := by
  rintro ⟨used, size, name⟩ ⟨_, _, other⟩ same
  cases congrArg (fun key => (ofLex key).1) same
  cases congrArg (fun key => (ofLex (ofLex key).2).1) same
  cases joinPath_injective dir (congrArg (fun key => (ofLex (ofLex key).2).2) same)
  rfl

variable [LinearOrder Time]

namespace CacheEntry

variable (dir : Str)

theorem sort_perm (entries : List (CacheEntry Time)) : (sort dir entries).Perm entries :=
  List.perm_insertionSort _ entries

/-- Two files have different names, so the order is strict. -/
theorem sort_sorted {entries : List (CacheEntry Time)} (nodup : (entries.map name).Nodup) :
    (sort dir entries).Pairwise fun first second => first.key dir < second.key dir := by
  have different : (sort dir entries).Nodup := (sort_perm dir entries).nodup_iff.mpr (.of_map name nodup)
  have ordered : (sort dir entries).Pairwise fun first second => first.key dir ≤ second.key dir :=
    haveI : Std.Total fun first second : CacheEntry Time => first.key dir ≤ second.key dir := ⟨fun _ _ => le_total _ _⟩
    haveI : IsTrans (CacheEntry Time) fun first second => first.key dir ≤ second.key dir := ⟨fun _ _ _ => le_trans⟩
    List.pairwise_insertionSort _ entries
  refine (ordered.and different).imp ?_
  rintro first second ⟨le, ne⟩
  exact lt_of_le_of_ne le fun same => ne (injective_key dir same)

/-- A file that comes earlier in the order was not used later. -/
theorem atime_le_of_key_lt {first second : CacheEntry Time} (less : first.key dir < second.key dir) :
    first.atime ≤ second.atime := by
  rcases Prod.Lex.lt_iff.mp less with earlier | ⟨same, _⟩
  · exact le_of_lt earlier
  · exact le_of_eq same

end CacheEntry

/-- The files that are gone and those that are left, in the order of their last use, size and path. -/
structure Pruned (dir : Str) (budget : ℤ) (before after : Folder FileName Time)
    (removed kept : List (CacheEntry Time)) : Prop where
  files : (removed ++ kept).Perm (cacheEntries before)
  sorted : (removed ++ kept).Pairwise fun first second => first.key dir < second.key dir
  rows : after.rows = before.rows.filter fun entry => entry.name ∉ removed.map CacheEntry.name
  remaining : (cacheEntries after).Perm kept
  fits : cacheBytes after ≤ budget
  oldest : ∀ gone ∈ removed, ∀ stays ∈ kept, gone.atime ≤ stays.atime
  needed : ∀ last ∈ removed.getLast?, budget < cacheBytes after + last.size
  unchanged : cacheBytes before ≤ budget → removed = [] ∧ after = before

/-- Taking the shortest beginning of the files in their order away is pruning. -/
theorem Pruned.of_evicts {dir : Str} {budget : ℤ} {before after : Folder FileName Time}
    {removed kept : List (CacheEntry Time)}
    (evicts : Evicts CacheEntry.size budget (CacheEntry.sort dir (cacheEntries before)) removed kept)
    (rows : after.rows = before.rows.filter fun entry => entry.name ∉ removed.map CacheEntry.name) :
    Pruned dir budget before after removed kept := by
  have files := CacheEntry.sort_perm dir (cacheEntries before)
  have sorted := CacheEntry.sort_sorted dir (nodup_cacheEntries before)
  have names := (files.map CacheEntry.name).nodup_iff.mpr (nodup_cacheEntries before)
  have bytes := total_perm CacheEntry.size files
  rw [evicts.split] at files sorted names
  have remaining : (cacheEntries after).Perm kept := by
    rw [cacheEntries_filter rows]
    refine (files.symm.filter _).trans ?_
    rw [List.map_append] at names
    have disjoint := (List.nodup_append.mp names).2.2
    rw [List.filter_append, List.filter_eq_nil_iff.mpr fun file gone => by simpa using ⟨file, gone, rfl⟩,
      List.filter_eq_self.mpr fun file stays => ?_, List.nil_append]
    refine decide_eq_true fun gone => ?_
    exact disjoint _ gone _ (List.mem_map_of_mem stays) rfl
  have left : cacheBytes after = total CacheEntry.size kept := total_perm CacheEntry.size remaining
  refine ⟨files, sorted, rows, remaining, ?_, ?_, ?_, ?_⟩
  · rw [left]
    exact evicts.fits
  · intro gone isGone stays isKept
    exact CacheEntry.atime_le_of_key_lt dir ((List.pairwise_append.mp sorted).2.2 gone isGone stays isKept)
  · rw [left]
    exact evicts.needed
  · intro fits
    have nothing := evicts.removed_eq_nil (bytes ▸ fits)
    refine ⟨nothing, ?_⟩
    refine Table.ext (rows.trans (List.filter_eq_self.mpr fun entry _ => ?_))
    rw [nothing]
    rfl

/-- A file is kept exactly if it fits together with the files behind it in the order. -/
theorem Pruned.mem_kept_iff {dir : Str} {budget : ℤ} {before after : Folder FileName Time}
    {removed kept : List (CacheEntry Time)} (pruned : Pruned dir budget before after removed kept)
    {file : CacheEntry Time} (listed : file ∈ cacheEntries before) :
    file ∈ kept ↔ file.size +
      total CacheEntry.size ((cacheEntries before).filter fun other => file.key dir < other.key dir) ≤ budget := by
  have left : cacheBytes after = total CacheEntry.size kept := total_perm CacheEntry.size pruned.remaining
  have evicts : Evicts CacheEntry.size budget (removed ++ kept) removed kept :=
    ⟨rfl, left ▸ pruned.fits, left ▸ pruned.needed⟩
  obtain ⟨front, back, place⟩ := List.append_of_mem (pruned.files.mem_iff.mpr listed)
  have sorted := pruned.sorted
  have nodup : (removed ++ kept).Nodup := sorted.imp fun less => ne_of_apply_ne (CacheEntry.key dir) less.ne
  rw [place, List.pairwise_append, List.pairwise_cons] at sorted
  have behind : ((cacheEntries before).filter fun other => file.key dir < other.key dir).Perm back := by
    refine (pruned.files.symm.filter _).trans ?_
    rw [place, List.filter_append, List.filter_cons_of_neg (by simp), List.filter_eq_nil_iff.mpr, List.nil_append,
      List.filter_eq_self.mpr]
    · intro other later
      exact decide_eq_true (sorted.2.1.1 other later)
    · intro other earlier
      have less := sorted.2.2 other earlier file (List.mem_cons_self ..)
      simpa using less.le
  rw [evicts.mem_kept_iff place nodup, total_perm CacheEntry.size behind]

theorem Worker.pruneSourceCache_eval (config : CacheConfig) (maxBytes : Option ℤ)
    (budget : 0 ≤ maxBytes.getD config.sourceCacheMaxBytes) (host : CacheHost Time) (world : CacheWorld Time)
    (calls : List (Call CacheOp (CacheOp.Reply Time) Exc)) :
    ∃ seen after removed kept,
      (pruneSourceCache config maxBytes).eval host.serve calls world = (.ok (), seen, { world with folder := after }) ∧
      Evicts CacheEntry.size (maxBytes.getD config.sourceCacheMaxBytes)
        (CacheEntry.sort config.sourceCacheDir (cacheEntries world.folder)) removed kept ∧
      after.rows = world.folder.rows.filter fun entry => entry.name ∉ removed.map CacheEntry.name := by
  set dir := config.sourceCacheDir
  set limit := maxBytes.getD config.sourceCacheMaxBytes
  have files := CacheEntry.sort_perm dir (cacheEntries world.folder)
  have names := (files.map CacheEntry.name).nodup_iff.mpr (nodup_cacheEntries world.folder)
  obtain ⟨listed, listing⟩ := statEntries_eval host world world.folder.rows (fun _ member => member) [] 0
    (calls ++ [⟨.file .listdir, .ok (world.folder.rows.map Entry.name)⟩])
  obtain ⟨removed, kept, seen, after, evicts, removal, rows⟩ :=
    removeEntries_eval host budget (CacheEntry.sort dir (cacheEntries world.folder)) world
      (fun file member => files.mem_iff.mp member) names listed
  refine ⟨seen, after, removed, kept, ?_, evicts, rows⟩
  rw [total_perm CacheEntry.size files] at removal
  rw [pruneSourceCache, monad_bind, eval_bind, eval_attempt, monad_bind,
    eval_perform_ok (host.serve_file calls host.exec_listdir), monad_bind, eval_bind, listing]
  simp only [List.nil_append, zero_add]
  rw [← cacheEntries, removal]
  rfl

/-- `prune_source_cache` removes the shortest beginning of the files in the order of their last use after which the
rest is within the budget. -/
theorem Worker.pruneSourceCache_evicts (config : CacheConfig) (maxBytes : Option ℤ)
    (budget : 0 ≤ maxBytes.getD config.sourceCacheMaxBytes) (host : CacheHost Time) (world : CacheWorld Time)
    (calls : List (Call CacheOp (CacheOp.Reply Time) Exc)) :
    ∃ seen after removed kept,
      (pruneSourceCache config maxBytes).eval host.serve calls world = (.ok (), seen, { world with folder := after }) ∧
      Pruned config.sourceCacheDir (maxBytes.getD config.sourceCacheMaxBytes) world.folder after removed kept := by
  obtain ⟨seen, after, removed, kept, pruning, evicts, rows⟩ :=
    pruneSourceCache_eval config maxBytes budget host world calls
  exact ⟨seen, after, removed, kept, pruning, .of_evicts evicts rows⟩

/-- A host whose downloads succeed. -/
def sampleHost (now : ℕ) : CacheHost ℕ := ⟨sampleDisk now, none⟩

/-- Three files, two of them last used at the same time. -/
def sampleFolder : Folder FileName ℕ :=
  Folder.put (Folder.put (Folder.put Table.empty ⟨lit "a", by decide⟩ [1, 2] 5) ⟨lit "b", by decide⟩ [3, 4, 5] 4)
    ⟨lit "c", by decide⟩ [6, 7, 8, 9] 5

/-- With room for six bytes the oldest of the three files goes. -/
theorem Worker.pruneSourceCache_sampleFolder :
    ∃ seen after removed kept,
      (pruneSourceCache ⟨lit "/cache", 0⟩ (some 6)).eval (sampleHost 7).serve [] ⟨sampleFolder, fun _ => none⟩ =
        (.ok (), seen, ⟨after, fun _ => none⟩) ∧
      Pruned (lit "/cache") 6 sampleFolder after removed kept :=
  pruneSourceCache_evicts ⟨lit "/cache", 0⟩ (some 6) (by decide) (sampleHost 7) ⟨sampleFolder, fun _ => none⟩ []

example : ((Worker.pruneSourceCache ⟨lit "/cache", 0⟩ (some 6)).eval (sampleHost 7).serve []
    ⟨sampleFolder, fun _ => none⟩).2.2.folder.rows.map (·.name.val) = [lit "a", lit "c"] := by decide +kernel

end MarkitdownServer
