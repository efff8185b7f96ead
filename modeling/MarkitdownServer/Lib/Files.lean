import Mathlib.Algebra.Order.BigOperators.Group.List
import Mathlib.Algebra.Order.Group.Nat
import Mathlib.Algebra.Order.Ring.Nat
import MarkitdownServer.Lib.Table

/-! # The files of one folder

A folder is a table of entries, each a regular file or a folder of its own. The calls are those of an operating
system on regular files. They go by the names of the entries, and raise when a name stands for nothing or for a
folder. A file has the time of its last use, as the system reports it: `st_atime`, which `utime` sets.
-/

namespace Files

open Relational

/-- What a name stands for; the time of a file is what `os.stat` reports in `st_atime`. -/
inductive Node (Time : Type) where
  | file (content : List UInt8) (atime : Time)
  | folder
deriving DecidableEq

/-- A name and what it stands for. -/
structure Entry (Name Time : Type) where
  name : Name
  node : Node Time
deriving DecidableEq

/-- The entries of a folder. -/
abbrev Folder (Name Time : Type) : Type := Table (Entry Name Time) Name Entry.name

/-- Why a call raises: the name stands for nothing, or for a folder. -/
inductive Errno where
  | noEntry
  | isFolder

/-- The calls. `utime` marks an entry as used now, which is kept for files only, `mkstemp` creates an empty file under
a new name, with a suffix that the system accepts, `truncate` opens a file for writing, and `append` writes to the end
of it. -/
inductive FileOp (Name : Type) where
  | pathExists (name : Name)
  | isfile (name : Name)
  | stat (name : Name)
  | listdir
  | utime (name : Name)
  | mkstemp
  | truncate (name : Name)
  | append (name : Name) (data : List UInt8)
  | read (name : Name)
  | replace (source target : Name)
  | remove (name : Name)

/-- Whether a call reads a file. -/
def FileOp.isRead {Name : Type} : FileOp Name → Bool
  | .read _ => true
  | _ => false

/-- What a call returns; `stat` gives the time of the last use and the size. -/
@[reducible] def FileOp.Reply (Time : Type) {Name : Type} : FileOp Name → Type
  | .pathExists _ | .isfile _ => Bool
  | .stat _ => Time × ℕ
  | .listdir => List Name
  | .mkstemp => Name
  | .read _ => List UInt8
  | _ => Unit

/-- The bytes of a regular file. -/
def Node.content? {Time : Type} : Node Time → Option (List UInt8)
  | .file content _ => some content
  | .folder => none

namespace Folder

variable {Name Time : Type} [DecidableEq Name] (folder : Folder Name Time)

/-- The bytes under a name. -/
def content? (name : Name) : Option (List UInt8) := (folder.find? name).bind fun entry => entry.node.content?

/-- Put a file under a name. -/
def put (name : Name) (content : List UInt8) (atime : Time) : Folder Name Time :=
  folder.insertOrReplace ⟨name, .file content atime⟩

/-- Do something with a regular file, its bytes and the time of its last use. -/
def onFile {α : Type} (name : Name) (use : List UInt8 → Time → α × Folder Name Time) :
    Except Errno α × Folder Name Time :=
  match folder.find? name with
  | some ⟨_, .file content atime⟩ => (.ok (use content atime).1, (use content atime).2)
  | some ⟨_, .folder⟩ => (.error .isFolder, folder)
  | none => (.error .noEntry, folder)

/-- Carry out a call at time `now`; `temp` is the new name of `mkstemp`. -/
def exec (now : Time) (temp : Name) : (op : FileOp Name) → Except Errno (op.Reply Time) × Folder Name Time
  | .pathExists name => (.ok (folder.find? name).isSome, folder)
  | .isfile name => (.ok (folder.content? name).isSome, folder)
  | .stat name => folder.onFile name fun content atime => ((atime, content.length), folder)
  | .listdir => (.ok (folder.rows.map Entry.name), folder)
  | .utime name =>
    if (folder.find? name).any fun entry => entry.node.content?.isNone then (.ok (), folder)
    else folder.onFile name fun content _ => ((), folder.put name content now)
  | .mkstemp => (.ok temp, folder.put temp [] now)
  | .truncate name => folder.onFile name fun _ atime => ((), folder.put name [] atime)
  | .append name data => folder.onFile name fun content atime => ((), folder.put name (content ++ data) atime)
  | .read name => folder.onFile name fun content _ => (content, folder)
  | .replace source target =>
    if (folder.find? target).any fun entry => entry.node.content?.isNone then (.error .isFolder, folder)
    else folder.onFile source fun content atime => ((), put (folder.delete source) target content atime)
  | .remove name => folder.onFile name fun _ _ => ((), folder.delete name)

variable {folder}

theorem onFile_eq {α : Type} {name : Name} {content : List UInt8} {atime : Time}
    (found : folder.find? name = some ⟨name, .file content atime⟩) (use : List UInt8 → Time → α × Folder Name Time) :
    folder.onFile name use = (.ok (use content atime).1, (use content atime).2) := by
  rw [onFile, found]

@[simp] theorem find?_put (folder : Folder Name Time) (name other : Name) (content : List UInt8) (atime : Time) :
    (folder.put name content atime).find? other =
      if name = other then some ⟨name, .file content atime⟩ else folder.find? other :=
  folder.find?_insertOrReplace ⟨name, .file content atime⟩ other

theorem find?_put_self (folder : Folder Name Time) (name : Name) (content : List UInt8) (atime : Time) :
    (folder.put name content atime).find? name = some ⟨name, .file content atime⟩ := by
  rw [find?_put, if_pos rfl]

theorem content?_put_self (folder : Folder Name Time) (name : Name) (content : List UInt8) (atime : Time) :
    (folder.put name content atime).content? name = some content := by
  rw [content?, find?_put_self]
  rfl

@[simp] theorem put_put (folder : Folder Name Time) (name : Name) (content other : List UInt8) (atime later : Time) :
    (folder.put name content atime).put name other later = folder.put name other later :=
  folder.insertOrReplace_of_key_eq rfl

/-- Removing a file that was just created restores the folder. -/
theorem delete_put {name : Name} (fresh : folder.find? name = none) (content : List UInt8) (atime : Time) :
    (folder.put name content atime).delete name = folder :=
  Table.delete_insertOrReplace fresh

end Folder

/-! ## Making room -/

section Room

variable {α : Type} (size : α → ℕ)

/-- What some items take together. -/
def total (items : List α) : ℕ := (items.map size).sum

@[simp] theorem total_nil : total size [] = 0 := rfl

@[simp] theorem total_cons (item : α) (items : List α) : total size (item :: items) = size item + total size items :=
  List.sum_cons

@[simp] theorem total_append (first second : List α) :
    total size (first ++ second) = total size first + total size second := by
  simp [total]

theorem total_perm {first second : List α} (same : first.Perm second) : total size first = total size second :=
  (same.map size).sum_eq

/-- The shortest beginning of a queue is removed after which the rest fits. -/
structure Evicts (budget : ℤ) (queue removed kept : List α) : Prop where
  split : queue = removed ++ kept
  fits : total size kept ≤ budget
  needed : ∀ last ∈ removed.getLast?, budget < total size kept + size last

variable {size} {budget : ℤ} {queue removed kept : List α}

/-- A queue that fits stays as it is. -/
theorem Evicts.stop (fits : total size queue ≤ budget) : Evicts size budget queue [] queue :=
  ⟨rfl, fits, by rintro _ ⟨⟩⟩

/-- The head of a queue that is too large is removed. -/
theorem Evicts.step {item : α} (evicts : Evicts size budget queue removed kept)
    (large : budget < total size (item :: queue)) : Evicts size budget (item :: queue) (item :: removed) kept := by
  refine ⟨?_, evicts.fits, ?_⟩
  · rw [evicts.split, List.cons_append]
  · intro last isLast
    cases removed with
    | nil =>
      rw [List.getLast?_singleton, Option.mem_some] at isLast
      subst isLast
      rw [evicts.split, List.nil_append, total_cons] at large
      omega
    | cons second removed => exact evicts.needed last isLast

/-- A queue that fits is kept. -/
theorem Evicts.removed_eq_nil (evicts : Evicts size budget queue removed kept) (fits : total size queue ≤ budget) :
    removed = [] := by
  cases last : removed.getLast? with
  | none => exact List.getLast?_eq_none_iff.mp last
  | some item =>
    have needed := evicts.needed item last
    obtain ⟨front, rfl⟩ := List.getLast?_eq_some_iff.mp last
    rw [evicts.split, total_append, total_append, total_cons, total_nil] at fits
    omega

/-- An item is kept exactly if it fits together with what is behind it. -/
theorem Evicts.mem_kept_iff (evicts : Evicts size budget queue removed kept) {front back : List α} {item : α}
    (place : queue = front ++ item :: back) (nodup : queue.Nodup) :
    item ∈ kept ↔ (size item + total size back : ℤ) ≤ budget := by
  have fits := evicts.fits
  rcases List.append_eq_append_iff.mp (evicts.split.symm.trans place) with
    ⟨middle, rfl, rfl⟩ | ⟨middle, rfl, rest⟩
  · rw [total_append, total_cons] at fits
    refine iff_of_true (List.mem_append_right _ (List.mem_cons_self ..)) ?_
    omega
  · cases middle with
    | nil =>
      cases rest
      rw [total_cons] at fits
      refine iff_of_true (List.mem_cons_self ..) ?_
      omega
    | cons head middle =>
      rw [List.cons_append] at rest
      obtain ⟨rfl, rfl⟩ := List.cons_eq_cons.mp rest
      refine iff_of_false ?_ ?_
      · intro stays
        rw [place] at nodup
        exact (List.nodup_cons.mp (List.nodup_append.mp nodup).2.1).1 (List.mem_append_right _ stays)
      · have last : ∃ final ∈ (front ++ item :: middle).getLast?, size final ≤ total size (item :: middle) := by
          refine ⟨(item :: middle).getLast (List.cons_ne_nil _ _), ?_, ?_⟩
          · rw [List.getLast?_append_of_ne_nil _ (List.cons_ne_nil _ _), List.getLast?_eq_getLast_of_ne_nil]
            rfl
          · exact List.le_sum_of_mem (List.mem_map_of_mem (List.getLast_mem _))
        obtain ⟨final, isLast, small⟩ := last
        have needed := evicts.needed final isLast
        rw [total_cons] at small
        rw [total_append]
        omega

end Room

end Files
