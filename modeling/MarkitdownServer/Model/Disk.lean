import MarkitdownServer.Lib.Files
import MarkitdownServer.Model.Config

/-! # A folder of a process

Every path that the modeled code uses on a folder is in that folder, so a call goes by the last component of the
path. One process uses the folder. A call raises only for what its path stands for: the suffixes that `mkstemp` is
given here are fixed, and the system accepts them.
-/

namespace MarkitdownServer

open Files Relational

/-- A name in a folder. -/
abbrev FileName : Type := { name : Str // '/' ∉ name }

/-- The exception of an operating system call. -/
def osError : Errno → Exc
  | .noEntry => { name := lit "FileNotFoundError", text := lit "[Errno 2] No such file or directory" }
  | .isFolder => { name := lit "IsADirectoryError", text := lit "[Errno 21] Is a directory" }

/-- What the calls depend on: the time and the new name that `mkstemp` picks. -/
structure Disk (Time : Type) where
  now : Time
  temp : Folder FileName Time → FileName
  fresh : ∀ folder : Folder FileName Time, folder.find? (temp folder) = none

namespace Disk

variable {Time : Type} (disk : Disk Time) {folder : Folder FileName Time}

/-- Carry out a call. -/
def exec (folder : Folder FileName Time) (op : FileOp FileName) : Except Exc (op.Reply Time) × Folder FileName Time :=
  let (reply, after) := folder.exec disk.now (disk.temp folder) op
  (reply.mapError osError, after)

theorem exec_pathExists (name : FileName) :
    disk.exec folder (.pathExists name) = (.ok (folder.find? name).isSome, folder) := rfl

theorem exec_isfile (name : FileName) :
    disk.exec folder (.isfile name) = (.ok (folder.content? name).isSome, folder) := rfl

theorem exec_listdir : disk.exec folder .listdir = (.ok (folder.rows.map Entry.name), folder) := rfl

theorem exec_mkstemp :
    disk.exec folder .mkstemp = (.ok (disk.temp folder), folder.put (disk.temp folder) [] disk.now) := rfl

section OnFile

variable {name : FileName} {content : Bytes} {atime : Time}
  (found : folder.find? name = some ⟨name, .file content atime⟩)

include found

theorem exec_stat : disk.exec folder (.stat name) = (.ok (atime, content.length), folder) := by
  simp only [exec, Folder.exec, Folder.onFile_eq found]
  rfl

theorem exec_truncate : disk.exec folder (.truncate name) = (.ok (), folder.put name [] atime) := by
  simp only [exec, Folder.exec, Folder.onFile_eq found]
  rfl

theorem exec_append (data : Bytes) :
    disk.exec folder (.append name data) = (.ok (), folder.put name (content ++ data) atime) := by
  simp only [exec, Folder.exec, Folder.onFile_eq found]
  rfl

theorem exec_read : disk.exec folder (.read name) = (.ok content, folder) := by
  simp only [exec, Folder.exec, Folder.onFile_eq found]
  rfl

theorem exec_remove : disk.exec folder (.remove name) = (.ok (), folder.delete name) := by
  simp only [exec, Folder.exec, Folder.onFile_eq found]
  rfl

theorem exec_replace {target : FileName}
    (free : ((folder.find? target).any fun entry => entry.node.content?.isNone) = false) :
    disk.exec folder (.replace name target) = (.ok (), Folder.put (folder.delete name) target content atime) := by
  simp only [exec, Folder.exec, Folder.onFile_eq found, free]
  rfl

end OnFile

/-- `utime` keeps the bytes of a file. -/
theorem exec_utime {name : FileName} {entry : Entry FileName Time} (found : folder.find? name = some entry) :
    ∃ after : Folder FileName Time,
      disk.exec folder (.utime name) = (.ok (), after) ∧ after.content? name = entry.node.content? := by
  obtain ⟨other, node⟩ := entry
  cases ((folder.find?_eq_some_iff _ _).mp found).2
  cases node with
  | folder =>
    refine ⟨folder, ?_, ?_⟩
    · simp only [exec, Folder.exec, found]
      rfl
    · rw [Folder.content?, found]
      rfl
  | file content atime =>
    refine ⟨folder.put other content disk.now, ?_, ?_⟩
    · simp only [exec, Folder.exec, Folder.onFile_eq found, found]
      rfl
    · rw [Folder.content?_put_self]
      rfl

/-- A file that was put in a folder is there. -/
theorem exec_pathExists_put (name : FileName) (content : Bytes) (atime : Time) :
    disk.exec (folder.put name content atime) (.pathExists name) = (.ok true, folder.put name content atime) := by
  rw [exec_pathExists, Folder.find?_put_self]
  rfl

/-- Removing a new file restores the folder. -/
theorem exec_remove_put {name : FileName} (fresh : folder.find? name = none) (content : Bytes) (atime : Time) :
    disk.exec (folder.put name content atime) (.remove name) = (.ok (), folder) := by
  rw [disk.exec_remove (folder.find?_put_self name content atime), Folder.delete_put fresh]

/-- A read does not change the folder. -/
theorem snd_exec_read (name : FileName) : (disk.exec folder (.read name)).2 = folder := by
  simp only [exec, Folder.exec, Folder.onFile]
  split <;> rfl

end Disk

variable {Time : Type}

/-- A name that is longer than all names of a folder together. -/
def unusedName (folder : Folder FileName Time) : FileName :=
  ⟨List.replicate (1 + (folder.rows.map fun entry => entry.name.val.length).sum) 'x', by
    rw [List.mem_replicate]
    rintro ⟨_, ⟨⟩⟩⟩

theorem find?_unusedName (folder : Folder FileName Time) : folder.find? (unusedName folder) = none := by
  rw [Table.find?_eq_none_iff]
  intro entry member same
  have bound : entry.name.val.length ≤ (folder.rows.map fun entry => entry.name.val.length).sum :=
    List.le_sum_of_mem (List.mem_map_of_mem member)
  rw [same, unusedName, List.length_replicate] at bound
  omega

/-- A disk that counts the seconds. -/
def sampleDisk (now : ℕ) : Disk ℕ := ⟨now, unusedName, find?_unusedName⟩

end MarkitdownServer
