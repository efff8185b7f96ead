import Mathlib.Data.List.Nodup
import Mathlib.Data.List.Count

/-! # Tables with a primary key

A table is its list of rows in insertion order, no two with the same key. An `UPDATE … WHERE`
rewrites every matching row and may not touch the key, so it keeps the key constraint; an insertion
is refused when the key is taken. The counting lemmas follow a column predicate through an update
that can match one row only, because it names the key.
-/

namespace Relational

/-- Rows with pairwise different keys. -/
@[ext] structure Table (Row Key : Type) (key : Row → Key) where
  rows : List Row
  unique : (rows.map key).Nodup

namespace Table

variable {Row Key : Type} {key : Row → Key}

def empty : Table Row Key key := ⟨[], List.nodup_nil⟩

section Operations

variable [DecidableEq Key]

/-- `SELECT * … WHERE key = ?`. -/
def find? (table : Table Row Key key) (k : Key) : Option Row :=
  table.rows.find? fun row => key row = k

/-- `INSERT`; refused when the key is taken. -/
def insert? (table : Table Row Key key) (row : Row) : Option (Table Row Key key) :=
  if fresh : key row ∈ table.rows.map key then none
  else some ⟨table.rows ++ [row], by
    rw [List.map_append]
    exact List.nodup_append.mpr ⟨table.unique, List.nodup_singleton _, by
      intro a member b same equal
      rw [List.map_singleton, List.mem_singleton] at same
      exact fresh (same ▸ equal ▸ member)⟩⟩

/-- `INSERT OR REPLACE`: a row with the same key is deleted first. -/
def insertOrReplace (table : Table Row Key key) (row : Row) : Table Row Key key :=
  ⟨table.rows.filter (fun other => key other ≠ key row) ++ [row], by
    rw [List.map_append]
    refine List.nodup_append.mpr ⟨(table.unique.sublist (List.filter_sublist.map key)), List.nodup_singleton _, ?_⟩
    intro a member b same equal
    rw [List.map_singleton, List.mem_singleton] at same
    obtain ⟨other, selected, rfl⟩ := List.mem_map.mp member
    have different := (List.mem_filter.mp selected).2
    simp only [ne_eq, decide_not, Bool.not_eq_eq_eq_not, Bool.not_true, decide_eq_false_iff_not] at different
    exact different (equal.trans same)⟩

/-- `DELETE … WHERE key = ?`. -/
def delete (table : Table Row Key key) (k : Key) : Table Row Key key :=
  ⟨table.rows.filter fun row => key row ≠ k, table.unique.sublist (List.filter_sublist.map key)⟩

end Operations

/-- `UPDATE … SET … WHERE …`, the key columns not among those set. -/
def update (table : Table Row Key key) (selects : Row → Bool) (set : Row → Row)
    (keeps : ∀ row, key (set row) = key row) : Table Row Key key :=
  ⟨table.rows.map fun row => if selects row then set row else row, by
    have same : key ∘ (fun row => if selects row then set row else row) = key := by
      funext row
      simp only [Function.comp_apply]
      split
      · exact keeps row
      · rfl
    rw [List.map_map, same]
    exact table.unique⟩

@[simp] theorem rows_empty : (empty : Table Row Key key).rows = [] := rfl

@[simp] theorem rows_update (table : Table Row Key key) (selects : Row → Bool) (set : Row → Row)
    (keeps : ∀ row, key (set row) = key row) :
    (table.update selects set keeps).rows =
      table.rows.map fun row => if selects row then set row else row := rfl

/-- An update keeps the keys and their order. -/
theorem map_key_update (table : Table Row Key key) (selects : Row → Bool) (set : Row → Row)
    (keeps : ∀ row, key (set row) = key row) :
    (table.update selects set keeps).rows.map key = table.rows.map key := by
  rw [rows_update, List.map_map]
  refine List.map_congr_left fun row _ => ?_
  simp only [Function.comp_apply]
  split
  · exact keeps row
  · rfl

/-- An update keeps what it does not set. -/
theorem map_update {Column : Type} (column : Row → Column) (table : Table Row Key key) (selects : Row → Bool)
    (set : Row → Row) (keeps : ∀ row, key (set row) = key row) (unset : ∀ row, column (set row) = column row) :
    (table.update selects set keeps).rows.map column = table.rows.map column := by
  rw [rows_update, List.map_map]
  refine List.map_congr_left fun row _ => ?_
  simp only [Function.comp_apply]
  split
  · exact unset row
  · rfl

theorem eq_of_key {table : Table Row Key key} {first second : Row} (one : first ∈ table.rows)
    (two : second ∈ table.rows) (same : key first = key second) : first = second :=
  List.inj_on_of_nodup_map table.unique one two same

/-- An update confined to one key changes a count by what it changes in that row. -/
theorem countP_update (table : Table Row Key key) (selects : Row → Bool) (set : Row → Row)
    (keeps : ∀ row, key (set row) = key row) (counts : Row → Bool) {row : Row} (member : row ∈ table.rows)
    (confined : ∀ other ∈ table.rows, selects other = true → key other = key row) :
    (table.update selects set keeps).rows.countP counts + (if counts row then 1 else 0) =
      table.rows.countP counts + (if counts (if selects row then set row else row) then 1 else 0) := by
  obtain ⟨before, after, split⟩ := List.append_of_mem member
  have others : ∀ other ∈ before ++ after, selects other = false := by
    intro other present
    by_contra selected
    have inTable : other ∈ table.rows := by
      rw [split]
      exact List.perm_middle.mem_iff.mpr (List.mem_cons_of_mem _ present)
    have same := eq_of_key inTable member (confined other inTable (by simpa using selected))
    have nodup : (before ++ row :: after).Nodup := split ▸ List.Nodup.of_map key table.unique
    exact (List.nodup_middle.mp nodup).notMem (same ▸ present)
  have fixed (part : List Row) (inside : ∀ other ∈ part, other ∈ before ++ after) :
      part.map (fun other => if selects other then set other else other) = part := by
    conv_rhs => rw [← List.map_id part]
    exact List.map_congr_left fun other present => by simp [others other (inside other present)]
  rw [rows_update, split, List.map_append, List.map_cons,
    fixed before fun other present => List.mem_append_left _ present,
    fixed after fun other present => List.mem_append_right _ present]
  simp only [List.countP_append, List.countP_cons]
  omega

/-- An update that leaves a predicate alone on the rows it matches leaves its count alone. -/
theorem countP_update_of_agree (table : Table Row Key key) (selects : Row → Bool) (set : Row → Row)
    (keeps : ∀ row, key (set row) = key row) (counts : Row → Bool)
    (agree : ∀ row ∈ table.rows, selects row = true → counts (set row) = counts row) :
    (table.update selects set keeps).rows.countP counts = table.rows.countP counts := by
  rw [rows_update, List.countP_map]
  refine List.countP_congr fun row member => ?_
  simp only [Function.comp_apply]
  split
  · next selected => rw [agree row member selected]
  · rfl

/-- An update that matches no row changes nothing. -/
theorem update_eq_self (table : Table Row Key key) (selects : Row → Bool) (set : Row → Row)
    (keeps : ∀ row, key (set row) = key row) (none : ∀ row ∈ table.rows, selects row = false) :
    table.update selects set keeps = table := by
  refine Table.ext ?_
  rw [rows_update]
  conv_rhs => rw [← List.map_id table.rows]
  exact List.map_congr_left fun row member => by simp [none row member]

/-- An update that sets fixed values can be repeated. -/
theorem update_update (table : Table Row Key key) (selects : Row → Bool) (set : Row → Row)
    (keeps : ∀ row, key (set row) = key row) (fixed : ∀ row, set (set row) = set row) :
    (table.update selects set keeps).update selects set keeps = table.update selects set keeps := by
  refine Table.ext ?_
  simp only [rows_update, List.map_map]
  refine List.map_congr_left fun row _ => ?_
  simp only [Function.comp_apply]
  by_cases selected : selects row = true
  · simp only [selected, if_true, fixed, ite_self]
  · simp only [selected, Bool.false_eq_true, if_false]

variable [DecidableEq Key]

/-- Of two rows with the same key the one that is inserted last stays. -/
theorem insertOrReplace_of_key_eq (table : Table Row Key key) {first second : Row} (same : key first = key second) :
    (table.insertOrReplace first).insertOrReplace second = table.insertOrReplace second := by
  refine Table.ext ?_
  simp [insertOrReplace, same]

/-- An `INSERT OR REPLACE` can be repeated. -/
theorem insertOrReplace_insertOrReplace (table : Table Row Key key) (row : Row) :
    (table.insertOrReplace row).insertOrReplace row = table.insertOrReplace row :=
  table.insertOrReplace_of_key_eq rfl

theorem find?_eq_some_iff (table : Table Row Key key) (k : Key) (row : Row) :
    table.find? k = some row ↔ row ∈ table.rows ∧ key row = k := by
  constructor
  · intro found
    exact ⟨List.mem_of_find?_eq_some found, by simpa using List.find?_some found⟩
  · rintro ⟨member, rfl⟩
    cases found : table.find? (key row) with
    | none => simpa using List.find?_eq_none.mp found row member
    | some other =>
      have same : key other = key row := by simpa using List.find?_some found
      rw [eq_of_key (List.mem_of_find?_eq_some found) member same]

theorem find?_eq_none_iff (table : Table Row Key key) (k : Key) :
    table.find? k = none ↔ ∀ row ∈ table.rows, key row ≠ k := by
  simp [find?]

@[simp] theorem find?_empty (k : Key) : (empty : Table Row Key key).find? k = none := rfl

@[simp] theorem find?_update (table : Table Row Key key) (selects : Row → Bool) (set : Row → Row)
    (keeps : ∀ row, key (set row) = key row) (k : Key) :
    (table.update selects set keeps).find? k =
      (table.find? k).map fun row => if selects row then set row else row := by
  have same (row : Row) : key (if selects row then set row else row) = key row := by
    split
    · exact keeps row
    · rfl
  simp only [find?, rows_update, List.find?_map, Function.comp_def, same]

theorem insert?_eq_some_iff (table after : Table Row Key key) (row : Row) :
    table.insert? row = some after ↔ table.find? (key row) = none ∧ after.rows = table.rows ++ [row] := by
  have fresh : key row ∈ table.rows.map key ↔ table.find? (key row) ≠ none := by
    rw [Ne, find?_eq_none_iff]
    simp
  unfold insert?
  split
  · next taken => simp [fresh.mp taken]
  · next free =>
    simp only [Option.some.injEq, not_not.mp (fresh.not.mp free), true_and]
    exact ⟨fun same => same ▸ rfl, fun same => Table.ext same.symm⟩

theorem find?_insert? {table after : Table Row Key key} {row : Row}
    (inserted : table.insert? row = some after) (k : Key) :
    after.find? k = if key row = k then some row else table.find? k := by
  obtain ⟨fresh, rows⟩ := (insert?_eq_some_iff _ _ _).mp inserted
  simp only [find?, rows, List.find?_append, List.find?_singleton]
  by_cases same : key row = k
  · subst same
    simp only [find?] at fresh
    simp [fresh]
  · simp [same]

@[simp] theorem find?_insertOrReplace (table : Table Row Key key) (row : Row) (k : Key) :
    (table.insertOrReplace row).find? k = if key row = k then some row else table.find? k := by
  simp only [find?, insertOrReplace, List.find?_append, List.find?_filter, List.find?_singleton]
  by_cases same : key row = k
  · subst same
    have absent : table.rows.find? (fun other =>
        decide (decide (key other ≠ key row) = true ∧ decide (key other = key row) = true)) = none := by
      simp
    rw [absent]
    simp
  · have agree : (fun other => decide (decide (key other ≠ key row) = true ∧ decide (key other = k) = true)) =
        (fun other => decide (key other = k)) := by
      funext other
      by_cases found : key other = k
      · simp [found, Ne.symm same]
      · simp [found]
    simp only [agree, same, decide_false, Bool.false_eq_true, ↓reduceIte, Option.or_none]

@[simp] theorem rows_delete (table : Table Row Key key) (k : Key) :
    (table.delete k).rows = table.rows.filter fun row => key row ≠ k := rfl

@[simp] theorem find?_delete (table : Table Row Key key) (k other : Key) :
    (table.delete k).find? other = if k = other then none else table.find? other := by
  simp only [find?, rows_delete, List.find?_filter]
  split_ifs with same
  · subst same
    simp
  · refine congrArg (fun test => table.rows.find? test) (funext fun row => ?_)
    by_cases found : key row = other
    · simp [found, Ne.symm same]
    · simp [found]

theorem rows_insertOrReplace_of_find?_eq_none {table : Table Row Key key} {row : Row}
    (fresh : table.find? (key row) = none) : (table.insertOrReplace row).rows = table.rows ++ [row] := by
  have others := (table.find?_eq_none_iff _).mp fresh
  refine congrArg (· ++ [row]) (List.filter_eq_self.mpr fun other member => ?_)
  exact decide_eq_true (others other member)

/-- Deleting what was just inserted restores the table. -/
theorem delete_insertOrReplace {table : Table Row Key key} {row : Row} (fresh : table.find? (key row) = none) :
    (table.insertOrReplace row).delete (key row) = table := by
  have others := (table.find?_eq_none_iff _).mp fresh
  refine Table.ext ?_
  rw [rows_delete, rows_insertOrReplace_of_find?_eq_none fresh, List.filter_append,
    List.filter_eq_self.mpr fun other member => decide_eq_true (others other member)]
  simp

end Table

end Relational
