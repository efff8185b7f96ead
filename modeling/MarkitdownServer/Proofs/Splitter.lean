import MarkitdownServer.Model.Migrations

/-! # The migration splitter agrees with a scanner

The code cuts comments off line by line, joins the lines again and splits the whole at semicolons. A scanner reads
from left to right. Both drop the same comments; the joined lines may lack the line feed at the end of the text,
which is stripped off the last statement anyway.
-/

namespace MarkitdownServer

namespace Str

theorem splitFrom_ne_nil (separator : Str) (skip : ℕ) (text : Str) : splitFrom separator skip text ≠ [] := by
  induction text generalizing skip with
  | nil => simp [splitFrom]
  | cons c rest ih =>
    cases skip with
    | succ skip => exact ih skip
    | zero =>
      rw [splitFrom]
      split_ifs
      · exact List.cons_ne_nil _ _
      · cases parts : splitFrom separator 0 rest <;> exact List.cons_ne_nil _ _

@[simp] theorem split_nil (separator : Str) : split separator [] = [[]] := by
  simp [split, splitFrom]

/-- Splitting at one character. -/
theorem split_cons (separator c : Char) (rest : Str) : split [separator] (c :: rest) =
    if c = separator then [] :: split [separator] rest else consHead c (split [separator] rest) := by
  simp only [split, splitFrom, List.isPrefixOf, Bool.and_true, beq_iff_eq, List.length_singleton, Nat.sub_self,
    eq_comm (a := c)]

theorem map_consHead_tail {β : Type} (f : Str → β) (c : Char) (parts : List Str) :
    ((consHead c parts).map f).tail = (parts.map f).tail := by
  cases parts <;> rfl

/-- A text that ends in a line feed is split like the text without it, but for the last part. -/
theorem split_append_newline (text : Str) : ∃ front last, split [';'] text = front ++ [last] ∧
    split [';'] (text ++ ['\n']) = front ++ [last ++ ['\n']] := by
  induction text with
  | nil => exact ⟨[], [], by simp, by simp [split_cons, consHead]⟩
  | cons c rest ih =>
    obtain ⟨front, last, one, two⟩ := ih
    rw [List.cons_append, split_cons, split_cons, one, two]
    split_ifs
    · exact ⟨[] :: front, last, rfl, rfl⟩
    · cases front with
      | nil => exact ⟨[], c :: last, rfl, rfl⟩
      | cons part front => exact ⟨(c :: part) :: front, last, rfl, rfl⟩

theorem strip_append_newline (text : Str) : strip (text ++ ['\n']) = strip text := by
  have space : isSpace '\n' = true := by decide
  unfold strip
  rw [List.dropWhile_append]
  split_ifs with blank
  · rw [List.isEmpty_iff.mp blank]
    simp [space]
  · rw [List.reverse_append, List.reverse_singleton, List.singleton_append, List.dropWhile_cons_of_pos space]

@[simp] theorem splitlines_newline (rest : Str) : splitlines ('\n' :: rest) = [] :: splitlines rest := by
  rw [splitlines, if_pos (by decide)]
  rintro _ ⟨⟩

theorem splitlines_cons {c : Char} (inner : isLineBoundary c = false) (rest : Str) :
    splitlines (c :: rest) = consHead c (splitlines rest) := by
  rw [splitlines, if_neg (Bool.eq_false_iff.mp inner)]
  rintro _ rfl
  cases inner

theorem splitlines_ne_nil {text : Str} (some : text ≠ []) : splitlines text ≠ [] := by
  fun_cases splitlines text with
  | case1 => exact absurd rfl some
  | case2 rest => exact List.cons_ne_nil _ _
  | case3 c rest => exact List.cons_ne_nil _ _
  | case4 c rest => cases splitlines rest <;> exact List.cons_ne_nil _ _

/-- The first line begins as the text does. -/
theorem head_of_splitlines {text line : Str} {d : Char} {lines : List Str}
    (begins : splitlines text = (d :: line) :: lines) : ∃ rest, text = d :: rest := by
  revert begins
  fun_cases splitlines text with
  | case1 | case2 rest | case3 c rest => rintro ⟨⟩
  | case4 c rest =>
    cases splitlines rest <;> rintro ⟨⟩ <;> exact ⟨rest, rfl⟩

theorem join_nil_cons {separator : Str} {parts : List Str} (some : parts ≠ []) :
    join separator ([] :: parts) = separator ++ join separator parts := by
  cases parts with
  | nil => exact absurd rfl some
  | cons part parts => simp [join, List.intercalate, List.intersperse]

theorem join_cons_cons (separator part : Str) (c : Char) (parts : List Str) :
    join separator ((c :: part) :: parts) = c :: join separator (part :: parts) := by
  cases parts <;> simp [join, List.intercalate, List.intersperse]

end Str

namespace Db

/-- The text without its comments. -/
def dropComments : (commented : Bool) → Str → Str
  | _, [] => []
  | true, '\n' :: rest => '\n' :: dropComments false rest
  | true, _ :: rest => dropComments true rest
  | false, '-' :: '-' :: rest => dropComments true rest
  | false, c :: rest => c :: dropComments false rest

/-- The scanner splits what is left without the comments. -/
theorem scan_eq (commented : Bool) (text : Str) :
    scan commented text = Str.split [';'] (dropComments commented text) := by
  fun_induction scan commented text with
  | case1 => simp [dropComments]
  | case2 rest ih =>
    rw [dropComments, Str.split_cons, if_neg (by decide), ih]
  | case3 c rest other ih =>
    rw [dropComments]
    · exact ih
    · exact other
  | case4 rest ih =>
    rw [dropComments]
    exact ih
  | case5 rest ih =>
    rw [dropComments, Str.split_cons, if_pos rfl, ih]
    rintro _ ⟨⟩
  | case6 c rest dashes semicolon ih =>
    rw [dropComments, Str.split_cons, if_neg semicolon, ih]
    exact dashes

/-! ## Lines without comments -/

@[simp] theorem uncommented_nil : uncommented [] = [] := by simp [uncommented]

@[simp] theorem uncommented_dashes (rest : Str) : uncommented ('-' :: '-' :: rest) = [] := by
  have dashes : lit "--" = ['-', '-'] := by decide
  simp [uncommented, Str.split, Str.splitFrom, dashes]

theorem uncommented_cons {c : Char} {rest : Str} (other : ∀ more, c = '-' → rest = '-' :: more → False) :
    uncommented (c :: rest) = c :: uncommented rest := by
  have dashes : lit "--" = ['-', '-'] := by decide
  have differs : ¬ ['-', '-'].isPrefixOf (c :: rest) = true := by
    rw [List.isPrefixOf_iff_prefix]
    rintro ⟨more, same⟩
    cases same
    exact other more rfl rfl
  rw [uncommented, uncommented, Str.split, Str.split, dashes, Str.splitFrom, if_neg differs]
  cases parts : Str.splitFrom ['-', '-'] 0 rest with
  | nil => exact absurd parts (Str.splitFrom_ne_nil _ _ _)
  | cons part parts => rfl

/-- The lines that are joined again, of a text that begins in a comment or not. -/
def rejoined (commented : Bool) (text : Str) : Str :=
  let lines := (Str.splitlines text).map uncommented
  Str.join ['\n'] (if commented then [] :: lines.tail else lines)

private theorem rejoined_newline (commented : Bool) {rest : Str}
    (ih : dropComments false rest = rejoined false rest ∨ dropComments false rest = rejoined false rest ++ ['\n']) :
    '\n' :: dropComments false rest = rejoined commented ('\n' :: rest) ∨
      '\n' :: dropComments false rest = rejoined commented ('\n' :: rest) ++ ['\n'] := by
  have lines : rejoined commented ('\n' :: rest) = Str.join ['\n'] ([] :: (Str.splitlines rest).map uncommented) := by
    cases commented <;> simp [rejoined]
  rw [lines]
  by_cases blank : rest = []
  · subst blank
    exact .inr rfl
  · rw [Str.join_nil_cons (List.map_eq_nil_iff.not.mpr (Str.splitlines_ne_nil blank))]
    exact ih.imp (congrArg _) (congrArg _)

private theorem rejoined_cons {c : Char} {rest : Str} (inner : Str.isLineBoundary c = false)
    (other : ∀ more, c = '-' → rest = '-' :: more → False) : rejoined false (c :: rest) = c :: rejoined false rest := by
  simp only [rejoined, Bool.false_eq_true, if_false, Str.splitlines_cons inner]
  cases lines : Str.splitlines rest with
  | nil =>
    have alone : uncommented [c] = [c] := by
      rw [uncommented_cons (by rintro _ _ ⟨⟩), uncommented_nil]
    simp [Str.consHead, alone, Str.join]
  | cons line lines =>
    have kept : uncommented (c :: line) = c :: uncommented line := by
      refine uncommented_cons fun more dash starts => ?_
      subst starts
      obtain ⟨others, same⟩ := Str.head_of_splitlines ‹_›
      exact other others dash same
    rw [Str.consHead, List.map_cons, List.map_cons, kept, Str.join_cons_cons]

/-- Without its comments a text is what its lines are without theirs, up to a line feed at the end. -/
theorem dropComments_eq (commented : Bool) (text : Str) (plain : ∀ c ∈ text, Str.isLineBoundary c = true → c = '\n') :
    dropComments commented text = rejoined commented text ∨
      dropComments commented text = rejoined commented text ++ ['\n'] := by
  have inner {c : Char} {rest : Str} (plain : ∀ d ∈ c :: rest, Str.isLineBoundary d = true → d = '\n')
      (other : c ≠ '\n') : Str.isLineBoundary c = false :=
    Bool.eq_false_iff.mpr fun boundary => other (plain c (List.mem_cons_self ..) boundary)
  fun_induction dropComments commented text with
  | case1 commented => cases commented <;> exact .inl rfl
  | case2 rest ih => exact rejoined_newline true (ih fun c member => plain c (List.mem_cons_of_mem _ member))
  | case3 c rest other ih =>
    have same : rejoined true (c :: rest) = rejoined true rest := by
      simp only [rejoined, if_true, Str.splitlines_cons (inner plain other), Str.map_consHead_tail]
    rw [same]
    exact ih fun d member => plain d (List.mem_cons_of_mem _ member)
  | case4 rest ih =>
    have same : rejoined false ('-' :: '-' :: rest) = rejoined true rest := by
      simp only [rejoined, Str.splitlines_cons (by decide : Str.isLineBoundary '-' = false)]
      cases Str.splitlines rest <;> simp [Str.consHead]
    rw [same]
    exact ih fun d member => plain d (List.mem_cons_of_mem _ (List.mem_cons_of_mem _ member))
  | case5 c rest dashes ih =>
    have kept := ih fun d member => plain d (List.mem_cons_of_mem _ member)
    by_cases newline : c = '\n'
    · subst newline
      exact rejoined_newline false kept
    · rw [rejoined_cons (inner plain newline) dashes]
      exact kept.imp (congrArg _) (congrArg _)

/-- `_split_statements` finds the statements of the scanner. -/
theorem splitStatements_eq_scan (sql : Str) (plain : ∀ c ∈ sql, Str.isLineBoundary c = true → c = '\n') :
    splitStatements sql = scanStatements sql := by
  have newline : lit "\n" = ['\n'] := by decide
  have semicolon : lit ";" = [';'] := by decide
  have stripped : (Str.split [';'] (dropComments false sql)).map Str.strip =
      (Str.split [';'] (rejoined false sql)).map Str.strip := by
    rcases dropComments_eq false sql plain with same | longer
    · rw [same]
    · obtain ⟨front, last, one, two⟩ := Str.split_append_newline (rejoined false sql)
      rw [longer, one, two, List.map_append, List.map_append, List.map_singleton, List.map_singleton,
        Str.strip_append_newline]
  have code : splitStatements sql = ((Str.split [';'] (rejoined false sql)).map Str.strip).filter (· ≠ []) := by
    rw [List.filter_map, splitStatements, newline, semicolon]
    rfl
  rw [code, scanStatements, scan_eq, stripped]

/-- A semicolon in a comment, three dashes, an empty statement, and a comment at the end of the text. -/
def commentedSql : Str := lit "CREATE TABLE t ( -- exclusive; -1 is all\n  a ---b;\n);;\nCREATE INDEX i;--"

theorem splitStatements_of_comments : (∀ c ∈ commentedSql, Str.isLineBoundary c = true → c = '\n') ∧
    splitStatements commentedSql = [lit "CREATE TABLE t ( \n  a \n)", lit "CREATE INDEX i"] := by
  have plain : ∀ c ∈ commentedSql, Str.isLineBoundary c = true → c = '\n' := by
    have checked : (commentedSql.all fun c => !Str.isLineBoundary c || c == '\n') = true := by decide +kernel
    intro c member boundary
    simpa [boundary] using List.all_eq_true.mp checked c member
  refine ⟨plain, ?_⟩
  rw [splitStatements_eq_scan commentedSql plain]
  decide +kernel

end Db

end MarkitdownServer
