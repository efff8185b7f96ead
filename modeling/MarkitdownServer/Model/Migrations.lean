import MarkitdownServer.Model.Db

/-! # Migrations

The model of `_split_statements` in `db.py`, and the scanner that says what the statements of a text are.
-/

namespace MarkitdownServer.Db

/-- `line.split("--")[0]`. -/
def uncommented (line : Str) : Str := (Str.split (lit "--") line).headD []

/-- `_split_statements`. -/
def splitStatements (sql : Str) : List Str :=
  let withoutComments := Str.join (lit "\n") ((Str.splitlines sql).map uncommented)
  ((Str.split (lit ";") withoutComments).filter fun s => Str.strip s ≠ []).map Str.strip

/-! ## What a statement is -/

/-- The statements of a text, read character by character; `commented` says whether the text begins in a comment.
A comment ends just before a line feed. -/
def scan : (commented : Bool) → Str → List Str
  | _, [] => [[]]
  | true, '\n' :: rest => Str.consHead '\n' (scan false rest)
  | true, _ :: rest => scan true rest
  | false, '-' :: '-' :: rest => scan true rest
  | false, ';' :: rest => [] :: scan false rest
  | false, c :: rest => Str.consHead c (scan false rest)

/-- The statements that are not blank. -/
def scanStatements (sql : Str) : List Str := ((scan false sql).map Str.strip).filter (· ≠ [])

end MarkitdownServer.Db
