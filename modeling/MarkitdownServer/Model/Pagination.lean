import Mathlib.Data.PNat.Basic
import MarkitdownServer.Model.Text

/-! # Splitting markdown into pages

The model of `pagination.py`. The inner `while` loop of `paginate` terminates because a page holds at
least one character.
-/

namespace MarkitdownServer

/-- The `while len(block) > page_size` loop: the pages so far, the current page and the block. -/
def hardSplit (pageSize : ℕ+) (pages : List Str) (current block : Str) : List Str × Str × Str :=
  if (pageSize : ℕ) < block.length then
    let flushed := if current = [] then pages else pages ++ [current]
    hardSplit pageSize (flushed ++ [block.take pageSize]) [] (block.drop pageSize)
  else (pages, current, block)
termination_by block.length
decreasing_by
  have positive := pageSize.pos
  simp only [List.length_drop]
  omega

/-- One round of the `for block in content.split("\n\n")` loop. -/
def addBlock (pageSize : ℕ+) (state : List Str × Str) (block : Str) : List Str × Str :=
  let (pages, current, rest) := hardSplit pageSize state.1 state.2 block
  let candidate := if current = [] then rest else current ++ lit "\n\n" ++ rest
  if (pageSize : ℕ) < candidate.length then (pages ++ [current], rest) else (pages, candidate)

/-- `paginate`. -/
def paginate (content : Str) (pageSize : ℕ+) : List Str :=
  if content = [] then [[]]
  else
    let (pages, current) := content.splitBlocks.foldl (addBlock pageSize) ([], [])
    if current ≠ [] ∨ pages = [] then pages ++ [current] else pages

/-- There is always a page to read. -/
theorem paginate_ne_nil (content : Str) (pageSize : ℕ+) : paginate content pageSize ≠ [] := by
  unfold paginate
  split
  · exact List.cons_ne_nil _ _
  · dsimp only
    split
    · exact List.append_ne_nil_of_right_ne_nil _ (List.cons_ne_nil _ _)
    · next other => exact fun empty => other (Or.inr empty)

/-- The response fields of `build_pagination`. -/
structure Pagination where
  id : Str
  page : ℤ
  pageSize : ℕ
  totalPages : ℕ
  totalLength : ℕ
  hasNext : Bool
  hasPrev : Bool
  nextPage : Option ℤ
  prevPage : Option ℤ
deriving DecidableEq

/-- `build_pagination`. -/
def buildPagination (docId : Str) (page : ℤ) (totalPages totalLength pageSize : ℕ) : Pagination :=
  let hasNext := decide (page < totalPages)
  let hasPrev := decide (1 < page)
  { id := docId
    page
    pageSize
    totalPages
    totalLength
    hasNext
    hasPrev
    nextPage := if hasNext then some (page + 1) else none
    prevPage := if hasPrev then some (page - 1) else none }

end MarkitdownServer
