import MarkitdownServer.Model.Config

/-! # Planning the page ranges of a document

The model of `chunker.py`. Page counts are those that pypdf reports; `end = -1` means the whole file. A
source is the list of its pages as far as slicing is concerned.
-/

namespace MarkitdownServer

/-- `WHOLE_FILE`. -/
def wholeFile : ℤ × ℤ := (0, -1)

/-- `range(0, stop, step)` for a positive step. -/
def rangeTo (stop : ℕ) (step : ℕ) : List ℕ :=
  (List.range ((stop + step - 1) / step)).map (· * step)

/-- `plan_chunks`. -/
def planChunks (pages : Option ℕ) (pagesPerChunk minPages : ℤ) : Except Exc (List (ℤ × ℤ)) :=
  if pagesPerChunk < 1 then
    .error { name := lit "ValueError", text := lit "pages_per_chunk must be >= 1" }
  else
    match pages with
    | none => .ok [wholeFile]
    | some count =>
      if (count : ℤ) < minPages then .ok [wholeFile]
      else .ok ((rangeTo count pagesPerChunk.toNat).map fun (start : ℕ) =>
        ((start : ℤ), min (start + pagesPerChunk) count))

/-- The position that a slice bound denotes in a list of the given length. -/
def sliceBound (length : ℕ) (bound : ℤ) : ℕ :=
  if bound < 0 then (bound + length).toNat else min bound.toNat length

/-- `items[start:stop]`. -/
def slice {α : Type} (items : List α) (start stop : ℤ) : List α :=
  (items.take (sliceBound items.length stop)).drop (sliceBound items.length start)

/-- The pages of a source that `convert_range` and `extract_pages` take for a range. -/
def extractPages {Page : Type} (source : List Page) (start stop : ℤ) : List Page :=
  if stop = -1 then source else slice source start stop

end MarkitdownServer
