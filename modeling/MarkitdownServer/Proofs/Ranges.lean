import Mathlib.Algebra.Order.Floor.Div
import MarkitdownServer.Model.Chunker

/-! # Planned ranges cover a document

The producer plans ranges from a page count and the workers slice the source by them. The ranges tile the
page numbers, so the slices put end to end are the document, whatever the page count, the chunk size and
the threshold.
-/

namespace MarkitdownServer

section Slices

variable {α : Type} (items : List α)

/-- A slice between two positions of the list. -/
theorem slice_natCast (start stop : ℕ) : slice items start stop = (items.take stop).drop start := by
  have bound (n : ℕ) : sliceBound items.length n = min n items.length := by
    rw [sliceBound, if_neg (by omega), Int.toNat_natCast]
  rw [slice, bound, bound, ← List.take_eq_take_min]
  rcases Nat.le_total start items.length with within | beyond
  · rw [Nat.min_eq_left within]
  · rw [Nat.min_eq_right beyond, List.drop_of_length_le, List.drop_of_length_le] <;> simp only [List.length_take] <;> omega

/-- Tiles of equal width, put end to end. -/
theorem flatMap_tiles (width count : ℕ) :
    (List.range count).flatMap (fun i => (items.take (i * width + width)).drop (i * width)) =
      items.take (count * width) := by
  induction count with
  | zero => simp
  | succ count ih =>
    rw [List.range_succ, List.flatMap_append, ih, List.flatMap_singleton, Nat.succ_mul]
    conv_lhs => lhs; rw [← Nat.min_eq_left (Nat.le_add_right (count * width) width), ← List.take_take]
    exact List.take_append_drop _ _

end Slices

/-- The range with number `i`. -/
private def tile (count width i : ℕ) : ℤ × ℤ := (((i * width : ℕ) : ℤ), ((min (i * width + width) count : ℕ) : ℤ))

private theorem planChunks_eq {count : ℕ} {pagesPerChunk minPages : ℤ} (accepted : 1 ≤ pagesPerChunk)
    (large : minPages ≤ count) : planChunks (some count) pagesPerChunk minPages =
      .ok ((List.range (count ⌈/⌉ pagesPerChunk.toNat)).map (tile count pagesPerChunk.toNat)) := by
  have width : (pagesPerChunk.toNat : ℤ) = pagesPerChunk := Int.toNat_of_nonneg (by omega)
  simp only [planChunks]
  rw [if_neg (by omega), if_neg (by omega), rangeTo, List.map_map, Nat.ceilDiv_eq_add_pred_div]
  refine congrArg Except.ok (List.map_congr_left fun i _ => Prod.ext rfl ?_)
  simp only [Function.comp_apply, tile]
  omega

private theorem extractPages_tile {Page : Type} (source : List Page) (width i : ℕ) :
    extractPages source (tile source.length width i).1 (tile source.length width i).2 =
      (source.take (i * width + width)).drop (i * width) := by
  have ends : ((min (i * width + width) source.length : ℕ) : ℤ) ≠ -1 := by omega
  rw [tile, extractPages, if_neg ends, slice_natCast, ← List.take_eq_take_min]

/-- Every tile up to the end of the document holds a page. -/
private theorem tile_start_lt {count width i : ℕ} (positive : 0 < width) (bound : i < count ⌈/⌉ width) :
    i * width < count := by
  by_contra beyond
  have few : count ⌈/⌉ width ≤ i := (ceilDiv_le_iff_le_mul positive).mpr (by rw [Nat.mul_comm]; omega)
  omega

private theorem mem_dropLast_tiles {count width total : ℕ} {range : ℤ × ℤ}
    (member : range ∈ ((List.range total).map (tile count width)).dropLast) :
    ∃ i, i + 1 < total ∧ tile count width i = range := by
  cases total with
  | zero => cases member
  | succ total =>
    rw [List.range_succ, List.map_append, List.map_singleton, List.dropLast_concat] at member
    obtain ⟨i, bound, rfl⟩ := List.mem_map.mp member
    exact ⟨i, Nat.succ_lt_succ (List.mem_range.mp bound), rfl⟩

/-- The slices of the planned ranges, put end to end, are the document. Unless the file is taken whole, the
ranges are not empty, have the chunk size except for the last, are as few as that allows, and do not look
like the whole file. -/
theorem plan_partitions {Page : Type} (source : List Page) (readable : Bool) (pagesPerChunk minPages : ℤ)
    (accepted : 1 ≤ pagesPerChunk) :
    ∃ ranges, planChunks (if readable then some source.length else none) pagesPerChunk minPages = .ok ranges ∧
      ranges.flatMap (fun range => extractPages source range.1 range.2) = source ∧
      (ranges ≠ [wholeFile] →
        (∀ range ∈ ranges, extractPages source range.1 range.2 ≠ [] ∧
          ((extractPages source range.1 range.2).length : ℤ) ≤ pagesPerChunk ∧ range.2 ≠ -1) ∧
        (∀ range ∈ ranges.dropLast, ((extractPages source range.1 range.2).length : ℤ) = pagesPerChunk) ∧
        ranges.length = source.length ⌈/⌉ pagesPerChunk.toNat) := by
  have whole : [wholeFile].flatMap (fun range => extractPages source range.1 range.2) = source := by
    simp [wholeFile, extractPages]
  by_cases split : readable = true ∧ minPages ≤ source.length
  · obtain ⟨rfl, large⟩ := split
    obtain ⟨width, rfl⟩ : ∃ width : ℕ, pagesPerChunk = width := ⟨pagesPerChunk.toNat, by omega⟩
    have positive : 0 < width := by omega
    refine ⟨_, planChunks_eq accepted large, ?_, fun _ => ⟨?_, ?_, ?_⟩⟩
    · rw [List.flatMap_map, Int.toNat_natCast]
      simp only [extractPages_tile]
      rw [flatMap_tiles]
      exact List.take_of_length_le (by rw [Nat.mul_comm]; exact (ceilDiv_le_iff_le_mul positive).mp (Nat.le_refl _))
    · intro range member
      obtain ⟨i, bound, rfl⟩ := List.mem_map.mp member
      rw [Int.toNat_natCast] at bound ⊢
      have inside := tile_start_lt positive (List.mem_range.mp bound)
      rw [extractPages_tile]
      have length : ((source.take (i * width + width)).drop (i * width)).length =
          min (i * width + width) source.length - i * width := by
        rw [List.length_drop, List.length_take]
      refine ⟨fun empty => ?_, ?_, ?_⟩
      · rw [empty, List.length_nil] at length
        omega
      · omega
      · simp only [tile]
        omega
    · intro range member
      obtain ⟨i, bound, rfl⟩ := mem_dropLast_tiles member
      rw [Int.toNat_natCast] at bound ⊢
      have inside := tile_start_lt positive bound
      rw [extractPages_tile, List.length_drop, List.length_take]
      rw [Nat.succ_mul] at inside
      omega
    · rw [List.length_map, List.length_range]
  · refine ⟨[wholeFile], ?_, whole, fun other => absurd rfl other⟩
    simp only [planChunks]
    rw [if_neg (by omega)]
    cases readable with
    | false => rfl
    | true =>
      simp only [true_and] at split
      simp only [if_true]
      rw [if_pos (by omega)]

/-- A document of 45 pages in chunks of 20. -/
theorem plan_partitions_remainder :
    ∃ ranges, planChunks (some 45) 20 40 = .ok ranges ∧ ranges.length = 3 ∧
      ranges.flatMap (fun range => extractPages (List.range 45) range.1 range.2) = List.range 45 := by
  obtain ⟨ranges, planned, covers, _⟩ := plan_partitions (List.range 45) true 20 40 (by decide)
  rw [if_pos rfl, List.length_range] at planned
  refine ⟨ranges, planned, ?_, covers⟩
  have same : planChunks (some 45) 20 40 = .ok [(0, 20), (20, 40), (40, 45)] := by decide
  cases planned.symm.trans same
  rfl

end MarkitdownServer
