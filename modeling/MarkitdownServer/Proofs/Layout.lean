import Mathlib.Data.List.Induction
import MarkitdownServer.Model.Pagination

/-! # Where the pages of a text come from

`paginate` goes through the blocks of a text and keeps a page that is not full yet. A layout gives every page
the number of separators dropped before it, so that pages and separators spell the text. The invariant of the
loop says where in the text each page starts: at a block that did not fit on the page before, or inside a
block that fits on no page.

The loop is followed on the text with one separator put before it, so that every block comes after one.
-/

namespace MarkitdownServer

/-- A number of separators. -/
def separators (count : ℕ) : Str := (List.replicate count (lit "\n\n")).flatten

/-- The text that a layout spells: each page after its separators. -/
def spread (layout : List (ℕ × Str)) : Str := layout.flatMap fun entry => separators entry.1 ++ entry.2

/-- The characters of a text before the block that comes after these blocks. -/
def blockOffset (earlier : List Str) : ℕ := (earlier.map fun block => block.length + 2).sum

/-- Each block after a separator. -/
private def separated (blocks : List Str) : Str := blocks.flatMap fun block => lit "\n\n" ++ block

@[simp] private theorem length_separator : (lit "\n\n").length = 2 := by decide

@[simp] theorem length_separators (count : ℕ) : (separators count).length = 2 * count := by
  rw [separators, List.length_flatten, List.map_replicate, length_separator, List.sum_replicate_nat, Nat.mul_comm]

private theorem separators_succ (count : ℕ) : separators (count + 1) = separators count ++ lit "\n\n" := by
  rw [separators, List.replicate_succ', List.flatten_append]
  simp [separators]

theorem spread_append (first second : List (ℕ × Str)) : spread (first ++ second) = spread first ++ spread second :=
  List.flatMap_append

@[simp] theorem spread_singleton (gap : ℕ) (page : Str) : spread [(gap, page)] = separators gap ++ page := by
  simp [spread]

@[simp] private theorem separated_concat (blocks : List Str) (block : Str) :
    separated (blocks ++ [block]) = separated blocks ++ (lit "\n\n" ++ block) := by
  simp [separated]

@[simp] private theorem length_separated (blocks : List Str) : (separated blocks).length = blockOffset blocks := by
  induction blocks with
  | nil => rfl
  | cons block rest ih =>
    rw [separated, List.flatMap_cons, List.length_append, ← separated, ih]
    simp [blockOffset]
    omega

private theorem splitBlocks_ne_nil (text : Str) : text.splitBlocks ≠ [] := by
  fun_cases Str.splitBlocks text <;> simp_all

/-- The blocks of a text, each after a separator, spell the text after one separator. -/
private theorem separated_splitBlocks (text : Str) : separated text.splitBlocks = lit "\n\n" ++ text := by
  fun_induction Str.splitBlocks text with
  | case1 => rfl
  | case2 rest ih =>
    rw [separated, List.flatMap_cons, ← separated, ih]
    rfl
  | case3 c rest _ none _ => exact absurd none (splitBlocks_ne_nil rest)
  | case4 c rest _ block blocks found ih =>
    rw [found, separated, List.flatMap_cons, List.append_assoc, List.append_cancel_left_eq] at ih
    rw [separated, List.flatMap_cons, ← ih]
    rfl

/-! ## Where pages start -/

/-- How a page starts: at a block, after a separator and a page that could not take the block, or inside a block
that is longer than a page, after a full page of it. -/
inductive Begins (size : ℕ) (blocks : List Str) (start gap : ℕ) (previous : Option Str) : Prop
  | block {earlier later : List Str} {block : Str} (split : blocks = earlier ++ block :: later)
      (here : start = blockOffset earlier + 2) (separate : 1 ≤ gap)
      (full : ∀ page ∈ previous, size < page.length + 2 + block.length) : Begins size blocks start gap previous
  | inside {earlier later : List Str} {block page : Str} {count : ℕ} (split : blocks = earlier ++ block :: later)
      (oversized : size < block.length) (counted : 1 ≤ count) (within : count * size < block.length)
      (here : start = blockOffset earlier + 2 + count * size) (joined : gap = 0) (previously : previous = some page)
      (whole : page.length = size) : Begins size blocks start gap previous

/-- The last page of a layout. -/
def lastPage (layout : List (ℕ × Str)) : Option Str := layout.getLast?.map Prod.snd

@[simp] theorem lastPage_concat (layout : List (ℕ × Str)) (entry : ℕ × Str) :
    lastPage (layout ++ [entry]) = some entry.2 := by
  simp [lastPage]

/-- Every page of a layout starts as it may, and has characters but not too many. -/
def Laid (size : ℕ) (blocks : List Str) (layout : List (ℕ × Str)) : Prop :=
  ∀ before gap page after, layout = before ++ (gap, page) :: after →
    Begins size blocks ((spread before).length + 2 * gap) gap (lastPage before) ∧ page ≠ [] ∧ page.length ≤ size

/-- The characters from `start` on, as many as `length`, are on one page. -/
def OnPage (start length : ℕ) (layout : List (ℕ × Str)) : Prop :=
  ∃ before gap page after, layout = before ++ (gap, page) :: after ∧ (spread before).length + 2 * gap ≤ start ∧
    start + length ≤ (spread before).length + 2 * gap + page.length

/-- Every block that fits on a page is on one. -/
def Covered (size : ℕ) (blocks : List Str) (layout : List (ℕ × Str)) : Prop :=
  ∀ earlier block later, blocks = earlier ++ block :: later → block ≠ [] → block.length ≤ size →
    OnPage (blockOffset earlier + 2) block.length layout

section Steps

variable {size : ℕ} {blocks : List Str} {layout : List (ℕ × Str)} {gap : ℕ} {page block : Str}

theorem Begins.mono {start : ℕ} {previous : Option Str} (begins : Begins size blocks start gap previous) :
    Begins size (blocks ++ [block]) start gap previous := by
  cases begins with
  | block split here separate full =>
    exact .block (by rw [split, List.append_assoc, List.cons_append]) here separate full
  | inside split oversized counted within here joined previously whole =>
    exact .inside (by rw [split, List.append_assoc, List.cons_append]) oversized counted within here joined previously whole

theorem Laid.mono (laid : Laid size blocks layout) : Laid size (blocks ++ [block]) layout :=
  fun before gap page after split => ⟨(laid before gap page after split).1.mono, (laid before gap page after split).2⟩

/-- An entry of a longer list is an earlier one or the last. -/
private theorem concat_split {α : Type} {list before after : List α} {entry last : α}
    (split : list ++ [last] = before ++ entry :: after) :
    (∃ rest, list = before ++ entry :: rest) ∨ (before = list ∧ entry = last) := by
  rcases List.eq_nil_or_concat after with rfl | ⟨rest, final, rfl⟩
  · obtain ⟨same, last⟩ := List.append_inj' split rfl
    exact .inr ⟨same.symm, (List.cons.inj last).1.symm⟩
  · rw [List.concat_eq_append, ← List.cons_append, ← List.append_assoc] at split
    obtain ⟨same, last⟩ := List.append_inj' split rfl
    cases last
    exact .inl ⟨rest, same⟩

theorem Laid.concat (laid : Laid size blocks layout)
    (begins : Begins size blocks ((spread layout).length + 2 * gap) gap (lastPage layout)) (nonempty : page ≠ [])
    (bounded : page.length ≤ size) : Laid size blocks (layout ++ [(gap, page)]) := by
  intro before other content after split
  rcases concat_split split with ⟨rest, split⟩ | ⟨rfl, last⟩
  · exact laid before other content rest split
  · cases last
    exact ⟨begins, nonempty, bounded⟩

/-- What is on a page stays there when pages are added. -/
private theorem OnPage.append {start length : ℕ} (onPage : OnPage start length layout) (rest : List (ℕ × Str)) :
    OnPage start length (layout ++ rest) := by
  obtain ⟨before, gap, page, after, shape, left, right⟩ := onPage
  refine ⟨before, gap, page, after ++ rest, ?_, left, right⟩
  rw [shape, List.append_assoc, List.cons_append]

/-- What is on a page stays there when the last page grows. -/
private theorem OnPage.grow {start length : ℕ} (onPage : OnPage start length (layout ++ [(gap, page)])) (more : Str) :
    OnPage start length (layout ++ [(gap, page ++ more)]) := by
  obtain ⟨before, _, _, after, shape, left, right⟩ := onPage
  rcases concat_split shape with ⟨others, shape⟩ | ⟨rfl, last⟩
  · exact OnPage.append ⟨before, _, _, others, shape, left, right⟩ _
  · cases last
    refine ⟨_, _, _, [], rfl, left, ?_⟩
    rw [List.length_append]
    omega

/-- A block is on no page without characters. -/
private theorem Covered.dropEmpty (covered : Covered size blocks (layout ++ [(gap, [])])) : Covered size blocks layout := by
  intro earlier block later split nonempty small
  obtain ⟨before, _, _, after, shape, left, right⟩ := covered earlier block later split nonempty small
  rcases concat_split shape with ⟨others, shape⟩ | ⟨rfl, last⟩
  · exact ⟨before, _, _, others, shape, left, right⟩
  · cases last
    have positive := List.length_pos_iff.mpr nonempty
    rw [List.length_nil] at right
    omega

/-- The blocks so far and one more. -/
private theorem Covered.concat {longer : List (ℕ × Str)} (covered : Covered size blocks layout)
    (kept : ∀ start length, OnPage start length layout → OnPage start length longer)
    (added : block.length ≤ size → OnPage (blockOffset blocks + 2) block.length longer) :
    Covered size (blocks ++ [block]) longer := by
  intro earlier other later split nonempty small
  rcases concat_split split with ⟨rest, split⟩ | ⟨rfl, rfl⟩
  · exact kept _ _ (covered earlier other rest split nonempty small)
  · exact added small

/-- Between pages: the blocks so far are spelled by the layout and a number of separators. -/
structure Closed (size : ℕ) (blocks : List Str) (layout : List (ℕ × Str)) (gap : ℕ) : Prop where
  text : separated blocks = spread layout ++ separators gap
  laid : Laid size blocks layout
  covered : Covered size blocks layout

/-- The loop after some blocks: the finished pages, and a page that may take more. -/
structure Progress (size : ℕ) (blocks : List Str) (layout : List (ℕ × Str)) (gap : ℕ) (current : Str) : Prop where
  text : separated blocks = spread layout ++ separators gap ++ current
  laid : Laid size blocks layout
  covered : Covered size blocks (layout ++ [(gap, current)])
  bounded : current.length ≤ size
  begun : current ≠ [] → Begins size blocks ((spread layout).length + 2 * gap) gap (lastPage layout)
  blank : current = [] → ∀ page ∈ lastPage layout, size < page.length + 2

theorem Closed.length (closed : Closed size blocks layout gap) :
    blockOffset blocks = (spread layout).length + 2 * gap := by
  have lengths := congrArg List.length closed.text
  rwa [length_separated, List.length_append, length_separators] at lengths

/-- The open page is finished, or was not begun. -/
theorem Progress.close {current : Str} (progress : Progress size blocks layout gap current) :
    (current = [] ∧ Closed size blocks layout gap) ∨
      (current ≠ [] ∧ Closed size blocks (layout ++ [(gap, current)]) 0) := by
  by_cases empty : current = []
  · subst empty
    refine .inl ⟨rfl, ?_, progress.laid, progress.covered.dropEmpty⟩
    rw [progress.text, List.append_nil]
  · refine .inr ⟨empty, ?_, progress.laid.concat (progress.begun empty) empty progress.bounded, progress.covered⟩
    rw [progress.text, spread_append, spread_singleton, List.append_assoc]
    simp [separators]

/-- A block starts a page. -/
theorem Closed.start (closed : Closed size blocks layout gap)
    (full : ∀ page ∈ lastPage layout, size < page.length + 2 + block.length) :
    Begins size (blocks ++ [block]) ((spread layout).length + 2 * (gap + 1)) (gap + 1) (lastPage layout) := by
  refine .block rfl ?_ (Nat.le_add_left 1 gap) full
  rw [closed.length]
  omega

/-- A block that fits on a page starts one that may take more. -/
theorem Closed.openPage (closed : Closed size blocks layout gap) (small : block.length ≤ size)
    (full : ∀ page ∈ lastPage layout, size < page.length + 2 + block.length) :
    Progress size (blocks ++ [block]) layout (gap + 1) block := by
  refine ⟨?_, closed.laid.mono, ?_, small, fun _ => closed.start full, ?_⟩
  · rw [separated_concat, closed.text, separators_succ]
    simp only [List.append_assoc]
  · refine closed.covered.concat (fun _ _ onPage => onPage.append _) fun _ => ⟨layout, _, _, [], rfl, ?_, ?_⟩ <;>
    · have length := closed.length
      omega
  · rintro rfl page member
    exact full page member

/-- A block that fits on the open page is put there. -/
theorem Progress.extend {current : Str} (progress : Progress size blocks layout gap current) (nonempty : current ≠ [])
    (fits : (current ++ lit "\n\n" ++ block).length ≤ size) :
    Progress size (blocks ++ [block]) layout gap (current ++ lit "\n\n" ++ block) := by
  refine ⟨?_, progress.laid.mono, ?_, fits, fun _ => (progress.begun nonempty).mono, ?_⟩
  · rw [separated_concat, progress.text]
    simp only [List.append_assoc]
  · rw [List.append_assoc] at fits ⊢
    refine progress.covered.concat (fun _ _ onPage => onPage.grow _) fun _ => ⟨layout, _, _, [], rfl, ?_, ?_⟩ <;>
    · have lengths := congrArg List.length progress.text
      simp only [length_separated, List.length_append, length_separators, length_separator] at lengths ⊢
      omega
  · intro empty
    exact absurd (List.append_eq_nil_iff.mp (List.append_eq_nil_iff.mp empty).1).1 nonempty

/-- The layout after the full pages of an oversized block. -/
private def withPieces (layout : List (ℕ × Str)) (gap : ℕ) (first : Str) (chunks : List Str) : List (ℕ × Str) :=
  layout ++ (gap + 1, first) :: chunks.map (Prod.mk 0)

private theorem spread_withPieces (first : Str) (chunks : List Str) :
    spread (withPieces layout gap first chunks) = spread layout ++ separators (gap + 1) ++ (first :: chunks).flatten := by
  have joined : spread (chunks.map (Prod.mk 0)) = chunks.flatten := by
    rw [spread, List.flatMap_map]
    simp [separators]
  rw [withPieces, List.append_cons, spread_append, spread_append, spread_singleton, joined]
  simp only [List.append_assoc, List.flatten_cons]

private theorem withPieces_concat (first chunk : Str) (chunks : List Str) :
    withPieces layout gap first (chunks ++ [chunk]) = withPieces layout gap first chunks ++ [(0, chunk)] := by
  simp [withPieces]

private theorem length_pieces {chunks : List Str} (whole : ∀ chunk ∈ chunks, chunk.length = size) :
    chunks.flatten.length = chunks.length * size := by
  induction chunks with
  | nil => simp
  | cons chunk rest ih =>
    rw [List.flatten_cons, List.length_append, whole chunk List.mem_cons_self,
      ih fun other member => whole other (List.mem_cons_of_mem _ member), List.length_cons, Nat.succ_mul, Nat.add_comm]

/-- Where the next piece of an oversized block starts. -/
private theorem Closed.next (closed : Closed size blocks layout gap) (oversized : size < block.length) {first : Str}
    {chunks : List Str} (whole : ∀ chunk ∈ first :: chunks, chunk.length = size)
    (within : (chunks.length + 1) * size < block.length) :
    Begins size (blocks ++ [block]) ((spread (withPieces layout gap first chunks)).length + 2 * 0) 0
      (lastPage (withPieces layout gap first chunks)) := by
  obtain ⟨page, final, last⟩ : ∃ page, lastPage (withPieces layout gap first chunks) = some page ∧ page ∈ first :: chunks := by
    rcases List.eq_nil_or_concat chunks with rfl | ⟨rest, page, rfl⟩
    · exact ⟨first, lastPage_concat _ _, List.mem_cons_self⟩
    · rw [List.concat_eq_append, withPieces_concat]
      exact ⟨page, lastPage_concat _ _, by simp⟩
  refine .inside rfl oversized (Nat.le_add_left 1 chunks.length) within ?_ rfl final (whole page last)
  rw [spread_withPieces, List.length_append, length_pieces whole, List.length_append, length_separators, List.length_cons,
    closed.length]
  omega

/-- The full pages of an oversized block. -/
private theorem Closed.pieces (closed : Closed size blocks layout gap) (positive : 0 < size) (oversized : size < block.length)
    {first : Str} {chunks : List Str} (whole : ∀ chunk ∈ first :: chunks, chunk.length = size)
    (within : (chunks.length + 1) * size < block.length) :
    Laid size (blocks ++ [block]) (withPieces layout gap first chunks) := by
  have nonempty (chunk : Str) (member : chunk ∈ first :: chunks) : chunk ≠ [] := by
    rw [← List.length_pos_iff, whole chunk member]
    exact positive
  induction chunks using List.reverseRecOn with
  | nil =>
    refine closed.laid.mono.concat (closed.start fun page _ => by omega) (nonempty _ List.mem_cons_self) ?_
    exact (whole _ List.mem_cons_self).le
  | append_singleton chunks chunk ih =>
    have earlier (other : Str) (member : other ∈ first :: chunks) : other ∈ first :: (chunks ++ [chunk]) := by
      rw [← List.cons_append]
      exact List.mem_append_left _ member
    have last : chunk ∈ first :: (chunks ++ [chunk]) := by simp
    have shorter : (chunks.length + 1) * size < block.length := by
      rw [List.length_append, List.length_singleton, Nat.succ_mul] at within
      omega
    rw [withPieces_concat]
    exact (ih (fun other member => whole other (earlier other member)) shorter
      fun other member => nonempty other (earlier other member)).concat
      (closed.next oversized (fun other member => whole other (earlier other member)) shorter) (nonempty _ last)
      (whole _ last).le

/-- A block that fits on no page is cut; its end starts a page that may take more. -/
theorem Closed.cut (closed : Closed size blocks layout gap) (positive : 0 < size) {first rest : Str} {chunks : List Str}
    (whole : ∀ chunk ∈ first :: chunks, chunk.length = size) (spelled : block = (first :: chunks).flatten ++ rest)
    (nonempty : rest ≠ []) (small : rest.length ≤ size) :
    Progress size (blocks ++ [block]) (withPieces layout gap first chunks) 0 rest := by
  have some := List.length_pos_iff.mpr nonempty
  have length : block.length = (chunks.length + 1) * size + rest.length := by
    rw [spelled, List.length_append, length_pieces whole, List.length_cons]
  have oversized : size < block.length := by
    rw [length, Nat.succ_mul]
    omega
  have within : (chunks.length + 1) * size < block.length := by omega
  refine ⟨?_, closed.pieces positive oversized whole within, ?_, small, fun _ => closed.next oversized whole within,
    fun empty => absurd empty nonempty⟩
  · rw [separated_concat, closed.text, spread_withPieces, separators_succ, spelled]
    simp [separators]
  · refine closed.covered.concat (fun _ _ onPage => ?_) fun fits => ?_
    · rw [withPieces, List.append_assoc]
      exact onPage.append _
    · omega

end Steps

/-! ## The loop -/

section Loop

variable (pageSize : ℕ+)

theorem hardSplit_small {pages : List Str} {current block : Str} (small : block.length ≤ pageSize) :
    hardSplit pageSize pages current block = (pages, current, block) := by
  rw [hardSplit, if_neg (Nat.not_lt.mpr small)]

/-- The inner loop finishes the open page and cuts full pages off a block until the rest fits on one. -/
theorem hardSplit_large {pages : List Str} {current block : Str} (large : (pageSize : ℕ) < block.length) :
    ∃ first chunks rest, hardSplit pageSize pages current block =
        ((if current = [] then pages else pages ++ [current]) ++ first :: chunks, [], rest) ∧
      (∀ chunk ∈ first :: chunks, chunk.length = (pageSize : ℕ)) ∧ block = (first :: chunks).flatten ++ rest ∧ rest ≠ [] ∧
      rest.length ≤ pageSize := by
  have positive := pageSize.pos
  induction shorter : block.length using Nat.strong_induction_on generalizing pages current block with
  | _ length ih =>
    rw [hardSplit, if_pos large]
    dsimp only
    have cut : (block.take pageSize).length = pageSize := by
      rw [List.length_take]
      omega
    rcases Nat.lt_or_ge pageSize (block.drop pageSize).length with more | last
    · obtain ⟨first, chunks, rest, same, whole, spelled, nonempty, small⟩ :=
        ih _ (by rw [List.length_drop]; omega) more rfl
      refine ⟨block.take pageSize, first :: chunks, rest, ?_, ?_, ?_, nonempty, small⟩
      · rw [same, if_pos rfl, List.append_assoc, List.singleton_append]
      · intro chunk member
        rcases List.mem_cons.mp member with rfl | member
        · exact cut
        · exact whole chunk member
      · rw [List.flatten_cons, List.append_assoc, ← spelled, List.take_append_drop]
    · refine ⟨block.take pageSize, [], block.drop pageSize, hardSplit_small pageSize last, ?_, ?_, ?_, last⟩
      · intro chunk member
        rw [List.mem_singleton.mp member]
        exact cut
      · rw [List.flatten_singleton, List.take_append_drop]
      · rw [← List.length_pos_iff, List.length_drop]
        omega

private theorem map_withPieces (layout : List (ℕ × Str)) (gap : ℕ) (first : Str) (chunks : List Str) :
    (withPieces layout gap first chunks).map Prod.snd = layout.map Prod.snd ++ first :: chunks := by
  simp [withPieces, Function.comp_def]

/-- One round of the loop. -/
theorem Progress.addBlock {blocks : List Str} {layout : List (ℕ × Str)} {gap : ℕ} {current : Str}
    (progress : Progress pageSize blocks layout gap current) (block : Str) :
    ∃ layout' gap' current', addBlock pageSize (layout.map Prod.snd, current) block = (layout'.map Prod.snd, current') ∧
      Progress pageSize (blocks ++ [block]) layout' gap' current' := by
  rcases Nat.lt_or_ge pageSize block.length with large | small
  · obtain ⟨first, chunks, rest, same, whole, spelled, nonempty, small⟩ := hardSplit_large pageSize large
    rw [MarkitdownServer.addBlock, same]
    dsimp only
    rw [if_pos rfl, if_neg (Nat.not_lt.mpr small)]
    rcases progress.close with ⟨rfl, closed⟩ | ⟨begun, closed⟩
    · refine ⟨_, _, _, ?_, closed.cut pageSize.pos whole spelled nonempty small⟩
      rw [if_pos rfl, map_withPieces]
    · refine ⟨_, _, _, ?_, closed.cut pageSize.pos whole spelled nonempty small⟩
      rw [if_neg begun, map_withPieces, List.map_append, List.map_singleton]
  · rw [MarkitdownServer.addBlock, hardSplit_small pageSize small]
    dsimp only
    rcases progress.close with ⟨rfl, closed⟩ | ⟨begun, closed⟩
    · rw [if_pos rfl, if_neg (Nat.not_lt.mpr small)]
      refine ⟨layout, _, block, rfl, closed.openPage small fun page member => ?_⟩
      have short := progress.blank rfl page member
      omega
    · rw [if_neg begun]
      split
      · next full =>
        refine ⟨layout ++ [(gap, current)], _, block, by rw [List.map_append, List.map_singleton], closed.openPage small ?_⟩
        rw [lastPage_concat]
        rintro page ⟨⟩
        rw [List.length_append, List.length_append, length_separator] at full
        exact full
      · next fits => exact ⟨layout, gap, _, rfl, progress.extend begun (Nat.not_lt.mp fits)⟩

/-- The whole loop. -/
theorem progress_foldl (blocks : List Str) : ∃ layout gap current,
    blocks.foldl (addBlock pageSize) ([], []) = (layout.map Prod.snd, current) ∧
      Progress pageSize blocks layout gap current := by
  induction blocks using List.reverseRecOn with
  | nil =>
    refine ⟨[], 0, [], rfl, rfl, ?_, ?_, Nat.zero_le _, fun nonempty => absurd rfl nonempty, by rintro _ _ ⟨⟩⟩
    · intro before _ _ _ split
      exact absurd split.symm (List.append_ne_nil_of_right_ne_nil _ (List.cons_ne_nil _ _))
    · intro earlier _ _ split
      exact absurd split.symm (List.append_ne_nil_of_right_ne_nil _ (List.cons_ne_nil _ _))
  | append_singleton blocks block ih =>
    obtain ⟨layout, gap, current, same, progress⟩ := ih
    rw [List.foldl_append, same]
    obtain ⟨layout', gap', current', added, progress⟩ := progress.addBlock pageSize block
    exact ⟨layout', gap', current', added, progress⟩

/-- The end of the loop, on the text after one separator. -/
private theorem paginate_separated (content : Str) : ∃ layout tail, layout.map Prod.snd = paginate content pageSize ∧
    lit "\n\n" ++ content = spread layout ++ separators tail ∧ Covered pageSize content.splitBlocks layout ∧
    (Laid pageSize content.splitBlocks layout ∨ ∃ gap, layout = [(gap, [])] ∧ tail = 0) := by
  by_cases empty : content = []
  · subst empty
    refine ⟨[(1, [])], 0, rfl, rfl, ?_, .inr ⟨1, rfl, rfl⟩⟩
    intro earlier block later split nonempty
    rcases earlier with _ | ⟨_, _ | _⟩ <;> cases split
    exact absurd rfl nonempty
  · obtain ⟨layout, gap, current, same, progress⟩ := progress_foldl pageSize content.splitBlocks
    have text := separated_splitBlocks content
    rw [progress.text] at text
    rw [paginate, if_neg empty, same]
    dsimp only
    rcases progress.close with ⟨rfl, closed⟩ | ⟨begun, closed⟩
    · rw [List.append_nil] at text
      rcases layout with _ | ⟨first, rest⟩
      · exact ⟨[(gap, [])], 0, rfl, by rw [← text]; simp [spread, separators], progress.covered, .inr ⟨gap, rfl, rfl⟩⟩
      · refine ⟨first :: rest, gap, ?_, text.symm, closed.covered, .inl closed.laid⟩
        rw [if_neg (by simp)]
    · refine ⟨layout ++ [(gap, current)], 0, ?_, ?_, closed.covered, .inl closed.laid⟩
      · rw [if_pos (.inl begun), List.map_append, List.map_singleton]
      · rw [← text, spread_append, spread_singleton]
        simp [separators]

/-- The layout of a text: its pages, the separators before each and those after the last. -/
structure PageLayout (content : Str) (size : ℕ) (layout : List (ℕ × Str)) (tail : ℕ) : Prop where
  text : content = spread layout ++ separators tail
  begins : ∀ before gap page after, before ≠ [] → layout = before ++ (gap, page) :: after →
    Begins size content.splitBlocks ((spread before).length + 2 * gap + 2) gap (lastPage before)
  covered : ∀ earlier block later, content.splitBlocks = earlier ++ block :: later → block ≠ [] → block.length ≤ size →
    OnPage (blockOffset earlier) block.length layout

/-- Where the entries of a layout with one separator less in front were. -/
private theorem unshift {gap : ℕ} {first : Str} {rest before after : List (ℕ × Str)} {other : ℕ} {page : Str}
    (split : (gap, first) :: rest = before ++ (other, page) :: after) (later : before ≠ []) :
    ∃ shifted, (gap + 1, first) :: rest = shifted ++ (other, page) :: after ∧
      (spread shifted).length = (spread before).length + 2 ∧ lastPage shifted = lastPage before := by
  obtain ⟨head, others, rfl⟩ := List.exists_cons_of_ne_nil later
  rw [List.cons_append] at split
  obtain ⟨rfl, same⟩ := List.cons.inj split
  refine ⟨(gap + 1, first) :: others, by rw [same, List.cons_append], ?_, ?_⟩
  · simp only [spread, List.flatMap_cons, List.length_append, length_separators]
    omega
  · cases others with
    | nil => rfl
    | cons => simp [lastPage, List.getLast?_cons_cons]

private theorem OnPage.unshift {gap start length : ℕ} {first : Str} {rest : List (ℕ × Str)}
    (onPage : OnPage (start + 2) length ((gap + 1, first) :: rest)) : OnPage start length ((gap, first) :: rest) := by
  obtain ⟨before, other, page, after, split, left, right⟩ := onPage
  cases before with
  | nil =>
    cases split
    refine ⟨[], gap, first, rest, rfl, ?_, ?_⟩ <;> omega
  | cons head others =>
    rw [List.cons_append] at split
    obtain ⟨rfl, same⟩ := List.cons.inj split
    have length : (spread ((gap + 1, first) :: others)).length = (spread ((gap, first) :: others)).length + 2 := by
      simp only [spread, List.flatMap_cons, List.length_append, length_separators]
      omega
    refine ⟨(gap, first) :: others, other, page, after, by rw [same, List.cons_append], ?_, ?_⟩ <;> omega

/-- The first page comes after a separator. -/
private theorem first_separate {content : Str} {layout : List (ℕ × Str)} {tail : ℕ}
    (nonempty : layout ≠ []) (text : lit "\n\n" ++ content = spread layout ++ separators tail)
    (shape : Laid pageSize content.splitBlocks layout ∨ ∃ gap, layout = [(gap, [])] ∧ tail = 0) :
    ∃ gap first rest, layout = (gap + 1, first) :: rest := by
  obtain ⟨⟨gap, first⟩, rest, rfl⟩ := List.exists_cons_of_ne_nil nonempty
  have counted : 1 ≤ gap := by
    rcases shape with laid | ⟨gap, same, rfl⟩
    · cases (laid [] gap first rest rfl).1 with
      | block _ _ separate => exact separate
      | inside _ _ _ _ _ _ previously => cases previously
    · cases same
      have lengths := congrArg List.length text
      simp only [List.length_append, length_separator, spread_singleton, length_separators, List.length_nil] at lengths
      omega
  exact ⟨gap - 1, first, rest, by rw [Nat.sub_add_cancel counted]⟩

/-- Every text has a layout. -/
theorem exists_pageLayout (content : Str) : ∃ layout tail, layout.map Prod.snd = paginate content pageSize ∧
    PageLayout content pageSize layout tail := by
  obtain ⟨layout, tail, same, text, covered, shape⟩ := paginate_separated pageSize content
  have nonempty : layout ≠ [] := by
    rintro rfl
    exact paginate_ne_nil content pageSize same.symm
  obtain ⟨gap, first, rest, rfl⟩ := first_separate pageSize nonempty text shape
  refine ⟨(gap, first) :: rest, tail, same, ?_, ?_, ?_⟩
  · have shorter : spread ((gap + 1, first) :: rest) = lit "\n\n" ++ spread ((gap, first) :: rest) := by
      simp [spread, separators, List.replicate_succ]
    rw [shorter, List.append_assoc] at text
    exact List.append_cancel_left text
  · intro before other page after later split
    obtain ⟨shifted, split, length, last⟩ := unshift split later
    rcases shape with laid | ⟨_, sole, _⟩
    · rw [← last, show (spread before).length + 2 * other + 2 = (spread shifted).length + 2 * other by omega]
      exact (laid _ _ _ _ split).1
    · cases sole
      rcases shifted with _ | ⟨_, _ | _⟩ <;> cases split
      exact absurd length.symm (Nat.succ_ne_zero _)
  · intro earlier block later split filled small
    exact (covered earlier block later split filled small).unshift

/-- The pages of a text have characters, but not too many, unless it is one empty page. -/
theorem paginate_pages (content : Str) : (∀ page ∈ paginate content pageSize, page.length ≤ pageSize) ∧
    ((∀ page ∈ paginate content pageSize, page ≠ []) ∨ paginate content pageSize = [[]]) := by
  obtain ⟨layout, tail, same, _, _, laid | ⟨gap, rfl, _⟩⟩ := paginate_separated pageSize content
  · have each (page : Str) (member : page ∈ paginate content pageSize) : page ≠ [] ∧ page.length ≤ pageSize := by
      rw [← same] at member
      obtain ⟨⟨gap, page⟩, inside, rfl⟩ := List.mem_map.mp member
      obtain ⟨before, after, split⟩ := List.append_of_mem inside
      exact (laid before gap page after split).2
    exact ⟨fun page member => (each page member).2, .inl fun page member => (each page member).1⟩
  · rw [← same]
    refine ⟨fun page member => ?_, .inr rfl⟩
    rw [List.mem_singleton.mp member]
    exact Nat.zero_le _

end Loop

/-- The position is inside a block that is longer than a page, whole pages after its start. -/
def InsideOversized (content : Str) (size position : ℕ) : Prop :=
  ∃ earlier block later count, content.splitBlocks = earlier ++ block :: later ∧ size < block.length ∧ 1 ≤ count ∧
    count * size < block.length ∧ position = blockOffset earlier + count * size

/-- What comes after the blocks before a block starts with it. -/
private theorem drop_blockOffset {content block : Str} {earlier later : List Str}
    (split : content.splitBlocks = earlier ++ block :: later) : block <+: content.drop (blockOffset earlier) := by
  have text := separated_splitBlocks content
  rw [split, separated, List.flatMap_append, List.flatMap_cons, ← separated, ← separated, ← List.append_assoc,
    ← List.append_assoc, List.append_assoc] at text
  refine ⟨separated later, ?_⟩
  have rest := congrArg (List.drop (blockOffset earlier + 2)) text
  rwa [List.drop_left' (by simp), Nat.add_comm, ← List.drop_drop, List.drop_left' length_separator] at rest

/-- What comes after the pages before a page starts with it. -/
private theorem drop_spread (before after : List (ℕ × Str)) (gap : ℕ) (page : Str) (tail : ℕ) :
    page <+: (spread (before ++ (gap, page) :: after) ++ separators tail).drop ((spread before).length + 2 * gap) := by
  refine ⟨spread after ++ separators tail, ?_⟩
  rw [List.append_cons, spread_append, spread_append, spread_singleton, ← List.append_assoc (spread before),
    List.append_assoc, List.append_assoc, List.drop_left' (by simp)]

/-- The pages of a text with the separators dropped between them spell the text. No separator is dropped only where an
oversized block is cut, and the characters of every other block are on one page. -/
theorem paginate_reconstructs (content : Str) (pageSize : ℕ+) :
    ∃ layout tail, layout.map Prod.snd = paginate content pageSize ∧ content = spread layout ++ separators tail ∧
      (∀ before page after, before ≠ [] → layout = before ++ (0, page) :: after →
        InsideOversized content pageSize (spread before).length) ∧
      ∀ earlier block later, content.splitBlocks = earlier ++ block :: later → block.length ≤ (pageSize : ℕ) →
        ∃ before gap page after, layout = before ++ (gap, page) :: after ∧
          ∀ position, blockOffset earlier ≤ position → position < blockOffset earlier + block.length →
            (spread before).length + 2 * gap ≤ position ∧ position < (spread before).length + 2 * gap + page.length := by
  obtain ⟨layout, tail, same, text, begins, covered⟩ := exists_pageLayout pageSize content
  refine ⟨layout, tail, same, text, ?_, ?_⟩
  · intro before page after later split
    cases begins before 0 page after later split with
    | block _ _ separate => exact absurd separate (Nat.not_succ_le_zero 0)
    | inside split oversized counted within here => exact ⟨_, _, _, _, split, oversized, counted, within, by omega⟩
  · intro earlier block later split small
    by_cases empty : block = []
    · obtain ⟨⟨gap, page⟩, rest, shape⟩ : ∃ first rest, layout = first :: rest := by
        refine List.exists_cons_of_ne_nil ?_
        rintro rfl
        exact paginate_ne_nil content pageSize same.symm
      refine ⟨[], gap, page, rest, shape, fun position lower upper => ?_⟩
      rw [empty, List.length_nil] at upper
      omega
    · obtain ⟨before, gap, page, after, shape, left, right⟩ := covered earlier block later split empty small
      refine ⟨before, gap, page, after, shape, fun position lower upper => ?_⟩
      omega

/-- The pages of a text respect the page size, and each takes what fits: the next page continues an oversized block
after a full page, or starts with a block for which there was no room. -/
theorem paginate_greedy (content : Str) (pageSize : ℕ+) :
    paginate content pageSize ≠ [] ∧ (∀ page ∈ paginate content pageSize, page.length ≤ pageSize) ∧
      ((∀ page ∈ paginate content pageSize, page ≠ []) ∨ paginate content pageSize = [[]]) ∧
      ∃ layout tail, layout.map Prod.snd = paginate content pageSize ∧ content = spread layout ++ separators tail ∧
        ∀ before gap page gap' next after, layout = before ++ (gap, page) :: (gap', next) :: after →
          (page.length = (pageSize : ℕ) ∧ gap' = 0 ∧
            InsideOversized content pageSize ((spread before).length + 2 * gap + page.length)) ∨
          ∃ earlier block later, content.splitBlocks = earlier ++ block :: later ∧
            (spread before).length + 2 * gap + page.length + 2 * gap' = blockOffset earlier ∧
            (block <+: next ∨ next <+: block) ∧ (pageSize : ℕ) < page.length + 2 + block.length := by
  obtain ⟨bounded, filled⟩ := paginate_pages pageSize content
  obtain ⟨layout, tail, same, text, begins, _⟩ := exists_pageLayout pageSize content
  refine ⟨paginate_ne_nil content pageSize, bounded, filled, layout, tail, same, text, ?_⟩
  intro before gap page gap' next after shape
  rw [List.append_cons] at shape
  have length : (spread (before ++ [(gap, page)])).length = (spread before).length + 2 * gap + page.length := by
    rw [spread_append, spread_singleton, List.length_append, List.length_append, length_separators, Nat.add_assoc]
  have begun := begins _ gap' next after (List.append_ne_nil_of_right_ne_nil _ (List.cons_ne_nil _ _)) shape
  rw [length, lastPage_concat] at begun
  cases begun with
  | inside split oversized counted within here joined previously whole =>
    cases previously
    exact .inl ⟨whole, joined, _, _, _, _, split, oversized, counted, within, by omega⟩
  | @block earlier later block split here separate full =>
    refine .inr ⟨earlier, block, later, split, by omega, ?_, full page rfl⟩
    have there := drop_spread (before ++ [(gap, page)]) after gap' next tail
    rw [← shape, ← text, length, show _ + 2 * gap' = blockOffset earlier by omega] at there
    exact List.prefix_or_prefix_of_prefix (drop_blockOffset split) there

end MarkitdownServer
