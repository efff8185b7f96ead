import MarkitdownServer.Model.Config

/-! # Object storage: keys and objects

The model of the key derivation and of the bucket behind `storage.py`. An object is kept as what was
written: a source file, a text that is stored UTF-8 encoded, or a manifest that is stored as JSON.
Nothing in the code deletes an object.
-/

namespace MarkitdownServer

/-- `source_key`. -/
def sourceKey (fileHash : Str) : Str := lit "src/" ++ fileHash

/-- `part_key`. -/
def partKey (docKey : Str) (chunkIndex : ℕ) : Str :=
  lit "parts/" ++ docKey ++ lit "/" ++ Str.pad5 chunkIndex ++ lit ".md"

/-- `manifest_key`. -/
def manifestKey (docKey : Str) : Str := lit "docs/" ++ docKey ++ lit "/manifest.json"

/-- `page_key`. -/
def pageKey (docKey : Str) (page : ℕ) : Str :=
  lit "docs/" ++ docKey ++ lit "/pages/" ++ Str.ofNat page ++ lit ".md"

/-- The manifest that `put_document` writes. -/
structure Manifest where
  docKey : Str
  totalPages : ℕ
  totalLength : ℕ
  pageSize : ℕ
deriving DecidableEq

/-- The content of a stored object. -/
inductive Obj where
  | source (file : Bytes)
  | text (content : Str)
  | manifest (manifest : Manifest)
deriving DecidableEq

/-- The bucket: the object under each key. -/
abbrev Store := Str → Option Obj

/-- `put_object`. -/
def Store.put (store : Store) (key : Str) (obj : Obj) : Store :=
  fun other => if other = key then some obj else store other

@[simp] theorem Store.put_apply (store : Store) (key other : Str) (obj : Obj) :
    store.put key obj other = if other = key then some obj else store other := rfl

/-! ## Different arguments give different keys -/

private theorem file_plain {digits : Str} (plain : ∀ c ∈ digits, c.isDigit = true) : '/' ∉ digits ++ lit ".md" := by
  intro member
  rcases List.mem_append.mp member with digit | suffix
  · exact absurd (plain '/' digit) (by decide)
  · exact absurd suffix (by decide)

@[simp] theorem sourceKey_inj (first second : Str) : sourceKey first = sourceKey second ↔ first = second := by
  simp [sourceKey]

@[simp] theorem manifestKey_inj (first second : Str) :
    manifestKey first = manifestKey second ↔ first = second := by
  simp [manifestKey]

private theorem lit_slash : lit "/" = ['/'] := by decide

private theorem lit_pages : lit "/pages/" = lit "/pages" ++ ['/'] := by decide

@[simp] theorem partKey_inj (first second : Str) (i j : ℕ) :
    partKey first i = partKey second j ↔ first = second ∧ i = j := by
  constructor
  · intro same
    have cut : (lit "parts/" ++ first) ++ '/' :: (Str.pad5 i ++ lit ".md") =
        (lit "parts/" ++ second) ++ '/' :: (Str.pad5 j ++ lit ".md") := by
      simpa only [partKey, lit_slash, List.append_assoc, List.cons_append, List.nil_append] using same
    obtain ⟨keys, files⟩ := (Str.cut_last (file_plain fun _ => Str.isDigit_of_mem_pad5)
      (file_plain fun _ => Str.isDigit_of_mem_pad5)).mp cut
    exact ⟨List.append_cancel_left keys, Str.pad5_injective (List.append_cancel_right files)⟩
  · rintro ⟨rfl, rfl⟩
    rfl

@[simp] theorem pageKey_inj (first second : Str) (m n : ℕ) :
    pageKey first m = pageKey second n ↔ first = second ∧ m = n := by
  constructor
  · intro same
    have cut : (lit "docs/" ++ first ++ lit "/pages") ++ '/' :: (Str.ofNat m ++ lit ".md") =
        (lit "docs/" ++ second ++ lit "/pages") ++ '/' :: (Str.ofNat n ++ lit ".md") := by
      simpa only [pageKey, lit_pages, List.append_assoc, List.cons_append, List.nil_append] using same
    obtain ⟨keys, files⟩ := (Str.cut_last (file_plain fun _ => Str.isDigit_of_mem_ofNat)
      (file_plain fun _ => Str.isDigit_of_mem_ofNat)).mp cut
    exact ⟨List.append_cancel_left (List.append_cancel_right keys),
      Str.ofNat_injective (List.append_cancel_right files)⟩
  · rintro ⟨rfl, rfl⟩
    rfl

/-- The first character tells sources, parts and documents apart. -/
private theorem head_key : (∀ hash, (sourceKey hash).head? = some 's') ∧
    (∀ docKey i, (partKey docKey i).head? = some 'p') ∧
    (∀ docKey, (manifestKey docKey).head? = some 'd') ∧
    (∀ docKey n, (pageKey docKey n).head? = some 'd') := by
  have sources : lit "src/" = 's' :: lit "rc/" := by decide
  have parts : lit "parts/" = 'p' :: lit "arts/" := by decide
  have docs : lit "docs/" = 'd' :: lit "ocs/" := by decide
  refine ⟨fun _ => ?_, fun _ _ => ?_, fun _ => ?_, fun _ _ => ?_⟩
  · rw [sourceKey, sources, List.cons_append, List.head?_cons]
  · simp only [partKey, parts, List.cons_append, List.head?_cons]
  · simp only [manifestKey, docs, List.cons_append, List.head?_cons]
  · simp only [pageKey, docs, List.cons_append, List.head?_cons]

/-- The last character tells a page from its manifest. -/
@[simp] theorem pageKey_ne_manifestKey (first second : Str) (n : ℕ) : pageKey first n ≠ manifestKey second := by
  intro same
  have last := congrArg List.getLast? same
  rw [pageKey, manifestKey, List.getLast?_append_of_ne_nil _ (by decide),
    List.getLast?_append_of_ne_nil _ (by decide)] at last
  exact absurd last (by decide)

private theorem ne_of_head {first second : Str} {c d : Char} (one : first.head? = some c)
    (two : second.head? = some d) (different : c ≠ d) : first ≠ second := by
  rintro rfl
  exact different (Option.some.inj (one.symm.trans two))

@[simp] theorem pageKey_ne_partKey (first second : Str) (n i : ℕ) : pageKey first n ≠ partKey second i :=
  ne_of_head (head_key.2.2.2 _ _) (head_key.2.1 _ _) (by decide)

@[simp] theorem pageKey_ne_sourceKey (first hash : Str) (n : ℕ) : pageKey first n ≠ sourceKey hash :=
  ne_of_head (head_key.2.2.2 _ _) (head_key.1 _) (by decide)

@[simp] theorem manifestKey_ne_partKey (first second : Str) (i : ℕ) : manifestKey first ≠ partKey second i :=
  ne_of_head (head_key.2.2.1 _) (head_key.2.1 _ _) (by decide)

@[simp] theorem manifestKey_ne_sourceKey (first hash : Str) : manifestKey first ≠ sourceKey hash :=
  ne_of_head (head_key.2.2.1 _) (head_key.1 _) (by decide)

@[simp] theorem partKey_ne_sourceKey (first hash : Str) (i : ℕ) : partKey first i ≠ sourceKey hash :=
  ne_of_head (head_key.2.1 _ _) (head_key.1 _) (by decide)

@[simp] theorem manifestKey_ne_pageKey (first second : Str) (n : ℕ) : manifestKey first ≠ pageKey second n :=
  (pageKey_ne_manifestKey _ _ _).symm

@[simp] theorem partKey_ne_pageKey (first second : Str) (i n : ℕ) : partKey first i ≠ pageKey second n :=
  (pageKey_ne_partKey _ _ _ _).symm

@[simp] theorem sourceKey_ne_pageKey (hash first : Str) (n : ℕ) : sourceKey hash ≠ pageKey first n :=
  (pageKey_ne_sourceKey _ _ _).symm

@[simp] theorem partKey_ne_manifestKey (first second : Str) (i : ℕ) : partKey first i ≠ manifestKey second :=
  (manifestKey_ne_partKey _ _ _).symm

@[simp] theorem sourceKey_ne_manifestKey (hash first : Str) : sourceKey hash ≠ manifestKey first :=
  (manifestKey_ne_sourceKey _ _).symm

@[simp] theorem sourceKey_ne_partKey (hash first : Str) (i : ℕ) : sourceKey hash ≠ partKey first i :=
  (partKey_ne_sourceKey _ _ _).symm

end MarkitdownServer
