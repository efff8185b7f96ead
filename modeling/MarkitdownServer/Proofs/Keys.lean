import MarkitdownServer.Model.Storage

/-! # Keys

Two keys of the bucket are equal only when they were made by the same function from the same arguments, and two
document keys only when the file and every setting that changes the output agree. The settings are joined without
escaping. The version has no separator and is read off the front, the numbers are read off the back, and what is
left in the middle is the name of the model, whatever it contains.
-/

namespace MarkitdownServer

/-- A call of `source_key`, `part_key`, `manifest_key` or `page_key`. -/
inductive KeyCall where
  | sourceKey (fileHash : Str)
  | partKey (docKey : Str) (chunkIndex : ℕ)
  | manifestKey (docKey : Str)
  | pageKey (docKey : Str) (page : ℕ)

/-- The key that the call returns. -/
def KeyCall.key : KeyCall → Str
  | .sourceKey fileHash => MarkitdownServer.sourceKey fileHash
  | .partKey docKey chunkIndex => MarkitdownServer.partKey docKey chunkIndex
  | .manifestKey docKey => MarkitdownServer.manifestKey docKey
  | .pageKey docKey page => MarkitdownServer.pageKey docKey page

/-- No two calls return the same key. -/
theorem key_injective : Function.Injective KeyCall.key := by
  intro first second same
  cases first with
  | sourceKey fileHash =>
    cases second with
    | sourceKey other => rw [(sourceKey_inj _ _).mp same]
    | _ => simp [KeyCall.key] at same
  | partKey docKey chunkIndex =>
    cases second with
    | partKey other index =>
      obtain ⟨docKeys, indices⟩ := (partKey_inj _ _ _ _).mp same
      rw [docKeys, indices]
    | _ => simp [KeyCall.key] at same
  | manifestKey docKey =>
    cases second with
    | manifestKey other => rw [(manifestKey_inj _ _).mp same]
    | _ => simp [KeyCall.key] at same
  | pageKey docKey page =>
    cases second with
    | pageKey other number =>
      obtain ⟨docKeys, pages⟩ := (pageKey_inj _ _ _ _).mp same
      rw [docKeys, pages]
    | _ => simp [KeyCall.key] at same

namespace Settings

variable {first second : Settings}

/-- The settings agree in everything that changes the output; the model counts when it is used. -/
structure Agree (first second : Settings) : Prop where
  version : first.markitdownVersion = second.markitdownVersion
  useLlm : first.useLlm = second.useLlm
  model : first.useLlm = true → first.openaiModel = second.openaiModel
  pageSize : first.pageSize = second.pageSize
  pagesPerChunk : first.pagesPerChunk = second.pagesPerChunk
  minPages : first.minPagesForParallel = second.minPagesForParallel

/-- The flag and the model as they are written. -/
private def mode (settings : Settings) : Str × Str :=
  if settings.useLlm then (lit "llm", settings.openaiModel) else (lit "nollm", lit "-")

private theorem fingerprintParts_eq (settings : Settings) :
    settings.fingerprintParts = settings.markitdownVersion ++ '|' :: (settings.mode.1 ++ '|' ::
      (((settings.mode.2 ++ '|' :: Str.ofInt settings.pageSize) ++ '|' :: Str.ofInt settings.pagesPerChunk) ++
        '|' :: Str.ofInt settings.minPagesForParallel)) := by
  have bar : lit "|" = ['|'] := by decide
  cases useLlm : settings.useLlm <;>
    simp [fingerprintParts, mode, useLlm, Str.join, bar, List.intercalate, List.intersperse]

private theorem bar_notMem_ofInt (n : ℤ) : '|' ∉ Str.ofInt n := by
  intro member
  rcases Str.mem_ofInt member with sign | digit
  · exact absurd sign (by decide)
  · exact absurd digit (by decide)

private theorem bar_notMem_mode (settings : Settings) : '|' ∉ settings.mode.1 := by
  unfold mode
  split
  · show '|' ∉ lit "llm"
    decide
  · show '|' ∉ lit "nollm"
    decide

private theorem mode_eq_iff : first.mode = second.mode ↔
    first.useLlm = second.useLlm ∧ (first.useLlm = true → first.openaiModel = second.openaiModel) := by
  have flags : lit "llm" ≠ lit "nollm" := by decide
  cases one : first.useLlm <;> cases two : second.useLlm <;> simp [mode, one, two, flags, flags.symm]

/-- The hashed strings are equal exactly when the settings agree. -/
theorem fingerprintParts_eq_iff (plain : '|' ∉ first.markitdownVersion) (alsoPlain : '|' ∉ second.markitdownVersion) :
    first.fingerprintParts = second.fingerprintParts ↔ first.Agree second := by
  rw [fingerprintParts_eq, fingerprintParts_eq, Str.cut_first plain alsoPlain,
    Str.cut_first first.bar_notMem_mode second.bar_notMem_mode, Str.cut_last (bar_notMem_ofInt _) (bar_notMem_ofInt _),
    Str.cut_last (bar_notMem_ofInt _) (bar_notMem_ofInt _), Str.cut_last (bar_notMem_ofInt _) (bar_notMem_ofInt _),
    Str.ofInt_injective.eq_iff, Str.ofInt_injective.eq_iff, Str.ofInt_injective.eq_iff]
  constructor
  · rintro ⟨version, flag, ⟨⟨model, pageSize⟩, pagesPerChunk⟩, minPages⟩
    obtain ⟨useLlm, models⟩ := mode_eq_iff.mp (Prod.ext flag model)
    exact ⟨version, useLlm, models, pageSize, pagesPerChunk, minPages⟩
  · rintro ⟨version, useLlm, models, pageSize, pagesPerChunk, minPages⟩
    have modes := mode_eq_iff.mpr ⟨useLlm, models⟩
    exact ⟨version, congrArg Prod.fst modes, ⟨⟨congrArg Prod.snd modes, pageSize⟩, pagesPerChunk⟩, minPages⟩

/-- The fingerprint separates exactly the fingerprinted settings, and so does a document key together with the file,
unless the two strings collide. -/
theorem makeDocKey_eq_iff (plain : '|' ∉ first.markitdownVersion) (alsoPlain : '|' ∉ second.markitdownVersion) :
    (first.fingerprintParts = second.fingerprintParts ↔ first.Agree second) ∧
      ∀ sha256 : Bytes → Str, (∀ data, (sha256 data).length = 64) →
        (first.configFingerprint sha256 = second.configFingerprint sha256 →
          encode first.fingerprintParts = encode second.fingerprintParts) →
        ∀ fileHash otherHash, first.makeDocKey sha256 fileHash = second.makeDocKey sha256 otherHash ↔
          fileHash = otherHash ∧ first.Agree second := by
  have separated := fingerprintParts_eq_iff plain alsoPlain
  refine ⟨separated, fun sha256 digest collisionless fileHash otherHash => ?_⟩
  have lengths : (first.configFingerprint sha256).length = (second.configFingerprint sha256).length := by
    rw [configFingerprint, configFingerprint, List.length_take, List.length_take, digest, digest]
  constructor
  · intro same
    obtain ⟨hashes, fingerprints⟩ := List.append_inj' same lengths
    exact ⟨List.append_cancel_right hashes, separated.mp (encode_injective (collisionless fingerprints))⟩
  · rintro ⟨rfl, agree⟩
    rw [makeDocKey, makeDocKey, configFingerprint, configFingerprint, separated.mpr agree]

/-- Settings whose model has a separator in its name. -/
def sample (useLlm : Bool) : Settings := ⟨lit "0.1.3", useLlm, lit "m|1", 5000, 20, 40⟩

/-- SHA-256 of `0.1.3|llm|m|1|5000|20|40`, and of `0.1.3|nollm|-|5000|20|40` in the place of everything else. -/
def sampleDigest (data : Bytes) : Str :=
  if data = encode (sample true).fingerprintParts then
    lit "60ee36cbdb47f6bdc637921a758160f2e895dfce4f54290e10a2c999450fb190"
  else lit "d71854cbfe5efab0ecfc93ea8d7f4038017ad8c13d61c4ca984168c3cba5c52c"

theorem makeDocKey_ne_of_useLlm : '|' ∉ (sample true).markitdownVersion ∧ '|' ∉ (sample false).markitdownVersion ∧
    (∀ data, (sampleDigest data).length = 64) ∧
    (sample true).makeDocKey sampleDigest (lit "hash") ≠ (sample false).makeDocKey sampleDigest (lit "hash") := by
  have digest (data : Bytes) : (sampleDigest data).length = 64 := by
    unfold sampleDigest
    split <;> decide +kernel
  have plain (useLlm : Bool) : '|' ∉ (sample useLlm).markitdownVersion := by
    show '|' ∉ lit "0.1.3"
    decide
  have strings : (sample true).fingerprintParts ≠ (sample false).fingerprintParts := by decide +kernel
  refine ⟨plain true, plain false, digest, fun same => ?_⟩
  have separates := (makeDocKey_eq_iff (plain true) (plain false)).2 sampleDigest digest
  have agree := ((separates ?_ _ _).mp same).2
  · cases agree.useLlm
  · rw [configFingerprint, configFingerprint, sampleDigest, sampleDigest, if_pos rfl,
      if_neg fun same => strings (encode_injective same).symm]
    intro collide
    exact absurd collide (by decide +kernel)

end Settings

end MarkitdownServer
