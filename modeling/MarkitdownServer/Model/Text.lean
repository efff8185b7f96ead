import Mathlib.Data.Int.Notation
import Mathlib.Data.List.Basic

/-! # Python strings

A Python `str` is the list of its code points; `len`, slicing and concatenation are those of lists.
-/

namespace MarkitdownServer

/-- A Python `str`. -/
abbrev Str := List Char

/-- A Python `bytes`. -/
abbrev Bytes := List UInt8

/-- A string literal of the source. -/
def lit (literal : String) : Str := literal.toList

namespace Str

/-- `str(n)` of a non-negative integer. -/
def ofNat (n : ℕ) : Str := Nat.toDigits 10 n

/-- `str(n)`. -/
def ofInt : ℤ → Str
  | .ofNat n => ofNat n
  | .negSucc n => '-' :: ofNat (n + 1)

/-- `f"{n:05d}"` of a non-negative integer. -/
def pad5 (n : ℕ) : Str := (ofNat n).leftpad 5 '0'

/-- `str.isspace` of one character: the code points Python treats as white space. -/
def isSpace (c : Char) : Bool :=
  let n := c.toNat
  (0x09 ≤ n && n ≤ 0x0d) || (0x1c ≤ n && n ≤ 0x20) || n = 0x85 || n = 0xa0 || n = 0x1680 ||
    (0x2000 ≤ n && n ≤ 0x200a) || n = 0x2028 || n = 0x2029 || n = 0x202f || n = 0x205f || n = 0x3000

/-- `text.strip()`. -/
def strip (text : Str) : Str :=
  ((text.dropWhile isSpace).reverse.dropWhile isSpace).reverse

/-- `separator.join(parts)`. -/
def join (separator : Str) (parts : List Str) : Str := separator.intercalate parts

/-- `text.split("\n\n")`: the blocks between blank lines, scanning from the left. -/
def splitBlocks : Str → List Str
  | [] => [[]]
  | '\n' :: '\n' :: rest => [] :: splitBlocks rest
  | c :: rest =>
    match splitBlocks rest with
    | [] => [[c]]
    | block :: blocks => (c :: block) :: blocks

/-- Put a character at the front of the first part. -/
def consHead (c : Char) : List Str → List Str
  | [] => [[c]]
  | part :: parts => (c :: part) :: parts

/-- Scan for the separator after passing over `skip` characters. -/
def splitFrom (separator : Str) : ℕ → Str → List Str
  | _, [] => [[]]
  | skip + 1, _ :: rest => splitFrom separator skip rest
  | 0, c :: rest =>
    if separator.isPrefixOf (c :: rest) then [] :: splitFrom separator (separator.length - 1) rest
    else consHead c (splitFrom separator 0 rest)

/-- `text.split(separator)`, scanning from the left. -/
def split (separator text : Str) : List Str := splitFrom separator 0 text

/-- The characters at which `str.splitlines` ends a line. -/
def isLineBoundary (c : Char) : Bool :=
  let n := c.toNat
  (0x0a ≤ n && n ≤ 0x0d) || (0x1c ≤ n && n ≤ 0x1e) || n = 0x85 || n = 0x2028 || n = 0x2029

/-- `text.splitlines()`: a carriage return and the line feed after it end one line, and a line end at the end of the
text starts no further line. -/
def splitlines : Str → List Str
  | [] => []
  | '\r' :: '\n' :: rest => [] :: splitlines rest
  | c :: rest => if isLineBoundary c then [] :: splitlines rest else consHead c (splitlines rest)

theorem ofNat_injective : Function.Injective ofNat := by
  intro first second same
  have parsed := congrArg (Nat.ofDigitChars 10 · 0) same
  simpa only [ofNat, Nat.ofDigitChars_ten_toDigits] using parsed

theorem isDigit_of_mem_ofNat {n : ℕ} {c : Char} (member : c ∈ ofNat n) : c.isDigit = true :=
  Nat.isDigit_of_mem_toDigits (by decide) (by decide) member

private theorem parse_zeros (zeros : ℕ) (digits : Str) :
    Nat.ofDigitChars 10 (List.replicate zeros '0' ++ digits) 0 = Nat.ofDigitChars 10 digits 0 := by
  induction zeros with
  | zero => rfl
  | succ zeros ih => rw [List.replicate_succ, List.cons_append, Nat.ofDigitChars_cons]; exact ih

theorem pad5_injective : Function.Injective pad5 := by
  intro first second same
  have parsed := congrArg (Nat.ofDigitChars 10 · 0) same
  simpa only [pad5, List.leftpad, parse_zeros, ofNat, Nat.ofDigitChars_ten_toDigits] using parsed

theorem isDigit_of_mem_pad5 {n : ℕ} {c : Char} (member : c ∈ pad5 n) : c.isDigit = true := by
  rcases List.mem_append.mp member with zero | digit
  · rw [(List.mem_replicate.mp zero).2]
    rfl
  · exact isDigit_of_mem_ofNat digit

/-- A text is cut in one way at the first separator. -/
theorem cut_first {separator : Char} {left right first second : Str} (plain : separator ∉ left)
    (alsoPlain : separator ∉ right) :
    left ++ separator :: first = right ++ separator :: second ↔ left = right ∧ first = second := by
  constructor
  · intro same
    have before {part rest : Str} (free : separator ∉ part) :
        (part ++ separator :: rest).takeWhile (· ≠ separator) = part := by
      rw [List.takeWhile_append_of_pos fun c member => decide_eq_true (ne_of_mem_of_not_mem member free)]
      simp
    have parts := congrArg (List.takeWhile (· ≠ separator)) same
    rw [before plain, before alsoPlain] at parts
    subst parts
    exact ⟨rfl, List.tail_eq_of_cons_eq (List.append_cancel_left same)⟩
  · rintro ⟨rfl, rfl⟩
    rfl

/-- A text is cut in one way at the last separator. -/
theorem cut_last {separator : Char} {left right first second : Str} (plain : separator ∉ first)
    (alsoPlain : separator ∉ second) :
    left ++ separator :: first = right ++ separator :: second ↔ left = right ∧ first = second := by
  have cut : first.reverse ++ separator :: left.reverse = second.reverse ++ separator :: right.reverse ↔
      first.reverse = second.reverse ∧ left.reverse = right.reverse :=
    cut_first (List.mem_reverse.not.mpr plain) (List.mem_reverse.not.mpr alsoPlain)
  rw [List.reverse_inj, List.reverse_inj, and_comm] at cut
  rw [← cut, ← List.reverse_inj]
  simp only [List.reverse_append, List.reverse_cons, List.append_assoc, List.singleton_append]

theorem ofInt_injective : Function.Injective ofInt := by
  have signed (first second : ℕ) : ofNat first ≠ '-' :: ofNat second := by
    intro same
    have digit := isDigit_of_mem_ofNat (same ▸ List.mem_cons_self : '-' ∈ ofNat first)
    exact absurd digit (by decide)
  intro first second same
  cases first with
  | ofNat first =>
    cases second with
    | ofNat second => rw [ofNat_injective same]
    | negSucc second => exact absurd same (signed _ _)
  | negSucc first =>
    cases second with
    | ofNat second => exact absurd same.symm (signed _ _)
    | negSucc second =>
      have digits := ofNat_injective (List.tail_eq_of_cons_eq same)
      rw [Nat.succ.inj digits]

theorem mem_ofInt {n : ℤ} {c : Char} (member : c ∈ ofInt n) : c = '-' ∨ c.isDigit = true := by
  cases n with
  | ofNat n => exact .inr (isDigit_of_mem_ofNat member)
  | negSucc n =>
    rcases List.mem_cons.mp member with sign | digit
    · exact .inl sign
    · exact .inr (isDigit_of_mem_ofNat digit)

end Str

end MarkitdownServer
