import Mathlib.Data.Int.Notation
import Mathlib.Data.List.Basic

/-! # JSON as text

Values, their text with one blank after each comma and colon and every character outside of printable ASCII
escaped, and a reader of JSON text. The reader takes what `dumps` writes and everything else that the format
allows: white space, any escape, numbers with fractions and exponents. It inverts `dumps`, whatever follows the
text of the value.
-/

namespace Json

/-- A JSON value. A number that is not an integer is kept as it is written, and an object is kept with all its
members. -/
inductive Value where
  | null
  | bool (value : Bool)
  | int (value : ℤ)
  | real (written : List Char)
  | str (text : List Char)
  | arr (items : List Value)
  | obj (members : List (List Char × Value))

/-- The last member of this name counts. -/
def lookup (name : List Char) (members : List (List Char × Value)) : Option Value :=
  (members.reverse.find? fun member => member.1 = name).map (·.2)

/-! ## Writing -/

/-- The UTF-16 code units of a character. -/
def codeUnits (c : Char) : List ℕ :=
  if c.toNat < 0x10000 then [c.toNat]
  else [0xd800 + (c.toNat - 0x10000) / 0x400, 0xdc00 + (c.toNat - 0x10000) % 0x400]

/-- `\uXXXX`. -/
def unicodeEscape (unit : ℕ) : List Char :=
  ['\\', 'u', Nat.digitChar (unit / 0x1000 % 16), Nat.digitChar (unit / 0x100 % 16), Nat.digitChar (unit / 0x10 % 16),
    Nat.digitChar (unit % 16)]

/-- The letter that stands for a character after a backslash. -/
def shortEscape (c : Char) : Option Char :=
  if c = '"' then some '"'
  else if c = '\\' then some '\\'
  else if c = '\n' then some 'n'
  else if c = '\r' then some 'r'
  else if c = '\t' then some 't'
  else if c.toNat = 0x08 then some 'b'
  else if c.toNat = 0x0c then some 'f'
  else none

/-- A character between the quotes of a string. -/
def escape (c : Char) : List Char :=
  match shortEscape c with
  | some letter => ['\\', letter]
  | none => if 0x20 ≤ c.toNat ∧ c.toNat ≤ 0x7e then [c] else (codeUnits c).flatMap unicodeEscape

def quote (text : List Char) : List Char := '"' :: text.flatMap escape ++ ['"']

def decimal : ℤ → List Char
  | .ofNat n => Nat.toDigits 10 n
  | .negSucc n => '-' :: Nat.toDigits 10 (n + 1)

mutual

/-- The text of a value. -/
def dumps : Value → List Char
  | .null => ['n', 'u', 'l', 'l']
  | .bool true => ['t', 'r', 'u', 'e']
  | .bool false => ['f', 'a', 'l', 's', 'e']
  | .int value => decimal value
  | .real written => written
  | .str text => quote text
  | .arr items => '[' :: dumpsItems items
  | .obj members => '{' :: dumpsMembers members

/-- The items of an array up to the closing bracket. -/
def dumpsItems : List Value → List Char
  | [] => [']']
  | [item] => dumps item ++ [']']
  | item :: other :: rest => dumps item ++ ',' :: ' ' :: dumpsItems (other :: rest)

/-- The members of an object up to the closing brace. -/
def dumpsMembers : List (List Char × Value) → List Char
  | [] => ['}']
  | [(name, value)] => quote name ++ ':' :: ' ' :: dumps value ++ ['}']
  | (name, value) :: other :: rest =>
    quote name ++ ':' :: ' ' :: dumps value ++ ',' :: ' ' :: dumpsMembers (other :: rest)

end

/-! ## Reading -/

def isSpace (c : Char) : Bool := c = ' ' || c = '\t' || c = '\n' || c = '\r'

def skip (text : List Char) : List Char := text.dropWhile isSpace

def hexValue (c : Char) : Option ℕ :=
  if '0' ≤ c ∧ c ≤ '9' then some (c.toNat - 48)
  else if 'a' ≤ c ∧ c ≤ 'f' then some (c.toNat - 87)
  else if 'A' ≤ c ∧ c ≤ 'F' then some (c.toNat - 55)
  else none

/-- Four hexadecimal digits. -/
def codeUnit (first second third fourth : Char) : Option ℕ := do
  let a ← hexValue first
  let b ← hexValue second
  let c ← hexValue third
  let d ← hexValue fourth
  some (a * 0x1000 + b * 0x100 + c * 0x10 + d)

/-- What a letter after a backslash stands for. -/
def unescape (letter : Char) : Option ℕ :=
  if letter = '"' ∨ letter = '\\' ∨ letter = '/' then some letter.toNat
  else if letter = 'n' then some 0x0a
  else if letter = 'r' then some 0x0d
  else if letter = 't' then some 0x09
  else if letter = 'b' then some 0x08
  else if letter = 'f' then some 0x0c
  else none

/-- The code units of a string after its opening quote, and what follows the closing one. -/
def units : List Char → Option (List ℕ × List Char)
  | [] => none
  | c :: rest =>
    if c = '"' then some ([], rest)
    else if c = '\\' then
      match rest with
      | [] => none
      | letter :: more =>
        if letter = 'u' then
          match more with
          | first :: second :: third :: fourth :: after =>
            (codeUnit first second third fourth).bind fun unit =>
              (units after).map fun (found, left) => (unit :: found, left)
          | _ => none
        else (unescape letter).bind fun unit => (units more).map fun (found, left) => (unit :: found, left)
    else if c.toNat < 0x20 then none
    else (units rest).map fun (found, left) => (c.toNat :: found, left)

def isHigh (unit : ℕ) : Bool := 0xd800 ≤ unit && unit ≤ 0xdbff

def isLow (unit : ℕ) : Bool := 0xdc00 ≤ unit && unit ≤ 0xdfff

/-- The characters with these code units, if no half of a pair stands alone. -/
def fromUnits : List ℕ → Option (List Char)
  | [] => some []
  | unit :: rest =>
    if isHigh unit then
      match rest with
      | low :: more =>
        if isLow low then
          (fromUnits more).map (Char.ofNat (0x10000 + (unit - 0xd800) * 0x400 + (low - 0xdc00)) :: ·)
        else none
      | [] => none
    else if isLow unit then none
    else (fromUnits rest).map (Char.ofNat unit :: ·)

/-- A string after its opening quote. -/
def string (text : List Char) : Option (List Char × List Char) := do
  let (found, rest) ← units text
  let text ← fromUnits found
  some (text, rest)

def word (expected : List Char) (value : Value) (text : List Char) : Option (Value × List Char) :=
  if expected.isPrefixOf text then some (value, text.drop expected.length) else none

/-- The number with these digits. -/
def digitsValue (digits : List Char) : ℕ := digits.foldl (fun value c => 10 * value + (c.toNat - 48)) 0

/-- The part of a number before its point. -/
def whole : List Char → Option (List Char × List Char)
  | [] => none
  | c :: rest =>
    if c = '0' then some (['0'], rest)
    else if c.isDigit then some (c :: rest.takeWhile Char.isDigit, rest.dropWhile Char.isDigit)
    else none

/-- A point and the digits after it, if they are there. -/
def fraction : List Char → List Char × List Char
  | [] => ([], [])
  | c :: rest =>
    if c = '.' ∧ rest.takeWhile Char.isDigit ≠ [] then (c :: rest.takeWhile Char.isDigit, rest.dropWhile Char.isDigit)
    else ([], c :: rest)

/-- A sign, if there is one of these. -/
def sign (signs : List Char) : List Char → List Char × List Char
  | [] => ([], [])
  | c :: rest => if c ∈ signs then ([c], rest) else ([], c :: rest)

/-- An exponent, if it is there. -/
def exponent : List Char → List Char × List Char
  | [] => ([], [])
  | c :: rest =>
    let (signed, digits) := sign ['+', '-'] rest
    if (c = 'e' ∨ c = 'E') ∧ digits.takeWhile Char.isDigit ≠ [] then
      (c :: signed ++ digits.takeWhile Char.isDigit, digits.dropWhile Char.isDigit)
    else ([], c :: rest)

def number (text : List Char) : Option (Value × List Char) := do
  let (minus, unsigned) := sign ['-'] text
  let (digits, rest) ← whole unsigned
  let (point, rest) := fraction rest
  let (power, rest) := exponent rest
  if point ++ power = [] then
    some (.int (if minus = [] then digitsValue digits else -digitsValue digits), rest)
  else some (.real (minus ++ digits ++ point ++ power), rest)

def infinity : List Char := ['I', 'n', 'f', 'i', 'n', 'i', 't', 'y']

/-- The values that are one word or one number. -/
def scalar (text : List Char) : Option (Value × List Char) :=
  word ['n', 'u', 'l', 'l'] .null text <|> word ['t', 'r', 'u', 'e'] (.bool true) text <|>
    word ['f', 'a', 'l', 's', 'e'] (.bool false) text <|> word ['N', 'a', 'N'] (.real ['N', 'a', 'N']) text <|>
    word infinity (.real infinity) text <|> word ('-' :: infinity) (.real ('-' :: infinity)) text <|> number text

mutual

/-- A value at the front of a text, and what follows it. -/
def value : ℕ → List Char → Option (Value × List Char)
  | 0, _ => none
  | _ + 1, [] => none
  | fuel + 1, c :: rest =>
    if c = '"' then (string rest).map fun (text, rest) => (.str text, rest)
    else if c = '[' then
      if (skip rest).head? = some ']' then some (.arr [], (skip rest).tail)
      else (items fuel (skip rest)).map fun (found, rest) => (.arr found, rest)
    else if c = '{' then
      if (skip rest).head? = some '}' then some (.obj [], (skip rest).tail)
      else (members fuel (skip rest)).map fun (found, rest) => (.obj found, rest)
    else scalar (c :: rest)

/-- The items of an array from one on. -/
def items : ℕ → List Char → Option (List Value × List Char)
  | 0, _ => none
  | fuel + 1, text => do
    let (item, rest) ← value fuel text
    match skip rest with
    | [] => none
    | c :: rest =>
      if c = ',' then (items fuel (skip rest)).map fun (found, rest) => (item :: found, rest)
      else if c = ']' then some ([item], rest)
      else none

/-- The members of an object from one on. -/
def members : ℕ → List Char → Option (List (List Char × Value) × List Char)
  | 0, _ => none
  | _ + 1, [] => none
  | fuel + 1, c :: rest =>
    if c = '"' then do
      let (name, rest) ← string rest
      if (skip rest).head? = some ':' then do
        let (item, rest) ← value fuel (skip (skip rest).tail)
        match skip rest with
        | [] => none
        | c :: rest =>
          if c = ',' then (members fuel (skip rest)).map fun (found, rest) => ((name, item) :: found, rest)
          else if c = '}' then some ([(name, item)], rest)
          else none
      else none
    else none

end

/-- The value that a text is, but for white space around it. -/
def loads (text : List Char) : Option Value := do
  let (found, rest) ← value (text.length + 1) (skip text)
  if skip rest = [] then some found else none

/-! ## Strings -/

theorem hexValue_digitChar : ∀ digit < 16, hexValue (Nat.digitChar digit) = some digit := by decide

theorem units_unicodeEscape {unit : ℕ} (small : unit < 0x10000) (rest : List Char) :
    units (unicodeEscape unit ++ rest) = (units rest).map fun (found, left) => (unit :: found, left) := by
  have digits (shifted : ℕ) : hexValue (Nat.digitChar (shifted % 16)) = some (shifted % 16) :=
    hexValue_digitChar _ (Nat.mod_lt _ (by decide))
  have whole : unit / 0x1000 % 16 * 0x1000 + unit / 0x100 % 16 * 0x100 + unit / 0x10 % 16 * 0x10 + unit % 16 = unit := by
    omega
  simp only [unicodeEscape, List.cons_append, List.nil_append, units, codeUnit, digits, Option.bind_eq_bind,
    Option.bind_some, whole]
  rfl

/-- A letter after a backslash stands for one code unit. -/
theorem unescape_of_shortEscape {c letter : Char} (short : shortEscape c = some letter) :
    letter ≠ 'u' ∧ unescape letter = some c.toNat ∧ c.toNat < 0x10000 := by
  unfold shortEscape at short
  split_ifs at short with h1 h2 h3 h4 h5 h6 h7 <;> cases short
  all_goals first | subst_vars; decide | skip
  · exact ⟨by decide, by rw [h6]; rfl, by omega⟩
  · exact ⟨by decide, by rw [h7]; rfl, by omega⟩

theorem codeUnits_lt {c : Char} {unit : ℕ} (member : unit ∈ codeUnits c) : unit < 0x10000 := by
  have valid := c.valid
  have bound : c.toNat < 0x110000 := by
    rcases c.valid with low | ⟨_, high⟩
    · exact Nat.lt_trans low (by decide)
    · exact high
  unfold codeUnits at member
  split at member
  · cases List.mem_singleton.mp member
    assumption
  · simp only [List.mem_cons, List.not_mem_nil, or_false] at member
    omega

/-- A backslash and a letter. -/
theorem units_letter {letter : Char} (noHex : letter ≠ 'u') (rest : List Char) :
    units ('\\' :: letter :: rest) =
      (unescape letter).bind fun unit => (units rest).map fun (found, left) => (unit :: found, left) := by
  rw [units.eq_def]
  simp [noHex]

/-- A character that stands for itself. -/
theorem units_plain {c : Char} (noQuote : c ≠ '"') (noBackslash : c ≠ '\\') (visible : ¬ c.toNat < 0x20)
    (rest : List Char) : units (c :: rest) = (units rest).map fun (found, left) => (c.toNat :: found, left) := by
  rw [units.eq_def]
  simp [noQuote, noBackslash, visible]

theorem units_escape (c : Char) (rest : List Char) :
    units (escape c ++ rest) = (units rest).map fun (found, left) => (codeUnits c ++ found, left) := by
  unfold escape
  split
  · next letter short =>
    obtain ⟨noHex, same, small⟩ := unescape_of_shortEscape short
    rw [List.cons_append, List.singleton_append, units_letter noHex, same, codeUnits, if_pos small]
    rfl
  · next long =>
    split
    · next printable =>
      have small : c.toNat < 0x10000 := by omega
      have noQuote : c ≠ '"' := by
        rintro rfl
        cases long
      have noBackslash : c ≠ '\\' := by
        rintro rfl
        cases long
      have visible : ¬ c.toNat < 0x20 := by omega
      rw [List.singleton_append, units_plain noQuote noBackslash visible, codeUnits, if_pos small]
      rfl
    · have all {found : List ℕ} (small : ∀ unit ∈ found, unit < 0x10000) :
          units (found.flatMap unicodeEscape ++ rest) =
            (units rest).map fun (more, left) => (found ++ more, left) := by
        induction found with
        | nil => simp
        | cons unit found ih =>
          have others := ih fun other member => small other (List.mem_cons_of_mem _ member)
          rw [List.flatMap_cons, List.append_assoc, units_unicodeEscape (small unit (List.mem_cons_self ..)), others,
            Option.map_map]
          rfl
      exact all fun unit member => codeUnits_lt member

theorem units_flatMap (text rest : List Char) :
    units (text.flatMap escape ++ '"' :: rest) = some (text.flatMap codeUnits, rest) := by
  induction text with
  | nil =>
    rw [List.flatMap_nil, List.nil_append, units.eq_def]
    rfl
  | cons c text ih => rw [List.flatMap_cons, List.append_assoc, units_escape, ih, Option.map_some, List.flatMap_cons]

theorem fromUnits_codeUnits (c : Char) (rest : List ℕ) :
    fromUnits (codeUnits c ++ rest) = (fromUnits rest).map (c :: ·) := by
  unfold codeUnits
  have back := Char.ofNat_toNat c
  split
  · next small =>
    have noHalf : isHigh c.toNat = false ∧ isLow c.toNat = false := by
      simp only [isHigh, isLow, Bool.and_eq_false_iff, decide_eq_false_iff_not]
      rcases c.valid with low | ⟨high, _⟩
      · have below : c.toNat < 0xd800 := low
        omega
      · have above : 0xdfff < c.toNat := high
        omega
    rw [List.singleton_append, fromUnits.eq_def]
    simp only [noHalf, Bool.false_eq_true, if_false, back]
  · next large =>
    have bound : c.toNat < 0x110000 := by
      rcases c.valid with low | ⟨_, high⟩
      · exact Nat.lt_trans low (by decide)
      · exact high
    have high : isHigh (0xd800 + (c.toNat - 0x10000) / 0x400) := by
      simp only [isHigh, Bool.and_eq_true, decide_eq_true_eq]
      omega
    have low : isLow (0xdc00 + (c.toNat - 0x10000) % 0x400) := by
      simp only [isLow, Bool.and_eq_true, decide_eq_true_eq]
      omega
    have same : 0x10000 + (0xd800 + (c.toNat - 0x10000) / 0x400 - 0xd800) * 0x400 +
        (0xdc00 + (c.toNat - 0x10000) % 0x400 - 0xdc00) = c.toNat := by
      omega
    simp only [List.cons_append, List.nil_append, fromUnits, high, low, if_true, same, back]

/-- What is written between quotes is read back. -/
theorem string_flatMap (text rest : List Char) : string (text.flatMap escape ++ '"' :: rest) = some (text, rest) := by
  have joined : fromUnits (text.flatMap codeUnits) = some text := by
    induction text with
    | nil => rfl
    | cons c text ih => rw [List.flatMap_cons, fromUnits_codeUnits, ih, Option.map_some]
  simp only [string, units_flatMap, Option.bind_eq_bind, Option.bind_some, joined]

/-! ## Numbers -/

/-- A text that does not go on with a number. -/
def Stops (rest : List Char) : Prop := ∀ c, rest.head? = some c → c.isDigit = false ∧ c ≠ '.' ∧ c ≠ 'e' ∧ c ≠ 'E'

theorem digitsValue_append (digits : List Char) (c : Char) :
    digitsValue (digits ++ [c]) = 10 * digitsValue digits + (c.toNat - 48) := by
  simp only [digitsValue, List.foldl_append, List.foldl_cons, List.foldl_nil]

theorem digitsValue_toDigits (n : ℕ) : digitsValue (Nat.toDigits 10 n) = n := by
  induction n using Nat.strongRecOn with
  | ind n ih =>
    by_cases small : n < 10
    · rw [Nat.toDigits_of_lt_base small]
      simp only [digitsValue, List.foldl_cons, List.foldl_nil, Nat.toNat_digitChar_sub_48_of_lt_ten small]
      omega
    · have last : n % 10 < 10 := Nat.mod_lt _ (by decide)
      rw [Nat.toDigits_of_base_le (by decide) (by omega), digitsValue_append, ih (n / 10) (by omega),
        Nat.toNat_digitChar_sub_48_of_lt_ten last]
      omega

/-- The digits of a number have no leading zero but for zero itself. -/
theorem toDigits_eq_cons (n : ℕ) : ∃ c digits, Nat.toDigits 10 n = c :: digits ∧ c.isDigit ∧
    (∀ d ∈ digits, d.isDigit) ∧ (c = '0' → digits = [] ∧ n = 0) := by
  induction n using Nat.strongRecOn with
  | ind n ih =>
    have digit {k : ℕ} (small : k < 10) : (Nat.digitChar k).isDigit := by
      rw [Nat.isDigit_digitChar, decide_eq_true small]
    by_cases small : n < 10
    · refine ⟨Nat.digitChar n, [], Nat.toDigits_of_lt_base small, digit small, fun _ member => (by cases member), ?_⟩
      exact fun zero => ⟨rfl, Nat.digitChar_eq_zero.mp zero⟩
    · obtain ⟨c, digits, same, first, others, zero⟩ := ih (n / 10) (by omega)
      refine ⟨c, digits ++ [Nat.digitChar (n % 10)], ?_, first, fun d member => ?_, fun isZero => ?_⟩
      · rw [Nat.toDigits_of_base_le (by decide) (by omega), same, List.cons_append]
      · rcases List.mem_append.mp member with old | new
        · exact others d old
        · cases List.mem_singleton.mp new
          exact digit (Nat.mod_lt _ (by decide))
      · have none := (zero isZero).2
        omega

theorem takeWhile_of_stops {rest : List Char} (stops : Stops rest) :
    rest.takeWhile Char.isDigit = [] ∧ rest.dropWhile Char.isDigit = rest := by
  cases rest with
  | nil => exact ⟨rfl, rfl⟩
  | cons c rest =>
    have noDigit := (stops c rfl).1
    exact ⟨by rw [List.takeWhile_cons, noDigit]; rfl, by rw [List.dropWhile_cons, noDigit]; rfl⟩

theorem whole_toDigits (n : ℕ) {rest : List Char} (stops : Stops rest) :
    whole (Nat.toDigits 10 n ++ rest) = some (Nat.toDigits 10 n, rest) := by
  obtain ⟨c, digits, same, first, others, zero⟩ := toDigits_eq_cons n
  obtain ⟨taken, left⟩ := takeWhile_of_stops stops
  rw [same, List.cons_append, whole]
  by_cases isZero : c = '0'
  · obtain ⟨rfl, _⟩ := zero isZero
    simp only [isZero, if_true, List.nil_append]
  · rw [if_neg isZero, if_pos first, List.takeWhile_append_of_pos others, List.dropWhile_append_of_pos others, taken,
      left, List.append_nil]

theorem fraction_of_stops {rest : List Char} (stops : Stops rest) : fraction rest = ([], rest) := by
  cases rest with
  | nil => rfl
  | cons c rest => simp only [fraction, (stops c rfl).2.1, false_and, if_false]

theorem exponent_of_stops {rest : List Char} (stops : Stops rest) : exponent rest = ([], rest) := by
  cases rest with
  | nil => rfl
  | cons c rest =>
    simp only [exponent, (stops c rfl).2.2.1, (stops c rfl).2.2.2, or_self, false_and, if_false]

/-- An integer is read back, whatever follows it, unless that goes on with the number. -/
theorem number_decimal (i : ℤ) {rest : List Char} (stops : Stops rest) :
    number (decimal i ++ rest) = some (.int i, rest) := by
  have after := And.intro (fraction_of_stops stops) (exponent_of_stops stops)
  cases i with
  | ofNat n =>
    obtain ⟨c, digits, same, first, _⟩ := toDigits_eq_cons n
    have unsigned : sign ['-'] (Nat.toDigits 10 n ++ rest) = ([], Nat.toDigits 10 n ++ rest) := by
      have noMinus : c ≠ '-' := by
        rintro rfl
        cases first
      rw [same, List.cons_append, sign, if_neg (by simpa using noMinus)]
    simp only [decimal, number, unsigned, whole_toDigits n stops, Option.bind_eq_bind, Option.bind_some, after,
      List.append_nil, if_true, digitsValue_toDigits]
    rfl
  | negSucc n =>
    have minus : sign ['-'] ('-' :: Nat.toDigits 10 (n + 1) ++ rest) = (['-'], Nat.toDigits 10 (n + 1) ++ rest) := rfl
    simp only [decimal, number, minus, whole_toDigits (n + 1) stops, Option.bind_eq_bind, Option.bind_some, after,
      List.append_nil, if_true, digitsValue_toDigits, List.cons_ne_nil, if_false]
    rfl

theorem word_of_ne {first c : Char} (different : first ≠ c) (expected rest : List Char) (value : Value) :
    word (first :: expected) value (c :: rest) = none := by
  simp only [word, List.isPrefixOf, beq_iff_eq, different, Bool.and_eq_true, false_and, if_false]

theorem scalar_decimal (i : ℤ) {rest : List Char} (stops : Stops rest) :
    scalar (decimal i ++ rest) = some (.int i, rest) := by
  have read := number_decimal i stops
  cases i with
  | ofNat n =>
    obtain ⟨c, digits, same, first, _⟩ := toDigits_eq_cons n
    simp only [decimal, same, List.cons_append] at read ⊢
    have noWord (letter : Char) (expected : List Char) (value : Value) (noDigit : letter.isDigit = false) :
        word (letter :: expected) value (c :: (digits ++ rest)) = none := by
      refine word_of_ne ?_ _ _ _
      rintro rfl
      cases noDigit.symm.trans first
    rw [scalar, infinity, noWord 'n' _ _ rfl, noWord 't' _ _ rfl, noWord 'f' _ _ rfl, noWord 'N' _ _ rfl,
      noWord 'I' _ _ rfl, noWord '-' _ _ rfl, read]
    rfl
  | negSucc n =>
    obtain ⟨c, digits, same, first, _⟩ := toDigits_eq_cons (n + 1)
    simp only [decimal, same, List.cons_append] at read ⊢
    have noWord (letter : Char) (expected : List Char) (value : Value) (noMinus : letter ≠ '-') :
        word (letter :: expected) value ('-' :: c :: (digits ++ rest)) = none := word_of_ne noMinus _ _ _
    have noInfinity : word ('-' :: infinity) (.real ('-' :: infinity)) ('-' :: c :: (digits ++ rest)) = none := by
      have noDigit : 'I' ≠ c := by
        rintro rfl
        cases first
      simp only [word, infinity, List.isPrefixOf, beq_self_eq_true, Bool.true_and, beq_iff_eq, noDigit,
        Bool.and_eq_true, false_and, if_false]
    rw [scalar, noInfinity, infinity, noWord 'n' _ _ (by decide), noWord 't' _ _ (by decide),
      noWord 'f' _ _ (by decide), noWord 'N' _ _ (by decide), noWord 'I' _ _ (by decide), read]
    rfl
/-! ## Values -/

mutual

/-- All numbers in the value are integers. -/
def Value.Plain : Value → Prop
  | .real _ => False
  | .arr items => PlainItems items
  | .obj members => PlainMembers members
  | _ => True

def PlainItems : List Value → Prop
  | [] => True
  | item :: rest => item.Plain ∧ PlainItems rest

def PlainMembers : List (List Char × Value) → Prop
  | [] => True
  | (_, item) :: rest => item.Plain ∧ PlainMembers rest

end

/-- The text of a value begins with no white space and does not close a bracket. -/
theorem dumps_eq_cons {v : Value} (plain : v.Plain) :
    ∃ c rest, dumps v = c :: rest ∧ isSpace c = false ∧ c ≠ ']' := by
  have digit {c : Char} (isDigit : c.isDigit) : isSpace c = false ∧ c ≠ ']' := by
    refine ⟨?_, by rintro rfl; cases isDigit⟩
    simp only [isSpace, Bool.or_eq_false_iff, decide_eq_false_iff_not]
    refine ⟨⟨⟨?_, ?_⟩, ?_⟩, ?_⟩ <;> rintro rfl <;> cases isDigit
  cases v with
  | null => exact ⟨_, _, rfl, by decide⟩
  | bool value => cases value <;> exact ⟨_, _, rfl, by decide⟩
  | int value =>
    cases value with
    | ofNat n =>
      obtain ⟨c, digits, same, first, _⟩ := toDigits_eq_cons n
      exact ⟨c, digits, same, digit first⟩
    | negSucc n => exact ⟨_, _, rfl, by decide⟩
  | real written => cases plain
  | str text => exact ⟨_, _, rfl, by decide⟩
  | arr items => exact ⟨_, _, rfl, by decide⟩
  | obj members => exact ⟨_, _, rfl, by decide⟩

theorem skip_cons {c : Char} (solid : isSpace c = false) (rest : List Char) : skip (c :: rest) = c :: rest := by
  rw [skip, List.dropWhile_cons, solid]
  rfl

theorem skip_dumps {v : Value} (plain : v.Plain) (rest : List Char) : skip (dumps v ++ rest) = dumps v ++ rest := by
  obtain ⟨c, text, same, solid, _⟩ := dumps_eq_cons plain
  rw [same, List.cons_append, skip_cons solid]

theorem skip_blank (rest : List Char) : skip (' ' :: rest) = skip rest := rfl

theorem stops_cons {c : Char} (rest : List Char) (noNumber : c.isDigit = false ∧ c ≠ '.' ∧ c ≠ 'e' ∧ c ≠ 'E') :
    Stops (c :: rest) := by
  intro other same
  cases same
  exact noNumber

theorem skip_items {item : Value} (plain : item.Plain) (others : List Value) (rest : List Char) :
    skip (dumpsItems (item :: others) ++ rest) = dumpsItems (item :: others) ++ rest ∧
      (dumpsItems (item :: others) ++ rest).head? ≠ some ']' := by
  have starts : ∃ more, dumpsItems (item :: others) ++ rest = dumps item ++ more := by
    cases others with
    | nil => exact ⟨_, by rw [dumpsItems, List.append_assoc]⟩
    | cons other others => exact ⟨_, by rw [dumpsItems, List.append_assoc]⟩
  obtain ⟨more, same⟩ := starts
  obtain ⟨c, text, first, _, noClose⟩ := dumps_eq_cons plain
  refine ⟨by rw [same, skip_dumps plain], ?_⟩
  rw [same, first, List.cons_append, List.head?_cons]
  exact fun closes => noClose (Option.some.inj closes)

theorem dumpsMembers_eq_cons (member : List Char × Value) (others : List (List Char × Value)) :
    ∃ rest, dumpsMembers (member :: others) = '"' :: rest := by
  obtain ⟨name, item⟩ := member
  cases others <;> exact ⟨_, rfl⟩

theorem value_of_scalar {c : Char} (noQuote : c ≠ '"') (noArray : c ≠ '[') (noObject : c ≠ '{') (fuel : ℕ)
    (rest : List Char) : value (fuel + 1) (c :: rest) = scalar (c :: rest) := by
  simp only [value, noQuote, noArray, noObject, if_false]

theorem value_decimal (i : ℤ) (fuel : ℕ) {rest : List Char} (stops : Stops rest) :
    value (fuel + 1) (decimal i ++ rest) = some (.int i, rest) := by
  have read := scalar_decimal i stops
  cases i with
  | ofNat n =>
    obtain ⟨c, digits, same, first, _⟩ := toDigits_eq_cons n
    have others {letter : Char} (noDigit : letter.isDigit = false) : c ≠ letter := by
      rintro rfl
      cases noDigit.symm.trans first
    rw [← read, decimal, same, List.cons_append]
    exact value_of_scalar (others rfl) (others rfl) (others rfl) fuel _
  | negSucc n =>
    rw [← read]
    exact value_of_scalar (by decide) (by decide) (by decide) fuel _

mutual

/-- The text of a value is read as the value, whatever follows it, unless that goes on with a number. -/
theorem value_dumps : ∀ (v : Value) (fuel : ℕ) (rest : List Char), v.Plain → (dumps v).length ≤ fuel → Stops rest →
    value fuel (dumps v ++ rest) = some (v, rest)
  | .null, fuel + 1, rest, _, _, _ => rfl
  | .bool true, fuel + 1, rest, _, _, _ => rfl
  | .bool false, fuel + 1, rest, _, _, _ => rfl
  | .int i, fuel + 1, rest, _, _, stops => value_decimal i fuel stops
  | .str text, fuel + 1, rest, _, _, _ => by
    simp only [dumps, quote, List.cons_append, List.append_assoc, value, if_true, List.nil_append, string_flatMap,
      Option.map_some]
  | .arr [], fuel + 1, rest, _, _, _ => rfl
  | .arr (item :: others), fuel + 1, rest, plain, enough, _ => by
    simp only [dumps, List.length_cons] at enough
    obtain ⟨same, noClose⟩ := skip_items plain.1 others rest
    have read := items_dumpsItems item others fuel rest plain (by omega)
    have noQuote : '[' ≠ '"' := by decide
    simp only [dumps, List.cons_append, value, noQuote, same, noClose, read, if_true, if_false, Option.map_some]
  | .obj [], fuel + 1, rest, _, _, _ => rfl
  | .obj (member :: others), fuel + 1, rest, plain, enough, _ => by
    simp only [dumps, List.length_cons] at enough
    obtain ⟨text, starts⟩ := dumpsMembers_eq_cons member others
    have same : skip (dumpsMembers (member :: others) ++ rest) = dumpsMembers (member :: others) ++ rest := by
      rw [starts]
      rfl
    have noClose : (dumpsMembers (member :: others) ++ rest).head? ≠ some '}' := by
      rw [starts]
      exact fun closes => absurd (Option.some.inj closes) (by decide)
    have read := members_dumpsMembers member others fuel rest plain (by omega)
    have noQuote : '{' ≠ '"' := by decide
    have noArray : '{' ≠ '[' := by decide
    simp only [dumps, List.cons_append, value, noQuote, noArray, same, noClose, read, if_true, if_false,
      Option.map_some]
  | v, 0, _, plain, enough, _ => by
    obtain ⟨c, text, same, _⟩ := dumps_eq_cons plain
    rw [same] at enough
    cases enough

theorem items_dumpsItems : ∀ (item : Value) (others : List Value) (fuel : ℕ) (rest : List Char),
    PlainItems (item :: others) → (dumpsItems (item :: others)).length ≤ fuel →
    items fuel (dumpsItems (item :: others) ++ rest) = some (item :: others, rest)
  | item, [], fuel + 1, rest, plain, enough => by
    simp only [dumpsItems, List.length_append, List.length_singleton] at enough
    have read := value_dumps item fuel (']' :: rest) plain.1 (by omega) (stops_cons _ (by decide))
    simp only [dumpsItems, List.append_assoc, List.singleton_append, items, read, Option.bind_eq_bind,
      Option.bind_some]
    rfl
  | item, other :: more, fuel + 1, rest, plain, enough => by
    simp only [dumpsItems, List.length_append, List.length_cons] at enough
    have read := value_dumps item fuel (',' :: ' ' :: (dumpsItems (other :: more) ++ rest)) plain.1 (by omega)
      (stops_cons _ (by decide))
    have onward := items_dumpsItems other more fuel rest plain.2 (by omega)
    have blank : skip (' ' :: (dumpsItems (other :: more) ++ rest)) = dumpsItems (other :: more) ++ rest := by
      rw [skip_blank, (skip_items plain.2.1 more rest).1]
    have comma : isSpace ',' = false := by decide
    simp only [dumpsItems, List.append_assoc, List.cons_append, items, read, Option.bind_eq_bind, Option.bind_some,
      skip_cons comma, if_true, blank, onward, Option.map_some]
  | item, [], 0, _, _, enough => by simp [dumpsItems] at enough
  | item, other :: more, 0, _, _, enough => by simp [dumpsItems] at enough

theorem members_dumpsMembers : ∀ (member : List Char × Value) (others : List (List Char × Value)) (fuel : ℕ)
    (rest : List Char), PlainMembers (member :: others) → (dumpsMembers (member :: others)).length ≤ fuel →
    members fuel (dumpsMembers (member :: others) ++ rest) = some (member :: others, rest)
  | (name, item), [], fuel + 1, rest, plain, enough => by
    simp only [dumpsMembers, quote, List.length_append, List.length_cons] at enough
    have read := value_dumps item fuel ('}' :: rest) plain.1 (by omega) (stops_cons _ (by decide))
    have colon : isSpace ':' = false := by decide
    have brace : isSpace '}' = false := by decide
    have noComma : '}' ≠ ',' := by decide
    simp only [dumpsMembers, quote, List.append_assoc, List.cons_append, List.nil_append, members, if_true,
      string_flatMap, Option.bind_eq_bind, Option.bind_some, skip_cons colon, List.head?_cons, List.tail_cons,
      skip_blank, skip_dumps plain.1, read, skip_cons brace, noComma, if_false]
  | (name, item), other :: more, fuel + 1, rest, plain, enough => by
    simp only [dumpsMembers, quote, List.length_append, List.length_cons] at enough
    have read := value_dumps item fuel (',' :: ' ' :: (dumpsMembers (other :: more) ++ rest)) plain.1 (by omega)
      (stops_cons _ (by decide))
    have onward := members_dumpsMembers other more fuel rest plain.2 (by omega)
    obtain ⟨text, starts⟩ := dumpsMembers_eq_cons other more
    have blank : skip (' ' :: (dumpsMembers (other :: more) ++ rest)) = dumpsMembers (other :: more) ++ rest := by
      rw [skip_blank, starts]
      rfl
    have colon : isSpace ':' = false := by decide
    have comma : isSpace ',' = false := by decide
    simp only [dumpsMembers, quote, List.append_assoc, List.cons_append, List.nil_append, members, if_true,
      string_flatMap, Option.bind_eq_bind, Option.bind_some, skip_cons colon, List.head?_cons, List.tail_cons,
      skip_blank, skip_dumps plain.1, read, skip_cons comma, blank, onward, Option.map_some]
  | (name, item), [], 0, _, _, enough => by simp [dumpsMembers, quote] at enough
  | (name, item), other :: more, 0, _, _, enough => by simp [dumpsMembers, quote] at enough

end

/-- What is written is read back. -/
theorem loads_dumps {v : Value} (plain : v.Plain) : loads (dumps v) = some v := by
  have read := value_dumps v ((dumps v).length + 1) [] plain (Nat.le_succ _) (by rintro _ ⟨⟩)
  have start := skip_dumps plain []
  rw [List.append_nil] at read start
  simp only [loads, start, read, Option.bind_eq_bind, Option.bind_some]
  rfl

theorem dumps_injective {first second : Value} (plain : first.Plain) (also : second.Plain)
    (same : dumps first = dumps second) : first = second := by
  apply Option.some.inj
  rw [← loads_dumps plain, ← loads_dumps also, same]

end Json
