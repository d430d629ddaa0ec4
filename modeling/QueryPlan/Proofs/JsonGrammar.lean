import Mathlib.Data.List.Basic
import QueryPlan.Text.Json.Reader

/-!
# The grammar of JSON text

What JSON text is, said without a reader: which texts are strings (`Spelled`), numbers (`NumberText`)
and values (`Written`), with blanks wherever they may stand.  The readers accept all of it, and stop
where it ends.

* A string is spelled in pieces, and the pieces stand for characters (`Denotes`), surrogates in
  pairs.  `readString_of_spells`: a string is read whichever way it is spelled.
* A number ends where nothing follows that could go on with it (`Follows`).
* `skips_of_written` — every value is passed over, nested as it may be, in no more steps than it has
  characters.
-/

namespace QueryPlan.JsonReader

/-! ## Blanks -/

/-- Nothing but blanks. -/
def Blanks (cs : List Char) : Prop :=
  ∀ c ∈ cs, c = ' ' ∨ c = '\n' ∨ c = '\t' ∨ c = '\r'

theorem Blanks.nil : Blanks [] := by
  simp [Blanks]

theorem skipBlanks_append {b : List Char} (hb : Blanks b) (rest : List Char) :
    skipBlanks (b ++ rest) = skipBlanks rest := by
  refine List.dropWhile_append_of_pos fun c hc => ?_
  rcases hb c hc with rfl | rfl | rfl | rfl <;> rfl

theorem skipBlanks_cons {c : Char} (hc : isBlank c = false) (rest : List Char) :
    skipBlanks (c :: rest) = c :: rest := by
  simp [skipBlanks, hc]

theorem skipBlanks_eq_nil {b : List Char} (hb : Blanks b) : skipBlanks b = [] := by
  have hall := skipBlanks_append hb []
  simpa [skipBlanks] using hall

/-- What is expected is found behind blanks. -/
theorem expect_append {b : List Char} {c : Char} (hb : Blanks b) (hc : isBlank c = false)
    (rest : List Char) : expect c (b ++ c :: rest) = some rest := by
  rw [expect, skipBlanks_append hb, skipBlanks_cons hc]
  simp

/-- Something else is not taken for it. -/
theorem expect_append_ne {b : List Char} {c d : Char} (hb : Blanks b) (hd : isBlank d = false)
    (hne : d ≠ c) (rest : List Char) : expect c (b ++ d :: rest) = none := by
  rw [expect, skipBlanks_append hb, skipBlanks_cons hd]
  simp [hne]

/-! ## Strings -/

/-- The letters that may stand after a backslash, with what they stand for. -/
def escapes : List (Char × Char) :=
  [('"', '"'), ('\\', '\\'), ('/', '/'), ('b', '\x08'), ('f', '\x0c'), ('n', '\n'), ('r', '\r'),
    ('t', '\t')]

/-- A digit to the base 16, in either case, and its value. -/
def HexDigit (c : Char) (n : Nat) : Prop :=
  n < 16 ∧ (c = n.digitChar ∨ c = n.digitChar.toUpper)

/-- How the pieces of a string are spelled between its quotes. -/
inductive Spelled : List Piece → List Char → Prop
  | nil : Spelled [] []
  /-- A character that stands for itself. -/
  | plain {c : Char} {ps : List Piece} {cs : List Char} : 0x20 ≤ c.toNat → c ≠ '"' → c ≠ '\\' →
      Spelled ps cs → Spelled (.char c :: ps) (c :: cs)
  /-- A letter after a backslash. -/
  | letter {l c : Char} {ps : List Piece} {cs : List Char} : (l, c) ∈ escapes →
      Spelled ps cs → Spelled (.char c :: ps) ('\\' :: l :: cs)
  /-- A code unit by its number. -/
  | unit {a b c d : Char} {i j k l : Nat} {ps : List Piece} {cs : List Char} :
      HexDigit a i → HexDigit b j → HexDigit c k → HexDigit d l → Spelled ps cs →
      Spelled (.unit (((i * 16 + j) * 16 + k) * 16 + l) :: ps)
        ('\\' :: 'u' :: a :: b :: c :: d :: cs)

/-- The characters that pieces stand for.  A code unit is the number of a character, unless it is a
surrogate; these come in pairs, a high one before a low one. -/
inductive Denotes : List Piece → List Char → Prop
  | nil : Denotes [] []
  | char {c : Char} {ps : List Piece} {cs : List Char} : Denotes ps cs →
      Denotes (.char c :: ps) (c :: cs)
  | unit {c : Char} {ps : List Piece} {cs : List Char} : Denotes ps cs →
      Denotes (.unit c.toNat :: ps) (c :: cs)
  | pair {high low : Nat} {c : Char} {ps : List Piece} {cs : List Char} : 0xD800 ≤ high →
      high < 0xDC00 → 0xDC00 ≤ low → low < 0xE000 →
      c.toNat = 0x10000 + (high - 0xD800) * 0x400 + (low - 0xDC00) → Denotes ps cs →
      Denotes (.unit high :: .unit low :: ps) (c :: cs)

/-- A spelling of a string. -/
def Spells (s : String) (cs : List Char) : Prop :=
  ∃ ps, Spelled ps cs ∧ Denotes ps s.toList

theorem escaped?_of_mem_escapes {l c : Char} (h : (l, c) ∈ escapes) : escaped? l = some c := by
  simp only [escapes, List.mem_cons, Prod.mk.injEq, List.not_mem_nil, or_false] at h
  rcases h with ⟨rfl, rfl⟩ | ⟨rfl, rfl⟩ | ⟨rfl, rfl⟩ | ⟨rfl, rfl⟩ | ⟨rfl, rfl⟩ | ⟨rfl, rfl⟩ |
    ⟨rfl, rfl⟩ | ⟨rfl, rfl⟩ <;> rfl

theorem hexValue?_of_hexDigit {c : Char} {n : Nat} (h : HexDigit c n) : hexValue? c = some n := by
  have hvalues : ∀ n < 16, hexValue? n.digitChar = some n ∧
      hexValue? n.digitChar.toUpper = some n := by decide
  obtain ⟨hn, rfl | rfl⟩ := h
  · exact (hvalues n hn).1
  · exact (hvalues n hn).2

theorem scanString_plain {c : Char} (hquote : c ≠ '"') (hbackslash : c ≠ '\\')
    (hcontrol : 0x20 ≤ c.toNat) (cs : List Char) :
    scanString (c :: cs) = (scanString cs).map fun p => (.char c :: p.1, p.2) := by
  rw [scanString]
  · cases hcs : scanString cs <;> simp [hbackslash, hcontrol]
  · exact hquote
  · rintro _ _ _ _ _ rfl
    exact fun _ => hbackslash rfl
  · rintro _ _ rfl
    exact fun _ => hbackslash rfl

/-- A string is taken apart into its pieces, up to the closing quote. -/
theorem scanString_of_spelled {ps : List Piece} {cs : List Char} (h : Spelled ps cs)
    (rest : List Char) : scanString (cs ++ '"' :: rest) = some (ps, rest) := by
  induction h with
  | nil => simp [scanString]
  | plain hcontrol hquote hbackslash _ ih =>
      rw [List.cons_append, scanString_plain hquote hbackslash hcontrol, ih, Option.map_some]
  | @letter l c ps cs hmem _ ih =>
      have hletter := escaped?_of_mem_escapes hmem
      have hu : l ≠ 'u' := by
        rintro rfl
        simp [escaped?] at hletter
      rw [List.cons_append, List.cons_append, scanString]
      · simp [hletter, ih]
      · rintro _ _ _ _ _ rfl
        exact fun _ => hu rfl
  | unit ha hb hc hd _ ih =>
      simp [scanString, hexUnit?, hexValue?_of_hexDigit ha, hexValue?_of_hexDigit hb,
        hexValue?_of_hexDigit hc, hexValue?_of_hexDigit hd, ih]

/-- No character has the number of a surrogate. -/
theorem decode_unit (c : Char) (ps : List Piece) :
    decode (.unit c.toNat :: ps) = (decode ps).map (c :: ·) := by
  have hvalid : c.toNat < 0xD800 ∨ 0xDFFF < c.toNat := c.valid.imp id And.left
  have hlow : ¬ (0xD800 ≤ c.toNat ∧ c.toNat < 0xE000) := by omega
  have hhigh : ¬ (0xD800 ≤ c.toNat ∧ c.toNat < 0xDC00) := by omega
  have hpair : ¬ (0xDC00 ≤ c.toNat ∧ c.toNat < 0xE000) := by omega
  cases ps with
  | nil => simp [decode, hlow]
  | cons p ps =>
      cases p with
      | char d => cases hps : decode ps <;> simp [decode, hlow, hps]
      | unit m => cases hps : decode (.unit m :: ps) <;> simp [decode, hhigh, hpair, hps]

theorem decode_of_denotes {ps : List Piece} {cs : List Char} (h : Denotes ps cs) :
    decode ps = some cs := by
  induction h with
  | nil => rfl
  | char _ ih => simp [decode, ih]
  | unit _ ih => rw [decode_unit, ih, Option.map_some]
  | pair hhigh hhigh' hlow hlow' hc _ ih =>
      simp [decode, hhigh, hhigh', hlow, hlow', ih, pairChar, ← hc]

/-- **A string is read whichever way it is spelled.** -/
theorem readString_of_spells {s : String} {cs : List Char} (h : Spells s cs) (rest : List Char) :
    readString (cs ++ '"' :: rest) = some (s, rest) := by
  obtain ⟨ps, hspelled, hdenotes⟩ := h
  simp [readString, scanString_of_spelled hspelled, decode_of_denotes hdenotes]

/-! ## Numbers -/

/-- Some digits. -/
def Digits (cs : List Char) : Prop :=
  cs ≠ [] ∧ ∀ c ∈ cs, c.isDigit = true

/-- Digits without a needless zero in front. -/
inductive IntegerText : List Char → Prop
  | zero : IntegerText ['0']
  | positive {c : Char} {cs : List Char} : c ≠ '0' → (∀ d ∈ c :: cs, d.isDigit = true) →
      IntegerText (c :: cs)

inductive FractionText : List Char → Prop
  | none : FractionText []
  | digits {cs : List Char} : Digits cs → FractionText ('.' :: cs)

inductive ExponentText : List Char → Prop
  | none : ExponentText []
  | digits {mark : Char} {sign cs : List Char} : mark = 'e' ∨ mark = 'E' →
      sign = [] ∨ sign = ['+'] ∨ sign = ['-'] → Digits cs → ExponentText (mark :: (sign ++ cs))

/-- A number, of whatever size. -/
inductive NumberText : List Char → Prop
  | mk {sign integer fraction exponent : List Char} : sign = [] ∨ sign = ['-'] →
      IntegerText integer → FractionText fraction → ExponentText exponent →
      NumberText (sign ++ (integer ++ (fraction ++ exponent)))

/-- Whether a number could go on with a character. -/
def goesOn (c : Char) : Bool :=
  c.isDigit || c == '.' || c == 'e' || c == 'E'

/-- A text that does not go on with a number. -/
def Follows (rest : List Char) : Prop :=
  ∀ c ∈ rest.head?, goesOn c = false

theorem Follows.not_digit {rest : List Char} (h : Follows rest) :
    ∀ c ∈ rest.head?, c.isDigit = false := by
  intro c hc
  have hgoes := h c hc
  simp only [goesOn, Bool.or_eq_false_iff] at hgoes
  exact hgoes.1.1.1

theorem digits_append {ds rest : List Char} (hds : ∀ c ∈ ds, c.isDigit = true)
    (hrest : ∀ c ∈ rest.head?, c.isDigit = false) : digits (ds ++ rest) = (ds, rest) := by
  have hnone : rest.takeWhile Char.isDigit = [] ∧ rest.dropWhile Char.isDigit = rest := by
    cases rest with
    | nil => exact ⟨rfl, rfl⟩
    | cons c rest =>
        have hc := hrest c rfl
        exact ⟨by simp [hc], by simp [hc]⟩
  rw [digits, List.takeWhile_append_of_pos hds, List.dropWhile_append_of_pos hds, hnone.1, hnone.2,
    List.append_nil]

theorem skipDigits_append {cs rest : List Char} (h : Digits cs)
    (hrest : ∀ c ∈ rest.head?, c.isDigit = false) : skipDigits (cs ++ rest) = some rest := by
  rw [skipDigits, digits_append h.2 hrest]
  cases cs with
  | nil => exact absurd rfl h.1
  | cons c cs => rfl

theorem IntegerText.digits {cs : List Char} (h : IntegerText cs) : Digits cs := by
  cases h with
  | zero => exact ⟨by simp, by simp⟩
  | positive _ hdigits => exact ⟨by simp, hdigits⟩

theorem skipInteger_append {cs rest : List Char} (h : IntegerText cs)
    (hrest : ∀ c ∈ rest.head?, c.isDigit = false) : skipInteger (cs ++ rest) = some rest := by
  rw [skipInteger, digits_append h.digits.2 hrest]
  cases h with
  | zero => rfl
  | positive hzero _ => simp [hzero]

theorem skipFraction_append {cs rest : List Char} (h : FractionText cs)
    (hrest : ∀ c ∈ rest.head?, c.isDigit = false ∧ c ≠ '.') :
    skipFraction (cs ++ rest) = some rest := by
  cases h with
  | none =>
      rw [List.nil_append, skipFraction]
      rintro rest rfl
      exact (hrest '.' rfl).2 rfl
  | digits hcs => exact skipDigits_append hcs fun c hc => (hrest c hc).1

/-- Digits do not start with a sign. -/
theorem Digits.append_ne {cs : List Char} (h : Digits cs) {sign : Char}
    (hsign : sign.isDigit = false) (rest rest' : List Char) : cs ++ rest ≠ sign :: rest' := by
  obtain ⟨hne, hdigits⟩ := h
  cases cs with
  | nil => exact absurd rfl hne
  | cons c cs =>
      rintro ⟨⟩
      simp [hsign] at hdigits

theorem skipExponent_append {cs rest : List Char} (h : ExponentText cs) (hrest : Follows rest) :
    skipExponent (cs ++ rest) = some rest := by
  cases h with
  | none =>
      rw [List.nil_append, skipExponent]
      all_goals
        rintro _ rfl
        simpa [goesOn] using hrest _ rfl
  | @digits mark sign cs hmark hsign hcs =>
      have hdigits := skipDigits_append hcs hrest.not_digit
      rcases hsign with rfl | rfl | rfl
      · -- without a sign the digits start at once
        have hplus := hcs.append_ne (show '+'.isDigit = false from rfl) rest
        have hminus := hcs.append_ne (show '-'.isDigit = false from rfl) rest
        rcases hmark with rfl | rfl
        · rw [List.nil_append, List.cons_append, skipExponent, hdigits] <;> simp_all
        · rw [List.nil_append, List.cons_append, skipExponent, hdigits] <;> simp_all
      · rcases hmark with rfl | rfl <;> exact hdigits
      · rcases hmark with rfl | rfl <;> exact hdigits

theorem FractionText.append_head {cs rest : List Char} (h : FractionText cs)
    (hrest : ∀ c ∈ rest.head?, c.isDigit = false) :
    ∀ c ∈ (cs ++ rest).head?, c.isDigit = false := by
  cases h with
  | none => exact hrest
  | digits =>
      rintro c ⟨⟩
      rfl

theorem ExponentText.append_head {cs rest : List Char} (h : ExponentText cs) (hrest : Follows rest) :
    ∀ c ∈ (cs ++ rest).head?, c.isDigit = false ∧ c ≠ '.' := by
  cases h with
  | none =>
      intro c hc
      have hgoes := hrest c hc
      simp_all [goesOn]
  | digits hmark =>
      rintro c ⟨⟩
      rcases hmark with rfl | rfl <;> simp

theorem skipNumber_append {cs rest : List Char} (h : NumberText cs) (hrest : Follows rest) :
    skipNumber (cs ++ rest) = some rest := by
  obtain ⟨hsign, hinteger, hfraction, hexponent⟩ := h
  rename_i sign integer fraction exponent
  have hhead := hexponent.append_head hrest
  have hparts : skipInteger (integer ++ (fraction ++ (exponent ++ rest))) =
      some (fraction ++ (exponent ++ rest)) :=
    skipInteger_append hinteger (hfraction.append_head fun c hc => (hhead c hc).1)
  have hunsigned : (integer ++ (fraction ++ (exponent ++ rest))).head? ≠ some '-' := by
    intro hminus
    obtain ⟨rest', hrest'⟩ := List.head?_eq_some_iff.1 hminus
    exact hinteger.digits.append_ne rfl _ rest' hrest'
  have hskip : skipFraction (fraction ++ (exponent ++ rest)) = some (exponent ++ rest) :=
    skipFraction_append hfraction hhead
  rcases hsign with rfl | rfl
  · simp only [skipNumber, List.nil_append, List.append_assoc, if_neg hunsigned, hparts,
      Option.bind_eq_bind, Option.bind_some, hskip]
    exact skipExponent_append hexponent hrest
  · simp [skipNumber, hparts, hskip, skipExponent_append hexponent hrest]

/-- The first digit of a number is no zero, unless the number is zero. -/
theorem toDigits_eq_cons {n : Nat} (hn : n ≠ 0) :
    ∃ c cs, Nat.toDigits 10 n = c :: cs ∧ c ≠ '0' := by
  induction n using Nat.strongRecOn with
  | ind n ih =>
      by_cases hsmall : n < 10
      · refine ⟨n.digitChar, [], Nat.toDigits_of_lt_base hsmall, ?_⟩
        have hdigit : ∀ m < 10, m ≠ 0 → m.digitChar ≠ '0' := by decide
        exact hdigit n hsmall hn
      · obtain ⟨c, cs, hdigits, hc⟩ := ih (n / 10) (by omega) (by omega)
        refine ⟨c, cs ++ [(n % 10).digitChar], ?_, hc⟩
        rw [Nat.toDigits_of_base_le (by omega) (by omega), hdigits, List.cons_append]

theorem integerText_toDigits (n : Nat) : IntegerText (Nat.toDigits 10 n) := by
  by_cases hn : n = 0
  · subst hn
    exact .zero
  · obtain ⟨c, cs, hdigits, hc⟩ := toDigits_eq_cons hn
    rw [hdigits]
    refine .positive hc ?_
    rw [← hdigits]
    exact fun d hd => Nat.isDigit_of_mem_toDigits (by omega) (by omega) hd

/-- **A number is read as it is written**, if it is below the limit. -/
theorem readNatural_repr {n limit : Nat} (hn : n < limit) {rest : List Char} (hrest : Follows rest) :
    readNatural limit (n.repr.toList ++ rest) = some (n, rest) := by
  have hdigits := (integerText_toDigits n).digits
  have hvalue : naturalOfDigits (Nat.toDigits 10 n) = n :=
    Nat.ofDigitChars_toDigits (by omega) (by omega)
  rw [Nat.toList_repr, readNatural, skipInteger_append (integerText_toDigits n) hrest.not_digit,
    digits_append hdigits.2 hrest.not_digit, hvalue]
  cases rest with
  | nil => simp [hn]
  | cons c rest =>
      have hgoes := hrest c rfl
      simp only [goesOn, Bool.or_eq_false_iff, beq_eq_false_iff_ne] at hgoes
      simp [hgoes, hn]

/-! ## Values -/

/-- An item of an array, or of a list of values, with blanks around it. -/
inductive ItemText (value : List Char) : List Char → Prop
  | mk {b b' : List Char} : Blanks b → Blanks b' → ItemText value (b ++ (value ++ b'))

/-- A field of an object whose name is spelled `key`, with blanks around its parts. -/
inductive FieldText (key value : List Char) : List Char → Prop
  | mk {b₀ b₁ b₂ b₃ : List Char} : Blanks b₀ → Blanks b₁ → Blanks b₂ → Blanks b₃ →
      FieldText key value (b₀ ++ '"' :: (key ++ '"' :: (b₁ ++ ':' :: (b₂ ++ (value ++ b₃)))))

/-- The word for a truth value. -/
def flagChars : Bool → List Char
  | true => ['t', 'r', 'u', 'e']
  | false => ['f', 'a', 'l', 's', 'e']

/-- What a text can be: a value, the items between the brackets of an array, or the fields between the
braces of an object. -/
inductive Form where
  | value | items | fields

/-- The texts of values, and of the items and fields of values that have some. -/
inductive Written : Form → List Char → Prop
  | null : Written .value ['n', 'u', 'l', 'l']
  | flag (b : Bool) : Written .value (flagChars b)
  | number {cs : List Char} : NumberText cs → Written .value cs
  | string {ps : List Piece} {cs : List Char} : Spelled ps cs → Written .value ('"' :: (cs ++ ['"']))
  | emptyArray {b : List Char} : Blanks b → Written .value ('[' :: (b ++ [']']))
  | array {cs : List Char} : Written .items cs → Written .value ('[' :: (cs ++ [']']))
  | emptyObject {b : List Char} : Blanks b → Written .value ('\x7b' :: (b ++ ['\x7d']))
  | object {cs : List Char} : Written .fields cs → Written .value ('\x7b' :: (cs ++ ['\x7d']))
  | lastItem {value cs : List Char} : Written .value value → ItemText value cs → Written .items cs
  | moreItems {value cs rest : List Char} : Written .value value → ItemText value cs →
      Written .items rest → Written .items (cs ++ ',' :: rest)
  | lastField {ps : List Piece} {key value cs : List Char} : Spelled ps key →
      Written .value value → FieldText key value cs → Written .fields cs
  | moreFields {ps : List Piece} {key value cs rest : List Char} : Spelled ps key →
      Written .value value → FieldText key value cs → Written .fields rest →
      Written .fields (cs ++ ',' :: rest)

theorem NumberText.head {cs : List Char} (h : NumberText cs) :
    ∃ c cs', cs = c :: cs' ∧ (c = '-' ∨ c.isDigit = true) := by
  obtain ⟨hsign, hinteger, -, -⟩ := h
  rcases hsign with rfl | rfl
  · cases hinteger with
    | zero => exact ⟨_, _, rfl, .inr rfl⟩
    | positive _ hdigits => exact ⟨_, _, rfl, .inr (hdigits _ List.mem_cons_self)⟩
  · exact ⟨_, _, rfl, .inl rfl⟩

/-- A value starts neither with a blank nor with a closing bracket. -/
theorem Written.head {cs : List Char} (h : Written .value cs) :
    ∃ c cs', cs = c :: cs' ∧ isBlank c = false ∧ c ≠ ']' := by
  cases h with
  | number hnumber =>
      obtain ⟨c, cs', rfl, rfl | hdigit⟩ := hnumber.head
      · exact ⟨_, _, rfl, rfl, by simp⟩
      · refine ⟨c, cs', rfl, ?_, ?_⟩
        · simp only [isBlank, Bool.or_eq_false_iff, beq_eq_false_iff_ne]
          refine ⟨⟨⟨?_, ?_⟩, ?_⟩, ?_⟩ <;> rintro rfl <;> simp at hdigit
        · rintro rfl
          simp at hdigit
  | flag b => cases b <;> exact ⟨_, _, rfl, rfl, by simp⟩
  | null | string | emptyArray | array | emptyObject | object =>
      exact ⟨_, _, rfl, rfl, by simp⟩

theorem follows_append {b : List Char} {c : Char} (hb : Blanks b) (hc : goesOn c = false)
    (rest : List Char) : Follows (b ++ c :: rest) := by
  cases b with
  | nil =>
      rintro d ⟨⟩
      exact hc
  | cons d b =>
      rintro d ⟨⟩
      rcases hb d List.mem_cons_self with rfl | rfl | rfl | rfl <;> rfl

theorem Written.expect_items {cs : List Char} (h : Written .items cs) (rest : List Char) :
    expect ']' (cs ++ rest) = none := by
  cases h with
  | lastItem hvalue hitem | moreItems hvalue hitem =>
      obtain ⟨c, cs', rfl, hblank, hne⟩ := hvalue.head
      obtain ⟨hb, -⟩ := hitem
      simpa using expect_append_ne hb hblank hne _

/-- An object that has a field is not closed at once. -/
theorem FieldText.expect_close {key value cs : List Char} (h : FieldText key value cs)
    (rest : List Char) : expect '\x7d' (cs ++ rest) = none := by
  obtain ⟨hb, -, -, -⟩ := h
  simpa using expect_append_ne hb rfl (by simp) _

theorem Written.expect_fields {cs : List Char} (h : Written .fields cs) (rest : List Char) :
    expect '\x7d' (cs ++ rest) = none := by
  cases h with
  | lastField _ _ hfield => exact hfield.expect_close rest
  | moreFields _ _ hfield => simpa using hfield.expect_close _

theorem skipValueWithin_append {b : List Char} (hb : Blanks b) (steps : Nat) (cs : List Char) :
    skipValueWithin steps (b ++ cs) = skipValueWithin steps cs := by
  cases steps with
  | zero => rfl
  | succ steps => rw [skipValueWithin, skipValueWithin, skipBlanks_append hb]

theorem skipValueWithin_number {cs rest : List Char} (h : NumberText cs) (hrest : Follows rest)
    (steps : Nat) : skipValueWithin (steps + 1) (cs ++ rest) = some rest := by
  have hnumber := skipNumber_append h hrest
  obtain ⟨c, cs, rfl, hblank, -⟩ := (Written.number h).head
  obtain ⟨_, _, ⟨⟩, hc⟩ := h.head
  -- a number is told from the other forms by its first character
  have hother : ∀ d : Char, d ≠ '-' → d.isDigit = false → c ≠ d := by
    rintro d hminus hdigit rfl
    simp [hminus, hdigit] at hc
  rw [List.cons_append] at hnumber ⊢
  rw [skipValueWithin, skipBlanks_cons hblank]
  split
  case h_7 => exact hnumber
  all_goals
    rename_i heq
    exact absurd (List.head_eq_of_cons_eq heq) (hother _ (by simp) rfl)

/-- What the readers do with a text and something behind it that cannot belong to it. -/
def Skips : Form → List Char → Prop
  | .value, cs => ∀ steps rest, cs.length ≤ steps → Follows rest →
      skipValueWithin steps (cs ++ rest) = some rest
  | .items, cs => ∀ steps rest, cs.length < steps → skipItems steps (cs ++ ']' :: rest) = some rest
  | .fields, cs => ∀ steps rest, cs.length < steps →
      skipFields steps (cs ++ '\x7d' :: rest) = some rest

/-- A value has a character, so there is a step to begin with. -/
theorem Written.skips {cs : List Char} (h : Written .value cs)
    (hfirst : ∀ steps rest, cs.length ≤ steps + 1 → Follows rest →
      skipValueWithin (steps + 1) (cs ++ rest) = some rest) : Skips .value cs := by
  rintro (_ | steps) rest hsteps hrest
  · obtain ⟨c, cs, rfl, -⟩ := h.head
    simp at hsteps
  · exact hfirst steps rest hsteps hrest

/-- An item is passed over, and the blanks behind it are left. -/
theorem Skips.item {value cs : List Char} (h : Skips .value value) (hitem : ItemText value cs) :
    ∃ b, Blanks b ∧ ∀ steps c rest, cs.length ≤ steps → goesOn c = false →
      skipValueWithin steps (cs ++ c :: rest) = some (b ++ c :: rest) := by
  obtain ⟨hb, hb'⟩ := hitem
  rename_i b b'
  refine ⟨b', hb', fun steps c rest hsteps hc => ?_⟩
  have hskip := h steps (b' ++ c :: rest) (by simp at hsteps; omega) (follows_append hb' hc rest)
  simpa [skipValueWithin_append hb] using hskip

/-- A field opens with a quote, and behind its name stands an item. -/
theorem FieldText.item {key value cs : List Char} (h : FieldText key value cs) :
    ∃ item b, ItemText value item ∧ item.length ≤ cs.length ∧ Blanks b ∧
      ∀ rest, expect '"' (cs ++ rest) = some (key ++ '"' :: (b ++ ':' :: (item ++ rest))) := by
  obtain ⟨hb₀, hb₁, hb₂, hb₃⟩ := h
  rename_i b₀ b₁ b₂ b₃
  refine ⟨b₂ ++ (value ++ b₃), b₁, ⟨hb₂, hb₃⟩, by simp; omega, hb₁, fun rest => ?_⟩
  simpa using expect_append hb₀ (show isBlank '"' = false from rfl) _

/-- **Every value is passed over**, and nothing more. -/
theorem skips_of_written {form : Form} {cs : List Char} (h : Written form cs) : Skips form cs := by
  induction h with
  | null => exact Written.null.skips fun steps rest _ _ => rfl
  | flag b => exact (Written.flag b).skips fun steps rest _ _ => by cases b <;> rfl
  | number hnumber =>
      exact (Written.number hnumber).skips fun steps rest _ hrest =>
        skipValueWithin_number hnumber hrest steps
  | string hspelled =>
      refine (Written.string hspelled).skips fun steps rest _ _ => ?_
      have hscan := scanString_of_spelled hspelled rest
      rw [List.cons_append, List.append_assoc, skipValueWithin, skipBlanks_cons rfl]
      simp [skipString, hscan]
  | emptyArray hb =>
      refine (Written.emptyArray hb).skips fun steps rest _ _ => ?_
      have hclose := expect_append hb (show isBlank ']' = false from rfl) rest
      rw [List.cons_append, List.append_assoc, skipValueWithin, skipBlanks_cons rfl]
      simp [hclose]
  | array hitems ih =>
      refine (Written.array hitems).skips fun steps rest hsteps _ => ?_
      have hskip := ih steps rest (by simp at hsteps; omega)
      rw [List.cons_append, List.append_assoc, skipValueWithin, skipBlanks_cons rfl]
      simp [hitems.expect_items, hskip]
  | emptyObject hb =>
      refine (Written.emptyObject hb).skips fun steps rest _ _ => ?_
      have hclose := expect_append hb (show isBlank '\x7d' = false from rfl) rest
      rw [List.cons_append, List.append_assoc, skipValueWithin, skipBlanks_cons rfl]
      simp [hclose]
  | object hfields ih =>
      refine (Written.object hfields).skips fun steps rest hsteps _ => ?_
      have hskip := ih steps rest (by simp at hsteps; omega)
      rw [List.cons_append, List.append_assoc, skipValueWithin, skipBlanks_cons rfl]
      simp [hfields.expect_fields, hskip]
  | lastItem hvalue hitem ih =>
      rintro (_ | steps) rest hsteps
      · simp at hsteps
      · obtain ⟨b, hb, hskip⟩ := ih.item hitem
        have hcomma : expect ',' (b ++ ']' :: rest) = none := expect_append_ne hb rfl (by simp) rest
        have hclose := expect_append hb (show isBlank ']' = false from rfl) rest
        simp [skipItems, hskip steps ']' rest (by omega) rfl, hcomma, hclose]
  | moreItems hvalue hitem hrest ih ih' =>
      rintro (_ | steps) rest hsteps
      · simp at hsteps
      · rw [List.length_append, List.length_cons] at hsteps
        obtain ⟨b, hb, hskip⟩ := ih.item hitem
        have hcomma := expect_append hb (show isBlank ',' = false from rfl)
        have hmore := ih' steps rest (by omega)
        simp [skipItems, hskip steps ',' _ (by omega) rfl, hcomma, hmore]
  | lastField hkey hvalue hfield ih =>
      rintro (_ | steps) rest hsteps
      · simp at hsteps
      · obtain ⟨item, b, hitem, hlength, hb, hname⟩ := hfield.item
        obtain ⟨b', hb', hskip⟩ := ih.item hitem
        have hcolon := expect_append hb (show isBlank ':' = false from rfl)
        have hcomma : expect ',' (b' ++ '\x7d' :: rest) = none :=
          expect_append_ne hb' rfl (by simp) rest
        have hclose := expect_append hb' (show isBlank '\x7d' = false from rfl) rest
        simp [skipFields, hname, skipString, scanString_of_spelled hkey, hcolon,
          hskip steps '\x7d' rest (by omega) rfl, hcomma, hclose]
  | moreFields hkey hvalue hfield hrest ih ih' =>
      rintro (_ | steps) rest hsteps
      · simp at hsteps
      · rw [List.length_append, List.length_cons] at hsteps
        obtain ⟨item, b, hitem, hlength, hb, hname⟩ := hfield.item
        obtain ⟨b', hb', hskip⟩ := ih.item hitem
        have hcolon := expect_append hb (show isBlank ':' = false from rfl)
        have hcomma := expect_append hb' (show isBlank ',' = false from rfl)
        have hmore := ih' steps rest (by omega)
        simp [skipFields, hname, skipString, scanString_of_spelled hkey, hcolon,
          hskip steps ',' _ (by omega) rfl, hcomma, hmore]

end QueryPlan.JsonReader
