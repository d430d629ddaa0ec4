import QueryPlan.Proofs.JsonGrammar
import QueryPlan.Text.Json

/-!
# A JSON value can be told from its text

The text of a value determines the value, and where it ends (`Json.delimited_text`).

* Strings: what is written for a string is one of its spellings (`JsonReader.spells_escape`), so it is
  read as that string, and its closing quote is where the reader finds it.
* Numbers have no end of their own.  A number ends where no digit follows, and in the text of a value
  it is followed by a comma or a bracket.  So the statement is about texts that do not go on with a
  digit (`Json.Ends`).
* Arrays and objects: of two lists that are written alike, the first members are equal, and what is
  left is written alike (`Json.delimited_items`).
* The first character tells the forms apart, all digits being taken as one (`Json.lead`).
-/

namespace QueryPlan

/-! ## Strings -/

namespace JsonReader

open Json (escape hexDigit)

theorem hexDigit_hexDigit {n : Nat} (hn : n < 16) : HexDigit (hexDigit n) n := by
  have hlower : ∀ m < 16, hexDigit m = m.digitChar := by decide
  exact ⟨hn, .inl (hlower n hn)⟩

/-- A character that has been written is spelled as one piece, which stands for it. -/
theorem spelled_escape (c : Char) : ∃ piece,
    (∀ {ps : List Piece} {cs : List Char}, Spelled ps cs → Spelled (piece :: ps) (escape c ++ cs)) ∧
      ∀ {ps : List Piece} {cs : List Char}, Denotes ps cs → Denotes (piece :: ps) (c :: cs) := by
  unfold escape
  split
  case h_8 hquote hbackslash _ _ _ _ _ =>
    split
    case isTrue hcontrol =>
      refine ⟨.unit c.toNat, fun h => ?_, .unit⟩
      have hzero : HexDigit '0' 0 := hexDigit_hexDigit (by omega)
      have hfirst := hexDigit_hexDigit (n := c.toNat / 16) (by omega)
      have hsecond := hexDigit_hexDigit (n := c.toNat % 16) (by omega)
      have hvalue : ((0 * 16 + 0) * 16 + c.toNat / 16) * 16 + c.toNat % 16 = c.toNat := by omega
      have hunit := Spelled.unit hzero hzero hfirst hsecond h
      rwa [hvalue] at hunit
    case isFalse hcontrol =>
      exact ⟨.char c, fun h => .plain (by omega) hquote hbackslash h, .char⟩
  all_goals exact ⟨.char _, fun h => .letter (by simp [escapes]) h, .char⟩

/-- **What is written for a string spells it.** -/
theorem spells_escape (s : String) : Spells s (s.toList.flatMap escape) := by
  unfold Spells
  induction s.toList with
  | nil => exact ⟨[], .nil, .nil⟩
  | cons c cs ih =>
      obtain ⟨ps, hspelled, hdenotes⟩ := ih
      obtain ⟨piece, hpiece, hchar⟩ := spelled_escape c
      exact ⟨piece :: ps, hpiece hspelled, hchar hdenotes⟩

theorem readString_escape (s : String) (rest : List Char) :
    readString (s.toList.flatMap escape ++ '"' :: rest) = some (s, rest) :=
  readString_of_spells (spells_escape s) rest

end JsonReader

namespace Json

/-! ## Values -/

/-- Every property of values that passes from the parts of an array or object to the whole holds of
all values. -/
theorem induct_parts {P : Json → Prop} (j : Json) (null : P .null) (bool : ∀ b, P (.bool b))
    (nat : ∀ n, P (.nat n)) (str : ∀ s, P (.str s))
    (arr : ∀ items, (∀ j ∈ items, P j) → P (.arr items))
    (obj : ∀ fields, (∀ f ∈ fields, P f.2) → P (.obj fields)) : P j := by
  cases j with
  | null => exact null
  | bool b => exact bool b
  | nat n => exact nat n
  | str s => exact str s
  | arr items =>
      refine arr items ?_
      intro j h
      exact induct_parts j null bool nat str arr obj
  | obj fields =>
      refine obj fields ?_
      rintro ⟨key, j⟩ h
      exact induct_parts j null bool nat str arr obj
termination_by sizeOf j
decreasing_by
  · have := List.sizeOf_lt_of_mem h
    rw [Json.arr.sizeOf_spec]
    omega
  · have := List.sizeOf_lt_of_mem h
    rw [Prod.mk.sizeOf_spec] at this
    rw [Json.obj.sizeOf_spec]
    omega

/-- A text that does not go on with a digit. -/
def Ends (rest : List Char) : Prop :=
  ∀ c ∈ rest.head?, c.isDigit = false

/-- What is written for `a` can be told from what follows. -/
def Delimited {α : Type} (write : α → List Char) (a : α) : Prop :=
  ∀ {a' : α} {rest rest' : List Char}, Ends rest → Ends rest' →
    write a ++ rest = write a' ++ rest' → a = a' ∧ rest = rest'

theorem toList_quote (s : String) (rest : List Char) :
    (quote s).toList ++ rest = '"' :: (s.toList.flatMap escape ++ '"' :: rest) := by
  simp [quote]

theorem delimited_quote {s s' : String} {rest rest' : List Char}
    (h : (quote s).toList ++ rest = (quote s').toList ++ rest') : s = s' ∧ rest = rest' := by
  rw [toList_quote, toList_quote, List.cons_inj_right] at h
  have hread := congrArg JsonReader.readString h
  rw [JsonReader.readString_escape, JsonReader.readString_escape] at hread
  simpa using hread

theorem delimited_repr {n n' : Nat} {rest rest' : List Char} (hrest : Ends rest) (hrest' : Ends rest')
    (h : n.repr.toList ++ rest = n'.repr.toList ++ rest') : n = n' ∧ rest = rest' := by
  have hdigits : ∀ (n : Nat), ∀ c ∈ Nat.toDigits 10 n, c.isDigit = true :=
    fun n c hc => Nat.isDigit_of_mem_toDigits (by omega) (by omega) hc
  have hnumber : ∀ n : Nat, Nat.ofDigitChars 10 (Nat.toDigits 10 n) 0 = n :=
    fun n => Nat.ofDigitChars_toDigits (by omega) (by omega)
  rw [Nat.toList_repr, Nat.toList_repr] at h
  have hread := congrArg JsonReader.digits h
  rw [JsonReader.digits_append (hdigits n) hrest, JsonReader.digits_append (hdigits n') hrest',
    Prod.mk.injEq] at hread
  refine ⟨?_, hread.2⟩
  rw [← hnumber n, hread.1, hnumber]

/-! ### Lists -/

section Items

variable {α : Type} {write : α → List Char} {close : Char}

/-- The members of a list after the first, each with a comma in front. -/
def further (write : α → List Char) (xs : List α) : List Char :=
  xs.flatMap fun x => ',' :: write x

theorem intercalate_map_cons (x : α) (xs : List α) :
    [','].intercalate ((x :: xs).map write) = write x ++ further write xs := by
  induction xs generalizing x with
  | nil => simp [further]
  | cons y ys ih =>
      rw [List.map_cons, List.map_cons, List.intercalate_cons_cons, ← List.map_cons, ih]
      simp [further]

theorem ends_further (hclose : close.isDigit = false) (xs : List α) (rest : List Char) :
    Ends (further write xs ++ close :: rest) := by
  intro c hc
  cases xs with
  | nil =>
      cases hc
      exact hclose
  | cons x xs =>
      cases hc
      rfl

theorem delimited_further (hclose : close.isDigit = false) (hcomma : close ≠ ',') :
    ∀ {xs xs' : List α} {rest rest' : List Char}, (∀ x ∈ xs, Delimited write x) →
    further write xs ++ close :: rest = further write xs' ++ close :: rest' →
      xs = xs' ∧ rest = rest'
  | [], [], rest, rest', _, h => ⟨rfl, List.tail_eq_of_cons_eq h⟩
  | [], x' :: xs', rest, rest', _, h => absurd (List.head_eq_of_cons_eq h) hcomma
  | x :: xs, [], rest, rest', _, h => absurd (List.head_eq_of_cons_eq h).symm hcomma
  | x :: xs, x' :: xs', rest, rest', hxs, h => by
      have hwritten : write x ++ (further write xs ++ close :: rest) =
          write x' ++ (further write xs' ++ close :: rest') := by
        simpa [further] using h
      obtain ⟨rfl, hrest⟩ := hxs x List.mem_cons_self (ends_further hclose xs rest)
        (ends_further hclose xs' rest') hwritten
      obtain ⟨rfl, rfl⟩ := delimited_further hclose hcomma
        (fun y hy => hxs y (List.mem_cons_of_mem _ hy)) hrest
      exact ⟨rfl, rfl⟩

/-- **Lists can be told from their texts** if their members can, and if none of these starts with the
closing bracket. -/
theorem delimited_items (hclose : close.isDigit = false) (hcomma : close ≠ ',')
    (hstart : ∀ x, ∃ c cs, write x = c :: cs ∧ c ≠ close) {xs xs' : List α} {rest rest' : List Char}
    (hxs : ∀ x ∈ xs, Delimited write x)
    (h : [','].intercalate (xs.map write) ++ close :: rest =
      [','].intercalate (xs'.map write) ++ close :: rest') : xs = xs' ∧ rest = rest' := by
  cases xs with
  | nil =>
      cases xs' with
      | nil => exact ⟨rfl, List.tail_eq_of_cons_eq h⟩
      | cons x' xs' =>
          obtain ⟨c, cs, hx', hc⟩ := hstart x'
          rw [intercalate_map_cons, hx'] at h
          exact absurd (List.head_eq_of_cons_eq h).symm hc
  | cons x xs =>
      cases xs' with
      | nil =>
          obtain ⟨c, cs, hx, hc⟩ := hstart x
          rw [intercalate_map_cons, hx] at h
          exact absurd (List.head_eq_of_cons_eq h) hc
      | cons x' xs' =>
          rw [intercalate_map_cons, intercalate_map_cons, List.append_assoc, List.append_assoc] at h
          obtain ⟨rfl, hrest⟩ := hxs x List.mem_cons_self (ends_further hclose xs rest)
            (ends_further hclose xs' rest') h
          obtain ⟨rfl, rfl⟩ := delimited_further hclose hcomma
            (fun y hy => hxs y (List.mem_cons_of_mem _ hy)) hrest
          exact ⟨rfl, rfl⟩

end Items

/-! ### The text of a value -/

/-- The character that stands for all first characters of one form of values. -/
def leadOf (c : Char) : Char :=
  if c.isDigit then '0' else if c = 'f' then 't' else c

/-- The first character of the text of a value, up to its form. -/
def lead : Json → Char
  | .null => 'n'
  | .bool _ => 't'
  | .nat _ => '0'
  | .str _ => '"'
  | .arr _ => '['
  | .obj _ => '\x7b'

theorem toList_text_arr (items : List Json) (rest : List Char) :
    (Json.arr items).text.toList ++ rest =
      '[' :: ([','].intercalate (items.map fun j => j.text.toList) ++ ']' :: rest) := by
  simp [text, String.toList_intercalate, Function.comp_def]

/-- The text of a field of an object. -/
def fieldChars (f : String × Json) : List Char :=
  (quote f.1).toList ++ ':' :: f.2.text.toList

theorem toList_text_obj (fields : List (String × Json)) (rest : List Char) :
    (Json.obj fields).text.toList ++ rest =
      '\x7b' :: ([','].intercalate (fields.map fieldChars) ++ '\x7d' :: rest) := by
  simp [text, String.toList_intercalate, Function.comp_def]
  rfl

theorem exists_lead (j : Json) : ∃ c cs, j.text.toList = c :: cs ∧ leadOf c = j.lead := by
  cases j with
  | null => exact ⟨_, _, rfl, rfl⟩
  | bool b => cases b <;> exact ⟨_, _, rfl, rfl⟩
  | nat n =>
      rw [text, Nat.toList_repr]
      cases hn : Nat.toDigits 10 n with
      | nil => exact absurd hn Nat.toDigits_ne_nil
      | cons c cs =>
          have hc : c.isDigit = true := by
            refine Nat.isDigit_of_mem_toDigits (b := 10) (n := n) (by omega) (by omega) ?_
            rw [hn]
            exact List.mem_cons_self
          exact ⟨c, cs, rfl, if_pos hc⟩
  | str s => exact ⟨_, _, by simpa [text] using toList_quote s [], rfl⟩
  | arr items => exact ⟨_, _, by simpa using toList_text_arr items [], rfl⟩
  | obj fields => exact ⟨_, _, by simpa using toList_text_obj fields [], rfl⟩

theorem lead_eq_of_text {j j' : Json} {rest rest' : List Char}
    (h : j.text.toList ++ rest = j'.text.toList ++ rest') : j.lead = j'.lead := by
  obtain ⟨c, cs, hj, hlead⟩ := exists_lead j
  obtain ⟨c', cs', hj', hlead'⟩ := exists_lead j'
  rw [hj, hj'] at h
  rw [← hlead, ← hlead', show c = c' from List.head_eq_of_cons_eq h]

/-- No value starts with a closing bracket. -/
theorem text_start (j : Json) : ∃ c cs, j.text.toList = c :: cs ∧ c ≠ ']' := by
  obtain ⟨c, cs, hj, hlead⟩ := exists_lead j
  refine ⟨c, cs, hj, ?_⟩
  rintro rfl
  cases j <;> simp [lead, leadOf] at hlead

theorem fieldChars_start (f : String × Json) :
    ∃ c cs, fieldChars f = c :: cs ∧ c ≠ '\x7d' :=
  ⟨_, _, toList_quote f.1 _, by decide⟩

theorem delimited_fieldChars {f : String × Json}
    (h : Delimited (fun j : Json => j.text.toList) f.2) : Delimited fieldChars f := by
  intro f' rest rest' hrest hrest' hsame
  rw [fieldChars, fieldChars, List.append_assoc, List.append_assoc] at hsame
  obtain ⟨hkey, hvalue⟩ := delimited_quote hsame
  obtain ⟨hvalue, hsame⟩ := h hrest hrest' (List.tail_eq_of_cons_eq hvalue)
  exact ⟨Prod.ext hkey hvalue, hsame⟩

/-- **A value can be told from its text**, and so can what follows it if that is no digit. -/
theorem delimited_text (j : Json) : Delimited (fun j : Json => j.text.toList) j := by
  induction j using induct_parts with
  | null =>
      intro j' rest rest' _ _ h
      have hlead := lead_eq_of_text h
      cases j' with
      | null => exact ⟨rfl, List.append_cancel_left h⟩
      | _ => simp [lead] at hlead
  | bool b =>
      intro j' rest rest' _ _ h
      have hlead := lead_eq_of_text h
      cases j' with
      | bool b' =>
          obtain rfl : b = b' := by cases b <;> cases b' <;> simp [text] at h ⊢
          exact ⟨rfl, List.append_cancel_left h⟩
      | _ => simp [lead] at hlead
  | nat n =>
      intro j' rest rest' hrest hrest' h
      have hlead := lead_eq_of_text h
      cases j' with
      | nat n' =>
          obtain ⟨rfl, hsame⟩ := delimited_repr hrest hrest' h
          exact ⟨rfl, hsame⟩
      | _ => simp [lead] at hlead
  | str s =>
      intro j' rest rest' _ _ h
      have hlead := lead_eq_of_text h
      cases j' with
      | str s' =>
          obtain ⟨rfl, hsame⟩ := delimited_quote h
          exact ⟨rfl, hsame⟩
      | _ => simp [lead] at hlead
  | arr items ih =>
      intro j' rest rest' _ _ h
      have hlead := lead_eq_of_text h
      cases j' with
      | arr items' =>
          rw [toList_text_arr, toList_text_arr, List.cons_inj_right] at h
          obtain ⟨rfl, hsame⟩ := delimited_items rfl (by decide) text_start ih h
          exact ⟨rfl, hsame⟩
      | _ => simp [lead] at hlead
  | obj fields ih =>
      intro j' rest rest' _ _ h
      have hlead := lead_eq_of_text h
      cases j' with
      | obj fields' =>
          rw [toList_text_obj, toList_text_obj, List.cons_inj_right] at h
          obtain ⟨rfl, hsame⟩ := delimited_items rfl (by decide) fieldChars_start
            (fun f hf => delimited_fieldChars (ih f hf)) h
          exact ⟨rfl, hsame⟩
      | _ => simp [lead] at hlead

theorem text_injective : Function.Injective text := by
  intro j j' h
  have hends : Ends [] := by simp [Ends]
  exact (delimited_text j hends hends (congrArg (fun s : String => s.toList ++ []) h)).1

end Json

end QueryPlan
