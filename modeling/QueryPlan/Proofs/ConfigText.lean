import QueryPlan.Config.Reader
import QueryPlan.Proofs.JsonText

/-!
# Configurations and their texts

A configuration is read back from its own text, and from any other JSON object that gives its fields.

* `Config.ObjectText` — the objects that give a configuration: its fields in any order, each at most
  once, among fields of other names with whatever values.  A field that has its default may be left
  out.  Blanks may stand between the parts, and strings may be spelled in any way.
* `readField_item` — reading one field adds it to those that have been given, and so
  `readFields_of_fieldsText` — a whole object is read, field after field.
* `objectText_text` — what is written for a configuration is such an object.

Whatever the text, what is read has been checked, and every failure is one of the configuration
(`ofText_cases`).

The name of a field is a string, so its surrogates come in pairs; a value that is passed over is
only spelled, and may have single ones.
-/

namespace QueryPlan

theorem Level.ofName?_name (l : Level) : Level.ofName? l.name = some l := by
  cases l <;> rfl

namespace Config

open JsonReader

/-! ## Objects that give a configuration -/

/-- The names of the fields of a configuration. -/
def fieldNames : List String :=
  ["level", "max_reduction_rounds", "validate_input"]

/-- The texts of a level: its name, or an object whose only field has that name. -/
inductive LevelText (l : Level) : List Char → Prop
  | name {cs : List Char} : Spells l.name cs → LevelText l ('"' :: (cs ++ ['"']))
  | object {key cs : List Char} : Spells l.name key → FieldText key ['n', 'u', 'l', 'l'] cs →
      LevelText l ('\x7b' :: (cs ++ ['\x7d']))

/-- The texts of what a configuration has in the field of a name.  A number of rounds is an integer,
without a fraction or an exponent; a field of another name has any value. -/
inductive ValueText (c : Config) : String → List Char → Prop
  | level {cs : List Char} : LevelText c.level cs → c.ValueText "level" cs
  | maxRounds : c.ValueText "max_reduction_rounds" c.maxRounds.repr.toList
  | validateInput : c.ValueText "validate_input" (flagChars c.validateInput)
  | unknown {name : String} {cs : List Char} : name ∉ fieldNames → Written .value cs →
      c.ValueText name cs

/-- The texts of some fields, with their names. -/
inductive FieldsText (c : Config) : List String → List Char → Prop
  | last {name : String} {key value cs : List Char} : Spells name key → c.ValueText name value →
      FieldText key value cs → c.FieldsText [name] cs
  | more {name : String} {key value cs rest : List Char} {names : List String} : Spells name key →
      c.ValueText name value → FieldText key value cs → c.FieldsText names rest →
      c.FieldsText (name :: names) (cs ++ ',' :: rest)

/-- The fields that are not named have their defaults. -/
structure DefaultOutside (c : Config) (names : List String) : Prop where
  level : "level" ∉ names → c.level = ({} : Config).level
  maxRounds : "max_reduction_rounds" ∉ names → c.maxRounds = ({} : Config).maxRounds
  validateInput : "validate_input" ∉ names → c.validateInput = ({} : Config).validateInput

/-- No field of a configuration is named twice; other names may be. -/
def NamedOnce (names : List String) : Prop :=
  (names.filter (· ∈ fieldNames)).Nodup

/-- The texts of objects that give a configuration. -/
inductive ObjectText (c : Config) : List Char → Prop
  | empty {b₀ b₁ b₂ : List Char} : Blanks b₀ → Blanks b₁ → Blanks b₂ → c.DefaultOutside [] →
      c.ObjectText (b₀ ++ '\x7b' :: (b₁ ++ '\x7d' :: b₂))
  | fields {b₀ cs b₁ : List Char} {names : List String} : Blanks b₀ → c.FieldsText names cs →
      Blanks b₁ → NamedOnce names → c.DefaultOutside names →
      c.ObjectText (b₀ ++ '\x7b' :: (cs ++ '\x7d' :: b₁))

/-! ## Values -/

section Values

variable {α β : Type} {read : Reader α} {value : List Char} {a : α} {l : Level} {cs : List Char}

@[simp]
theorem ok_bind (a : α) (f : α → Except ReadFault β) : (Except.ok a >>= f) = f a :=
  rfl

@[simp]
theorem pure_eq_ok (a : α) : (pure a : Except ReadFault α) = .ok a :=
  rfl

@[simp]
theorem orFault_some (fault : ReadFault) (a : α) : orFault fault (some a) = .ok a :=
  rfl

/-- What a reader makes of the text of a value, with blanks in front of it. -/
def Reads (read : Reader α) (value : List Char) (a : α) : Prop :=
  ∀ b rest, Blanks b → Follows rest → read (b ++ (value ++ rest)) = .ok (a, rest)

theorem readLevelName_of_spells (h : Spells l.name cs) (rest : List Char) :
    readLevelName (cs ++ '"' :: rest) = .ok (l, rest) := by
  simp [readLevelName, readString_of_spells h, Level.ofName?_name]

theorem readNull_item {item : List Char} (h : ItemText ['n', 'u', 'l', 'l'] item) :
    ∃ b, Blanks b ∧ ∀ rest, readNull (item ++ rest) = .ok ((), b ++ rest) := by
  obtain ⟨hb, hb'⟩ := h
  refine ⟨_, hb', fun rest => ?_⟩
  rw [List.append_assoc, readNull, skipBlanks_append hb]
  rfl

theorem reads_level (h : LevelText l value) : Reads readLevel value l := by
  intro b rest hb _
  rw [readLevel, skipBlanks_append hb]
  cases h with
  | name hspells =>
      rw [List.cons_append, skipBlanks_cons rfl]
      simpa using readLevelName_of_spells hspells rest
  | object hspells hfield =>
      obtain ⟨item, b₁, hitem, -, hb₁, hname⟩ := hfield.item
      obtain ⟨b₂, hb₂, hnull⟩ := readNull_item hitem
      have hcolon := expect_append (c := ':') hb₁ rfl
      have hclose := expect_append (c := '\x7d') hb₂ rfl rest
      rw [List.cons_append, List.append_assoc, skipBlanks_cons rfl]
      simp [hname, readLevelName_of_spells hspells, hcolon, hnull, hclose]

theorem reads_rounds {n : Nat} (hn : n < UInt64.size) : Reads readRounds n.repr.toList n := by
  intro b rest hb hrest
  have hnumber : NumberText n.repr.toList := by
    simpa using NumberText.mk (.inl rfl) (integerText_toDigits n) .none .none
  obtain ⟨d, ds, hdigits, hblank, -⟩ := (Written.number hnumber).head
  have hread := readNatural_repr hn hrest
  rw [hdigits, List.cons_append] at hread ⊢
  rw [readRounds, skipBlanks_append hb, skipBlanks_cons hblank, hread, orFault_some]

theorem reads_flag (flag : Bool) : Reads readFlag (flagChars flag) flag := by
  intro b rest hb _
  rw [readFlag, skipBlanks_append hb]
  cases flag <;> rfl

/-- The value of a field that has not been given is read, and the blanks behind it are left. -/
theorem Reads.once (h : Reads read value a) {item : List Char} (hitem : ItemText value item)
    (name : String) :
    ∃ b, Blanks b ∧ ∀ b' d rest, Blanks b' → goesOn d = false →
      readOnce name none read (b' ++ ':' :: (item ++ d :: rest)) = .ok (a, b ++ d :: rest) := by
  obtain ⟨hb, hb'⟩ := hitem
  rename_i b b'
  refine ⟨b', hb', fun b₁ d rest hb₁ hd => ?_⟩
  have hread := h b (b' ++ d :: rest) hb (follows_append hb' hd rest)
  simpa [readOnce, expect_append (c := ':') hb₁ rfl] using hread

end Values

/-! ## Fields -/

section Fields

variable {c : Config} {name : String} {names seen : List String} {value item cs : List Char}

/-- What has been read when the fields of the given names have. -/
def given (c : Config) (names : List String) : Partial where
  level := if "level" ∈ names then some c.level else none
  maxRounds := if "max_reduction_rounds" ∈ names then some c.maxRounds else none
  validateInput := if "validate_input" ∈ names then some c.validateInput else none

theorem given_nil : c.given [] = {} := by
  simp [given]

theorem given_perm {names names' : List String} (h : names.Perm names') :
    c.given names = c.given names' := by
  simp only [given, h.mem_iff]

theorem complete_given (h : c.DefaultOutside names) : (c.given names).complete = c := by
  have hgetD : ∀ {α : Type} (p : Prop) [Decidable p] (a d : α), (¬ p → a = d) →
      (if p then some a else none).getD d = a := by
    intro α p _ a d hdefault
    by_cases hp : p
    · simp [hp]
    · simp [hp, hdefault hp]
  simp only [given, Partial.complete]
  rw [hgetD _ _ _ h.level, hgetD _ _ _ h.maxRounds, hgetD _ _ _ h.validateInput]

theorem NamedOnce.perm {names names' : List String} (h : NamedOnce names)
    (hperm : names.Perm names') : NamedOnce names' :=
  (hperm.filter _).nodup h

theorem NamedOnce.sublist {names names' : List String} (h : NamedOnce names)
    (hsub : names'.Sublist names) : NamedOnce names' :=
  List.Nodup.sublist (hsub.filter _) h

theorem NamedOnce.not_mem (h : NamedOnce (name :: names)) (hname : name ∈ fieldNames) :
    name ∉ names := by
  intro hmem
  rw [NamedOnce, List.filter_cons_of_pos (by simpa using hname), List.nodup_cons] at h
  exact h.1 (List.mem_filter.2 ⟨hmem, by simpa using hname⟩)

/-- **Reading a field adds it to those that have been given**, and leaves blanks behind it. -/
theorem readField_item (hsize : c.maxRounds < UInt64.size) (hvalue : c.ValueText name value)
    (hitem : ItemText value item) (honce : NamedOnce (name :: seen)) :
    ∃ b, Blanks b ∧ ∀ steps b' d rest, Blanks b' → item.length ≤ steps → goesOn d = false →
      readField steps (c.given seen) name (b' ++ ':' :: (item ++ d :: rest)) =
        .ok (c.given (name :: seen), b ++ d :: rest) := by
  cases hvalue with
  | level hlevel =>
      have hfresh := honce.not_mem (by simp [fieldNames])
      obtain ⟨b, hb, hread⟩ := (reads_level hlevel).once hitem "level"
      refine ⟨b, hb, fun steps b' d rest hb' _ hd => ?_⟩
      simp [readField, given, hfresh, hread b' d rest hb' hd]
  | maxRounds =>
      have hfresh := honce.not_mem (by simp [fieldNames])
      obtain ⟨b, hb, hread⟩ := (reads_rounds hsize).once hitem "max_reduction_rounds"
      refine ⟨b, hb, fun steps b' d rest hb' _ hd => ?_⟩
      simp [readField, given, hfresh, hread b' d rest hb' hd]
  | validateInput =>
      have hfresh := honce.not_mem (by simp [fieldNames])
      obtain ⟨b, hb, hread⟩ := (reads_flag c.validateInput).once hitem "validate_input"
      refine ⟨b, hb, fun steps b' d rest hb' _ hd => ?_⟩
      simp [readField, given, hfresh, hread b' d rest hb' hd]
  | unknown hname hwritten =>
      obtain ⟨b, hb, hskip⟩ := Skips.item (skips_of_written hwritten) hitem
      refine ⟨b, hb, fun steps b' d rest hb' hsteps hd => ?_⟩
      have hcolon := expect_append (c := ':') hb' rfl (item ++ d :: rest)
      simp only [fieldNames, List.mem_cons, List.not_mem_nil, or_false, not_or] at hname
      obtain ⟨hlevel, hrounds, hflag⟩ := hname
      simp [readField, given, hlevel, hrounds, hflag, Ne.symm hlevel, Ne.symm hrounds,
        Ne.symm hflag, hcolon, hskip steps d rest hsteps hd]

/-- **The fields of an object are read one after the other.**  What has been given does not depend on
their order, so the fields of before are put behind those of the text. -/
theorem readFields_of_fieldsText (hsize : c.maxRounds < UInt64.size) (h : c.FieldsText names cs) :
    ∀ (seen : List String) (steps : Nat) (rest : List Char), NamedOnce (names ++ seen) →
      cs.length < steps →
      readFields steps (c.given seen) (cs ++ '\x7d' :: rest) =
        .ok (c.given (names ++ seen), rest) := by
  induction h with
  | last hkey hvalue hfield =>
      rintro seen (_ | steps) rest honce hsteps
      · simp at hsteps
      · obtain ⟨item, b, hitem, hlength, hb, hname⟩ := hfield.item
        have hfirst : NamedOnce (_ :: seen) := honce
        obtain ⟨b', hb', hread⟩ := readField_item hsize hvalue hitem hfirst
        have hcomma : expect ',' (b' ++ '\x7d' :: rest) = none :=
          expect_append_ne hb' rfl (by simp) rest
        have hclose := expect_append (c := '\x7d') hb' rfl rest
        simp [readFields, hname, readString_of_spells hkey,
          hread steps b '\x7d' rest hb (by omega) rfl, hcomma, hclose]
  | @more name key value cs more names hkey hvalue hfield hmore ih =>
      rintro seen (_ | steps) rest honce hsteps
      · simp at hsteps
      · rw [List.length_append, List.length_cons] at hsteps
        have hperm : (name :: names ++ seen).Perm (names ++ name :: seen) := List.perm_middle.symm
        obtain ⟨item, b, hitem, hlength, hb, hname⟩ := hfield.item
        have hfirst : NamedOnce (name :: seen) :=
          honce.sublist ((List.sublist_append_right names seen).cons_cons name)
        obtain ⟨b', hb', hread⟩ := readField_item hsize hvalue hitem hfirst
        have hcomma := expect_append (c := ',') hb' rfl
        have hrest := ih (name :: seen) steps rest (honce.perm hperm) (by omega)
        rw [given_perm hperm, ← hrest]
        simp [readFields, hname, readString_of_spells hkey,
          hread steps b ',' _ hb (by omega) rfl, hcomma]

end Fields

/-! ## Whole texts -/

section Texts

variable {c : Config} {text : String}

theorem FieldsText.expect_close {names : List String} {cs : List Char} (h : c.FieldsText names cs)
    (rest : List Char) : expect '\x7d' (cs ++ rest) = none := by
  cases h with
  | last _ _ hfield => exact hfield.expect_close rest
  | more _ _ hfield => simpa using hfield.expect_close _

/-- An object is read, whatever order its fields are in. -/
theorem readPartial_of_objectText {cs : List Char} (hsize : c.maxRounds < UInt64.size)
    (h : c.ObjectText cs) : ∃ names b, c.DefaultOutside names ∧ Blanks b ∧
      readPartial cs = .ok (c.given names, b) := by
  cases h with
  | empty hb₀ hb₁ hb₂ hdefault =>
      refine ⟨[], _, hdefault, hb₂, ?_⟩
      rw [readPartial, skipBlanks_append hb₀, skipBlanks_cons rfl]
      simp [expect_append (c := '\x7d') hb₁ rfl, given_nil]
  | @fields b₀ cs b₁ names hb₀ hfields hb₁ honce hdefault =>
      refine ⟨names, b₁, hdefault, hb₁, ?_⟩
      have hopen : expect '\x7d' (cs ++ '\x7d' :: b₁) = none := hfields.expect_close _
      have hsteps : cs.length < (cs ++ '\x7d' :: b₁).length + 1 := by
        rw [List.length_append]
        omega
      have hread := readFields_of_fieldsText hsize hfields [] _ b₁ (by simpa using honce) hsteps
      rw [readPartial, skipBlanks_append hb₀, skipBlanks_cons rfl]
      simpa [hopen, given_nil] using hread

/-- **A configuration is read from every object that gives it.** -/
theorem read_of_objectText (hsize : c.maxRounds < UInt64.size) (h : c.ObjectText text.toList) :
    read text = .ok c := by
  obtain ⟨names, b, hdefault, hb, hread⟩ := readPartial_of_objectText hsize h
  simp [read, hread, skipBlanks_eq_nil hb, complete_given hdefault]

/-- A field is written without blanks. -/
theorem fieldText_fieldChars (f : String × Json) :
    FieldText (f.1.toList.flatMap Json.escape) f.2.text.toList (Json.fieldChars f) := by
  have hfield : FieldText (f.1.toList.flatMap Json.escape) f.2.text.toList _ :=
    .mk .nil .nil .nil .nil
  simpa [Json.fieldChars, Json.toList_quote] using hfield

/-- **What is written for a configuration is an object that gives it**, with all fields. -/
theorem objectText_text (c : Config) : c.ObjectText c.text.toList := by
  have hlevel : c.ValueText "level" (Json.str c.level.name).text.toList := by
    refine .level ?_
    simpa [Json.text, Json.quote] using LevelText.name (spells_escape c.level.name)
  have hflag : c.ValueText "validate_input" (Json.bool c.validateInput).text.toList := by
    have hchars : (Json.bool c.validateInput).text.toList = flagChars c.validateInput := by
      cases c.validateInput <;> rfl
    rw [hchars]
    exact .validateInput
  have hfields := FieldsText.more (spells_escape _) hlevel (fieldText_fieldChars ("level", _))
    (.more (spells_escape _) .maxRounds (fieldText_fieldChars (_, .nat c.maxRounds))
      (.last (spells_escape _) hflag (fieldText_fieldChars ("validate_input", _))))
  have hobject := ObjectText.fields .nil hfields .nil (by simp [NamedOnce, fieldNames])
    ⟨by simp, by simp, by simp⟩
  have htext := Json.toList_text_obj
    [("level", .str c.level.name), ("max_reduction_rounds", .nat c.maxRounds),
      ("validate_input", .bool c.validateInput)] []
  rw [List.append_nil] at htext
  rw [text, toJson, htext]
  simpa using hobject

/-! ## Reading and checking -/

theorem check_eq_ok : c.check = .ok () ↔ 0 < c.maxRounds := by
  simp [check, Nat.pos_iff_ne_zero]

theorem ofText_of_read (h : read text = .ok c) (hpos : 0 < c.maxRounds) : ofText text = .ok c := by
  simp [ofText, h, check_eq_ok.2 hpos, bind, Except.bind, pure, Except.pure]

/-- What is read can be carried out, and what fails, fails as a configuration. -/
theorem ofText_cases (text : String) :
    (∃ c, 0 < c.maxRounds ∧ ofText text = .ok c) ∨ ∃ fault, ofText text = .error (.config fault) := by
  cases hread : read text with
  | error fault => exact .inr ⟨.unreadable fault, by simp [ofText, hread]⟩
  | ok c =>
      by_cases hpos : 0 < c.maxRounds
      · exact .inl ⟨c, hpos, ofText_of_read hread hpos⟩
      · refine .inr ⟨.noRounds, ?_⟩
        simp [ofText, hread, check, Nat.eq_zero_of_not_pos hpos, bind, Except.bind]

/-- **A configuration that can be carried out is read back** from its own text and from every object
that gives it, if its rounds fit into 64 bits; and whatever the text, what is read can be carried out,
and what fails, fails as a configuration. -/
theorem ofText_inverts_text :
    (∀ c : Config, 0 < c.maxRounds → c.maxRounds < UInt64.size →
      ofText c.text = .ok c ∧ ∀ text : String, c.ObjectText text.toList → ofText text = .ok c) ∧
    ∀ text : String, (∀ c, ofText text = .ok c → 0 < c.maxRounds) ∧
      ∀ e, ofText text = .error e → ∃ fault, e = .config fault := by
  refine ⟨fun c hpos hsize => ?_, fun text => ?_⟩
  · have hread : ∀ text : String, c.ObjectText text.toList → ofText text = .ok c :=
      fun text h => ofText_of_read (read_of_objectText hsize h) hpos
    exact ⟨hread _ (objectText_text c), hread⟩
  · rcases ofText_cases text with ⟨c, hpos, hok⟩ | ⟨fault, herror⟩
    · rw [hok]
      refine ⟨?_, ?_⟩
      · rintro c ⟨⟩
        exact hpos
      · simp
    · rw [herror]
      refine ⟨by simp, ?_⟩
      rintro e ⟨⟩
      exact ⟨fault, rfl⟩

end Texts

/-- As many rounds as a number can say, at a level that is not the default. -/
def tireless : Config :=
  { level := .o2, maxRounds := 18446744073709551615 }

/-- An object that gives it: the fields are not in their order, one that has its default is left out,
and the first one has a name and a value that mean nothing here. -/
def tirelessText : String :=
  " \x7b\"note\":[\"\\ud800\", \x7b\x7d],\"max_reduction_rounds\" : 18446744073709551615," ++
    "\"level\":\x7b\"O2\":null\x7d\x7d"

theorem objectText_tirelessText : tireless.ObjectText tirelessText.toList := by
  have hblank : Blanks [' '] := by simp [Blanks]
  have hd : HexDigit 'd' 13 := ⟨by simp, .inl rfl⟩
  have h8 : HexDigit '8' 8 := ⟨by simp, .inl rfl⟩
  have hzero : HexDigit '0' 0 := ⟨by simp, .inl rfl⟩
  have hlone := Spelled.unit hd h8 hzero hzero .nil
  have hnote : tireless.ValueText "note" _ :=
    .unknown (by simp [fieldNames]) (.array (.moreItems (.string hlone) (.mk .nil .nil)
      (.lastItem (.emptyObject .nil) (.mk hblank .nil))))
  have hlevel : tireless.ValueText "level" _ :=
    .level (.object (spells_escape _) (.mk .nil .nil .nil .nil))
  have hobject := ObjectText.fields hblank
    (.more (spells_escape _) hnote (.mk .nil .nil .nil .nil)
      (.more (spells_escape _) .maxRounds (.mk .nil hblank hblank .nil)
        (.last (spells_escape _) hlevel (.mk .nil .nil .nil .nil))))
    .nil (by simp [NamedOnce, fieldNames]) ⟨by simp, by simp, by simp [tireless]⟩
  exact hobject

/-- The greatest number of rounds is read from a text that gives it in passing, and a text that stops
short is refused. -/
theorem ofText_inverts_text_tireless :
    (0 < tireless.maxRounds ∧ tireless.maxRounds < UInt64.size ∧
        tireless.ObjectText tirelessText.toList) ∧
      (ofText tireless.text = .ok tireless ∧ ofText tirelessText = .ok tireless) ∧
      ofText "[" = .error (.config (.unreadable .malformed)) ∧
        ∃ fault, Error.config (.unreadable .malformed) = .config fault := by
  have hpos : 0 < tireless.maxRounds := by simp [tireless]
  have hsize : tireless.maxRounds < UInt64.size := by simp [tireless, UInt64.size]
  have hread := ofText_inverts_text.1 tireless hpos hsize
  have hrefused : ofText "[" = .error (.config (.unreadable .malformed)) := rfl
  exact ⟨⟨hpos, hsize, objectText_tirelessText⟩,
    ⟨hread.1, hread.2 _ objectText_tirelessText⟩, hrefused,
    (ofText_inverts_text.2 "[").2 _ hrefused⟩

end Config

end QueryPlan
