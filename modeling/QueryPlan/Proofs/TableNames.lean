import Mathlib.Data.List.Basic
import QueryPlan.Error

/-!
# Table names and their texts

`TableName.parse` and `TableName.render` are inverse to each other on names whose parts are not
empty and hold no dot (`TableName.IsPlain`).  Reading never makes any other name, and never changes
the text: `TableName.parse_eq_ok_iff` says both at once.  In particular a name that is read without
a schema was written without a dot, so a table that stands for a CTE is not taken for a table of a
schema.

The parts between the dots are those of the library's `List.splitOn` (`dotParts_eq_splitOn`).
-/

namespace QueryPlan

theorem dotParts_eq_splitOn (cs : List Char) : dotParts cs = cs.splitOn '.' := by
  simp only [List.splitOn_eq_splitOnP]
  induction cs with
  | nil => simp [dotParts]
  | cons c cs ih =>
      rw [dotParts, ih, List.splitOnP_cons_eq_if_modifyHead]
      cases hparts : cs.splitOnP (· == '.') with
      | nil => exact absurd hparts (List.splitOnP_ne_nil _ cs)
      | cons part parts => simp

theorem dotParts_ne_nil (cs : List Char) : dotParts cs ≠ [] := by
  rw [dotParts_eq_splitOn, List.splitOn_eq_splitOnP]
  exact List.splitOnP_ne_nil _ cs

/-- A dot divides two parts and belongs to none. -/
theorem dot_not_mem_of_mem_dotParts {cs part : List Char} (h : part ∈ dotParts cs) : '.' ∉ part := by
  induction cs generalizing part with
  | nil =>
      obtain rfl : part = [] := by simpa [dotParts] using h
      simp
  | cons c cs ih =>
      rw [dotParts] at h
      split at h
      case h_1 hnone => exact absurd hnone (dotParts_ne_nil cs)
      case h_2 first parts hparts =>
        simp only [hparts, List.mem_cons, forall_eq_or_imp] at ih
        split_ifs at h with hdot <;> simp only [List.mem_cons] at h
        · rcases h with rfl | rfl | h
          · simp
          · exact ih.1
          · exact ih.2 part h
        · rcases h with rfl | h
          · simp [ih.1, Ne.symm hdot]
          · exact ih.2 part h

namespace TableName

/-- A text that can be a part of a table name that is read. -/
def IsPart (text : String) : Prop :=
  text ≠ "" ∧ '.' ∉ text.toList

instance (text : String) : Decidable (IsPart text) :=
  inferInstanceAs (Decidable (_ ∧ _))

/-- The schema, if there is one, and the name. -/
def parts (t : TableName) : List String :=
  t.schema.toList ++ [t.name]

/-- Every part of the name can be told from the text of the whole. -/
def IsPlain (t : TableName) : Prop :=
  ∀ part ∈ t.parts, IsPart part

theorem isPlain_iff {t : TableName} :
    t.IsPlain ↔ IsPart t.name ∧ ∀ schema ∈ t.schema, IsPart schema := by
  cases hschema : t.schema <;> simp [IsPlain, parts, hschema, and_comm]

theorem toList_render (t : TableName) :
    t.render.toList = ['.'].intercalate (t.parts.map String.toList) := by
  cases hschema : t.schema <;> simp [render, parts, hschema, List.intercalate]

/-- The parts of a text that is written for a plain name are those of the name. -/
theorem dotParts_render {t : TableName} (h : t.IsPlain) :
    dotParts t.render.toList = t.parts.map String.toList := by
  rw [dotParts_eq_splitOn, toList_render]
  refine List.splitOn_intercalate '.' ?_ (by simp [parts])
  simp only [List.mem_map, forall_exists_index, and_imp, forall_apply_eq_imp_iff₂]
  intro part hpart
  exact (h part hpart).2

theorem ofText?_render {t : TableName} (h : t.IsPlain) : ofText? t.render = some t := by
  obtain ⟨schema, name⟩ := t
  have hparts := dotParts_render h
  obtain ⟨hname, hschema⟩ := isPlain_iff.1 h
  have hname' : name.toList ≠ [] := by simpa using hname.1
  cases schema with
  | none => simp [ofText?, hparts, parts, hname']
  | some schema =>
      have hschema' : schema.toList ≠ [] := by simpa using (hschema schema rfl).1
      simp [ofText?, hparts, parts, hname', hschema']

/-- What is read is plain, and it is written as it stands in the text. -/
theorem isPlain_of_ofText? {text : String} {t : TableName} (h : ofText? text = some t) :
    t.IsPlain ∧ t.render = text := by
  have hjoined : ['.'].intercalate (dotParts text.toList) = text.toList := by
    rw [dotParts_eq_splitOn, List.intercalate_splitOn]
  have hdots : ∀ part ∈ dotParts text.toList, '.' ∉ part := fun part hpart =>
    dot_not_mem_of_mem_dotParts hpart
  unfold ofText? at h
  split at h
  case h_1 table hparts =>
    rw [hparts] at hjoined hdots
    split_ifs at h with hempty
    cases h
    refine ⟨?_, ?_⟩
    · simp_all [IsPlain, parts, IsPart]
    · rw [← String.toList_inj, toList_render, ← hjoined]
      simp [parts]
  case h_2 schema table hparts =>
    rw [hparts] at hjoined hdots
    split_ifs at h with hempty
    cases h
    refine ⟨?_, ?_⟩
    · simp_all [IsPlain, parts, IsPart]
    · rw [← String.toList_inj, toList_render, ← hjoined]
      simp [parts]
  case h_3 => cases h

/-- **Reading is writing backwards**, on plain names. -/
theorem parse_eq_ok_iff {text : String} {t : TableName} :
    parse text = .ok t ↔ t.IsPlain ∧ t.render = text := by
  have hread : parse text = .ok t ↔ ofText? text = some t := by
    rw [parse]
    cases ofText? text <;> simp
  rw [hread]
  constructor
  · exact isPlain_of_ofText?
  · rintro ⟨hplain, rfl⟩
    exact ofText?_render hplain

/-- **Table names are read and written as inverses.**  A text can be read exactly if it is a part, or
two parts with a dot between them, and then it is what is written for the name that is read.  A name
can be read from its own text exactly if its parts are not empty and hold no dot. -/
theorem parse_inverts_render :
    (∀ text, ((∃ t, parse text = .ok t) ↔ IsPart text ∨
        ∃ schema name, IsPart schema ∧ IsPart name ∧ text = schema ++ "." ++ name) ∧
      ∀ t, parse text = .ok t → t.render = text) ∧
    ∀ t : TableName, parse t.render = .ok t ↔
      IsPart t.name ∧ ∀ schema ∈ t.schema, IsPart schema := by
  refine ⟨fun text => ⟨?_, fun t h => (parse_eq_ok_iff.1 h).2⟩, fun t => ?_⟩
  · simp only [parse_eq_ok_iff, isPlain_iff]
    constructor
    · rintro ⟨⟨_ | schema, name⟩, ⟨hname, hschema⟩, rfl⟩
      · exact .inl hname
      · exact .inr ⟨schema, name, hschema schema rfl, hname, rfl⟩
    · rintro (hname | ⟨schema, name, hschema, hname, rfl⟩)
      · exact ⟨⟨none, text⟩, ⟨hname, by simp⟩, rfl⟩
      · exact ⟨⟨some schema, name⟩, ⟨hname, by simpa using hschema⟩, rfl⟩
  · rw [parse_eq_ok_iff, isPlain_iff, and_iff_left rfl]

/-- A schema that is given but empty is not the same as none: its text cannot be read, and neither can
a name with a dot in it be read as what it is. -/
theorem parse_inverts_render_sales :
    parse "sales.orders" = .ok ⟨some "sales", "orders"⟩ ∧
      parse (render ⟨some "", "orders"⟩) ≠ .ok ⟨some "", "orders"⟩ ∧
      parse (render ⟨none, "sales.orders"⟩) ≠ .ok ⟨none, "sales.orders"⟩ := by
  obtain ⟨-, hround⟩ := parse_inverts_render
  refine ⟨(hround ⟨some "sales", "orders"⟩).2 ⟨by decide +kernel, ?_⟩, ?_, ?_⟩
  · rintro schema ⟨⟩
    decide +kernel
  · intro h
    exact absurd (((hround _).1 h).2 "" rfl).1 (by simp)
  · intro h
    exact absurd ((hround _).1 h).1 (by decide +kernel)

end TableName

end QueryPlan
