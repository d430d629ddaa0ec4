import QueryPlan.Proofs.Erasure
import QueryPlan.Proofs.References

/-!
# Qualifiers and merging

Whether a column is written with its source plays no part in what an expression reads, so no
condition of a merging rule sees it.  It plays a part in one place only: a sort key is looked for
among the columns of the merged statement, and there expressions are compared as they are written.

* `Expr.IsQualified` — all columns are written with their source.  Qualified expressions that agree
  without qualifiers are equal (`IsQualified.eq_of_setQualified`).
* `MergeStep.isQualified` — a merging step keeps statements qualified.
* `Select.isSome_inlineInto?_of_dropQualifiers`, `Select.allowsSourceAt_dropQualifiers` — between
  qualified statements, dropping qualifiers does not make a merge possible.
-/

namespace QueryPlan

namespace Expr

/-- Whether an expression is a column written without its source. -/
def isBare : Expr → Bool
  | .column _ qualified => !qualified
  | _ => false

/-- All columns of an expression are written with their source. -/
def IsQualified (e : Expr) : Prop :=
  ∀ d ∈ e.walk, d.isBare = false

instance : DecidablePred IsQualified :=
  fun e => inferInstanceAs (Decidable (∀ d ∈ e.walk, d.isBare = false))

theorem isBare_of_not_column {e : Expr} (h : e.columnRef? = none) : e.isBare = false := by
  cases e with
  | column r q => simp [columnRef?] at h
  | _ => rfl

theorem isQualified_step {e : Expr} (h : e.columnRef? = none) :
    e.IsQualified ↔ ∀ d ∈ e.children, d.IsQualified := by
  rw [IsQualified, walk_eq]
  simp only [List.mem_cons, forall_eq_or_imp, isBare_of_not_column h, true_and, List.mem_flatMap]
  constructor
  · intro h d hd c hc
    exact h c ⟨d, hd, hc⟩
  · rintro h c ⟨d, hd, hc⟩
    exact h d hd c hc

/-- What is qualified is what does not change when all qualifiers are put in. -/
theorem isQualified_iff {e : Expr} : e.IsQualified ↔ e.setQualified true = e := by
  induction e using induct_columns with
  | column r q => cases q <;> simp [IsQualified, walk, isBare, setQualified, transform]
  | step e hc ih =>
      have hchildren := (bindColumns_of_not_column (fun r => some (.column r true)) hc).1
      rw [isQualified_step hc, setQualified_eq_bindColumns]
      constructor
      · intro h
        rw [bindColumns_eq_mapChildren _ hc]
        refine (mapChildren_congr ?_).trans (mapChildren_id e)
        intro d hd
        rw [← setQualified_eq_bindColumns, (ih d hd).1 (h d hd), id]
      · intro h d hd
        rw [h] at hchildren
        refine (ih d hd).2 ?_
        rw [setQualified_eq_bindColumns]
        exact (List.map_eq_map_iff.1 (hchildren.symm.trans (List.map_id _).symm)) d hd

theorem setQualified_setQualified (p q : Bool) (e : Expr) :
    (e.setQualified p).setQualified q = e.setQualified q := by
  rw [setQualified_eq_bindColumns, setQualified_eq_bindColumns, bindColumns_bindColumns,
    setQualified_eq_bindColumns]
  rfl

theorem columnRef?_setQualified (q : Bool) (e : Expr) :
    (e.setQualified q).columnRef? = e.columnRef? := by
  cases e <;> rfl

theorem name?_setQualified (q : Bool) (e : Expr) : (e.setQualified q).name? = e.name? := by
  cases e <;> rfl

/-- Qualified expressions that agree without their qualifiers are equal. -/
theorem IsQualified.eq_of_setQualified {a b : Expr} (ha : a.IsQualified) (hb : b.IsQualified)
    {q : Bool} (h : a.setQualified q = b.setQualified q) : a = b := by
  calc a = (a.setQualified q).setQualified true := by
        rw [setQualified_setQualified, isQualified_iff.1 ha]
    _ = (b.setQualified q).setQualified true := by rw [h]
    _ = b := by rw [setQualified_setQualified, isQualified_iff.1 hb]

theorem isQualified_name (n : String) : (name n).IsQualified := by
  simp [IsQualified, walk, isBare]

theorem IsQualified.bindColumns {f : ColumnRef → Option Expr}
    (hf : ∀ r d, f r = some d → d.IsQualified) {e : Expr} (he : e.IsQualified) :
    (e.bindColumns f).IsQualified := by
  intro x hx
  rcases exists_of_mem_walk_bindColumns f e hx with ⟨d, -, hc, rfl⟩ | ⟨r, q, hr, hx⟩
  · refine isBare_of_not_column ?_
    rw [bindColumns_eq_mapChildren f hc, columnRef?_mapChildren, hc]
  · cases hrep : f r with
    | none =>
        rw [hrep, Option.getD_none, walk, List.mem_singleton] at hx
        rw [hx]
        exact he _ hr
    | some d =>
        rw [hrep] at hx
        exact hf r d hrep x hx

theorem IsQualified.conjoin {l r : Option Expr} {e : Expr} (h : Expr.conjoin l r = some e)
    (hl : ∀ d, l = some d → d.IsQualified) (hr : ∀ d, r = some d → d.IsQualified) :
    e.IsQualified := by
  unfold Expr.conjoin at h
  split at h
  · exact hr e h
  · exact hl e h
  · next args d =>
    cases h
    have hargs := (isQualified_step rfl).1 (hl _ rfl)
    refine (isQualified_step rfl).2 ?_
    intro a ha
    rcases List.mem_append.1 ha with ha | ha
    · exact hargs a ha
    · rw [List.mem_singleton.1 ha]
      exact hr d rfl
  · next l r _ =>
    cases h
    refine (isQualified_step rfl).2 ?_
    intro a ha
    simp only [children, List.mem_cons, List.not_mem_nil, or_false] at ha
    rcases ha with rfl | rfl
    · exact hl _ rfl
    · exact hr _ rfl

section Covered

variable {f : ColumnRef → Option Expr} {e : Expr}
  (hf : ∀ r ∈ e.lineage.columns, (f r).isSome = true)

include hf

/-- Where every column is replaced, it plays no part how the columns were written. -/
theorem bindColumns_setQualified (q : Bool) :
    (e.setQualified q).bindColumns f = e.bindColumns f := by
  rw [setQualified_eq_bindColumns, bindColumns_bindColumns]
  refine bindColumns_congr e ?_
  intro r hr
  rcases Option.isSome_iff_exists.1 (hf r hr) with ⟨d, hd⟩
  simp [hd]

/-- Where every column is replaced, the qualifiers are those of the replacements. -/
theorem setQualified_bindColumns (q : Bool) :
    (e.bindColumns f).setQualified q = e.bindColumns fun r => (f r).map (setQualified q) := by
  rw [setQualified_eq_bindColumns, bindColumns_bindColumns]
  refine bindColumns_congr e ?_
  intro r hr
  rcases Option.isSome_iff_exists.1 (hf r hr) with ⟨d, hd⟩
  simp [hd, setQualified_eq_bindColumns]

end Covered

end Expr

/-! ## Statements without qualifiers -/

namespace Select

variable {σ τ : Type} (s parent child : Select σ)

/-- An expression of a statement outside grouping and sort keys, without the qualifiers that it does
not need. -/
def bare (e : Expr) : Expr :=
  if s.joins.isEmpty then e.setQualified false else e

/-- A grouping or sort key of a statement, without the qualifiers that it does not need. -/
def bareKey (e : Expr) : Expr :=
  if s.joins.isEmpty then dropQualifiersIfSame s.columns e else e

theorem dropQualifiers_eq :
    s.dropQualifiers =
      { s with
        columns := s.columns.map fun c => { c with expr := s.bare c.expr }
        filter := s.filter.map s.bare
        groupBy := s.groupBy.map fun g => { g with expr := s.bareKey g.expr }
        orderBy := s.orderBy.map fun k => { k with expr := s.bareKey k.expr } } := by
  unfold dropQualifiers bare bareKey
  split
  · rfl
  · simp

section Fields

@[simp] theorem source_dropQualifiers : s.dropQualifiers.source = s.source := by
  rw [dropQualifiers_eq]

@[simp] theorem sourceName_dropQualifiers : s.dropQualifiers.sourceName = s.sourceName := by
  rw [dropQualifiers_eq]

@[simp] theorem ctes_dropQualifiers : s.dropQualifiers.ctes = s.ctes := by rw [dropQualifiers_eq]

@[simp] theorem joins_dropQualifiers : s.dropQualifiers.joins = s.joins := by
  rw [dropQualifiers_eq]

@[simp] theorem limit_dropQualifiers : s.dropQualifiers.limit = s.limit := by
  rw [dropQualifiers_eq]

@[simp] theorem distinct_dropQualifiers : s.dropQualifiers.distinct = s.distinct := by
  rw [dropQualifiers_eq]

@[simp] theorem columns_dropQualifiers :
    s.dropQualifiers.columns = s.columns.map fun c => { c with expr := s.bare c.expr } := by
  rw [dropQualifiers_eq]

@[simp] theorem filter_dropQualifiers : s.dropQualifiers.filter = s.filter.map s.bare := by
  rw [dropQualifiers_eq]

@[simp] theorem groupBy_dropQualifiers :
    s.dropQualifiers.groupBy = s.groupBy.map fun g => { g with expr := s.bareKey g.expr } := by
  rw [dropQualifiers_eq]

@[simp] theorem orderBy_dropQualifiers :
    s.dropQualifiers.orderBy = s.orderBy.map fun k => { k with expr := s.bareKey k.expr } := by
  rw [dropQualifiers_eq]

end Fields

theorem bareKey_cases (e : Expr) : s.bareKey e = e ∨ s.bareKey e = s.bare e := by
  unfold bareKey bare dropQualifiersIfSame
  split
  · split
    · exact .inr rfl
    · exact .inl rfl
  · exact .inl rfl

/-- A reading of an expression that does not see its qualifiers. -/
theorem reading_bare {V : Type} {v : Expr → V} {e : Expr} (hv : v (e.setQualified false) = v e) :
    v (s.bare e) = v e := by
  unfold bare
  split
  · exact hv
  · rfl

theorem reading_bareKey {V : Type} {v : Expr → V} {e : Expr}
    (hv : v (e.setQualified false) = v e) : v (s.bareKey e) = v e := by
  rcases s.bareKey_cases e with h | h
  · rw [h]
  · rw [h, reading_bare s hv]

theorem lineage_bare (e : Expr) : (s.bare e).lineage = e.lineage :=
  s.reading_bare (v := Expr.lineage) (Expr.lineage_setQualified false e)

theorem columnRef?_bare (e : Expr) : (s.bare e).columnRef? = e.columnRef? :=
  s.reading_bare (v := Expr.columnRef?) (Expr.columnRef?_setQualified false e)

theorem bare_bare (e : Expr) : s.bare (s.bare e) = s.bare e := by
  unfold bare
  split
  · exact Expr.setQualified_setQualified false false e
  · rfl

theorem lineage_bareKey (e : Expr) : (s.bareKey e).lineage = e.lineage :=
  s.reading_bareKey (v := Expr.lineage) (Expr.lineage_setQualified false e)

theorem name?_bareKey (e : Expr) : (s.bareKey e).name? = e.name? :=
  s.reading_bareKey (v := Expr.name?) (Expr.name?_setQualified false e)

theorem bare_bareKey (e : Expr) : s.bare (s.bareKey e) = s.bare e := by
  rcases s.bareKey_cases e with h | h
  · rw [h]
  · rw [h, bare_bare]

variable {s} in
/-- Qualified expressions that agree without the qualifiers are equal. -/
theorem eq_of_bare {a b : Expr} (ha : a.IsQualified) (hb : b.IsQualified)
    (h : s.bare a = s.bare b) : a = b := by
  unfold bare at h
  split at h
  · exact ha.eq_of_setQualified hb h
  · exact h

section Covered

variable {f : ColumnRef → Option Expr} {e : Expr}
  (hf : ∀ r ∈ e.lineage.columns, (f r).isSome = true)

include hf

theorem bindColumns_bare : (s.bare e).bindColumns f = e.bindColumns f :=
  s.reading_bare (v := (·.bindColumns f)) (Expr.bindColumns_setQualified hf false)

theorem bindColumns_bareKey : (s.bareKey e).bindColumns f = e.bindColumns f :=
  s.reading_bareKey (v := (·.bindColumns f)) (Expr.bindColumns_setQualified hf false)

theorem bare_bindColumns :
    s.bare (e.bindColumns f) = e.bindColumns fun r => (f r).map s.bare := by
  unfold bare
  split
  · exact Expr.setQualified_bindColumns hf false
  · simp

end Covered

theorem outputLineage_dropQualifiers : s.dropQualifiers.outputLineage = s.outputLineage := by
  simp only [outputLineage, Expr.lineages, selectExprs, columns_dropQualifiers, List.map_map,
    Function.comp_def, lineage_bare]

theorem isTransparent_dropQualifiers : s.dropQualifiers.isTransparent = s.isTransparent := by
  simp [isTransparent, unorderedLineage, sortLineage, Expr.lineages, selectExprs, conditions,
    groupExprs, orderExprs, Option.toList_map, Function.comp_def, lineage_bare, lineage_bareKey]

theorem dropQualifiers_forget (f : σ → τ) :
    (s.forget f).dropQualifiers = s.dropQualifiers.forget f := by
  unfold dropQualifiers
  rw [forget, List.isEmpty_map]
  split
  · rfl
  · rfl

/-- What is asked of the columns before a qualifier is dropped does not depend on theirs. -/
theorem bareKey_dropQualifiers (e : Expr) : s.dropQualifiers.bareKey e = s.bareKey e := by
  have hsame : bindsSameBare s.dropQualifiers.columns e = bindsSameBare s.columns e := by
    simp [bindsSameBare, Function.comp_def, columnRef?_bare]
  rw [bareKey, bareKey, dropQualifiersIfSame, dropQualifiersIfSame, hsame, joins_dropQualifiers]

theorem bareKey_bareKey (e : Expr) : s.bareKey (s.bareKey e) = s.bareKey e := by
  rcases s.bareKey_cases e with h | h
  · rw [h, h]
  · rw [h]
    rcases s.bareKey_cases (s.bare e) with h' | h'
    · exact h'
    · rw [h', bare_bare]

/-- Qualifiers are dropped once and for all. -/
theorem dropQualifiers_dropQualifiers : s.dropQualifiers.dropQualifiers = s.dropQualifiers := by
  have hbare : s.dropQualifiers.bare = s.bare := by
    funext e
    rw [bare, bare, joins_dropQualifiers]
  rw [dropQualifiers_eq s.dropQualifiers, hbare, funext s.bareKey_dropQualifiers]
  simp only [columns_dropQualifiers, filter_dropQualifiers, groupBy_dropQualifiers,
    orderBy_dropQualifiers, List.map_map, Option.map_map, Function.comp_def, bare_bare,
    bareKey_bareKey]
  rw [dropQualifiers_eq s]

/-- A column of a child without qualifiers takes the place of the same references. -/
theorem get?_columnSubstitution_dropQualifiers (name : String) (r : ColumnRef) :
    (columnSubstitution name child.dropQualifiers).get? r =
      ((columnSubstitution name child).get? r).map child.bare := by
  have hlast : child.dropQualifiers.lastColumn? r.column =
      (child.lastColumn? r.column).map fun c => { c with expr := child.bare c.expr } := by
    rw [dropQualifiers_eq, lastColumn?, lastColumn?, ← List.map_reverse, List.find?_map]
    rfl
  rw [get?_columnSubstitution, get?_columnSubstitution, hlast]
  split
  · rw [Option.map_map, Option.map_map]
    rfl
  · rfl

theorem coveredBy_dropQualifiers (name : String) :
    s.coveredBy name (columnSubstitution name child.dropQualifiers) =
      s.coveredBy name (columnSubstitution name child) := by
  simp only [coveredBy, Substitution.contains, get?_columnSubstitution_dropQualifiers,
    Option.isSome_map]

/-- **No condition sees qualifiers.** -/
theorem allowsInlining_dropQualifiers :
    parent.dropQualifiers.allowsInlining child.dropQualifiers = parent.allowsInlining child := by
  have hcovered : parent.dropQualifiers.coveredBy parent.sourceName
      (columnSubstitution parent.sourceName child.dropQualifiers) =
      parent.coveredBy parent.sourceName (columnSubstitution parent.sourceName child) := by
    rw [coveredBy_dropQualifiers, coveredBy, coveredBy, columnRefs_dropQualifiers]
  simp [allowsInlining, limitStaysBelow, groupKeysShown, groupsStayIntact, groupsRows,
    windowsStayIntact, groupsByWindow, windowNames, sharesCteName, Function.comp_def, hcovered,
    isTransparent_dropQualifiers, outputLineage_dropQualifiers, columnRefs_dropQualifiers,
    lineage_bare, lineage_bareKey, columnRef?_bare, List.filter_map]

/-- The conditions for replacing a source do not see qualifiers either. -/
theorem allowsSourceAt_dropQualifiers (place : Nat) (name : String) :
    s.allowsSourceAt place name child.dropQualifiers = s.allowsSourceAt place name child := by
  simp [allowsSourceAt, isPlainProjection, coveredBy_dropQualifiers, outputLineage_dropQualifiers,
    Function.comp_def, columnRef?_bare]

/-! ## Merging statements without qualifiers -/

theorem isSome_nameFor?_iff {columns : List NamedExpr} {e : Expr} :
    (nameFor? columns e).isSome = true ↔ ∃ c ∈ columns, e = c.expr := by
  simp only [nameFor?, Option.isSome_map, List.find?_isSome, decide_eq_true_eq, @eq_comm _ e]

/-- The expression that a sort key stands for. -/
def sortTarget? (e : Expr) : Option Expr :=
  match e.name? with
  | some n => (s.column? n).map NamedExpr.expr
  | none => some e

variable {s parent child}

theorem isSome_inlinedChildOrder?_iff {merged : List NamedExpr} :
    (child.inlinedChildOrder? merged).isSome = true ↔
      ∀ k ∈ child.orderBy, ∃ c ∈ merged, child.sortTarget? k.expr = some c.expr := by
  rw [inlinedChildOrder?, isSome_mapM_iff]
  refine forall₂_congr ?_
  intro k _
  unfold sortTarget?
  cases k.expr.name? with
  | none =>
      simp only [bind_pure_comp, Option.map_eq_map, Option.bind_eq_bind, Option.bind_some,
        Option.isSome_map, isSome_nameFor?_iff, Option.some.injEq]
  | some n =>
      dsimp only
      cases child.column? n with
      | none => simp
      | some d =>
          simp only [bind_pure_comp, Option.map_eq_map, Option.bind_eq_bind, Option.map_some,
            Option.bind_some, Option.isSome_map, isSome_nameFor?_iff, Option.some.injEq]

theorem isSome_inlinedParentOrder?_iff {subst : Substitution} {merged : List NamedExpr} :
    (parent.inlinedParentOrder? subst merged).isSome = true ↔
      ∀ k ∈ parent.orderBy, (∃ n, k.expr.name? = some n ∧ (parent.column? n).isSome = true) ∨
        k.expr.name? = none ∧ ∃ c ∈ merged, k.expr.substitute subst = c.expr := by
  rw [inlinedParentOrder?, isSome_mapM_iff]
  refine forall₂_congr ?_
  intro k _
  cases k.expr.name? with
  | none =>
      simp only [bind_pure_comp, Option.map_eq_map, Option.isSome_map, isSome_nameFor?_iff,
        reduceCtorEq, false_and, exists_false, true_and, false_or]
  | some n =>
      simp only [bind_pure_comp, Option.map_eq_map, Option.isSome_map, reduceCtorEq, false_and,
        or_false, Option.some.injEq, exists_eq_left']

theorem isSome_inlineInto?_iff :
    (parent.inlineInto? child).isSome = true ↔ parent.allowsInlining child = true ∧
      (if parent.orderBy.isEmpty then child.inlinedChildOrder?
          (substituteColumns (columnSubstitution parent.sourceName child) parent.columns)
        else parent.inlinedParentOrder? (columnSubstitution parent.sourceName child)
          (substituteColumns (columnSubstitution parent.sourceName child) parent.columns)).isSome =
        true := by
  unfold inlineInto?
  by_cases hallow : parent.allowsInlining child = true
  · by_cases hempty : parent.orderBy.isEmpty = true
    · simp only [hallow, hempty, if_true, bind_pure_comp, Option.map_eq_map, Option.isSome_map,
        true_and]
    · simp only [hallow, hempty, if_true, if_false, Bool.false_eq_true, bind_pure_comp,
        Option.map_eq_map, Option.isSome_map, true_and]
  · simp [hallow]

variable (s) in
theorem column?_dropQualifiers (n : String) :
    s.dropQualifiers.column? n = (s.column? n).map fun c => { c with expr := s.bare c.expr } := by
  rw [column?, columns_dropQualifiers, List.find?_map]
  rfl

variable (child) in
/-- A sort key without qualifiers stands for the same expression, up to qualifiers. -/
theorem sortTarget?_dropQualifiers (e : Expr) :
    (child.dropQualifiers.sortTarget? (child.bareKey e)).map child.bare =
      (child.sortTarget? e).map child.bare := by
  unfold sortTarget?
  rw [name?_bareKey]
  cases e.name? with
  | none => simp [bare_bareKey]
  | some n => simp [column?_dropQualifiers, Function.comp_def, bare_bare]

theorem covered_of_allowsInlining (h : parent.allowsInlining child = true) {e : Expr}
    (he : e ∈ parent.exprs) : ∀ r ∈ e.lineage.columns,
      ((columnSubstitution parent.sourceName child).get? r).isSome = true := by
  simp only [allowsInlining, coveredBy, Bool.and_eq_true, List.all_eq_true, Bool.or_eq_true,
    bne_iff_ne, beq_iff_eq] at h
  intro r hr
  have hread := mem_columnRefs_of_mem_exprs he hr
  exact (h.1.2 r hread).resolve_left fun hne => hne (h.2 r hread)

/-- Columns of a child without qualifiers give the same replacements, up to qualifiers. -/
theorem substitute_dropQualifiers {name : String} {e : Expr}
    (hcovered : ∀ r ∈ e.lineage.columns, ((columnSubstitution name child).get? r).isSome = true) :
    e.substitute (columnSubstitution name child.dropQualifiers) =
      child.bare (e.substitute (columnSubstitution name child)) := by
  rw [Expr.substitute, funext (get?_columnSubstitution_dropQualifiers child name), Expr.substitute,
    bare_bindColumns child hcovered]

/-- All columns in the expressions of a statement are written with their source. -/
def IsQualified (s : Select σ) : Prop :=
  ∀ e ∈ s.exprs, e.IsQualified

theorem IsQualified.forget (hs : s.IsQualified) (f : σ → τ) : (s.forget f).IsQualified := by
  rw [IsQualified, exprs_forget]
  exact hs

theorem IsQualified.of_sortTarget? (hs : s.IsQualified) {k : SortKey Expr} (hk : k ∈ s.orderBy)
    {target : Expr} (h : s.sortTarget? k.expr = some target) : target.IsQualified := by
  unfold sortTarget? at h
  split at h
  · rcases Option.map_eq_some_iff.1 h with ⟨c, hc, rfl⟩
    exact hs _ (mem_exprs.2 (.inl (List.mem_map_of_mem (List.mem_of_find?_eq_some hc))))
  · cases h
    exact hs _ (mem_exprs.2 (.inr (.inr (.inr (.inr (List.mem_map_of_mem hk))))))

theorem IsQualified.substitute (hchild : child.IsQualified) {e : Expr} (he : e.IsQualified)
    (name : String) : (e.substitute (columnSubstitution name child)).IsQualified := by
  refine Expr.IsQualified.bindColumns ?_ he
  intro r d hd
  rcases mem_of_get?_columnSubstitution hd with ⟨c, hc, -, rfl⟩
  exact hchild _ (mem_exprs.2 (.inl (List.mem_map_of_mem hc)))

section Inlining

variable (hparent : parent.IsQualified) (hchild : child.IsQualified)
  (hallow : parent.allowsInlining child = true)

include hallow

/-- What an expression of the parent becomes, if qualifiers have been dropped in the child. -/
theorem bindColumns_dropQualifiers {e : Expr} (he : e ∈ parent.exprs) :
    e.bindColumns (columnSubstitution parent.sourceName child.dropQualifiers).get? =
        child.bare (e.substitute (columnSubstitution parent.sourceName child)) ∧
      ∀ r ∈ e.lineage.columns,
        ((columnSubstitution parent.sourceName child.dropQualifiers).get? r).isSome = true := by
  have hcovered := covered_of_allowsInlining hallow he
  refine ⟨substitute_dropQualifiers hcovered, ?_⟩
  intro r hr
  rw [get?_columnSubstitution_dropQualifiers, Option.isSome_map]
  exact hcovered r hr

include hparent hchild

/-- The columns of the merged statement are the same up to qualifiers. -/
theorem exists_column_of_dropQualifiers {c' : NamedExpr}
    (hc' : c' ∈ substituteColumns (columnSubstitution parent.sourceName child.dropQualifiers)
      parent.dropQualifiers.columns) :
    ∃ c ∈ substituteColumns (columnSubstitution parent.sourceName child) parent.columns,
      c.expr.IsQualified ∧ c'.expr = child.bare c.expr := by
  rw [substituteColumns, columns_dropQualifiers, List.map_map] at hc'
  rcases List.mem_map.1 hc' with ⟨c, hc, rfl⟩
  have hexpr : c.expr ∈ parent.exprs := mem_exprs.2 (.inl (List.mem_map_of_mem hc))
  rcases bindColumns_dropQualifiers hallow hexpr with ⟨hbare, hcovered⟩
  refine ⟨_, List.mem_map_of_mem hc, hchild.substitute (hparent _ hexpr) _, ?_⟩
  exact (bindColumns_bare parent hcovered).trans hbare

/-- A sort key of the child that is found without qualifiers is found with them. -/
theorem isSome_inlinedChildOrder?_of_dropQualifiers
    (h : (child.dropQualifiers.inlinedChildOrder? (substituteColumns
      (columnSubstitution parent.sourceName child.dropQualifiers)
      parent.dropQualifiers.columns)).isSome = true) :
    (child.inlinedChildOrder? (substituteColumns (columnSubstitution parent.sourceName child)
      parent.columns)).isSome = true := by
  rw [isSome_inlinedChildOrder?_iff, orderBy_dropQualifiers, List.forall_mem_map] at h
  rw [isSome_inlinedChildOrder?_iff]
  intro k hk
  rcases h k hk with ⟨c', hc', htarget'⟩
  rcases exists_column_of_dropQualifiers hparent hchild hallow hc' with ⟨c, hc, hqualified, hbare⟩
  have htarget := child.sortTarget?_dropQualifiers k.expr
  rw [htarget', Option.map_some, hbare, bare_bare] at htarget
  rcases Option.map_eq_some_iff.1 htarget.symm with ⟨target, hsome, hsame⟩
  refine ⟨c, hc, ?_⟩
  rw [hsome, eq_of_bare (hchild.of_sortTarget? hk hsome) hqualified hsame]

/-- A sort key of the parent that is found without qualifiers is found with them. -/
theorem isSome_inlinedParentOrder?_of_dropQualifiers
    (h : (parent.dropQualifiers.inlinedParentOrder?
      (columnSubstitution parent.sourceName child.dropQualifiers) (substituteColumns
        (columnSubstitution parent.sourceName child.dropQualifiers)
        parent.dropQualifiers.columns)).isSome = true) :
    (parent.inlinedParentOrder? (columnSubstitution parent.sourceName child) (substituteColumns
      (columnSubstitution parent.sourceName child) parent.columns)).isSome = true := by
  rw [isSome_inlinedParentOrder?_iff, orderBy_dropQualifiers, List.forall_mem_map] at h
  rw [isSome_inlinedParentOrder?_iff]
  intro k hk
  refine (h k hk).imp ?_ ?_
  · rintro ⟨n, hname, hfound⟩
    rw [name?_bareKey] at hname
    rw [column?_dropQualifiers, Option.isSome_map] at hfound
    exact ⟨n, hname, hfound⟩
  · rintro ⟨hname, c', hc', htarget⟩
    rw [name?_bareKey] at hname
    rcases exists_column_of_dropQualifiers hparent hchild hallow hc' with
      ⟨c, hc, hqualified, hbare⟩
    have hexpr : k.expr ∈ parent.exprs :=
      mem_exprs.2 (.inr (.inr (.inr (.inr (List.mem_map_of_mem hk)))))
    rcases bindColumns_dropQualifiers hallow hexpr with ⟨hkey, hcovered⟩
    have hsame : child.bare (k.expr.substitute (columnSubstitution parent.sourceName child)) =
        child.bare c.expr := by
      rw [← hkey, ← bindColumns_bareKey parent hcovered, ← hbare]
      exact htarget
    exact ⟨hname, c, hc, eq_of_bare (hchild.substitute (hparent _ hexpr) _) hqualified hsame⟩

end Inlining

/-- **Dropping qualifiers does not make inlining possible.** -/
theorem isSome_inlineInto?_of_dropQualifiers (hparent : parent.IsQualified)
    (hchild : child.IsQualified)
    (h : (parent.dropQualifiers.inlineInto? child.dropQualifiers).isSome = true) :
    (parent.inlineInto? child).isSome = true := by
  have hempty : parent.dropQualifiers.orderBy.isEmpty = parent.orderBy.isEmpty := by simp
  rw [isSome_inlineInto?_iff, allowsInlining_dropQualifiers, sourceName_dropQualifiers, hempty] at h
  rw [isSome_inlineInto?_iff]
  rcases h with ⟨hallow, horder⟩
  refine ⟨hallow, ?_⟩
  split at horder
  case isTrue hnil =>
    rw [if_pos hnil]
    exact isSome_inlinedChildOrder?_of_dropQualifiers hparent hchild hallow horder
  case isFalse hnil =>
    rw [if_neg hnil]
    exact isSome_inlinedParentOrder?_of_dropQualifiers hparent hchild hallow horder

end Select

/-! ## Plans in which all columns are qualified -/

/-- If the node is a statement, its columns are written with their source. -/
def Node.IsQualified : Node → Prop
  | .select s => s.IsQualified
  | _ => True

instance : DecidablePred Node.IsQualified
  | .select s => inferInstanceAs (Decidable (∀ e ∈ s.exprs, e.IsQualified))
  | .table .. | .text .. | .cte _ | .createTable .. => inferInstanceAs (Decidable True)

theorem Node.isQualified_of_not_select {n : Node} (h : n.isSelect = false) : n.IsQualified := by
  cases n with
  | select s => cases h
  | table | text | cte | createTable => trivial

/-- **A merging step keeps columns qualified.** -/
theorem MergeStep.isQualified {s merged : Statement} (hstep : MergeStep s merged)
    (h : (Node.select s).Everywhere Node.IsQualified) : merged.IsQualified := by
  have hs : s.IsQualified := h.self
  have hbelow : ∀ child, .select child ∈ (Node.select s).parents → child.IsQualified :=
    fun child hchild => h _ (Node.mem_subnodes_of_mem_parents hchild)
  intro e he
  cases hstep with
  | project hsource hproject =>
      rcases hproject.exprs_cases he with hchild | ⟨n, rfl⟩
      · exact hbelow _ (Select.child_mem_parents hsource) e hchild
      · exact Expr.isQualified_name n
  | inline _ hsource hinline =>
      have hchild := hbelow _ (Select.child_mem_parents hsource)
      rcases hinline.exprs_cases he with hmem | ⟨d, hd, rfl⟩ | hfilter | ⟨n, rfl⟩
      · exact hchild e hmem
      · exact hchild.substitute (hs d hd) _
      · refine Expr.IsQualified.conjoin hfilter ?_ ?_
        · intro d hd
          exact hchild d (Select.mem_exprs.2 (.inr (.inr (.inl hd))))
        · intro d hd
          rcases Option.map_eq_some_iff.1 hd with ⟨d₀, hd₀, rfl⟩
          exact hchild.substitute (hs d₀ (Select.mem_exprs.2 (.inr (.inr (.inl hd₀))))) _
      · exact Expr.isQualified_name n
  | replace hreplace =>
      rw [hreplace.exprs] at he
      rcases List.mem_map.1 he with ⟨d, hd, rfl⟩
      exact (hbelow _ hreplace.child_mem_parents).substitute (hs d hd) _

namespace Rebuilder

variable {r : Rebuilder} {plan : Node} {done : Std.TreeMap NodeId Node}

theorem Prepares.isQualified {s s₀ : Statement} (h : r.Prepares done s s₀) (hs : s.IsQualified)
    (hcolumns : ∀ c ∈ s₀.columns, c ∈ s.columns) : s₀.IsQualified := by
  intro e he
  refine hs e (Select.mem_exprs.2 ((h.mem_exprs_iff.1 he).imp ?_ id))
  intro hselect
  rcases List.mem_map.1 hselect with ⟨c, hc, rfl⟩
  exact List.mem_map_of_mem (hcolumns c hc)

/-- Merging keeps columns qualified. -/
theorem keepsQualified_of_stepwise {rule : MergeRule} (hrule : rule.Stepwise) (rounds : Nat)
    (hplan : plan.Everywhere Node.IsQualified) :
    (rule.rebuilder rounds).Keeps Node.IsQualified plan done where
  other _ _ hselect _ hforms :=
    Node.isQualified_of_not_select (hforms.isSelect_eq.trans hselect)
  prepared s hs s₀ h := by
    refine h.isQualified (hplan _ hs) ?_
    rw [(rewrites_of_stepwise hrule rounds).columns_eq h]
    exact fun _ hc => hc
  finished s₀ h := by
    have hseries := hrule.reflTransGen_exhaust rounds s₀
    exact (Select.everywhere_of_series MergeStep.readsBelow MergeStep.isQualified hseries h).self

end Rebuilder

/-- Pruning keeps columns qualified. -/
theorem Pruning.keepsQualified {required : Requirements} {plan : Node}
    {done : Std.TreeMap NodeId Node} (hplan : plan.Everywhere Node.IsQualified) :
    (Pruning.rebuilder required).Keeps Node.IsQualified plan done where
  other _ _ hselect _ hforms :=
    Node.isQualified_of_not_select (hforms.isSelect_eq.trans hselect)
  prepared s hs s₀ h := by
    refine h.isQualified (hplan _ hs) ?_
    rw [(Pruning.columns_eq_ok_iff.1 h.columns).2.2]
    exact fun _ hc => (Pruning.mem_kept.1 hc).1
  finished _ h := h.self

end QueryPlan
