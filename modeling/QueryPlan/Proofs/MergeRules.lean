import QueryPlan.Merge
import QueryPlan.Proofs.Lists
import QueryPlan.Proofs.Substitution

/-!
# What the merging rules do, once they apply

The rules are partial functions with long lists of conditions.  Here each is turned into a structure,
once: if a rule gives a statement, then the conditions hold and the clauses of the statement are
known.  Everything else about a rule is derived from its structure.

* `Select.Inlines parent child merged` — what `inlineInto?` guarantees (`inlines_of_inlineInto?`).
* `Select.Projects parent child merged` — what `projectOnto?` guarantees
  (`projects_of_projectOnto?`).
* `Select.Replaces s place name child merged` — what `replaceSource?` guarantees
  (`replaces_of_replaceSource?`).
-/

namespace QueryPlan

/-! ## Columns and their names -/

theorem nameFor?_eq_some {columns : List NamedExpr} {e : Expr} {n : String}
    (h : nameFor? columns e = some n) : ∃ c ∈ columns, c.expr = e ∧ c.name = n := by
  obtain ⟨c, hc, hn⟩ := Option.map_eq_some_iff.1 h
  exact ⟨c, List.mem_of_find?_eq_some hc, by simpa using List.find?_some hc, hn⟩

theorem Expr.eq_name_of_name? {e : Expr} {n : String} (h : e.name? = some n) : e = .name n := by
  cases e <;> simp_all [Expr.name?]

namespace Select

variable {σ : Type} {parent child merged : Select σ}

theorem columnNames_substituteColumns (subst : Substitution) (columns : List NamedExpr) :
    (substituteColumns subst columns).map NamedExpr.name = columns.map NamedExpr.name := by
  rw [substituteColumns, List.map_map]
  rfl

/-- Renaming columns keeps their expressions. -/
theorem map_expr_zipWith {R : NamedExpr → NamedExpr → Prop} {cs ds : List NamedExpr}
    (h : List.Forall₂ R cs ds) :
    (List.zipWith (fun c d : NamedExpr => { d with name := c.name }) cs ds).map NamedExpr.expr =
      ds.map NamedExpr.expr :=
  map_zipWith_right_of_forall₂ h fun _ _ _ => rfl

/-- Columns that are shown under other names have these names. -/
theorem map_name_zipWith {R : NamedExpr → NamedExpr → Prop} {cs ds : List NamedExpr}
    (h : List.Forall₂ R cs ds) :
    (List.zipWith (fun c d : NamedExpr => { d with name := c.name }) cs ds).map NamedExpr.name =
      cs.map NamedExpr.name :=
  map_zipWith_of_forall₂ h fun _ _ _ => rfl

theorem lineage_of_columnRef? {e : Expr} {r : ColumnRef} (h : e.columnRef? = some r) :
    e.lineage = { columns := [r] } := by
  cases e <;> simp [Expr.columnRef?] at h
  rw [← h]
  rfl

theorem shownColumn?_eq_some {c d : NamedExpr} :
    parent.shownColumn? child c = some d ↔
      ∃ r, c.expr.columnRef? = some r ∧ r.table = parent.sourceName ∧
        child.column? r.column = some d := by
  unfold shownColumn?
  cases c.expr.columnRef? with
  | none => simp
  | some r => by_cases htable : r.table = parent.sourceName <;> simp [htable]

/-! ## The columns of a child -/

/-- The last column put out under a name. -/
def lastColumn? (s : Select σ) (name : String) : Option NamedExpr :=
  s.columns.reverse.find? fun c => c.name == name

theorem lookup_columnRef (sourceName : String) (r : ColumnRef) : ∀ columns : List NamedExpr,
    (columns.map fun c => ((⟨sourceName, c.name⟩ : ColumnRef), c.expr)).lookup r =
      if r.table = sourceName then
        (columns.find? fun c => c.name == r.column).map NamedExpr.expr
      else none
  | [] => by simp
  | c :: columns => by
      rw [List.map_cons, List.lookup_cons, lookup_columnRef sourceName r columns]
      obtain ⟨table, column⟩ := r
      by_cases htable : table = sourceName
      · subst htable
        by_cases hname : column = c.name
        · simp [hname]
        · have hne : ((⟨table, column⟩ : ColumnRef) == ⟨table, c.name⟩) = false := by simp [hname]
          rw [hne, List.find?_cons_of_neg (by simpa using Ne.symm hname)]
      · have hne : ((⟨table, column⟩ : ColumnRef) == ⟨sourceName, c.name⟩) = false := by
          simp [htable]
        rw [hne]
        simp [htable]

/-- A reference to a child is replaced by the last column of its name. -/
theorem get?_columnSubstitution (sourceName : String) (child : Select σ) (r : ColumnRef) :
    (columnSubstitution sourceName child).get? r =
      if r.table = sourceName then (child.lastColumn? r.column).map NamedExpr.expr else none := by
  rw [columnSubstitution, Substitution.get?_ofList, ← List.map_reverse, lookup_columnRef,
    lastColumn?]

theorem mem_of_lastColumn? {s : Select σ} {n : String} {d : NamedExpr}
    (h : s.lastColumn? n = some d) : d ∈ s.columns :=
  List.mem_reverse.1 (List.mem_of_find?_eq_some h)

/-- Replacements come from the child's columns. -/
theorem mem_of_get?_columnSubstitution {sourceName : String} {r : ColumnRef} {e : Expr}
    (h : (columnSubstitution sourceName child).get? r = some e) :
    ∃ c ∈ child.columns, r.column = c.name ∧ e = c.expr := by
  rw [get?_columnSubstitution] at h
  split at h
  · obtain ⟨c, hc, rfl⟩ := Option.map_eq_some_iff.1 h
    have hname : c.name = r.column := by simpa using List.find?_some hc
    exact ⟨c, List.mem_reverse.1 (List.mem_of_find?_eq_some hc), hname.symm, rfl⟩
  · simp at h

/-! ## What is read -/

theorem mem_exprs {s : Select σ} {e : Expr} : e ∈ s.exprs ↔ e ∈ s.selectExprs ∨ e ∈ s.conditions ∨
    s.filter = some e ∨ e ∈ s.groupExprs ∨ e ∈ s.orderExprs := by
  simp only [exprs, List.mem_append, Option.mem_toList, or_assoc]

theorem mem_columnRefs_of_mem_exprs {s : Select σ} {e : Expr} (he : e ∈ s.exprs) {r : ColumnRef}
    (hr : r ∈ e.lineage.columns) : r ∈ s.columnRefs :=
  List.mem_flatMap.2 ⟨e, he, hr⟩

/-- With the columns of a child put in place of the references to it, an expression reads what the
child reads, and what has not been replaced. -/
theorem mem_columns_substitute {name : String} {e : Expr} {r' : ColumnRef}
    (hr' : r' ∈ (e.substitute (columnSubstitution name child)).lineage.columns) :
    ∃ r ∈ e.lineage.columns, (r' = r ∧ (columnSubstitution name child).get? r = none) ∨
      (r.table = name ∧ r' ∈ child.columnRefs) := by
  rw [Expr.substitute, Expr.lineage_columns_bindColumns] at hr'
  rcases List.mem_flatMap.1 hr' with ⟨r, hr, hbound⟩
  refine ⟨r, hr, ?_⟩
  rw [Expr.boundColumns] at hbound
  cases hget : (columnSubstitution name child).get? r with
  | none =>
      rw [hget] at hbound
      exact .inl ⟨List.mem_singleton.1 hbound, rfl⟩
  | some d =>
      rw [hget] at hbound
      rcases mem_of_get?_columnSubstitution hget with ⟨c, hc, -, rfl⟩
      have htable : r.table = name := by
        by_contra hne
        rw [get?_columnSubstitution, if_neg hne] at hget
        cases hget
      exact .inr ⟨htable,
        mem_columnRefs_of_mem_exprs (mem_exprs.2 (.inl (List.mem_map_of_mem hc))) hbound⟩

/-- If the child's columns hold none of what is collected, neither does what takes their place. -/
theorem lineage_part_substitute {α : Type} {part : Lineage → List α}
    (hpart : ∀ ls, part (.combine ls) = ls.flatMap part)
    (hcolumn : ∀ r, part { columns := [r] } = [])
    (hchild : ∀ c ∈ child.columns, part c.expr.lineage = []) (name : String) (e : Expr) :
    part (e.substitute (columnSubstitution name child)).lineage = part e.lineage := by
  refine Expr.lineage_part_bindColumns_of_nil _ hpart hcolumn e ?_
  intro r _ d hget
  rcases mem_of_get?_columnSubstitution hget with ⟨c, hc, -, rfl⟩
  exact hchild c hc

/-- Names without a source occur in sort keys only. -/
def Unnamed (s : Select σ) : Prop :=
  ∀ e ∈ s.selectExprs ++ s.conditions ++ s.filter.toList ++ s.groupExprs, e.lineage.names = []

theorem unnamed_of_isTransparent {s : Select σ} (h : s.isTransparent = true) : s.Unnamed := by
  simp only [isTransparent, unorderedLineage, Bool.and_eq_true, List.isEmpty_iff] at h
  intro e he
  refine List.eq_nil_iff_forall_not_mem.2 ?_
  intro n hn
  have hall := Expr.mem_lineages_names.2 ⟨e, he, hn⟩
  rw [h.1.2] at hall
  cases hall

/-! ## Inlining -/

/-- A statement that is its child with the columns of the parent inlined. -/
structure Inlines (parent child merged : Select σ) : Prop where
  id : merged.id = parent.id
  parent_transparent : parent.isTransparent = true
  child_transparent : child.isTransparent = true
  child_not_distinct : child.distinct = false
  one_order : parent.orderBy = [] ∨ child.orderBy = []
  one_grouping : parent.groupBy = [] ∨ child.groupBy = []
  ctes_apart : parent.sharesCteName child = false
  limit_below : parent.limitStaysBelow child = true
  keys_shown : parent.groupKeysShown child = true
  groups_intact : parent.groupsStayIntact child = true
  windows_intact : parent.windowsStayIntact child = true
  groups_no_raws : parent.groupBy = [] ∨ child.outputLineage.raws = []
  covered : ∀ r ∈ parent.columnRefs,
    ∃ e, (columnSubstitution parent.sourceName child).get? r = some e
  own_columns : ∀ r ∈ parent.columnRefs, r.table = parent.sourceName
  columns : merged.columns =
    substituteColumns (columnSubstitution parent.sourceName child) parent.columns
  order :
    (if parent.orderBy.isEmpty then child.inlinedChildOrder? merged.columns
      else parent.inlinedParentOrder? (columnSubstitution parent.sourceName child)
        merged.columns) = some merged.orderBy
  groupBy : merged.groupBy =
    if parent.groupBy.isEmpty then relabelGroupBy child.groupBy merged.columns
    else substituteColumns (columnSubstitution parent.sourceName child) parent.groupBy
  filter : merged.filter = Expr.conjoin child.filter
    (parent.filter.map (Expr.substitute (columnSubstitution parent.sourceName child)))
  limit : merged.limit = tighterLimit parent.limit child.limit
  distinct : merged.distinct = parent.distinct
  sources : merged.source = child.source ∧ merged.sourceName = child.sourceName ∧
    merged.joins = child.joins
  ctes : merged.ctes = parent.ctes ++ child.ctes

/-- What is merged by inlining is as `Inlines` says. -/
theorem inlines_of_inlineInto? (h : parent.inlineInto? child = some merged) :
    Inlines parent child merged := by
  unfold inlineInto? at h
  split at h
  case isFalse => simp at h
  case isTrue hallow =>
    simp only [Option.bind_eq_bind, Option.pure_def] at h
    rw [← apply_ite fun order : Option (List (SortKey Expr)) => order.bind _] at h
    obtain ⟨orderBy, horder, heq⟩ := Option.bind_eq_some_iff.1 h
    simp only [allowsInlining, coveredBy, Bool.and_eq_true, Bool.or_eq_true, Bool.not_eq_true',
      List.all_eq_true, List.isEmpty_iff, bne_iff_ne, ne_eq, beq_iff_eq] at hallow
    obtain ⟨⟨⟨⟨⟨⟨⟨⟨⟨⟨⟨⟨hp, hc⟩, hd⟩, ho⟩, hg⟩, hct⟩, hl⟩, hk⟩, hgi⟩, hw⟩, hr⟩, hcov⟩, hown⟩ :=
      hallow
    simp only [Option.some.injEq] at heq
    subst heq
    refine
      { id := rfl, parent_transparent := hp, child_transparent := hc, child_not_distinct := hd
        one_order := ho, one_grouping := hg, ctes_apart := hct, limit_below := hl, keys_shown := hk
        groups_intact := hgi, windows_intact := hw, groups_no_raws := hr
        covered := fun r hmem => ?_, own_columns := hown
        columns := rfl, order := horder, groupBy := rfl, filter := rfl, limit := rfl
        distinct := rfl, sources := ⟨rfl, rfl, rfl⟩, ctes := rfl }
    exact Option.isSome_iff_exists.1 ((hcov r hmem).resolve_left (fun hne => hne (hown r hmem)))

theorem columnNames_merged (h : Inlines parent child merged) :
    merged.columnNames = parent.columnNames := by
  rw [columnNames, h.columns, columnNames_substituteColumns]
  rfl

/-- Sort keys of the parent become output names: a name stays, and any other key is the name of a
column that computes it. -/
theorem order_of_parent (h : Inlines parent child merged) (horder : parent.orderBy ≠ []) :
    List.Forall₂ (fun k k' => ∃ n ∈ merged.columnNames, k' = { k with expr := .name n } ∧
        (k.expr = .name n ∨ ∃ c ∈ merged.columns, c.name = n ∧
          c.expr = k.expr.substitute (columnSubstitution parent.sourceName child)))
      parent.orderBy merged.orderBy := by
  have hmap := h.order
  rw [if_neg (by simpa using horder)] at hmap
  refine (forall₂_of_mapM_eq_some hmap).imp ?_
  intro k k' hk
  cases hname : k.expr.name? with
  | some u =>
      simp only [hname, Option.bind_eq_bind, Option.bind_eq_some_iff, Option.map_eq_some_iff,
        Option.pure_def, Option.some.injEq] at hk
      rcases hk with ⟨_, ⟨c, hc, rfl⟩, rfl⟩
      have hcu : c.name = u := by simpa using List.find?_some hc
      refine ⟨c.name, ?_, rfl, .inl (hcu ▸ Expr.eq_name_of_name? hname)⟩
      exact columnNames_merged h ▸ List.mem_map_of_mem (List.mem_of_find?_eq_some hc)
  | none =>
      simp only [hname, Option.bind_eq_bind, Option.bind_eq_some_iff, Option.pure_def,
        Option.some.injEq] at hk
      rcases hk with ⟨_, hn, rfl⟩
      rcases nameFor?_eq_some hn with ⟨c, hc, hexpr, rfl⟩
      exact ⟨c.name, List.mem_map_of_mem hc, rfl, .inr ⟨c, hc, rfl, hexpr⟩⟩

/-- Sort keys of the child become the names of columns that compute them, or compute the columns of
the child that they name. -/
theorem order_of_child (h : Inlines parent child merged) (horder : parent.orderBy = []) :
    List.Forall₂ (fun k k' => ∃ c ∈ merged.columns, k' = { k with expr := .name c.name } ∧
        (k.expr = c.expr ∨ ∃ n d, k.expr = .name n ∧ child.column? n = some d ∧ d.expr = c.expr))
      child.orderBy merged.orderBy := by
  have hmap := h.order
  rw [if_pos (by simp [horder])] at hmap
  refine (forall₂_of_mapM_eq_some hmap).imp ?_
  intro k k' hk
  cases hname : k.expr.name? with
  | some u =>
      simp only [hname, Option.bind_eq_bind, Option.bind_eq_some_iff, Option.map_eq_some_iff,
        Option.pure_def, Option.some.injEq] at hk
      rcases hk with ⟨_, ⟨d, hd, rfl⟩, _, hn, rfl⟩
      rcases nameFor?_eq_some hn with ⟨c, hc, hexpr, rfl⟩
      exact ⟨c, hc, rfl, .inr ⟨u, d, Expr.eq_name_of_name? hname, hd, hexpr.symm⟩⟩
  | none =>
      simp only [hname, Option.bind_eq_bind, Option.bind_some, Option.bind_eq_some_iff,
        Option.pure_def, Option.some.injEq] at hk
      rcases hk with ⟨_, hn, rfl⟩
      rcases nameFor?_eq_some hn with ⟨c, hc, hexpr, rfl⟩
      exact ⟨c, hc, rfl, .inl hexpr.symm⟩

/-- The sort keys of a merged statement are names of its columns. -/
theorem mem_columnNames_of_order (h : Inlines parent child merged) :
    ∀ k ∈ merged.orderBy, ∃ n ∈ merged.columnNames, k.expr = .name n := by
  intro k hk
  by_cases horder : parent.orderBy = []
  · rcases exists_left_of_forall₂ (order_of_child h horder) k hk with ⟨_, -, c, hc, rfl, -⟩
    exact ⟨c.name, List.mem_map_of_mem hc, rfl⟩
  · rcases exists_left_of_forall₂ (order_of_parent h horder) k hk with ⟨_, -, n, hn, rfl, -⟩
    exact ⟨n, hn, rfl⟩

/-- The sort keys of a merged statement are output names. -/
theorem orderBy_names (h : Inlines parent child merged) :
    ∀ k ∈ merged.orderBy, ∃ n, k.expr = .name n := by
  intro k hk
  rcases mem_columnNames_of_order h k hk with ⟨n, -, hn⟩
  exact ⟨n, hn⟩

/-! ## Projection -/

/-- A statement that is its child with the select list, order and limit of the parent. -/
structure Projects (parent child merged : Select σ) : Prop where
  id : merged.id = parent.id
  is_projection : parent.isProjection = true
  parent_transparent : parent.isTransparent = true
  child_transparent : child.isTransparent = true
  child_order_unnamed : child.sortLineage.names = []
  ctes_apart : parent.sharesCteName child = false
  /-- The columns of the child that are shown, and what follows from showing them. -/
  shown : ∃ shown, parent.columns.mapM (parent.shownColumn? child) = some shown ∧
    child.survives (shown.map NamedExpr.name) = true ∧
    merged.columns =
      List.zipWith (fun c d : NamedExpr => { d with name := c.name }) parent.columns shown
  order : parent.projectedOrder? child = some merged.orderBy
  groupBy : merged.groupBy = relabelGroupBy child.groupBy merged.columns
  filter : merged.filter = child.filter
  limit : merged.limit = tighterLimit parent.limit child.limit
  distinct : merged.distinct = child.distinct
  sources : merged.source = child.source ∧ merged.sourceName = child.sourceName ∧
    merged.joins = child.joins
  ctes : merged.ctes = parent.ctes ++ child.ctes

/-- What is merged as a projection is as `Projects` says. -/
theorem projects_of_projectOnto? (h : parent.projectOnto? child = some merged) :
    Projects parent child merged := by
  unfold projectOnto? at h
  split at h
  case isFalse => simp at h
  case isTrue hallow =>
    obtain ⟨shown, hshown, h⟩ := Option.bind_eq_some_iff.1 h
    split at h
    case isFalse => simp at h
    case isTrue hsurvives =>
      obtain ⟨orderBy, horder, heq⟩ := Option.bind_eq_some_iff.1 h
      simp only [allowsProjection, Bool.and_eq_true, Bool.not_eq_true', List.isEmpty_iff] at hallow
      obtain ⟨⟨⟨⟨hproj, hp⟩, hc⟩, hnames⟩, hct⟩ := hallow
      simp only [Option.pure_def, Option.some.injEq] at heq
      subst heq
      exact
        { id := rfl, is_projection := hproj, parent_transparent := hp, child_transparent := hc
          child_order_unnamed := hnames, ctes_apart := hct
          shown := ⟨shown, hshown, hsurvives, rfl⟩, order := horder, groupBy := rfl, filter := rfl
          limit := rfl, distinct := rfl, sources := ⟨rfl, rfl, rfl⟩, ctes := rfl }

/-! ## Replacing a source -/

/-- A statement that computes columns from the rows of one relation, one row at a time, and does
nothing else. -/
structure IsPlain (s : Select σ) : Prop where
  joins : s.joins = []
  filter : s.filter = none
  groupBy : s.groupBy = []
  orderBy : s.orderBy = []
  limit : s.limit = none
  distinct : s.distinct = false
  ctes : s.ctes = []
  aggregate : ∀ c ∈ s.columns, c.expr.lineage.aggregate = false
  window : ∀ c ∈ s.columns, c.expr.lineage.window = false
  raws : ∀ c ∈ s.columns, c.expr.lineage.raws = []
  names : ∀ c ∈ s.columns, c.expr.lineage.names = []

theorem isPlain_of_isPlainProjection {s : Select σ} (h : s.isPlainProjection = true) :
    s.IsPlain := by
  simp only [isPlainProjection, outputLineage, Expr.lineages, Lineage.combine_aggregate,
    Lineage.combine_window, Lineage.combine_raws, Lineage.combine_names, selectExprs,
    List.map_map, Bool.and_eq_true, Bool.not_eq_true', List.isEmpty_iff, Option.isNone_iff_eq_none,
    List.any_eq_false, List.flatMap_eq_nil_iff, List.forall_mem_map, Function.comp_apply,
    Bool.not_eq_true] at h
  rcases h with
    ⟨⟨⟨⟨⟨⟨⟨⟨⟨⟨hjoins, hfilter⟩, hgroup⟩, horder⟩, hlimit⟩, hdistinct⟩, hctes⟩, hagg⟩, hwin⟩, hraws⟩,
      hnames⟩
  exact ⟨hjoins, hfilter, hgroup, horder, hlimit, hdistinct, hctes, hagg, hwin, hraws, hnames⟩

end Select

/-- A statement in which the child at a place has been replaced by the relation that it projects. -/
structure Select.Replaces (s : Statement) (place : Nat) (name : String) (child merged : Statement) :
    Prop where
  source_at : s.sources[place]? = some (name, .select child)
  plain : child.isPlainProjection = true
  null_filled : s.nullFilled place = true → ∀ c ∈ child.columns, ∃ r, c.expr.columnRef? = some r
  name_free : child.sourceName ∉ s.sourceNames.eraseIdx place
  covered : ∀ r ∈ s.columnRefs, r.table = name →
    ∃ e, (Select.columnSubstitution name child).get? r = some e
  merged : merged = (s.substitute (Select.columnSubstitution name child)).setSource place
    child.source child.sourceName

/-- What is made of a statement by replacing a source is as `Replaces` says. -/
theorem Select.replaces_of_replaceSource? {s merged : Statement} {place : Nat}
    (h : s.replaceSource? place = some merged) : ∃ name child, s.Replaces place name child merged := by
  rcases Option.bind_eq_some_iff.1 h with ⟨⟨name, source⟩, hplace, hrest⟩
  rcases Option.bind_eq_some_iff.1 hrest with ⟨child, hchild, hif⟩
  have hsource : source = .select child := by
    cases source <;> simp_all [Node.select?]
  subst hsource
  by_cases hallow : s.allowsSourceAt place name child = true
  · rw [if_pos hallow] at hif
    simp only [allowsSourceAt, namedElsewhere, coveredBy, Bool.and_eq_true, Bool.or_eq_true,
      Bool.not_eq_true', List.all_eq_true, Option.isSome_iff_exists, List.contains_eq_mem,
      decide_eq_false_iff_not, bne_iff_ne] at hallow
    rcases hallow with ⟨⟨⟨hplain, hnull⟩, hfree⟩, hcovered⟩
    refine ⟨name, child, hplace, hplain, ?_, hfree, ?_, (Option.some.inj hif).symm⟩
    · intro hfilled
      exact hnull.resolve_left (by simp [hfilled])
    · intro r hr htable
      exact Option.isSome_iff_exists.1 ((hcovered r hr).resolve_left fun hne => hne htable)
  · rw [if_neg hallow] at hif
    cases hif

/-- A series of replacements skips the first place, or replaces the source there and may go on. -/
theorem Select.replaceSources?_cons {s merged : Statement} {place : Nat} {places : List Nat}
    (h : Select.replaceSources? (place :: places) s = some merged) :
    Select.replaceSources? places s = some merged ∨
      ∃ name child t, s.Replaces place name child t ∧
        (merged = t ∨ Select.replaceSources? places t = some merged) := by
  rw [Select.replaceSources?] at h
  split at h
  case h_1 t ht =>
    rcases Select.replaces_of_replaceSource? ht with ⟨name, child, hreplaces⟩
    refine .inr ⟨name, child, t, hreplaces, ?_⟩
    cases hrest : Select.replaceSources? places t with
    | none =>
        rw [hrest, Option.getD_none, Option.some.injEq] at h
        exact .inl h.symm
    | some last =>
        rw [hrest, Option.getD_some] at h
        exact .inr h
  case h_2 => exact .inl h

namespace Select

section Places

variable {σ : Type} (s : Select σ)

theorem sourceNames_eq_map : s.sourceNames = s.sources.map Prod.fst := by
  simp [sourceNames, sources, Function.comp_def]

theorem sources_substitute (subst : Substitution) : (s.substitute subst).sources = s.sources := by
  simp [sources, substitute, Function.comp_def]

theorem conditions_substitute (subst : Substitution) :
    (s.substitute subst).conditions = s.conditions.map (Expr.substitute subst) := by
  rw [conditions, conditions, substitute, List.filterMap_map, List.map_filterMap]
  rfl

theorem conditions_setSource (place : Nat) (source : σ) (name : String) :
    (s.setSource place source name).conditions = s.conditions := by
  cases place with
  | zero => rfl
  | succ i =>
      rw [conditions, conditions, setSource]
      refine filterMap_modify ?_ i s.joins
      intro j
      rfl

/-- Another source at a place leaves those before and after it alone. -/
theorem sources_setSource {before after : List (String × σ)} {old : String × σ}
    (h : s.sources = before ++ old :: after) (source : σ) (name : String) :
    (s.setSource before.length source name).sources = before ++ (name, source) :: after := by
  cases before with
  | nil =>
      rw [sources, List.nil_append, List.cons.injEq] at h
      simp [setSource, sources, h.2]
  | cons first before =>
      rw [sources, List.cons_append, List.cons.injEq] at h
      rcases h with ⟨hfirst, hjoins⟩
      rcases List.map_eq_append_iff.1 hjoins with ⟨js, ks, hsplit, rfl, hrest⟩
      rcases List.map_eq_cons_iff.1 hrest with ⟨j, ks', rfl, -, rfl⟩
      have hmodify := modify_split (fun j : Join σ => { j with source, sourceName := name }) js j ks'
      simp [setSource, sources, hfirst, hsplit, hmodify]

end Places

namespace Replaces

variable {s child merged : Statement} {place : Nat} {name : String}
  (h : s.Replaces place name child merged)

include h

/-- The sources before and after a replaced one stay as they are. -/
theorem sources_split : ∃ before after, before.length = place ∧
    s.sources = before ++ (name, .select child) :: after ∧
    merged.sources = before ++ (child.sourceName, child.source) :: after := by
  rcases exists_split_of_getElem? h.source_at with ⟨before, after, hsplit, rfl⟩
  refine ⟨before, after, rfl, hsplit, ?_⟩
  rw [h.merged]
  exact sources_setSource _ ((sources_substitute s _).trans hsplit) _ _

/-- The new name is none of the others. -/
theorem ne_of_mem {n : String} (hn : n ∈ s.sourceNames) (hne : n ≠ name) :
    n ≠ child.sourceName := by
  rcases h.sources_split with ⟨before, after, rfl, hsources, -⟩
  have hfree := h.name_free
  rw [sourceNames_eq_map, hsources, List.map_append, List.map_cons] at hn hfree
  rw [← List.length_map Prod.fst, eraseIdx_split, List.mem_append] at hfree
  rintro rfl
  rcases List.mem_append.1 hn with hn | hn
  · exact hfree (.inl hn)
  · exact hfree (.inr (List.mem_of_ne_of_mem hne hn))

theorem id : merged.id = s.id := by
  rw [h.merged]
  cases place <;> rfl

theorem ctes : merged.ctes = s.ctes := by
  rw [h.merged]
  cases place <;> rfl

theorem columns :
    merged.columns = substituteColumns (columnSubstitution name child) s.columns := by
  rw [h.merged]
  cases place <;> rfl

theorem groupBy :
    merged.groupBy = substituteColumns (columnSubstitution name child) s.groupBy := by
  rw [h.merged]
  cases place <;> rfl

theorem orderBy : merged.orderBy = s.orderBy.map fun k =>
    { k with expr := k.expr.substitute (columnSubstitution name child) } := by
  rw [h.merged]
  cases place <;> rfl

theorem filter :
    merged.filter = s.filter.map (Expr.substitute (columnSubstitution name child)) := by
  rw [h.merged]
  cases place <;> rfl

theorem conditions :
    merged.conditions = s.conditions.map (Expr.substitute (columnSubstitution name child)) := by
  rw [h.merged, conditions_setSource, conditions_substitute]

/-- A substitution is carried out in every expression. -/
theorem exprs :
    merged.exprs = s.exprs.map (Expr.substitute (columnSubstitution name child)) := by
  simp only [Select.exprs, selectExprs, groupExprs, orderExprs, h.columns, h.groupBy, h.orderBy,
    h.filter, h.conditions, substituteColumns, List.map_map, List.map_append, Option.toList_map,
    Function.comp_def]

end Replaces

end Select

/-- A statement without joins is merged by inlining with the select statement that it reads. -/
theorem MergeRule.inlining_eq_some {parent merged : Statement} (hjoins : parent.joins = [])
    (h : MergeRule.inlining parent = some merged) :
    ∃ child, parent.source = .select child ∧ Select.Inlines parent child merged := by
  simp only [MergeRule.inlining, hjoins, List.isEmpty_nil, if_true, Select.inlining?] at h
  obtain ⟨child, hchild, hinto⟩ := Option.bind_eq_some_iff.1 h
  refine ⟨child, ?_, Select.inlines_of_inlineInto? hinto⟩
  cases hs : parent.source <;> simp [hs, Node.select?] at hchild
  rw [hchild]

/-- A statement is merged as a projection with the select statement that it reads. -/
theorem MergeRule.projection_eq_some {parent merged : Statement}
    (h : MergeRule.projection parent = some merged) :
    ∃ child, parent.source = .select child ∧ Select.Projects parent child merged := by
  obtain ⟨child, hchild, honto⟩ := Option.bind_eq_some_iff.1 h
  refine ⟨child, ?_, Select.projects_of_projectOnto? honto⟩
  cases hs : parent.source <;> simp [hs, Node.select?] at hchild
  rw [hchild]

end QueryPlan
