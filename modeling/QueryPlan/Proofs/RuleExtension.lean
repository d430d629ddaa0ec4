import QueryPlan.Proofs.ProjectedRows
import QueryPlan.Proofs.Qualifiers

/-!
# Inlining extends projection

Two rules merge a statement with the one it reads.  Projection keeps the child and gives it the select
list of the parent; inlining keeps the parent and puts the child's expressions into it.  Wherever
projection applies, the conditions of inlining hold, except that the child may be `DISTINCT`
(`Projects.allowsInlining_iff`), and the two merged statements agree in everything but the sort keys
(`Projects.eq_of_inlines`).

Projection leaves the child's sort keys as they are.  Inlining writes every key as an output name, so
it needs a column for each of them; and since a name stands for the first column that has it, the key
is the right one only if no two columns of the parent have one name (`inlining_extends_projection`,
`inlining_sorts_by_other_column`).
-/

namespace QueryPlan

namespace Select

variable {σ : Type} {parent child merged merged' : Select σ}

/-! ## What a projection reads -/

/-- Where names differ, the last column of a name is the first one. -/
theorem lastColumn?_eq_column? (hnames : child.columnNames.Nodup) (n : String) :
    child.lastColumn? n = child.column? n := by
  cases hlast : child.lastColumn? n with
  | some c =>
      have hname : c.name = n := by simpa using List.find?_some hlast
      rw [← hname]
      exact (find?_name_of_nodup hnames (mem_of_lastColumn? hlast)).symm
  | none =>
      rw [lastColumn?, List.find?_eq_none] at hlast
      refine (List.find?_eq_none.2 ?_).symm
      intro c hc
      exact hlast c (List.mem_reverse.2 hc)

/-- A sort key that can be given by an output name is that name, or a reference that a column of that
name shows. -/
theorem sortName?_eq_some {e : Expr} {n : String} (hn : parent.sortName? e = some n) :
    ∃ c ∈ parent.columns, c.name = n ∧ (e = .name n ∧ parent.column? n = some c ∨
      ∃ r q, e = .column r q ∧ c.expr.columnRef? = some r) := by
  cases e with
  | name u =>
      obtain ⟨c, hc, rfl⟩ := Option.map_eq_some_iff.1 hn
      obtain rfl : c.name = u := by simpa using List.find?_some hc
      exact ⟨c, List.mem_of_find?_eq_some hc, rfl, .inl ⟨rfl, hc⟩⟩
  | column r q =>
      rw [sortName?] at hn
      split at hn
      · obtain ⟨c, hc, rfl⟩ := Option.map_eq_some_iff.1 hn
        have hr : c.expr.columnRef? = some r := by simpa using List.find?_some hc
        exact ⟨c, List.mem_of_find?_eq_some hc, rfl, .inr ⟨r, q, rfl, hr⟩⟩
      · cases hn
  | _ => cases hn

namespace Projects

variable (h : Projects parent child merged)

include h

theorem clauses_of_parent : parent.joins = [] ∧ parent.filter = none ∧ parent.groupBy = [] ∧
    parent.distinct = false := by
  have hproj := h.is_projection
  simp only [isProjection, Bool.and_eq_true, List.isEmpty_iff, Option.isNone_iff_eq_none,
    Bool.not_eq_true'] at hproj
  exact ⟨hproj.1.1.1, hproj.1.1.2, hproj.1.2, hproj.2⟩

/-- Every column of the parent is a column of the child. -/
theorem exists_shown {c : NamedExpr} (hc : c ∈ parent.columns) :
    ∃ r d, c.expr.columnRef? = some r ∧ r.table = parent.sourceName ∧
      child.column? r.column = some d := by
  obtain ⟨shown, hshown, -⟩ := h.shown
  obtain ⟨d, -, hd⟩ := exists_right_of_forall₂ (forall₂_of_mapM_eq_some hshown) c hc
  obtain ⟨r, hr, htable, hcolumn⟩ := shownColumn?_eq_some.1 hd
  exact ⟨r, d, hr, htable, hcolumn⟩

/-- The parent reads nothing but the columns that it shows. -/
theorem exists_column_of_columnRefs {r : ColumnRef} (hr : r ∈ parent.columnRefs) :
    ∃ c ∈ parent.columns, c.expr.columnRef? = some r := by
  obtain ⟨hjoins, hfilter, hgroup, -⟩ := h.clauses_of_parent
  obtain ⟨e, he, hre⟩ := List.mem_flatMap.1 hr
  rcases mem_exprs.1 he with hselect | hcondition | hsome | hkey | hsort
  · obtain ⟨c, hc, rfl⟩ := List.mem_map.1 hselect
    obtain ⟨r', -, hr', -, -⟩ := h.exists_shown hc
    rw [lineage_of_columnRef? hr', List.mem_singleton] at hre
    exact ⟨c, hc, hre ▸ hr'⟩
  · simp [conditions, hjoins] at hcondition
  · rw [hfilter] at hsome
    cases hsome
  · simp [groupExprs, hgroup] at hkey
  · obtain ⟨k, hk, rfl⟩ := List.mem_map.1 hsort
    obtain ⟨-, -, hkeys⟩ := order_of_projects h (List.ne_nil_of_mem hk)
    obtain ⟨_, -, n, hn, -⟩ := exists_right_of_forall₂ hkeys k hk
    obtain ⟨c, hc, -, ⟨hname, -⟩ | ⟨r', q, hcolumn, hr'⟩⟩ := sortName?_eq_some hn
    · rw [hname] at hre
      cases hre
    · rw [hcolumn, lineage_of_columnRef? (r := r') rfl, List.mem_singleton] at hre
      exact ⟨c, hc, hre ▸ hr'⟩

/-! ## The conditions of inlining -/

theorem outputLineage_of_parent :
    parent.outputLineage.aggregate = false ∧ parent.outputLineage.window = false := by
  have hnone : ∀ c ∈ parent.columns, c.expr.lineage.aggregate = false ∧
      c.expr.lineage.window = false := by
    intro c hc
    obtain ⟨r, -, hr, -⟩ := h.exists_shown hc
    rw [lineage_of_columnRef? hr]
    exact ⟨rfl, rfl⟩
  constructor
  · rw [outputLineage, Expr.lineages_aggregate, selectExprs, List.any_map, List.any_eq_false]
    intro c hc
    simp [(hnone c hc).1]
  · rw [outputLineage, Expr.lineages, Lineage.combine_window, selectExprs, List.map_map,
      List.any_map, List.any_eq_false]
    intro c hc
    simp [(hnone c hc).2]

/-- The groups of the child are told apart by columns that the parent shows. -/
theorem groupKeysShown_of_survives : parent.groupKeysShown child = true := by
  obtain ⟨shown, hshown, hsurvives, -⟩ := h.shown
  simp only [survives, Bool.and_eq_true, List.all_eq_true, List.contains_iff_mem] at hsurvives
  simp only [groupKeysShown, List.all_eq_true, List.any_eq_true, Bool.and_eq_true, beq_iff_eq]
  intro g hg
  obtain ⟨d, hd, hname⟩ := List.mem_map.1 (hsurvives.2 g hg)
  obtain ⟨c, hc, hcd⟩ := exists_left_of_forall₂ (forall₂_of_mapM_eq_some hshown) d hd
  obtain ⟨r, hr, htable, hcolumn⟩ := shownColumn?_eq_some.1 hcd
  have hd : d.name = r.column := by simpa using List.find?_some hcolumn
  refine ⟨r, Expr.mem_lineages_columns.2 ⟨c.expr, List.mem_map_of_mem hc, ?_⟩, htable, ?_⟩
  · simp [lineage_of_columnRef? hr]
  · rw [← hd, hname]

/-- **Where projection applies, the conditions of inlining hold**, unless the child is `DISTINCT`. -/
theorem allowsInlining_iff : parent.allowsInlining child = true ↔ child.distinct = false := by
  obtain ⟨hjoins, hfilter, hgroup, hdistinct⟩ := h.clauses_of_parent
  obtain ⟨haggregate, hwindow⟩ := h.outputLineage_of_parent
  have hone : parent.orderBy = [] ∨ child.orderBy = [] := by
    by_cases horder : parent.orderBy = []
    · exact .inl horder
    · exact .inr (order_of_projects h horder).1
  have hpicks : ∀ c ∈ parent.columns, c.expr.columnRef?.isSome = true := by
    intro c hc
    obtain ⟨r, -, hr, -⟩ := h.exists_shown hc
    rw [hr, Option.isSome_some]
  have hown : ∀ r ∈ parent.columnRefs, r.table = parent.sourceName ∧
      ((columnSubstitution parent.sourceName child).contains r) = true := by
    intro r hr
    obtain ⟨c, hc, hcr⟩ := h.exists_column_of_columnRefs hr
    obtain ⟨r', d, hr', htable, hcolumn⟩ := h.exists_shown hc
    obtain rfl := Option.some.inj (hcr.symm.trans hr')
    refine ⟨htable, ?_⟩
    rw [Substitution.contains, get?_columnSubstitution, if_pos htable, Option.isSome_map,
      lastColumn?, List.find?_isSome]
    exact ⟨d, List.mem_reverse.2 (List.mem_of_find?_eq_some hcolumn),
      by simpa using List.find?_some hcolumn⟩
  have htables : ∀ r ∈ parent.columnRefs, r.table = parent.sourceName := fun r hr => (hown r hr).1
  have hcovered : ∀ r ∈ parent.columnRefs,
      r.table ≠ parent.sourceName ∨ (columnSubstitution parent.sourceName child).contains r = true :=
    fun r hr => .inr (hown r hr).2
  simp only [allowsInlining, limitStaysBelow, groupsStayIntact, windowsStayIntact, groupsByWindow,
    coveredBy, h.parent_transparent, h.child_transparent, h.ctes_apart, h.groupKeysShown_of_survives,
    hfilter, hgroup, hdistinct, haggregate, hwindow, Bool.and_eq_true, Bool.or_eq_true,
    List.all_eq_true, Bool.not_eq_true', List.isEmpty_iff, hone, beq_iff_eq, bne_iff_ne,
    Option.isNone_none, List.any_nil]
  tauto

end Projects

/-! ## The merged statements -/

/-- A reference to a column of the child is replaced by the expression of the column. -/
theorem substitute_of_column? (hnames : child.columnNames.Nodup) {name : String} {e : Expr}
    {r : ColumnRef} {d : NamedExpr} (hr : e.columnRef? = some r) (htable : r.table = name)
    (hcolumn : child.column? r.column = some d) :
    e.substitute (columnSubstitution name child) = d.expr := by
  obtain ⟨q, rfl⟩ := Expr.eq_column_of_columnRef? hr
  have hget : (columnSubstitution name child).get? r = some d.expr := by
    rw [get?_columnSubstitution, if_pos htable, lastColumn?_eq_column? hnames, hcolumn,
      Option.map_some]
  rw [Expr.substitute, Expr.bindColumns_column, hget, Option.getD_some]

/-- Where names differ, a name stands for the column that has it. -/
theorem sortTarget?_name (hnames : merged.columnNames.Nodup) {c : NamedExpr}
    (hc : c ∈ merged.columns) : merged.sortTarget? (.name c.name) = some c.expr := by
  have hcolumn : merged.column? c.name = some c := find?_name_of_nodup hnames hc
  simp only [sortTarget?, Expr.name?, hcolumn, Option.map_some]

namespace Projects

variable (h : Projects parent child merged) (hnames : child.columnNames.Nodup)

include h hnames

/-- The columns of the child under the names of the parent are the columns of the parent with the
child's expressions. -/
theorem columns_eq : merged.columns =
    substituteColumns (columnSubstitution parent.sourceName child) parent.columns := by
  obtain ⟨shown, hshown, -, hcolumns⟩ := h.shown
  rw [hcolumns, substituteColumns, ← List.map_id (List.zipWith _ _ _)]
  refine map_zipWith_of_forall₂ (forall₂_of_mapM_eq_some hshown) ?_
  intro c d hcd
  obtain ⟨r, hr, htable, hcolumn⟩ := shownColumn?_eq_some.1 hcd
  rw [substitute_of_column? hnames hr htable hcolumn]
  rfl

/-- A column of the parent is merged into one that has its name and computes what its reference is
replaced by. -/
theorem exists_merged {c : NamedExpr} (hc : c ∈ parent.columns) {r : ColumnRef}
    (hr : c.expr.columnRef? = some r) :
    ∃ c' ∈ merged.columns, c'.name = c.name ∧ ∀ q,
      (Expr.column r q).substitute (columnSubstitution parent.sourceName child) = c'.expr := by
  obtain ⟨r', d, hr', htable, hcolumn⟩ := h.exists_shown hc
  obtain rfl := Option.some.inj (hr.symm.trans hr')
  refine ⟨{ c with expr := d.expr }, ?_, rfl, ?_⟩
  · rw [h.columns_eq hnames, ← substitute_of_column? hnames hr htable hcolumn]
    exact List.mem_map_of_mem hc
  · intro q
    rw [substitute_of_column? hnames rfl htable hcolumn]

omit hnames in
/-- A sort key of the child is no output name. -/
theorem name?_of_child_order {k : SortKey Expr} (hk : k ∈ child.orderBy) : k.expr.name? = none := by
  have hunnamed := h.child_order_unnamed
  rw [sortLineage, Expr.lineages, Lineage.combine_names, List.flatMap_eq_nil_iff,
    List.forall_mem_map] at hunnamed
  cases hname : k.expr.name? with
  | none => rfl
  | some n =>
      have hnone := hunnamed k.expr (List.mem_map_of_mem hk)
      rw [Expr.eq_name_of_name? hname] at hnone
      cases hnone

/-- **When inlining applies where projection does.** -/
theorem isSome_inlineInto?_iff_sorts : (parent.inlineInto? child).isSome = true ↔
    child.distinct = false ∧
      (parent.orderBy ≠ [] ∨ ∀ k ∈ child.orderBy, k.expr ∈ merged.selectExprs) := by
  rw [isSome_inlineInto?_iff, h.allowsInlining_iff, ← h.columns_eq hnames]
  refine and_congr_right fun _ => ?_
  by_cases horder : parent.orderBy = []
  · have hkeys : (∀ k ∈ child.orderBy, ∃ c ∈ merged.columns,
        child.sortTarget? k.expr = some c.expr) ↔
        ∀ k ∈ child.orderBy, k.expr ∈ merged.selectExprs := by
      refine forall₂_congr ?_
      intro k hk
      simp only [sortTarget?, h.name?_of_child_order hk, Option.some.injEq, selectExprs,
        List.mem_map, eq_comm]
    rw [if_pos (by simp [horder]), isSome_inlinedChildOrder?_iff, hkeys]
    simp [horder]
  · rw [if_neg (by simpa using horder), isSome_inlinedParentOrder?_iff]
    refine iff_of_true ?_ (.inl horder)
    intro k hk
    obtain ⟨_, -, n, hn, -⟩ := exists_right_of_forall₂ (order_of_projects h horder).2.2 k hk
    obtain ⟨c, hc, -, ⟨hname, hcolumn⟩ | ⟨r, q, hkey, hr⟩⟩ := sortName?_eq_some hn
    · exact .inl ⟨n, by rw [hname]; rfl, by rw [hcolumn, Option.isSome_some]⟩
    · obtain ⟨c', hc', -, hsame⟩ := h.exists_merged hnames hc hr
      exact .inr ⟨by rw [hkey]; rfl, c', hc', by rw [hkey, hsame q]⟩

/-- The merged statements agree in everything but the sort keys. -/
theorem eq_of_inlines (h' : Inlines parent child merged') :
    merged' = { merged with id := merged'.id, orderBy := merged'.orderBy } := by
  obtain ⟨-, hfilter, hgroup, hdistinct⟩ := h.clauses_of_parent
  have hcolumns : merged'.columns = merged.columns := by rw [h'.columns, h.columns_eq hnames]
  have hgroupBy : merged'.groupBy = merged.groupBy := by
    rw [h'.groupBy, if_pos (by simp [hgroup]), hcolumns, h.groupBy]
  have hfilters : merged'.filter = merged.filter := by
    rw [h'.filter, hfilter, h.filter]
    cases child.filter <;> rfl
  have hdistincts : merged'.distinct = merged.distinct := by
    rw [h'.distinct, hdistinct, h.distinct, h'.child_not_distinct]
  have hlimit : merged'.limit = merged.limit := by rw [h'.limit, h.limit]
  have hctes : merged'.ctes = merged.ctes := by rw [h'.ctes, h.ctes]
  obtain ⟨hsource, hname, hjoins⟩ := h.sources
  obtain ⟨hsource', hname', hjoins'⟩ := h'.sources
  cases merged'
  simp only [Select.mk.injEq]
  exact ⟨trivial, hcolumns, hsource'.trans hsource.symm, hname'.trans hname.symm, hctes,
    hjoins'.trans hjoins.symm, hgroupBy, trivial, hfilters, hlimit, hdistincts⟩

/-- The merged statements have the same sort keys: with the same directions, and, where names differ,
for the same expressions. -/
theorem order_of_inlines (h' : Inlines parent child merged') :
    List.Forall₂ (fun k k' => k'.descending = k.descending ∧ (parent.columnNames.Nodup →
        ∃ e, merged.sortTarget? k.expr = some e ∧ merged'.sortTarget? k'.expr = some e))
      merged.orderBy merged'.orderBy := by
  have htarget : ∀ e, merged.sortTarget? e = merged'.sortTarget? e := by
    intro e
    simp only [sortTarget?, column?, h'.columns, h.columns_eq hnames]
  simp only [htarget, ← columnNames_merged h']
  by_cases horder : parent.orderBy = []
  · have hchild : merged.orderBy = child.orderBy := by
      have hmap := h.order
      rw [projectedOrder?, if_pos (by simp [horder])] at hmap
      exact (Option.some.inj hmap).symm
    rw [hchild]
    refine ((List.forall₂_and_left _ _).2 ⟨fun k hk => h.name?_of_child_order hk,
      order_of_child h' horder⟩).imp ?_
    rintro k _ ⟨hname, c, hc, rfl, hexpr | ⟨n, -, hn, -⟩⟩
    · refine ⟨rfl, fun hnodup => ⟨c.expr, ?_, sortTarget?_name hnodup hc⟩⟩
      rw [sortTarget?, hname, hexpr]
    · rw [hn] at hname
      cases hname
  · have hmap := h'.order
    rw [if_neg (by simpa using horder)] at hmap
    refine (forall₂_of_common (order_of_projects h horder).2.2 (forall₂_of_mapM_eq_some hmap)).imp ?_
    rintro _ k' ⟨k, ⟨n, hn, rfl⟩, hk'⟩
    obtain ⟨c, hc, rfl, hkey⟩ := sortName?_eq_some hn
    obtain ⟨r, -, hr, -⟩ := h.exists_shown hc
    obtain ⟨c', hc', hname, hsame⟩ := h.exists_merged hnames hc hr
    rw [h.columns_eq hnames, ← h'.columns] at hc'
    rw [← hname]
    rcases hkey with ⟨hkey, hcolumn⟩ | ⟨r', q, hkey, hr'⟩
    · -- both rules keep an output name
      simp only [hkey, Expr.name?, hcolumn, Option.map_some, Option.bind_eq_bind, Option.bind_some,
        Option.pure_def, Option.some.injEq] at hk'
      rw [← hk', ← hname]
      exact ⟨rfl, fun hnodup => ⟨c'.expr, sortTarget?_name hnodup hc', sortTarget?_name hnodup hc'⟩⟩
    · -- inlining takes the first column that computes the same as the column shown
      obtain rfl := Option.some.inj (hr'.symm.trans hr)
      simp only [hkey, Expr.name?, Option.bind_eq_bind, Option.bind_eq_some_iff, Option.pure_def,
        Option.some.injEq] at hk'
      obtain ⟨n', hn', rfl⟩ := hk'
      obtain ⟨d, hd, hexpr, rfl⟩ := nameFor?_eq_some hn'
      refine ⟨rfl, fun hnodup => ⟨d.expr, ?_, sortTarget?_name hnodup hd⟩⟩
      rw [hexpr, hsame q]
      exact sortTarget?_name hnodup hc'

end Projects

end Select

/-- **Inlining extends projection.**  Let a statement be merged as a projection with a child whose
columns have different names.  Then inlining applies exactly if the child is not `DISTINCT`, and the
statement sorts or every sort key of the child is a column of the merged statement.  What inlining
gives agrees with the projection in everything but identity and sort keys; these have the same
directions, and stand for the same expressions if the columns of the statement have different names
too. -/
theorem inlining_extends_projection {parent child merged : Statement}
    (hsource : parent.source = .select child) (hchild : child.columnNames.Nodup)
    (hmerged : MergeRule.projection parent = some merged) :
    ((∃ merged', MergeRule.inlining parent = some merged') ↔ child.distinct = false ∧
      (parent.orderBy ≠ [] ∨ ∀ k ∈ child.orderBy, k.expr ∈ merged.selectExprs)) ∧
    ∀ merged', MergeRule.inlining parent = some merged' →
      merged' = { merged with id := merged'.id, orderBy := merged'.orderBy } ∧
      List.Forall₂ (fun k k' => k'.descending = k.descending ∧ (parent.columnNames.Nodup →
          ∃ e, merged.sortTarget? k.expr = some e ∧ merged'.sortTarget? k'.expr = some e))
        merged.orderBy merged'.orderBy := by
  obtain ⟨child', hsource', h⟩ := MergeRule.projection_eq_some hmerged
  obtain rfl : child = child' := by simpa [hsource] using hsource'
  have hjoins : parent.joins = [] := h.clauses_of_parent.1
  have hrule : MergeRule.inlining parent = parent.inlineInto? child := by
    simp only [MergeRule.inlining, hjoins, List.isEmpty_nil, if_true, Select.inlining?, hsource,
      Node.select?, Option.bind_some]
  rw [hrule, ← Option.isSome_iff_exists]
  refine ⟨h.isSome_inlineInto?_iff_sorts hchild, ?_⟩
  intro merged' hmerged'
  have h' := Select.inlines_of_inlineInto? hmerged'
  exact ⟨h.eq_of_inlines hchild h', h.order_of_inlines hchild h'⟩

/-- `SELECT a.y AS v, a.x AS u FROM pairs a`, where the pairs are sorted by their second part. -/
def Select.flippedPairs : Statement :=
  .plain 3 [⟨.column ⟨"a", "y"⟩ true, "v"⟩, ⟨.column ⟨"a", "x"⟩ true, "u"⟩]
    (.select (.pairs [⟨.column ⟨"b", "y"⟩ true, true⟩])) "a"

/-- Projection sorts by the child's column, and inlining by the name that it has got. -/
theorem inlining_extends_projection_flippedPairs :
    ∃ merged merged', MergeRule.projection .flippedPairs = some merged ∧
      MergeRule.inlining .flippedPairs = some merged' ∧
      merged.orderBy = [⟨.column ⟨"b", "y"⟩ true, true⟩] ∧ merged'.orderBy = [⟨.name "v", true⟩] ∧
      merged' = { merged with id := merged'.id, orderBy := merged'.orderBy } ∧
      List.Forall₂ (fun k k' => ∃ e, merged.sortTarget? k.expr = some e ∧
        merged'.sortTarget? k'.expr = some e) merged.orderBy merged'.orderBy := by
  refine ⟨_, _, rfl, rfl, rfl, rfl, ?_⟩
  have hsource : Select.flippedPairs.source =
      .select (.pairs [⟨.column ⟨"b", "y"⟩ true, true⟩]) := rfl
  obtain ⟨-, hagree⟩ := inlining_extends_projection hsource (by decide) rfl
  obtain ⟨hsame, hkeys⟩ := hagree _ rfl
  exact ⟨hsame, hkeys.imp fun _ _ hk => hk.2 (by decide)⟩

/-- `SELECT a.x AS u, a.y AS u FROM pairs a`, where the pairs are sorted by their second part. -/
def Select.pairsNamedAlike : Statement :=
  .plain 3 [⟨.column ⟨"a", "x"⟩ true, "u"⟩, ⟨.column ⟨"a", "y"⟩ true, "u"⟩]
    (.select (.pairs [⟨.column ⟨"b", "y"⟩ true, false⟩])) "a"

/-- **A name that is used twice makes the rules differ.**  Projection sorts by the second part of the
pairs, and inlining by a name that stands for the first. -/
theorem inlining_sorts_by_other_column :
    ∃ merged merged', MergeRule.projection .pairsNamedAlike = some merged ∧
      MergeRule.inlining .pairsNamedAlike = some merged' ∧
      (Select.pairs [⟨.column ⟨"b", "y"⟩ true, false⟩]).columnNames.Nodup ∧
      merged.orderBy.map (fun k => merged.sortTarget? k.expr) = [some (.column ⟨"b", "y"⟩ true)] ∧
      merged'.orderBy.map (fun k => merged'.sortTarget? k.expr) = [some (.column ⟨"b", "x"⟩ true)] :=
  ⟨_, _, rfl, rfl, by decide, by decide, by decide⟩

end QueryPlan
