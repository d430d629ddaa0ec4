import QueryPlan.Proofs.MergeRules
import QueryPlan.Proofs.Pruning

/-!
# When a statement stays an aggregation

A statement that groups, or whose select list aggregates, puts out groups of rows
(`Select.groupsRows`).  Without `GROUP BY` this hangs on the select list alone: it puts out one row
for all its input, and with the last aggregate column gone one row for each row of its input.

Pruning and both rules for merging drop columns, and none of them looks at this.  The results below
say when an aggregation survives: `Select.KeepsAggregate` asks of an ungrouped statement that some
aggregate column is among those that are left.

* `groupsRows_pruned` — for pruning, the columns left are those that are required.
* `groupsRows_projected`, `groupsRows_inlined` — for merging, they are the columns of the child that
  the parent shows.  The rules differ for a name that the child uses twice: a projection shows its
  first column of that name, inlining its last one.
-/

namespace QueryPlan

namespace Select

variable {σ : Type} {parent child merged : Select σ}

/-- Whether a statement that aggregates without groups still does so with some of its columns. -/
def KeepsAggregate (s : Select σ) (left : NamedExpr → Prop) : Prop :=
  s.groupBy = [] → s.outputLineage.aggregate = true →
    ∃ c ∈ s.columns, left c ∧ c.expr.lineage.aggregate = true

theorem outputLineage_aggregate_iff {s : Select σ} :
    s.outputLineage.aggregate = true ↔ ∃ c ∈ s.columns, c.expr.lineage.aggregate = true := by
  simp [outputLineage, selectExprs, Expr.lineages_aggregate]

theorem groupsRows_iff {s : Select σ} :
    s.groupsRows = true ↔ s.groupBy ≠ [] ∨ ∃ c ∈ s.columns, c.expr.lineage.aggregate = true := by
  simp [groupsRows, outputLineage_aggregate_iff]

/-- Whether a column of the child is shown by a column of the parent that is a reference, `find`
saying which column of the child a name stands for. -/
def Shows (parent : Select σ) (find : String → Option NamedExpr) (d : NamedExpr) : Prop :=
  ∃ c ∈ parent.columns, ∃ r, c.expr.columnRef? = some r ∧ find r.column = some d

/-! ## Pruning -/

/-- **Aggregation under pruning.**  A statement left with its required and grouping columns is an
aggregation exactly as before, unless it has no groups and no required column aggregates. -/
theorem groupsRows_pruned {s s' : Statement} {names : NameSet}
    (hcolumns : s'.columns = Pruning.kept names s) (hgroupBy : s'.groupBy = s.groupBy) :
    s'.groupsRows = s.groupsRows ↔ s.KeepsAggregate fun c => c.name ∈ names := by
  rw [Bool.eq_iff_iff, groupsRows_iff, groupsRows_iff, hgroupBy, hcolumns, KeepsAggregate,
    outputLineage_aggregate_iff]
  by_cases hgroup : s.groupBy = []
  · have hkept : ∀ c, c ∈ Pruning.kept names s ↔ c ∈ s.columns ∧ c.name ∈ names := fun c => by
      simp [Pruning.mem_kept, groupNames, hgroup]
    simp only [hgroup, ne_eq, not_true_eq_false, false_or, hkept, true_implies, and_assoc]
    refine ⟨fun h => h.2, fun h => ⟨fun ⟨c, hc, _, ha⟩ => ⟨c, hc, ha⟩, h⟩⟩
  · simp [hgroup]

/-! ## Merging -/

/-- A projection shows columns and does not aggregate. -/
theorem groupsRows_of_projects (h : Projects parent child merged) : parent.groupsRows = false := by
  obtain ⟨shown, hshown, -⟩ := h.shown
  have hproj := h.is_projection
  simp only [isProjection, Bool.and_eq_true, List.isEmpty_iff] at hproj
  rw [← Bool.not_eq_true, groupsRows_iff, not_or]
  refine ⟨fun hne => hne hproj.1.2, fun ⟨c, hc, ha⟩ => ?_⟩
  obtain ⟨d, -, hd⟩ := exists_right_of_forall₂ (forall₂_of_mapM_eq_some hshown) c hc
  obtain ⟨r, hr, -⟩ := shownColumn?_eq_some.1 hd
  simp [lineage_of_columnRef? hr] at ha

/-- The aggregates of a projection of the child are those that the parent shows. -/
theorem aggregate_projected_iff (h : Projects parent child merged) :
    (∃ c ∈ merged.columns, c.expr.lineage.aggregate = true) ↔
      ∃ d ∈ child.columns, parent.Shows child.column? d ∧ d.expr.lineage.aggregate = true := by
  obtain ⟨shown, hshown, -, hcolumns⟩ := h.shown
  have hmatch := forall₂_of_mapM_eq_some hshown
  have hexprs : merged.columns.map NamedExpr.expr = shown.map NamedExpr.expr := by
    rw [hcolumns, map_expr_zipWith hmatch]
  have hmem : ∀ l : List NamedExpr, (∃ c ∈ l, c.expr.lineage.aggregate = true) ↔
      ∃ e ∈ l.map NamedExpr.expr, e.lineage.aggregate = true := fun l => by simp
  rw [hmem, hexprs, ← hmem]
  constructor
  · rintro ⟨d, hd, ha⟩
    obtain ⟨c, hc, hcd⟩ := exists_left_of_forall₂ hmatch d hd
    obtain ⟨r, hr, -, hcolumn⟩ := shownColumn?_eq_some.1 hcd
    exact ⟨d, List.mem_of_find?_eq_some hcolumn, ⟨c, hc, r, hr, hcolumn⟩, ha⟩
  · rintro ⟨d, -, ⟨c, hc, r, hr, hcolumn⟩, ha⟩
    obtain ⟨d', hd', hcd'⟩ := exists_right_of_forall₂ hmatch c hc
    obtain ⟨r', hr', -, hcolumn'⟩ := shownColumn?_eq_some.1 hcd'
    obtain rfl := Option.some.inj (hr.symm.trans hr')
    obtain rfl := Option.some.inj (hcolumn.symm.trans hcolumn')
    exact ⟨d, hd', ha⟩

/-- **Aggregation under projection.**  The merged statement is an aggregation exactly if one of the
two statements is, unless the child has no groups and the parent shows none of its aggregates. -/
theorem groupsRows_projected (h : Projects parent child merged) :
    merged.groupsRows = (parent.groupsRows || child.groupsRows) ↔
      child.KeepsAggregate (parent.Shows child.column?) := by
  have hgroupBy : merged.groupBy = [] ↔ child.groupBy = [] := by
    simp [h.groupBy, relabelGroupBy]
  rw [groupsRows_of_projects h, Bool.false_or, Bool.eq_iff_iff, groupsRows_iff, groupsRows_iff,
    KeepsAggregate, outputLineage_aggregate_iff, aggregate_projected_iff h, ne_eq, hgroupBy]
  by_cases hgroup : child.groupBy = []
  · simp only [hgroup, ne_eq, not_true_eq_false, false_or, true_implies]
    exact ⟨fun h => h.2, fun h => ⟨fun ⟨d, hd, _, ha⟩ => ⟨d, hd, ha⟩, h⟩⟩
  · simp [hgroup]

/-- The aggregates of a statement with inlined columns: its own, and those of inlined columns. -/
theorem aggregate_inlined_iff (h : Inlines parent child merged) :
    (∃ c ∈ merged.columns, c.expr.lineage.aggregate = true) ↔
      ∃ c ∈ parent.columns, c.expr.lineage.aggregate = true ∨
        ∃ r ∈ c.expr.lineage.columns, ∃ d, child.lastColumn? r.column = some d ∧
          d.expr.lineage.aggregate = true := by
  rw [h.columns, substituteColumns]
  simp only [List.mem_map, exists_exists_and_eq_and, Expr.substitute,
    Expr.lineage_aggregate_bindColumns, Bool.or_eq_true, List.any_eq_true]
  refine exists_congr fun c => and_congr_right fun hc => or_congr_right ?_
  refine exists_congr fun r => and_congr_right fun hr => ?_
  have htable : r.table = parent.sourceName :=
    h.own_columns r (List.mem_flatMap.2 ⟨c.expr, by simp [exprs, selectExprs,
      List.mem_map_of_mem hc], hr⟩)
  rw [get?_columnSubstitution, if_pos htable]
  cases child.lastColumn? r.column <;> simp

/-- **Aggregation under inlining.**  The merged statement is an aggregation exactly if one of the
two statements is, unless the child has no groups and the parent shows none of its aggregates. -/
theorem groupsRows_inlined (h : Inlines parent child merged) :
    merged.groupsRows = (parent.groupsRows || child.groupsRows) ↔
      child.KeepsAggregate (parent.Shows child.lastColumn?) := by
  rw [Bool.eq_iff_iff, Bool.or_eq_true, groupsRows_iff, groupsRows_iff, groupsRows_iff,
    KeepsAggregate, outputLineage_aggregate_iff, aggregate_inlined_iff h]
  by_cases hgroup : child.groupBy = []
  · by_cases hagg : ∃ d ∈ child.columns, d.expr.lineage.aggregate = true
    · -- the parent only picks columns: it shows an aggregate, or the merged statement has none
      have hgroups : child.groupsRows = true := groupsRows_iff.2 (.inr hagg)
      have hintact := h.groups_intact
      simp only [groupsStayIntact, hgroups, Bool.not_true, Bool.false_or, Bool.and_eq_true,
        List.isEmpty_iff, List.all_eq_true, Option.isSome_iff_exists] at hintact
      obtain ⟨⟨-, hparent⟩, hrefs⟩ := hintact
      have hmerged : merged.groupBy = [] := by simp [h.groupBy, hparent, hgroup, relabelGroupBy]
      simp only [hmerged, hparent, hgroup, hagg, ne_eq, not_true_eq_false, false_or, or_true,
        iff_true, true_implies]
      constructor
      · rintro ⟨c, hc, ha⟩
        obtain ⟨r, hr⟩ := hrefs c hc
        simp only [lineage_of_columnRef? hr, Bool.false_eq_true, List.mem_singleton,
          exists_eq_left, false_or] at ha
        obtain ⟨d, hd, ha⟩ := ha
        exact ⟨d, mem_of_lastColumn? hd, ⟨c, hc, r, hr, hd⟩, ha⟩
      · rintro ⟨d, -, ⟨c, hc, r, hr, hd⟩, ha⟩
        exact ⟨c, hc, .inr ⟨r, by simp [lineage_of_columnRef? hr], d, hd, ha⟩⟩
    · -- the child does not aggregate, so inlining adds no aggregate
      have hnone : ∀ r : ColumnRef, ¬ ∃ d, child.lastColumn? r.column = some d ∧
          d.expr.lineage.aggregate = true := fun r ⟨d, hd, ha⟩ =>
        hagg ⟨d, mem_of_lastColumn? hd, ha⟩
      have hmerged : merged.groupBy = [] ↔ parent.groupBy = [] := by
        rw [h.groupBy, hgroup]
        split <;> simp_all [relabelGroupBy, substituteColumns]
      simp only [hmerged, hgroup, hagg, hnone, and_false, exists_false, or_false, ne_eq,
        not_true_eq_false, false_implies, implies_true]
  · have hparent : parent.groupBy = [] := h.one_grouping.resolve_right hgroup
    have hmerged : merged.groupBy ≠ [] := by simp [h.groupBy, hparent, relabelGroupBy, hgroup]
    simp [hmerged, hgroup]

end Select

/-! ## All passes

The three results together.  For pruning, `b` is what a run remembers in the end: each statement of
the new plan was built for a statement of the given one. -/

/-- **When aggregations survive.**  Pruning a plan whose identities tell its nodes apart, and
merging a statement with its child by either rule, keep aggregations exactly where an ungrouped
aggregation is left with an aggregate column. -/
theorem aggregation_kept_iff {n n' : Node} {next next' : NodeId} (hids : n.IdsIdentify)
    (hprune : n.prune next = .ok (n', next')) {parent child : Statement}
    (hsource : parent.source = .select child) :
    (n' = n ∨ ∃ required b, Requirements.ofPlan n n = .ok (some required) ∧
      (n.rebuild (Pruning.rebuilder required)).run { next } = .ok (n', b) ∧
      (∀ s', .select s' ∈ n'.subnodes →
        ∃ s, .select s ∈ n.subnodes ∧ b.done[s.id]? = some (.select s')) ∧
      ∀ s s', .select s ∈ n.subnodes → b.done[s.id]? = some (.select s') →
        (s'.groupsRows = s.groupsRows ↔
          s.KeepsAggregate fun c => c.name ∈ required.names s.id)) ∧
    (∀ merged, MergeRule.projection parent = some merged →
      (merged.groupsRows = (parent.groupsRows || child.groupsRows) ↔
        child.KeepsAggregate (parent.Shows child.column?))) ∧
    (∀ merged, parent.joins = [] → MergeRule.inlining parent = some merged →
      (merged.groupsRows = (parent.groupsRows || child.groupsRows) ↔
        child.KeepsAggregate (parent.Shows child.lastColumn?))) := by
  refine ⟨?_, ?_, ?_⟩
  · rcases Node.prune_eq_ok_iff.1 hprune with ⟨-, hsame, -⟩ | ⟨required, b, hplan, hrun, -⟩
    · exact .inl hsame
    · right
      refine ⟨required, b, hplan, hrun, ?_, ?_⟩
      · intro s' hs'
        exact Node.exists_pruned_from hids hrun hs'
      · intro s s' hs hdone
        rcases Node.pruned_statement hids hrun hs hdone with ⟨s₀, heq, hcolumns, hgroupBy⟩
        obtain rfl : s' = s₀ := by simpa using heq
        exact Select.groupsRows_pruned hcolumns hgroupBy
  · intro merged hmerged
    rcases MergeRule.projection_eq_some hmerged with ⟨child', hsource', h⟩
    obtain rfl := Node.select.inj (hsource.symm.trans hsource')
    exact Select.groupsRows_projected h
  · intro merged hjoins hmerged
    rcases MergeRule.inlining_eq_some hjoins hmerged with ⟨child', hsource', h⟩
    obtain rfl := Node.select.inj (hsource.symm.trans hsource')
    exact Select.groupsRows_inlined h

/-- `SELECT COUNT(*) AS n, 'a' AS one FROM t b`. -/
def Select.countAndOne : Statement :=
  .plain 2 [⟨.aggregate .count [], "n"⟩, ⟨.literal "a", "one"⟩] (.table 1 ⟨none, "t"⟩) "b"

/-- `SELECT a.one AS one FROM (SELECT COUNT(*) AS n, 'a' AS one FROM t b) a`. -/
def Select.oneOfCount : Statement :=
  .plain 3 [⟨.column ⟨"a", "one"⟩ true, "one"⟩] (.select .countAndOne) "a"

/-- **An aggregation that is lost.**  The child puts out one row.  What pruning leaves of it, and
what either rule merges it into, puts out a row for every row of `t`. -/
theorem aggregation_lost_oneOfCount :
    Select.countAndOne.groupsRows = true ∧
    (∃ n' required b s', (Node.select .oneOfCount).prune 10 = .ok (n', 12) ∧
      Requirements.ofPlan (.select .oneOfCount) (.select .oneOfCount) = .ok (some required) ∧
      ((Node.select .oneOfCount).rebuild (Pruning.rebuilder required)).run { next := 10 } =
        .ok (n', b) ∧
      b.done[Select.countAndOne.id]? = some (.select s') ∧ s'.groupsRows = false ∧
      ¬ Select.countAndOne.KeepsAggregate fun c => c.name ∈ required.names Select.countAndOne.id) ∧
    (∃ merged, MergeRule.projection .oneOfCount = some merged ∧ merged.groupsRows = false ∧
      ¬ Select.countAndOne.KeepsAggregate (Select.oneOfCount.Shows Select.countAndOne.column?)) ∧
    (∃ merged, MergeRule.inlining .oneOfCount = some merged ∧ merged.groupsRows = false ∧
      ¬ Select.countAndOne.KeepsAggregate
        (Select.oneOfCount.Shows Select.countAndOne.lastColumn?)) := by
  have hids : (Node.select .oneOfCount).IdsIdentify := Node.idsIdentify_of_nodup (by decide)
  have hprune : (Node.select .oneOfCount).prune 10 = .ok (_, 12) := rfl
  have hsource : Select.oneOfCount.source = .select .countAndOne := rfl
  have hkept := aggregation_kept_iff hids hprune hsource
  refine ⟨by decide, ⟨_, _, _, _, rfl, rfl, rfl, rfl, by decide, ?_⟩, ⟨_, rfl, by decide, ?_⟩,
    ⟨_, rfl, by decide, ?_⟩⟩
  · intro h
    rcases hkept.1 with heq | ⟨required, b, hplan, hrun, -, hiff⟩
    · cases congrArg Node.id heq
    · cases hplan
      cases hrun
      have hsame := (hiff .countAndOne _ (.tail _ (.head _)) rfl).2 h
      exact absurd hsame (by decide)
  · intro h
    exact absurd ((hkept.2.1 _ rfl).2 h) (by decide)
  · intro h
    exact absurd ((hkept.2.2 _ rfl rfl).2 h) (by decide)

end QueryPlan
