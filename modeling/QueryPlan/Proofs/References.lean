import QueryPlan.Proofs.ClosedRequirements
import QueryPlan.Proofs.Validity

/-!
# No reference is left dangling

A statement reads columns of its sources.  A reference is resolved if it names a source of the
statement and, where it can be seen in the plan which columns the source has, one of these
(`Select.ResolvesColumns`).  Optimising keeps all references resolved (`optimize_resolves`), for
reasons that differ from pass to pass.

* Pruning drops columns of sources.  What a statement still reads is required of the source, since
  the requirements of a plan are closed, and what is required is kept.
* A merged statement reads only what its child did, from the sources of the child.
* A source that is replaced takes its name with it.  References to the old name have all been
  replaced by what the child reads; references to the other sources still find these, since the new
  name is none of theirs.
* No pass but pruning changes the output names of a statement.
-/

namespace QueryPlan

/-! ## Resolved references -/

namespace Node

/-- A node has a column, as far as its columns can be seen. -/
def Offers (n : Node) (column : String) : Prop :=
  ∀ columns, n.exposedColumns? ∅ = some columns → column ∈ columns.map NamedExpr.name

/-- Where no CTE can be read, the columns of a node are those of the statement that it wraps. -/
theorem exposedColumns?_empty_eq_some {n : Node} {columns : List NamedExpr} :
    n.exposedColumns? ∅ = some columns ↔ ∃ s, n.unwrapped = .select s ∧ s.columns = columns := by
  constructor
  · intro h
    rw [exposedColumns?, Std.TreeMap.size_emptyc] at h
    unfold exposedColumnsWithin? at h
    cases hn : n.unwrapped with
    | select s =>
        rw [hn] at h
        exact ⟨s, rfl, Option.some.inj h⟩
    | table | text | cte | createTable =>
        rw [hn] at h
        cases h
  · rintro ⟨s, hs, rfl⟩
    exact exposedColumns?_of_unwrapped hs

theorem offers_iff {n : Node} {column : String} :
    n.Offers column ↔ ∀ s, n.unwrapped = .select s → column ∈ s.columnNames := by
  constructor
  · intro h s hs
    exact h s.columns (exposedColumns?_of_unwrapped hs)
  · intro h columns hcolumns
    rcases exposedColumns?_empty_eq_some.1 hcolumns with ⟨s, hs, rfl⟩
    exact h s hs

instance (n : Node) (column : String) : Decidable (n.Offers column) :=
  decidable_of_iff ((n.exposedColumns? ∅).all fun columns =>
    decide (column ∈ columns.map NamedExpr.name)) (by simp [Offers, Option.all_eq_true])

end Node

/-- Every column that a statement reads is a column of one of its sources. -/
def Select.ResolvesColumns (s : Statement) : Prop :=
  ∀ r ∈ s.columnRefs, ∃ source, s.source? r.table = some source ∧ source.Offers r.column

instance (s : Statement) : Decidable s.ResolvesColumns :=
  decidable_of_iff (∀ r ∈ s.columnRefs, (s.source? r.table).any fun source =>
    decide (source.Offers r.column)) (by simp [Select.ResolvesColumns, Option.any_eq_true])

/-- If the node is a statement, its references are resolved. -/
def Node.ResolvesColumns : Node → Prop
  | .select s => s.ResolvesColumns
  | _ => True

instance : DecidablePred Node.ResolvesColumns
  | .select s => inferInstanceAs (Decidable s.ResolvesColumns)
  | .table .. | .text .. | .cte _ | .createTable .. => inferInstanceAs (Decidable True)

namespace Select

variable {parent child merged s : Statement}

/-! ## Steps -/

/-- A statement that takes over the sources of its child and reads nothing that the child does not
read. -/
theorem resolves_of_child (hchild : child.ResolvesColumns)
    (hsources : merged.source = child.source ∧ merged.sourceName = child.sourceName ∧
      merged.joins = child.joins)
    (hreads : ∀ e ∈ merged.exprs, ∀ r ∈ e.lineage.columns, r ∈ child.columnRefs) :
    merged.ResolvesColumns := by
  intro r hr
  rcases List.mem_flatMap.1 hr with ⟨e, he, hre⟩
  rcases hchild r (hreads e he r hre) with ⟨source, hsource, hoffers⟩
  refine ⟨source, ?_, hoffers⟩
  rw [source?, sources, hsources.1, hsources.2.1, hsources.2.2]
  exact hsource

theorem groupExprs_relabel (groupBy columns : List NamedExpr) :
    (relabelGroupBy groupBy columns).map NamedExpr.expr = groupBy.map NamedExpr.expr := by
  rw [relabelGroupBy, List.map_map]
  rfl

/-- The sort keys of a projection are those of the child, or output names. -/
theorem Projects.orderBy_cases (h : Projects parent child merged) :
    merged.orderBy = child.orderBy ∨ ∀ k ∈ merged.orderBy, ∃ n, k.expr = .name n := by
  have horder := h.order
  unfold projectedOrder? at horder
  split at horder
  · exact .inl (Option.some.inj horder).symm
  · split at horder
    · cases horder
    · refine .inr ?_
      intro k hk
      rcases exists_left_of_forall₂ (forall₂_of_mapM_eq_some horder) k hk with ⟨k₀, -, hk₀⟩
      rcases Option.map_eq_some_iff.1 hk₀ with ⟨n, -, rfl⟩
      exact ⟨n, rfl⟩

/-- The expressions of a projection are those of the child, or output names. -/
theorem Projects.exprs_cases (h : Projects parent child merged) {e : Expr} (he : e ∈ merged.exprs) :
    e ∈ child.exprs ∨ ∃ n, e = .name n := by
  rcases mem_exprs.1 he with hselect | hcondition | hfilter | hgroup | horder
  · rcases h.shown with ⟨shown, hshown, -, hcolumns⟩
    have hmatched := forall₂_of_mapM_eq_some hshown
    rw [selectExprs, hcolumns, map_expr_zipWith hmatched] at hselect
    rcases List.mem_map.1 hselect with ⟨d, hd, rfl⟩
    rcases exists_left_of_forall₂ hmatched d hd with ⟨c, -, hc⟩
    rcases shownColumn?_eq_some.1 hc with ⟨ref, -, -, hcolumn⟩
    exact .inl (mem_exprs.2 (.inl (List.mem_map_of_mem (List.mem_of_find?_eq_some hcolumn))))
  · rw [conditions, h.sources.2.2] at hcondition
    exact .inl (mem_exprs.2 (.inr (.inl hcondition)))
  · rw [h.filter] at hfilter
    exact .inl (mem_exprs.2 (.inr (.inr (.inl hfilter))))
  · rw [groupExprs, h.groupBy, groupExprs_relabel] at hgroup
    exact .inl (mem_exprs.2 (.inr (.inr (.inr (.inl hgroup)))))
  · rcases h.orderBy_cases with hsame | hnames
    · rw [orderExprs, hsame] at horder
      exact .inl (mem_exprs.2 (.inr (.inr (.inr (.inr horder)))))
    · rcases List.mem_map.1 horder with ⟨k, hk, rfl⟩
      exact .inr (hnames k hk)

/-- A projection reads what its child reads. -/
theorem Projects.reads_child (h : Projects parent child merged) :
    ∀ e ∈ merged.exprs, ∀ r ∈ e.lineage.columns, r ∈ child.columnRefs := by
  intro e he r hr
  rcases h.exprs_cases he with hchild | ⟨n, rfl⟩
  · exact mem_columnRefs_of_mem_exprs hchild hr
  · cases hr

theorem Inlines.reads_child_of_substituted (h : Inlines parent child merged) {e : Expr}
    (he : e ∈ parent.exprs) {r : ColumnRef}
    (hr : r ∈ (e.substitute (columnSubstitution parent.sourceName child)).lineage.columns) :
    r ∈ child.columnRefs := by
  rcases mem_columns_substitute hr with ⟨ref, href, ⟨-, hnone⟩ | ⟨-, hchild⟩⟩
  · rcases h.covered ref (mem_columnRefs_of_mem_exprs he href) with ⟨d, hget⟩
    rw [hnone] at hget
    cases hget
  · exact hchild

/-- A conjunction reads what its parts read. -/
theorem mem_columns_conjoin {l r : Option Expr} {e : Expr} (h : Expr.conjoin l r = some e)
    {x : ColumnRef} (hx : x ∈ e.lineage.columns) :
    ∃ d, (l = some d ∨ r = some d) ∧ x ∈ d.lineage.columns := by
  unfold Expr.conjoin at h
  split at h
  · exact ⟨e, .inr h, hx⟩
  · exact ⟨e, .inl h, hx⟩
  · cases h
    rw [Expr.lineage_columns_eq] at hx
    simp only [Expr.ownLineage, Expr.children, List.nil_append, List.flatMap_append,
      List.flatMap_singleton, List.mem_append] at hx
    rcases hx with hx | hx
    · refine ⟨_, .inl rfl, ?_⟩
      rw [Expr.lineage_columns_eq]
      exact hx
    · exact ⟨_, .inr rfl, hx⟩
  · cases h
    rw [Expr.lineage_columns_eq] at hx
    simp only [Expr.ownLineage, Expr.children, List.nil_append, List.flatMap_cons,
      List.flatMap_nil, List.append_nil, List.mem_append] at hx
    rcases hx with hx | hx
    · exact ⟨_, .inl rfl, hx⟩
    · exact ⟨_, .inr rfl, hx⟩

/-- The expressions of what is merged by inlining are those of the child, those of the parent with
the child's columns inlined, the conjunction of the filters, or output names. -/
theorem Inlines.exprs_cases (h : Inlines parent child merged) {e : Expr} (he : e ∈ merged.exprs) :
    e ∈ child.exprs ∨
      (∃ d ∈ parent.exprs, e = d.substitute (columnSubstitution parent.sourceName child)) ∨
      Expr.conjoin child.filter
        (parent.filter.map (Expr.substitute (columnSubstitution parent.sourceName child))) =
          some e ∨
      ∃ n, e = .name n := by
  rcases mem_exprs.1 he with hselect | hcondition | hfilter | hgroup | horder
  · rw [selectExprs, h.columns, substituteColumns, List.map_map] at hselect
    rcases List.mem_map.1 hselect with ⟨c, hc, rfl⟩
    exact .inr (.inl ⟨c.expr, mem_exprs.2 (.inl (List.mem_map_of_mem hc)), rfl⟩)
  · rw [conditions, h.sources.2.2] at hcondition
    exact .inl (mem_exprs.2 (.inr (.inl hcondition)))
  · rw [h.filter] at hfilter
    exact .inr (.inr (.inl hfilter))
  · rw [groupExprs, h.groupBy] at hgroup
    split at hgroup
    · rw [groupExprs_relabel] at hgroup
      exact .inl (mem_exprs.2 (.inr (.inr (.inr (.inl hgroup)))))
    · rw [substituteColumns, List.map_map] at hgroup
      rcases List.mem_map.1 hgroup with ⟨g, hg, rfl⟩
      exact .inr (.inl ⟨g.expr, mem_exprs.2 (.inr (.inr (.inr (.inl (List.mem_map_of_mem hg))))),
        rfl⟩)
  · rcases List.mem_map.1 horder with ⟨k, hk, rfl⟩
    exact .inr (.inr (.inr (orderBy_names h k hk)))

/-- What is merged by inlining reads what the child reads. -/
theorem Inlines.reads_child (h : Inlines parent child merged) :
    ∀ e ∈ merged.exprs, ∀ r ∈ e.lineage.columns, r ∈ child.columnRefs := by
  intro e he r hr
  rcases h.exprs_cases he with hchild | ⟨d, hd, rfl⟩ | hfilter | ⟨n, rfl⟩
  · exact mem_columnRefs_of_mem_exprs hchild hr
  · exact h.reads_child_of_substituted hd hr
  · rcases mem_columns_conjoin hfilter hr with ⟨d, hd | hd, hrd⟩
    · exact mem_columnRefs_of_mem_exprs (mem_exprs.2 (.inr (.inr (.inl hd)))) hrd
    · rcases Option.map_eq_some_iff.1 hd with ⟨d₀, hd₀, rfl⟩
      exact h.reads_child_of_substituted (mem_exprs.2 (.inr (.inr (.inl hd₀)))) hrd
  · cases hr

section Replacing

variable {place : Nat} {name : String} (h : s.Replaces place name child merged)

include h

/-- A plain projection reads its one source. -/
theorem Replaces.table_of_child_reads (hchild : child.ResolvesColumns) {r : ColumnRef}
    (hr : r ∈ child.columnRefs) : r.table = child.sourceName ∧ child.source.Offers r.column := by
  have hjoins := (isPlain_of_isPlainProjection h.plain).joins
  rcases hchild r hr with ⟨source, hsource, hoffers⟩
  rw [source?, sources, hjoins, List.map_nil, List.lookup_cons, List.lookup_nil] at hsource
  by_cases htable : r.table = child.sourceName
  · rw [htable, beq_self_eq_true] at hsource
    cases hsource
    exact ⟨htable, hoffers⟩
  · rw [beq_eq_false_iff_ne.2 htable] at hsource
    cases hsource

/-- The name of a replaced source belongs to its new source. -/
theorem Replaces.source?_new : merged.source? child.sourceName = some child.source := by
  rcases h.sources_split with ⟨before, after, rfl, hsources, hmerged⟩
  have hfree := h.name_free
  rw [sourceNames_eq_map, hsources, List.map_append, List.map_cons, ← List.length_map Prod.fst,
    eraseIdx_split, List.mem_append, not_or] at hfree
  have hnone : before.lookup child.sourceName = none := by
    refine List.lookup_eq_none_iff.2 ?_
    intro p hp
    have hne : child.sourceName ≠ p.1 := by
      intro heq
      exact hfree.1 (heq ▸ List.mem_map_of_mem hp)
    exact bne_iff_ne.2 hne
  rw [source?, hmerged, List.lookup_append, hnone, Option.none_or, List.lookup_cons,
    beq_self_eq_true]

/-- The other sources are still found under their names. -/
theorem Replaces.source?_other {table : String} {source : Node}
    (hsource : s.source? table = some source) (hne : table ≠ name) :
    merged.source? table = some source := by
  have hmem : table ∈ s.sourceNames := by
    rcases List.lookup_eq_some_iff.1 hsource with ⟨before, after, hsources, -⟩
    rw [sourceNames_eq_map, hsources]
    simp
  have hnew := h.ne_of_mem hmem hne
  rcases h.sources_split with ⟨before, after, rfl, hsources, hmerged⟩
  rw [source?, hsources, List.lookup_append, List.lookup_cons, beq_eq_false_iff_ne.2 hne] at hsource
  rw [source?, hmerged, List.lookup_append, List.lookup_cons, beq_eq_false_iff_ne.2 hnew]
  exact hsource

theorem Replaces.resolves (hs : s.ResolvesColumns) (hchild : child.ResolvesColumns) :
    merged.ResolvesColumns := by
  intro r' hr'
  rcases List.mem_flatMap.1 hr' with ⟨e', he', hre'⟩
  rw [h.exprs] at he'
  rcases List.mem_map.1 he' with ⟨e, he, rfl⟩
  rcases mem_columns_substitute hre' with ⟨r, hre, ⟨rfl, hnone⟩ | ⟨-, hread⟩⟩
  · have hr := mem_columnRefs_of_mem_exprs he hre
    have htable : r'.table ≠ name := by
      intro htable
      rcases h.covered r' hr htable with ⟨d, hget⟩
      rw [hnone] at hget
      cases hget
    rcases hs r' hr with ⟨source, hsource, hoffers⟩
    exact ⟨source, h.source?_other hsource htable, hoffers⟩
  · rcases h.table_of_child_reads hchild hread with ⟨htable, hoffers⟩
    exact ⟨child.source, htable ▸ h.source?_new, hoffers⟩

end Replacing

theorem lineage_dropQualifiersIfSame (columns : List NamedExpr) (e : Expr) :
    (dropQualifiersIfSame columns e).lineage = e.lineage := by
  unfold dropQualifiersIfSame
  split
  · exact Expr.lineage_setQualified false e
  · rfl

/-- Dropping qualifiers keeps what is read. -/
theorem columnRefs_dropQualifiers {σ : Type} (s : Select σ) :
    s.dropQualifiers.columnRefs = s.columnRefs := by
  unfold dropQualifiers
  split
  · simp only [columnRefs, exprs, selectExprs, conditions, groupExprs, orderExprs, List.map_map,
      List.flatMap_append, List.flatMap_map, Option.toList_map, Function.comp_def,
      Expr.lineage_setQualified, lineage_dropQualifiersIfSame]
  · rfl

theorem resolves_dropQualifiers (hs : s.ResolvesColumns) : s.dropQualifiers.ResolvesColumns := by
  intro r hr
  rw [columnRefs_dropQualifiers] at hr
  have hsources : s.dropQualifiers.sources = s.sources := by
    unfold dropQualifiers
    split
    · rfl
    · rfl
  rw [source?, hsources]
  exact hs r hr

end Select

/-- **A step keeps references resolved.** -/
theorem RewriteStep.resolves {s merged : Statement} (hstep : RewriteStep s merged)
    (h : (Node.select s).Everywhere Node.ResolvesColumns) : merged.ResolvesColumns := by
  have hs : s.ResolvesColumns := h.self
  have hbelow : ∀ child, .select child ∈ (Node.select s).parents → child.ResolvesColumns :=
    fun child hchild => h _ (Node.mem_subnodes_of_mem_parents hchild)
  cases hstep with
  | drop => exact Select.resolves_dropQualifiers hs
  | merge hstep =>
      cases hstep with
      | project hsource hproject =>
          have hchild := hbelow _ (Select.child_mem_parents hsource)
          exact Select.resolves_of_child hchild hproject.sources hproject.reads_child
      | inline _ hsource hinline =>
          have hchild := hbelow _ (Select.child_mem_parents hsource)
          exact Select.resolves_of_child hchild hinline.sources hinline.reads_child
      | replace hreplace => exact hreplace.resolves hs (hbelow _ hreplace.child_mem_parents)

/-! ## Building -/

namespace Rebuilder

variable {r : Rebuilder} {plan : Node} {done : Std.TreeMap NodeId Node}

/-- What is built for a node wraps what is built for the statement that the node wraps. -/
theorem Sound.exists_unwrapped (hsound : r.Sound plan done) (n : Node) : n ∈ plan.subnodes →
    ∀ n', done[n.id]? = some n' → ∀ u', n'.unwrapped = .select u' →
      ∃ u, n.unwrapped = .select u ∧ .select u ∈ plan.subnodes ∧ done[u.id]? = some (.select u') := by
  induction n using Node.induct_parents with
  | h n ih =>
      intro hn n' hdone u' hu'
      have hforms := hsound n hn n' hdone
      cases n with
      | table | text =>
          rw [show n' = _ from hforms] at hu'
          cases hu'
      | select s =>
          rcases hforms.exists_prepares with ⟨s₀, -, rfl⟩
          cases hu'
          exact ⟨s, rfl, hn, hdone⟩
      | cte c =>
          rcases hforms with ⟨id, body, hbody, rfl⟩
          exact ih c.body (by simp [Node.parents]) (Node.body_mem_subnodes hn) body hbody u' hu'
      | createTable id t query =>
          rcases hforms with ⟨id', query', hquery, rfl⟩
          exact ih query (by simp [Node.parents]) (Node.query_mem_subnodes hn) query' hquery u' hu'

namespace Prepares

variable {s s₀ : Statement} (h : r.Prepares done s s₀)

include h

theorem conditions_eq : s₀.conditions = s.conditions := by
  have hconditions : s₀.joins.map Join.condition = s.joins.map Join.condition := by
    refine map_eq_of_forall₂ h.joins ?_
    rintro j - j' ⟨source, -, rfl⟩
    rfl
  have hsome : ∀ js : List (Join Node),
      js.filterMap Join.condition = (js.map Join.condition).filterMap id := by
    intro js
    rw [List.filterMap_map]
    rfl
  rw [Select.conditions, Select.conditions, hsome, hsome, hconditions]

/-- The sources of a prepared statement have been built for those of the given one. -/
theorem sources_match :
    List.Forall₂ (fun p p' : String × Node => p'.1 = p.1 ∧ done[p.2.id]? = some p'.2) s.sources
      s₀.sources := by
  have hname : s₀.sourceName = s.sourceName := by rw [h.clauses]
  refine .cons ⟨hname, h.source⟩ ?_
  rw [List.forall₂_map_left_iff, List.forall₂_map_right_iff]
  refine h.joins.imp ?_
  rintro j j' ⟨source, hsource, rfl⟩
  exact ⟨rfl, hsource⟩

/-- Apart from the select list, a prepared statement has the expressions of the given one. -/
theorem mem_exprs_iff {e : Expr} : e ∈ s₀.exprs ↔ e ∈ s₀.selectExprs ∨ e ∈ s.conditions ∨
    s.filter = some e ∨ e ∈ s.groupExprs ∨ e ∈ s.orderExprs := by
  have hfilter : s₀.filter = s.filter := by rw [h.clauses]
  have hgroup : s₀.groupExprs = s.groupExprs := by rw [h.clauses]; rfl
  have horder : s₀.orderExprs = s.orderExprs := by rw [h.clauses]; rfl
  rw [Select.mem_exprs, h.conditions_eq, hfilter, hgroup, horder]

/-- A prepared statement resolves what it reads, if what it reads of a source is still there. -/
theorem resolves (hsound : r.Sound plan done) (hs : .select s ∈ plan.subnodes)
    (hresolves : s.ResolvesColumns) (hreads : ∀ e ∈ s₀.exprs, e ∈ s.exprs)
    (hkept : ∀ e ∈ s₀.exprs, ∀ ref ∈ e.lineage.columns, ∀ source,
      s.source? ref.table = some source → ∀ u, source.unwrapped = .select u →
      ref.column ∈ u.columnNames → ∀ u', .select u ∈ plan.subnodes →
      done[u.id]? = some (.select u') → ref.column ∈ u'.columnNames) :
    s₀.ResolvesColumns := by
  intro ref href
  rcases List.mem_flatMap.1 href with ⟨e, he, hre⟩
  rcases hresolves ref (Select.mem_columnRefs_of_mem_exprs (hreads e he) hre) with
    ⟨source, hsource, hoffers⟩
  rcases exists_lookup_of_forall₂ (R := fun n n' : Node => done[n.id]? = some n') h.sources_match
    hsource with ⟨source', hsource', hdone⟩
  refine ⟨source', hsource', Node.offers_iff.2 ?_⟩
  intro u' hu'
  have hplan := Select.mem_subnodes_of_mem_sourceNodes hs (Select.mem_sourceNodes_of_source? hsource)
  rcases hsound.exists_unwrapped source hplan source' hdone u' hu' with ⟨u, hu, hmem, hbuilt⟩
  exact hkept e he ref hre source hsource u hu (Node.offers_iff.1 hoffers u hu) u' hmem hbuilt

end Prepares

theorem Forms.resolves_of_not_select {n n' : Node} (h : r.Forms done n n')
    (hselect : n.isSelect = false) : n'.ResolvesColumns := by
  have hsame := h.isSelect_eq.trans hselect
  cases n' with
  | select s => cases hsame
  | table | text | cte | createTable => trivial

/-- Passes that rewrite keep the output names of every statement. -/
theorem Rewrites.columnNames_eq (hrewrites : r.Rewrites) (hsound : r.Sound plan done)
    {u u' : Statement} (hu : .select u ∈ plan.subnodes) (hdone : done[u.id]? = some (.select u')) :
    u'.columnNames = u.columnNames := by
  rcases (hsound (.select u) hu _ hdone).exists_prepares with ⟨u₀, hprepares, heq⟩
  cases heq
  rw [RewriteStep.series_columnNames (hrewrites.steps u₀), Select.columnNames, Select.columnNames,
    hrewrites.columns_eq hprepares]

/-- Passes that rewrite keep references resolved. -/
theorem Rewrites.keepsResolved (hrewrites : r.Rewrites)
    (hplan : plan.Everywhere Node.ResolvesColumns) (hsound : r.Sound plan done) :
    r.Keeps Node.ResolvesColumns plan done where
  other n _ hselect n' hforms := hforms.resolves_of_not_select hselect
  prepared s hs s₀ h := by
    refine h.resolves hsound hs (hplan _ hs) ?_ ?_
    · intro e he
      rw [h.mem_exprs_iff, Select.selectExprs, hrewrites.columns_eq h] at he
      exact Select.mem_exprs.2 he
    · intro e _ ref _ source _ u _ hcolumn u' hu hdone
      rwa [hrewrites.columnNames_eq hsound hu hdone]
  finished := hrewrites.finished RewriteStep.resolves

end Rebuilder

/-! ## Pruning -/

namespace Propagation

/-- What is required of a node is required of the statement that it wraps. -/
theorem Finished.requires_unwrapped {plan root : Node} {p : Propagation} {x : String}
    (h : Finished plan root p) (hids : plan.IdsIdentify) (n : Node) : n ∈ plan.subnodes →
    ∀ u, n.unwrapped = .select u → p.Requires n.id x → p.Requires u.id x := by
  induction n using Node.induct_parents with
  | h n ih =>
      intro hn u hu hx
      cases n with
      | table | text => cases hu
      | select s =>
          cases hu
          exact hx
      | cte c =>
          exact ih c.body (by simp [Node.parents]) (Node.body_mem_subnodes hn) u hu
            (h.requires_body hids hn hx)
      | createTable id t query =>
          exact ih query (by simp [Node.parents]) (Node.query_mem_subnodes hn) u hu
            (h.requires_query hn hx)

end Propagation

namespace Pruning

variable {required : Requirements} {plan : Node} {done : Std.TreeMap NodeId Node}

/-- A statement reads, after pruning, only what it needs for the columns required of it. -/
theorem needs_of_mem_exprs {scope : Scope} {s s₀ : Statement}
    (h : (Pruning.rebuilder required).Prepares done s s₀) (hclosed : required.ClosedAt scope s)
    {e : Expr} (he : e ∈ s₀.exprs) : s.Needs (required.names s.id) e := by
  rcases h.mem_exprs_iff.1 he with hselect | hrest
  · rcases List.mem_map.1 hselect with ⟨c, hc, rfl⟩
    rcases Pruning.columns_eq_ok_iff.1 h.columns with ⟨-, -, hcolumns⟩
    rw [hcolumns] at hc
    rcases Pruning.mem_kept.1 hc with ⟨hmem, hrequired | hgrouped⟩
    · exact .inl ⟨c, hmem, hrequired, rfl⟩
    · rcases List.mem_map.1 hgrouped with ⟨g, hg, hname⟩
      exact .inl ⟨c, hmem, hname ▸ hclosed.groups g hg, rfl⟩
  · exact .inr hrest

theorem mem_exprs_of_needs {s : Statement} {names : NameSet} {e : Expr} (h : s.Needs names e) :
    e ∈ s.exprs :=
  Select.requiredExprs_subset names (Select.needs_iff.1 h)

/-- Pruning keeps references resolved: what is read is required, and what is required is kept. -/
theorem keepsResolved (hids : plan.IdsIdentify) (hplan : plan.Everywhere Node.ResolvesColumns)
    (hrequired : Requirements.ofPlan plan plan = .ok (some required))
    (hsound : (Pruning.rebuilder required).Sound plan done) :
    (Pruning.rebuilder required).Keeps Node.ResolvesColumns plan done where
  other n _ hselect n' hforms := hforms.resolves_of_not_select hselect
  prepared s hs s₀ h := by
    rcases Requirements.exists_finished hids (Node.mem_subnodes_self plan) hrequired with
      ⟨p, rfl, hp⟩
    rcases Pruning.columns_eq_ok_iff.1 h.columns with ⟨hentry, -, -⟩
    rcases hp.consistent.exists_serves hs (hp.isSettled hs hentry) with ⟨set, hset, hserves⟩
    rcases Requirements.closedAt_of_serves hset hserves with ⟨scope, -, hclosed⟩
    have hneeds : ∀ e ∈ s₀.exprs, s.Needs (p.required.names s.id) e :=
      fun e he => needs_of_mem_exprs h hclosed he
    refine h.resolves hsound hs (hplan _ hs) (fun e he => mem_exprs_of_needs (hneeds e he)) ?_
    intro e he ref hre source hsource u hu hcolumn u' hmem hdone
    -- the column is required of the source, hence of the statement that the source wraps
    rcases Expr.mem_lineage_columns.1 hre with ⟨q, hq⟩
    have hrequires := (hclosed.columns e (hneeds e he) ref q hq source hsource).1
    have hsub := Select.mem_subnodes_of_mem_sourceNodes hs (Select.mem_sourceNodes_of_source? hsource)
    have hbelow := hp.requires_unwrapped hids source hsub u hu hrequires
    rcases (hsound (.select u) hmem _ hdone).exists_prepares with ⟨u₀, hprepares, heq⟩
    cases heq
    rcases Pruning.columns_eq_ok_iff.1 hprepares.columns with ⟨-, -, hcolumns⟩
    rcases List.mem_map.1 hcolumn with ⟨c, hc, hname⟩
    refine List.mem_map.2 ⟨c, ?_, hname⟩
    show c ∈ u₀.columns
    rw [hcolumns]
    exact Pruning.mem_kept.2 ⟨hc, .inl (hname ▸ hbelow)⟩
  finished s₀ h := h.self

end Pruning

/-! ## All passes -/

/-- **No reference is left dangling.**  Where every column that a plan reads is resolved, every
column that the optimised plan reads is.  The first free identity must be free. -/
theorem optimize_resolves {c : Config} {plan plan' : Plan} {next next' : NodeId}
    (hids : plan.root.IdsIdentify) (hnext : plan.root.IdsBelow next)
    (hresolves : plan.root.Everywhere Node.ResolvesColumns)
    (h : optimize c plan next = .ok (plan', next')) :
    plan'.root.Everywhere Node.ResolvesColumns := by
  have hsane' : plan'.root.Sane Node.ResolvesColumns next' := by
    refine optimize_sane ?_ ?_ ⟨hids, hnext, hresolves⟩ h
    · intro n required done hids hn hrequired hsound
      exact Pruning.keepsResolved hids hn hrequired hsound
    · intro r n done hrewrites hn hsound
      exact hrewrites.keepsResolved hn hsound
  exact hsane'.everywhere

/-- Both sources of the statement change their names, and every reference follows. -/
theorem optimize_resolves_joinedProjections :
    (Node.select .joinedProjections).Everywhere Node.ResolvesColumns ∧
      ∃ plan' next', optimize {} ⟨⟨0⟩, .select .joinedProjections⟩ 9 = .ok (plan', next') ∧
        plan'.root.select?.map Select.columnRefs =
          some [⟨"c", "u"⟩, ⟨"e", "v"⟩, ⟨"c", "v"⟩, ⟨"e", "v"⟩] ∧
        plan'.root.Everywhere Node.ResolvesColumns := by
  have hresolves : (Node.select .joinedProjections).Everywhere Node.ResolvesColumns := by
    unfold Node.Everywhere
    decide
  have hruns : (optimize {} ⟨⟨0⟩, .select .joinedProjections⟩ 9).toOption.bind
      (fun out => out.1.root.select?.map Select.columnRefs) =
        some [⟨"c", "u"⟩, ⟨"e", "v"⟩, ⟨"c", "v"⟩, ⟨"e", "v"⟩] := by
    decide +kernel
  rcases exists_ok_of_toOption_bind hruns with ⟨⟨plan', next'⟩, hout, hrefs⟩
  exact ⟨hresolves, plan', next', hout, hrefs,
    optimize_resolves idsIdentify_joinedProjections idsBelow_joinedProjections hresolves hout⟩

end QueryPlan
