import QueryPlan.Proofs.Aggregation
import QueryPlan.Proofs.Contexts
import QueryPlan.Proofs.InlinedRows

/-!
# Merging a projection keeps the rows

A parent that only picks and renames columns of its child is merged with it as a projection.  This
file shows that the merged statement has the rows of the parent over the rows of the child, whatever
the child's expressions mean at its contexts: it may group, aggregate, number rows by windows, and
be `DISTINCT`.

Both sides start from the contexts of the child, and each context is shown as the same row
(`output_projected`).  The child removes repetitions by all of its columns and the merged statement
by those that are shown, which comes to the same since they must all be shown
(`output_projected_eq_iff`).  If the parent sorts, the child does not, and the merged statement sorts
by output columns what the parent sorts by columns of the child (`orderValues_of_parent`); otherwise
it has the sort keys of the child, which do not look at the output (`orderValues_of_child`).
-/

namespace QueryPlan

namespace Select

variable {σ κ V : Type} {parent child merged : Select σ} {I : Interpretation V} {m : Meaning κ V}
  {m' : Meaning (Row V) V}

/-! ## Rows -/

/-- What the parent shows of a row of the child is the value of the child's column at the context. -/
theorem value_of_shownColumn? (hreads : m'.ReadsRows I parent.sourceName) {p d : NamedExpr}
    (hshown : parent.shownColumn? child p = some d) (rows : List (Row V)) (cs : List κ) (c : κ) :
    m'.value rows (child.output m cs c) p.expr = m.value cs c d.expr := by
  rcases shownColumn?_eq_some.1 hshown with ⟨r, hr, htable, hcolumn⟩
  rcases Expr.eq_column_of_columnRef? hr with ⟨q, hq⟩
  rw [hq, hreads.value rows _ r q htable, valueIn_output, hcolumn]
  rfl

/-- A context of the child is shown as the same row on both sides. -/
theorem output_projected (h : Projects parent child merged)
    (hreads : m'.ReadsRows I parent.sourceName) (rows : List (Row V)) (cs : List κ) (c : κ) :
    parent.output m' rows (child.output m cs c) = merged.output m cs c := by
  rcases h.shown with ⟨shown, hshown, -, hcolumns⟩
  have hmerged : merged.output m cs c =
      (List.zipWith (fun p d : NamedExpr => { d with name := p.name }) parent.columns shown).map
        fun column => (column.name, m.value cs c column.expr) := by
    rw [output, hcolumns]
  refine (hmerged.trans (map_zipWith_of_forall₂ (forall₂_of_mapM_eq_some hshown) ?_)).symm
  intro p d hpd
  rw [value_of_shownColumn? hreads hpd]

/-- The values of the child's columns at two contexts are equal if those of the merged statement
are, provided that all are shown. -/
theorem output_projected_eq_iff (h : Projects parent child merged)
    (hreads : m'.ReadsRows I parent.sourceName) (hnames : child.columnNames.Nodup)
    (hdistinct : child.distinct = true) (cs : List κ) (a b : κ) :
    merged.output m cs a = merged.output m cs b ↔ child.output m cs a = child.output m cs b := by
  constructor
  · intro heq
    rcases h.shown with ⟨shown, hshown, hsurvives, hcolumns⟩
    have hmatch := forall₂_of_mapM_eq_some hshown
    simp only [survives, hdistinct, Bool.not_true, Bool.false_or, Bool.and_eq_true,
      List.all_eq_true, List.contains_eq_mem, decide_eq_true_eq] at hsurvives
    refine List.map_congr_left ?_
    intro d hd
    -- the shown column with the name of `d` is `d` itself
    rcases List.mem_map.1 (hsurvives.1 d hd) with ⟨d', hd', hname⟩
    rcases exists_left_of_forall₂ hmatch d' hd' with ⟨p, -, hpd'⟩
    rcases shownColumn?_eq_some.1 hpd' with ⟨r, -, -, hcolumn⟩
    have hsame : d' = d := by
      have hfirst := find?_name_of_nodup hnames (List.mem_of_find?_eq_some hcolumn)
      rw [hname, find?_name_of_nodup hnames hd] at hfirst
      exact (Option.some.inj hfirst).symm
    have hexpr : d.expr ∈ merged.columns.map NamedExpr.expr := by
      rw [hcolumns, map_expr_zipWith hmatch, ← hsame]
      exact List.mem_map_of_mem hd'
    rcases List.mem_map.1 hexpr with ⟨c, hc, hce⟩
    have hvalue := congrArg Prod.snd (List.map_inj_left.1 heq c hc)
    rw [← hce]
    exact congrArg (d.name, ·) hvalue
  · intro heq
    rw [← output_projected h hreads [] cs a, ← output_projected h hreads [] cs b, heq]

/-- Both sides remove the same repetitions. -/
theorem remaining_projected [DecidableEq V] (h : Projects parent child merged)
    (hreads : m'.ReadsRows I parent.sourceName) (hnames : child.columnNames.Nodup) (cs : List κ) :
    merged.remaining m cs = child.remaining m cs := by
  rw [remaining, remaining, h.distinct]
  by_cases hdistinct : child.distinct = true
  · rw [if_pos hdistinct, if_pos hdistinct]
    refine distinctBy_congr ?_
    intro a _ b _
    exact output_projected_eq_iff h hreads hnames hdistinct cs a b
  · rw [if_neg hdistinct, if_neg hdistinct]

/-! ## Sort keys -/

/-- The child's own sort keys do not look at the output, so they may stand below another select
list. -/
theorem orderValues_of_child (h : Projects parent child merged) (hm : m.Lawful I)
    (hraws : child.sortLineage.raws = []) (horder : parent.orderBy = []) (cs : List κ) (c : κ) :
    merged.orderValues m cs c = child.orderValues m cs c := by
  have hkeys : merged.orderBy = child.orderBy := by
    have hmap := h.order
    rw [projectedOrder?, if_pos (by simp [horder]), Option.some.injEq] at hmap
    exact hmap.symm
  have hnames := h.child_order_unnamed
  rw [sortLineage, Expr.lineages, Lineage.combine_names, List.flatMap_eq_nil_iff,
    List.forall_mem_map] at hnames
  rw [sortLineage, Expr.lineages, Lineage.combine_raws, List.flatMap_eq_nil_iff,
    List.forall_mem_map] at hraws
  rw [orderValues, orderValues, hkeys]
  refine List.map_congr_left ?_
  intro k hk
  have hk := List.mem_map_of_mem (f := SortKey.expr) hk
  rw [hm.blind cs c _ (child.output m cs c) k.expr (hnames _ hk) (hraws _ hk)]

/-- A sort key of the parent has the value of the output column that is put in its place. -/
theorem key_of_sortName? (hm' : m'.Lawful I)
    (hreads : m'.ReadsRows I parent.sourceName) (hnames : parent.columnNames.Nodup) {e : Expr}
    {n : String} (hn : parent.sortName? e = some n) (rows : List (Row V)) (row : Row V) :
    m'.key rows row (parent.output m' rows row) e = I.valueIn (parent.output m' rows row) n := by
  cases e with
  | name u =>
      rcases Option.map_eq_some_iff.1 hn with ⟨p, hp, rfl⟩
      have hpu : p.name = u := by simpa using List.find?_some hp
      rw [hm'.name, hpu]
  | column r q =>
      by_cases htable : r.table = parent.sourceName
      · rw [sortName?, if_pos htable] at hn
        rcases Option.map_eq_some_iff.1 hn with ⟨p, hp, rfl⟩
        have hpr : p.expr.columnRef? = some r := by simpa using List.find?_some hp
        rcases Expr.eq_column_of_columnRef? hpr with ⟨q', hq'⟩
        have hcolumn : parent.column? p.name = some p :=
          find?_name_of_nodup hnames (List.mem_of_find?_eq_some hp)
        rw [hreads.key rows row _ r q htable, valueIn_output, hcolumn, Option.map_some,
          Option.getD_some, hq', hreads.value rows row r q' htable]
      · simp [sortName?, htable] at hn
  | _ => cases hn

/-- If the parent has an order, the child neither sorts nor cuts off, and the parent's keys become
output names. -/
theorem order_of_projects (h : Projects parent child merged) (horder : parent.orderBy ≠ []) :
    child.orderBy = [] ∧ child.limit = none ∧
      List.Forall₂ (fun k k' => ∃ n, parent.sortName? k.expr = some n ∧
        k' = { k with expr := .name n }) parent.orderBy merged.orderBy := by
  have hmap := h.order
  rw [projectedOrder?, if_neg (by simpa using horder)] at hmap
  by_cases hfree : (!child.orderBy.isEmpty || child.limit.isSome) = true
  · rw [if_pos hfree] at hmap
    cases hmap
  · rw [if_neg hfree] at hmap
    simp only [Bool.or_eq_true, Bool.not_eq_true', not_or, Bool.not_eq_false, List.isEmpty_iff,
      Option.not_isSome_iff_eq_none] at hfree
    refine ⟨hfree.1, hfree.2, (forall₂_of_mapM_eq_some hmap).imp ?_⟩
    intro k k' hk
    rcases Option.map_eq_some_iff.1 hk with ⟨n, hn, rfl⟩
    exact ⟨n, hn, rfl⟩

/-- If the parent has an order, the merged statement sorts as the parent does. -/
theorem orderValues_of_parent (h : Projects parent child merged) (hm : m.Lawful I)
    (hm' : m'.Lawful I) (hreads : m'.ReadsRows I parent.sourceName)
    (hnames : parent.columnNames.Nodup) (horder : parent.orderBy ≠ []) (rows : List (Row V))
    (cs : List κ) (c : κ) :
    merged.orderValues m cs c = parent.orderValues m' rows (child.output m cs c) := by
  refine map_eq_of_forall₂ (order_of_projects h horder).2.2 ?_
  rintro k _ _ ⟨n, hn, rfl⟩
  rw [hm.name, key_of_sortName? hm' hreads hnames hn, output_projected h hreads]

/-! ## The whole statement -/

/-- The merged statement has the contexts of the child. -/
theorem sameContexts_projected (h : Projects parent child merged)
    (hgroups : child.groupBy ≠ [] ∨ child.outputLineage.aggregate = false) :
    child.SameContexts merged where
  source := h.sources.1
  sourceName := h.sources.2.1
  joins := h.sources.2.2
  filter := h.filter
  groupExprs := by
    rw [groupExprs, h.groupBy, relabelGroupBy, List.map_map]
    rfl
  groupsRows := by
    have hkeeps : child.KeepsAggregate (parent.Shows child.column?) := by
      intro hnone hagg
      rcases hgroups with hsome | hplain
      · exact absurd hnone hsome
      · rw [hplain] at hagg
        cases hagg
    rw [(groupsRows_projected h).2 hkeeps, groupsRows_of_projects h, Bool.false_or]

variable [DecidableEq V]

/-- The parent is not `DISTINCT`, so it shows all rows of the child. -/
theorem remaining_parent (h : Projects parent child merged) (rows : List (Row V)) :
    parent.remaining m' rows = rows := by
  have hproj := h.is_projection
  simp only [isProjection, Bool.and_eq_true, Bool.not_eq_true'] at hproj
  rw [remaining, if_neg (by simp [hproj.2])]

/-- **The same rows in the same order.**  One of the two statements does not sort.  If it is the
parent, the merged statement sorts as the child does and the two limits are one; if it is the child,
it does not cut off either, and its rows may be sorted where their contexts are. -/
theorem rowsOver_projected (h : Projects parent child merged) (hm : m.Lawful I) (hm' : m'.Lawful I)
    (hreads : m'.ReadsRows I parent.sourceName) (hchild : child.columnNames.Nodup)
    (hparent : parent.orderBy ≠ [] → parent.columnNames.Nodup)
    (hraws : child.sortLineage.raws = []) (cs : List κ) :
    merged.rowsOver m I cs = parent.rowsOver m' I (child.rowsOver m I cs) := by
  have hrow : ∀ rows c, parent.output m' rows (child.output m cs c) = merged.output m cs c :=
    fun rows c => output_projected h hreads rows cs c
  rw [rowsOver, rowsOver, chosen, chosen, remaining_parent h, remaining_projected h hreads hchild,
    h.limit]
  by_cases horder : parent.orderBy = []
  · have hbefore : ∀ a b, merged.Precedes m I cs a b ↔ child.Precedes m I cs a b := by
      intro a b
      simp only [Precedes, orderValues_of_child h hm hraws horder]
    rw [insertionSort_of_forall (precedes_of_orderBy_nil m' I horder _), insertionSort_congr hbefore,
      rowsOver, chosen, ← map_cut, cut_cut, List.map_map]
    simp only [Function.comp_def, hrow]
  · rcases order_of_projects h horder with ⟨hnoOrder, hnoLimit, -⟩
    have hbefore : ∀ rows a b, merged.Precedes m I cs a b ↔
        parent.Precedes m' I rows (child.output m cs a) (child.output m cs b) := by
      intro rows a b
      simp only [Precedes, orderValues_of_parent h hm hm' hreads (hparent horder) horder rows]
    rw [rowsOver_of_unsorted m I hnoOrder hnoLimit, hnoLimit,
      ← List.map_insertionSort _ _ _ _ fun a _ b _ => hbefore _ a b, ← map_cut, List.map_map]
    simp only [Function.comp_def, hrow]
    cases parent.limit <;> rfl

end Select

/-- **Merging a projection keeps the rows.**  Let a parent be merged as a projection with a child
whose columns have different names, and which has groups or does not aggregate.  If the child does
not sort by uninterpreted SQL, and the parent's columns have different names where it sorts, then
the merged statement has the contexts of the child, those of the parent are the rows of the child,
and over every list of contexts, whatever expressions mean there, the merged statement has the rows
of the parent over the rows of the child: the same rows with the same column names in the same
order. -/
theorem rows_of_projection {κ V : Type} [DecidableEq V] (I : Interpretation V) {m : Meaning κ V}
    {m' : Meaning (Row V) V} {parent child merged : Statement}
    (hsource : parent.source = .select child)
    (hmerged : MergeRule.projection parent = some merged) (hchild : child.columnNames.Nodup)
    (hparent : parent.orderBy ≠ [] → parent.columnNames.Nodup)
    (hgroups : child.groupBy ≠ [] ∨ child.outputLineage.aggregate = false)
    (hraws : child.sortLineage.raws = []) (hm : m.Lawful I) (hm' : m'.Lawful I)
    (hreads : m'.ReadsRows I parent.sourceName) (cs : List κ) :
    child.SameContexts merged ∧
      (parent.joins = [] ∧ parent.filter = none ∧ parent.groupsRows = false) ∧
      merged.rowsOver m I cs = parent.rowsOver m' I (child.rowsOver m I cs) := by
  rcases MergeRule.projection_eq_some hmerged with ⟨child', hsource', h⟩
  obtain rfl : child = child' := by simpa [hsource] using hsource'
  refine ⟨Select.sameContexts_projected h hgroups, ?_,
    Select.rowsOver_projected h hm hm' hreads hchild hparent hraws cs⟩
  have hproj := h.is_projection
  simp only [Select.isProjection, Bool.and_eq_true, List.isEmpty_iff, Option.isNone_iff_eq_none]
    at hproj
  exact ⟨hproj.1.1.1, hproj.1.1.2, Select.groupsRows_of_projects h⟩

/-! ## An instance

A `DISTINCT` child that groups, counts and ranks its groups, below a parent that sorts and cuts off.
A context of the child is a group, given by its key and its size. -/

/-- Expressions are worth whatever a function says, but in sort keys names are output columns. -/
def Meaning.ofValue {κ V : Type} (I : Interpretation V) (f : List κ → κ → Expr → V) :
    Meaning κ V where
  value := f
  key cs c row e := (e.name?.map (I.valueIn row)).getD (f cs c e)

theorem Meaning.lawful_ofValue {κ V : Type} (I : Interpretation V) (f : List κ → κ → Expr → V) :
    (Meaning.ofValue I f).Lawful I where
  name _ _ _ _ := rfl
  blind cs c row row' e hnames _ := by
    cases e with
    | name n => cases hnames
    | _ => rfl

/-- A column is the key of the group, an aggregate its size, and a window its rank by size. -/
def groupValue (groups : List (Nat × Nat)) (g : Nat × Nat) : Expr → Nat
  | .column .. => g.1
  | .aggregate .. => g.2
  | .window .. => 1 + groups.countP fun g' => g.2 < g'.2
  | _ => 0

/-- A column is read in the row. -/
def rowValue (_ : List (Row Nat)) (row : Row Nat) : Expr → Nat
  | .column r _ => Interpretation.numbers.valueIn row r.column
  | _ => 0

/-- `SELECT DISTINCT b.x AS x, COUNT(*) AS n, RANK() OVER (ORDER BY COUNT(*) DESC) AS k FROM t b
GROUP BY b.x`. -/
def Select.rankedGroups : Statement :=
  { Select.plain 2 [⟨.column ⟨"b", "x"⟩ true, "x"⟩, ⟨.aggregate .count [], "n"⟩,
      ⟨.window .rank [] [] [⟨.aggregate .count [], true⟩], "k"⟩] (.table 1 ⟨none, "t"⟩) "b" with
    groupBy := [⟨.column ⟨"b", "x"⟩ true, "x"⟩]
    distinct := true }

/-- `SELECT a.k AS rank, a.x AS x, a.n AS many FROM rankedGroups a ORDER BY a.n DESC, x LIMIT 2`. -/
def Select.largestGroups : Statement :=
  { Select.plain 3 [⟨.column ⟨"a", "k"⟩ true, "rank"⟩, ⟨.column ⟨"a", "x"⟩ true, "x"⟩,
      ⟨.column ⟨"a", "n"⟩ true, "many"⟩] (.select .rankedGroups) "a" with
    orderBy := [⟨.column ⟨"a", "n"⟩ true, true⟩, ⟨.name "x", false⟩]
    limit := some 2 }

theorem rows_of_projection_largestGroups :
    ∃ merged, MergeRule.projection .largestGroups = some merged ∧
      Select.rankedGroups.SameContexts merged ∧
      merged.rowsOver (.ofValue .numbers groupValue) .numbers [(7, 2), (9, 5), (4, 5)] =
        Select.largestGroups.rowsOver (.ofValue .numbers rowValue) .numbers
          (Select.rankedGroups.rowsOver (.ofValue .numbers groupValue) .numbers
            [(7, 2), (9, 5), (4, 5)]) ∧
      merged.rowsOver (.ofValue .numbers groupValue) .numbers [(7, 2), (9, 5), (4, 5)] =
        [[("rank", 1), ("x", 4), ("many", 5)], [("rank", 1), ("x", 9), ("many", 5)]] := by
  refine ⟨_, rfl, ?_⟩
  have hsource : Select.largestGroups.source = .select .rankedGroups := rfl
  have hkept := rows_of_projection .numbers hsource rfl (by decide) (fun _ => by decide)
    (.inl (by decide)) rfl (Meaning.lawful_ofValue _ groupValue)
    (Meaning.lawful_ofValue _ rowValue) ⟨fun _ _ _ _ _ => rfl, fun _ _ _ _ _ _ => rfl⟩
    [(7, 2), (9, 5), (4, 5)]
  exact ⟨hkept.1, hkept.2.2, by decide⟩

end QueryPlan
