import QueryPlan.Proofs.Aggregation
import QueryPlan.Proofs.Contexts
import QueryPlan.Proofs.InlinedRows

/-!
# Inlining below groups keeps the rows

A parent that groups or aggregates can be merged by inlining with a child that looks at one row at a
time.  The parent's filter and grouping keys then apply to the environments of the child, and the
child's columns are put in place of the parent's references inside of aggregates as well.  This file
shows that the merged statement has the rows of the parent over the rows of the child.

* `Select.groups` — the groups of a statement: the environments that pass the filter, those with
  equal grouping keys together, in the order in which the keys first occur.  Without `GROUP BY`
  there is one group.
* `Select.result` — the rows of a statement, whether it groups or not.  An `Aggregation` says what
  an aggregate function makes of its arguments' values at the rows of a group.

The groups of the merged statement are those of the parent, environment by environment
(`groups_inlined`), and at corresponding groups every expression of the parent has the value of the
merged expression (`eval_inlined_group`).

Outside of aggregates a group is read at its first row.  The group of a statement without `GROUP BY`
may have no row at all, and then a column of the parent is `NULL` while the child's expression that
takes its place may be anything; so there must be a row, or no column outside of aggregates.
-/

namespace QueryPlan

/-! ## Groups -/

/-- What the aggregate functions make of the values that their arguments have at the rows of a
group. -/
abbrev Aggregation (V : Type) := AggregateFunction → List (List V) → V

/-- Whether an expression reads a column outside of aggregates and windows. -/
def Expr.hasBareColumn (e : Expr) : Bool :=
  e.surface.any fun d => d.columnRef?.isSome

/-- Outside of groups, an aggregate is over no rows. -/
def Interpretation.aggregating {V : Type} (I : Interpretation V) (A : Aggregation V) :
    Interpretation V :=
  { I with aggregate := fun f _ _ => A f [] }

section Readings

variable {V : Type} (I : Interpretation V) (A : Aggregation V)

/-- How expressions are read at a group: aggregates at all its rows, the rest at the first one.  If
there is none, all columns are `NULL`. -/
def groupReading (group : List (Env V)) (output : Row V) : Reading V :=
  { (group.headD fun _ => []).reading I output with
    aggregate := fun f args =>
      A f (group.map fun env => args.map fun e => e.eval I (env.reading I [])) }

/-- Groups as contexts. -/
def Meaning.ofGroups : Meaning (List (Env V)) V where
  value _ group e := e.eval I (groupReading I A group [])
  key _ group row e := e.eval I (groupReading I A group row)

/-- What an expression without output names is worth at a group does not depend on the output. -/
theorem eval_group_output {e : Expr} (hnames : e.lineage.names = []) (group : List (Env V))
    (output : Row V) :
    e.eval I (groupReading I A group output) = e.eval I (groupReading I A group []) :=
  Expr.eval_unnamed I hnames (.inr rfl) rfl rfl rfl

/-- What an expression without aggregates and names is worth at a group is its value at the first
row. -/
theorem eval_group_cons {e : Expr} (hnames : e.lineage.names = [])
    (hagg : e.lineage.aggregate = false) (env : Env V) (group : List (Env V)) (output : Row V) :
    e.eval I (groupReading I A (env :: group) output) = e.eval I (env.reading I []) :=
  Expr.eval_unnamed I hnames (.inl hagg) rfl rfl rfl

end Readings

namespace Select

variable {σ V : Type} {parent child merged : Select σ}

/-- Whether a statement looks at rows and groups of rows and at nothing else: it has no windows and
no uninterpreted SQL. -/
def isGroupWise (s : Select σ) : Bool :=
  s.exprs.all fun e => e.lineage.raws.isEmpty && !e.lineage.window

section Grouping

variable (I : Interpretation V)

/-- The values of the grouping keys at an environment. -/
def groupKey (s : Select σ) (env : Env V) : List V :=
  s.groupExprs.map fun e => e.eval I (env.reading I [])

variable [DecidableEq V]

/-- The environments that have the grouping keys of a given one. -/
def groupOf (s : Select σ) (kept : List (Env V)) (env : Env V) : List (Env V) :=
  kept.filter fun env' => s.groupKey I env' = s.groupKey I env

/-- The groups of a statement, in the order in which their keys first occur. -/
def groups (s : Select σ) (envs : List (Env V)) : List (List (Env V)) :=
  if s.groupBy.isEmpty then [envs.filter (s.holds I)]
  else (distinctBy (s.groupKey I) (envs.filter (s.holds I))).map
    (s.groupOf I (envs.filter (s.holds I)))

/-- The rows of a statement over a list of environments: those of its groups if it groups or
aggregates, or else those of the environments themselves. -/
def result (A : Aggregation V) (s : Select σ) (envs : List (Env V)) : List (Row V) :=
  if s.groupsRows then
    s.rowsOver (.ofGroups (I.aggregating A) A) (I.aggregating A) (s.groups (I.aggregating A) envs)
  else s.rows (I.aggregating A) envs

/-- With `GROUP BY`, every group has a row. -/
theorem ne_nil_of_mem_groups {s : Select σ} (hgroupBy : s.groupBy ≠ []) {envs group : List (Env V)}
    (hgroup : group ∈ s.groups I envs) : group ≠ [] := by
  rw [groups, if_neg (by simpa using hgroupBy)] at hgroup
  rcases List.mem_map.1 hgroup with ⟨env, henv, rfl⟩
  have hself : env ∈ s.groupOf I (envs.filter (s.holds I)) env :=
    List.mem_filter.2 ⟨mem_of_mem_distinctBy henv, by simp⟩
  exact List.ne_nil_of_mem hself

/-- Groups correspond where filters and grouping keys do. -/
theorem groups_map {s t : Select σ} (φ : Env V → Env V) {kept envs : List (Env V)}
    (hgroupBy : t.groupBy.isEmpty = s.groupBy.isEmpty)
    (hkept : kept.filter (t.holds I) = (envs.filter (s.holds I)).map φ)
    (hkey : ∀ env, t.groupKey I (φ env) = s.groupKey I env) :
    t.groups I kept = (s.groups I envs).map (List.map φ) := by
  have hgroup : ∀ env, t.groupOf I ((envs.filter (s.holds I)).map φ) (φ env) =
      (s.groupOf I (envs.filter (s.holds I)) env).map φ := by
    intro env
    simp only [groupOf, List.filter_map, Function.comp_def, hkey]
  rw [groups, groups, hgroupBy, hkept]
  split
  · rfl
  · simp only [distinctBy_map, hkey, List.map_map, Function.comp_def, hgroup]

end Grouping

/-! ## Expressions at a group -/

section Values

variable {I : Interpretation V} {A : Aggregation V}
  (hA : ∀ f args env, I.aggregate f args env = A f [])

theorem lineage_of_isGroupWise {s : Select σ} (hs : s.isGroupWise = true) {e : Expr}
    (he : e ∈ s.exprs) : e.lineage.raws = [] ∧ e.lineage.window = false := by
  simp only [isGroupWise, List.all_eq_true, Bool.and_eq_true, List.isEmpty_iff,
    Bool.not_eq_true'] at hs
  exact hs e he

include hA

/-- At one row, what occurs in an expression of the parent has the value of what is put in its
place. -/
theorem eval_inlined_row (h : Inlines parent child merged) (hgroup : parent.isGroupWise = true)
    (hchild : child.columnNames.Nodup) {e a : Expr} (he : e ∈ parent.exprs) (ha : a ∈ e.walk)
    (env : Env V) (output : Row V) :
    (a.substitute (columnSubstitution parent.sourceName child)).eval I (env.reading I output) =
      a.eval I ((seen I parent child env).reading I output) := by
  rcases lineage_of_isGroupWise hgroup he with ⟨hraws, hwin⟩
  exact eval_inlined_of_mem_walk I h hchild he ha hraws hwin (.inr ⟨fun f => A f [], hA⟩) env output

/-- **Inlining is reading the child's rows.**  An expression of the parent with the child's columns
inlined has, at a group of environments of the child, the value that it has where the parent reads
the child's rows, unless it reads a column of a row that does not exist. -/
theorem eval_inlined_group (h : Inlines parent child merged) (hgroup : parent.isGroupWise = true)
    (hplain : child.isRowWise = true) (hchild : child.columnNames.Nodup) {e : Expr}
    (he : e ∈ parent.exprs) {group : List (Env V)}
    (hne : group ≠ [] ∨ e.hasBareColumn = false) (output : Row V) :
    (e.substitute (columnSubstitution parent.sourceName child)).eval I
        (groupReading I A group output) =
      e.eval I (groupReading I A (group.map (seen I parent child)) output) := by
  rcases lineage_of_isGroupWise hgroup he with ⟨hraws, hwin⟩
  refine Expr.eval_bindColumns_surface I _ _ _ e ?_
  intro d hd
  have hwalk := Expr.mem_walk_of_mem_surface hd
  cases d with
  | column r q =>
      have hr := mem_columnRefs_of_mem_exprs he (Expr.mem_lineage_columns.2 ⟨q, hwalk⟩)
      cases group with
      | nil =>
          have hbare : e.hasBareColumn = true := List.any_eq_true.2 ⟨_, hd, rfl⟩
          simp [hbare] at hne
      | cons env group =>
          -- the child's column is the same at the first row of the group as in the child's row
          obtain ⟨c, hc, hget, hvalue⟩ := exists_inlined_column I h hchild hr
          simp only [isRowWise, Bool.and_eq_true, List.all_eq_true, Bool.not_eq_true'] at hplain
          have hagg := (hplain.2 c.expr (mem_exprs_of_mem_columns hc)).1.2
          have hnames := names_of_isTransparent h.child_transparent hc
          simp only [Expr.ReadAs, hget, Option.getD_some]
          exact (eval_group_cons I A hnames hagg env group output).trans (hvalue env).symm
  | name n => rfl
  | raw sql inputs g =>
      have hraw : ⟨sql, inputs⟩ ∈ e.lineage.raws := Expr.mem_lineage_raws.2 ⟨g, hwalk⟩
      simp [hraws] at hraw
  | aggregate f args =>
      have hargs : ∀ env, (args.map fun a => (a.substitute
            (columnSubstitution parent.sourceName child)).eval I (env.reading I [])) =
          args.map fun a => a.eval I ((seen I parent child env).reading I []) := by
        intro env
        refine List.map_congr_left ?_
        intro a ha
        have ha := Expr.mem_walk_trans (Expr.mem_walk_of_mem_children ha a.mem_walk_self) hwalk
        exact eval_inlined_row hA h hgroup hchild he ha env []
      simp only [Expr.substitute] at hargs
      simp only [Expr.ReadAs, groupReading, List.map_map, Function.comp_def, hargs]
  | window f args ps os => simp [Expr.lineage_window_iff.2 ⟨f, args, ps, os, hwalk⟩] at hwin
  | _ => trivial

end Values

/-! ## Groups of the merged statement -/

/-- The parent's grouping keys with the child's columns inlined; the child has none. -/
theorem groupBy_inlined (h : Inlines parent child merged) (hplain : child.isRowWise = true) :
    merged.groupBy =
      substituteColumns (columnSubstitution parent.sourceName child) parent.groupBy := by
  simp only [isRowWise, Bool.and_eq_true, List.isEmpty_iff] at hplain
  rw [h.groupBy, hplain.1]
  split
  · rename_i hnone
    rw [List.isEmpty_iff.1 hnone]
    rfl
  · rfl

/-- A parent that groups has no limit below it. -/
theorem limit_of_groupsRows (h : Inlines parent child merged) (hgroups : parent.groupsRows = true) :
    child.limit = none := by
  have hbelow := h.limit_below
  simp only [groupsRows, Bool.or_eq_true, Bool.not_eq_true'] at hgroups
  cases hlimit : child.limit with
  | none => rfl
  | some n =>
      rcases hgroups with hgroupBy | hagg
      · simp [limitStaysBelow, hlimit, hgroupBy] at hbelow
      · simp [limitStaysBelow, hlimit, hagg] at hbelow

theorem groupsRows_child (hplain : child.isRowWise = true) : child.groupsRows = false := by
  simp only [isRowWise, Bool.and_eq_true, List.isEmpty_iff, List.all_eq_true,
    Bool.not_eq_true'] at hplain
  rw [← Bool.not_eq_true, groupsRows_iff, not_or]
  refine ⟨fun hne => hne hplain.1, ?_⟩
  rintro ⟨c, hc, hagg⟩
  rw [(hplain.2 c.expr (mem_exprs_of_mem_columns hc)).1.2] at hagg
  cases hagg

theorem groupsRows_merged (h : Inlines parent child merged) (hgroups : parent.groupsRows = true)
    (hplain : child.isRowWise = true) : merged.groupsRows = true := by
  have hkeeps : child.KeepsAggregate (parent.Shows child.lastColumn?) := by
    intro _ hagg
    have hnone := groupsRows_child hplain
    rw [groupsRows, hagg, Bool.or_true] at hnone
    cases hnone
  rw [(groupsRows_inlined h).2 hkeeps, hgroups, Bool.true_or]

section Rows

variable {I : Interpretation V} {A : Aggregation V}
  (hA : ∀ f args env, I.aggregate f args env = A f [])

include hA

/-- The merged statement keeps the environments whose rows the parent keeps. -/
theorem filter_inlined (h : Inlines parent child merged) (hgroup : parent.isGroupWise = true)
    (hchild : child.columnNames.Nodup) (hand : I.ReadsAnd) (envs : List (Env V)) :
    ((envs.filter (child.holds I)).map (seen I parent child)).filter (parent.holds I) =
      (envs.filter (merged.holds I)).map (seen I parent child) := by
  rw [List.filter_map, List.filter_filter]
  refine congrArg (List.map _) (List.filter_congr ?_)
  intro env _
  refine (holds_inlined I h hand ?_).symm
  intro e he
  exact eval_inlined_row hA h hgroup hchild (mem_exprs.2 (.inr (.inr (.inl he)))) e.mem_walk_self
    env []

/-- An environment has the grouping keys that the parent sees in its row. -/
theorem groupKey_inlined (h : Inlines parent child merged) (hgroup : parent.isGroupWise = true)
    (hplain : child.isRowWise = true) (hchild : child.columnNames.Nodup) (env : Env V) :
    parent.groupKey I (seen I parent child env) = merged.groupKey I env := by
  rw [groupKey, groupKey, groupExprs, groupExprs, groupBy_inlined h hplain, substituteColumns]
  simp only [List.map_map]
  refine List.map_congr_left ?_
  intro g hg
  have he : g.expr ∈ parent.exprs :=
    mem_exprs.2 (.inr (.inr (.inr (.inl (List.mem_map_of_mem hg)))))
  exact (eval_inlined_row hA h hgroup hchild he g.expr.mem_walk_self env []).symm

/-- **The same groups.**  The groups of the parent are those of the merged statement, environment by
environment. -/
theorem groups_inlined [DecidableEq V] (h : Inlines parent child merged)
    (hgroup : parent.isGroupWise = true) (hplain : child.isRowWise = true)
    (hchild : child.columnNames.Nodup) (hand : I.ReadsAnd) (envs : List (Env V)) :
    parent.groups I ((envs.filter (child.holds I)).map (seen I parent child)) =
      (merged.groups I envs).map (List.map (seen I parent child)) := by
  refine groups_map I _ ?_ (filter_inlined hA h hgroup hchild hand envs)
    (groupKey_inlined hA h hgroup hplain hchild)
  rw [groupBy_inlined h hplain, substituteColumns, List.isEmpty_map]

/-- Corresponding groups are shown as the same row. -/
theorem output_inlined (h : Inlines parent child merged) (hgroup : parent.isGroupWise = true)
    (hplain : child.isRowWise = true) (hchild : child.columnNames.Nodup) {group : List (Env V)}
    (hne : group ≠ [] ∨ ∀ c ∈ parent.columns, c.expr.hasBareColumn = false)
    (gs gs' : List (List (Env V))) :
    parent.output (.ofGroups I A) gs' (group.map (seen I parent child)) =
      merged.output (.ofGroups I A) gs group := by
  simp only [output, h.columns, substituteColumns, List.map_map]
  refine List.map_congr_left ?_
  intro c hc
  have heval := eval_inlined_group hA h hgroup hplain hchild (mem_exprs_of_mem_columns hc)
    (hne.imp_right fun hbare => hbare c hc) []
  exact congrArg (c.name, ·) heval.symm

/-- Corresponding groups with rows are sorted alike: a key of the merged statement is an output
column, and it has the value of the parent's key in whose place it stands. -/
theorem orderValues_inlined (h : Inlines parent child merged) (hgroup : parent.isGroupWise = true)
    (hplain : child.isRowWise = true) (hchild : child.columnNames.Nodup)
    (horder : child.orderBy = []) (hparent : parent.orderBy ≠ [] → parent.columnNames.Nodup)
    {group : List (Env V)} (hne : group ≠ []) (gs gs' : List (List (Env V))) :
    parent.orderValues (.ofGroups I A) gs' (group.map (seen I parent child)) =
      merged.orderValues (.ofGroups I A) gs group := by
  have hrow := output_inlined hA h hgroup hplain hchild (.inl hne) gs gs'
  by_cases hnone : parent.orderBy = []
  · have hmerged : merged.orderBy = [] := by
      have hkeys := order_of_child h hnone
      rwa [horder, List.forall₂_nil_left_iff] at hkeys
    rw [orderValues, orderValues, hnone, hmerged]
    rfl
  · have hnames : merged.columnNames.Nodup := columnNames_merged h ▸ hparent hnone
    refine (map_eq_of_forall₂ (order_of_parent h hnone) ?_).symm
    intro k hk k' hk'
    have he : k.expr ∈ parent.exprs :=
      mem_exprs.2 (.inr (.inr (.inr (.inr (List.mem_map_of_mem hk)))))
    rw [hrow]
    rcases hk' with ⟨n, -, rfl, hname | ⟨c, hc, rfl, hexpr⟩⟩
    · rw [hname]
      rfl
    · have hcolumn : merged.column? c.name = some c := find?_name_of_nodup hnames hc
      have hvalue : I.valueIn (merged.output (.ofGroups I A) gs group) c.name =
          c.expr.eval I (groupReading I A group []) := by
        rw [valueIn_output, hcolumn]
        rfl
      change (⟨I.valueIn (merged.output (.ofGroups I A) gs group) c.name, _⟩ : SortKey V) =
        ⟨k.expr.eval I (groupReading I A (group.map (seen I parent child))
          (merged.output (.ofGroups I A) gs group)), _⟩
      rw [hvalue, ← eval_group_output I A (names_of_merged h hc), hexpr,
        eval_inlined_group hA h hgroup hplain hchild he (.inl hne)]

variable [DecidableEq V]

/-- **The same rows in the same order.**  With `GROUP BY` every group has a row, so corresponding
groups are shown and sorted alike; without it there is one group on both sides and nothing to
sort. -/
theorem rowsOver_inlined (h : Inlines parent child merged) (hgroups : parent.groupsRows = true)
    (hgroup : parent.isGroupWise = true) (hplain : child.isRowWise = true)
    (hchild : child.columnNames.Nodup) (horder : child.orderBy = [])
    (hparent : parent.groupBy ≠ [] → parent.orderBy ≠ [] → parent.columnNames.Nodup)
    (hand : I.ReadsAnd) {envs : List (Env V)}
    (hbare : parent.groupBy ≠ [] ∨ envs.filter (merged.holds I) ≠ [] ∨
      ∀ c ∈ parent.columns, c.expr.hasBareColumn = false) :
    parent.rowsOver (.ofGroups I A) I
        (parent.groups I ((envs.filter (child.holds I)).map (seen I parent child))) =
      merged.rowsOver (.ofGroups I A) I (merged.groups I envs) := by
  have hlimit : merged.limit = parent.limit := by
    rw [h.limit, limit_of_groupsRows h hgroups]
    cases parent.limit <;> rfl
  rw [groups_inlined hA h hgroup hplain hchild hand]
  by_cases hnone : parent.groupBy = []
  · have hone : merged.groups I envs = [envs.filter (merged.holds I)] := by
      rw [groups, groupBy_inlined h hplain, hnone]
      rfl
    have hrow := output_inlined hA h hgroup hplain hchild (hbare.resolve_left (· hnone))
      [envs.filter (merged.holds I)] [(envs.filter (merged.holds I)).map (seen I parent child)]
    rw [hone, List.map_singleton, rowsOver_singleton, rowsOver_singleton, hlimit, hrow]
  · have hsome : merged.groupBy ≠ [] := by
      rw [groupBy_inlined h hplain]
      simpa [substituteColumns] using hnone
    refine rowsOver_map I _ h.distinct.symm hlimit.symm ?_ ?_
    · intro group hmem
      have hne := ne_nil_of_mem_groups I hsome hmem
      exact output_inlined hA h hgroup hplain hchild (.inl hne) _ _
    · intro group hmem
      have hne := ne_nil_of_mem_groups I hsome hmem
      exact orderValues_inlined hA h hgroup hplain hchild horder (hparent hnone) hne _ _

end Rows

/-- The child puts out a row for each environment that passes its filter. -/
theorem rows_of_unsorted [DecidableEq V] (I : Interpretation V) {s : Select σ}
    (hdistinct : s.distinct = false) (horder : s.orderBy = []) (hlimit : s.limit = none)
    (envs : List (Env V)) : s.rows I envs = (envs.filter (s.holds I)).map (s.project I) := by
  rw [rows_eq_rowsOver, rowsOver_of_unsorted _ _ horder hlimit, remaining,
    if_neg (by simp [hdistinct])]
  rfl

end Select

/-- **Inlining below groups keeps the rows.**  Let a statement without joins that groups or
aggregates, and has no windows or uninterpreted SQL, be merged by inlining with a child that looks
at one row at a time, is not sorted, and whose columns have different names.  If the parent's columns
have different names where it sorts groups, and it reads no column of a row that does not exist, then
over every list of environments of the child, and whatever the operators and the aggregate functions
mean, the merged statement has the rows of the parent over the rows of the child. -/
theorem result_of_inlining {V : Type} [DecidableEq V] (I : Interpretation V) (A : Aggregation V)
    (hand : I.ReadsAnd) {parent child merged : Statement} (hjoins : parent.joins = [])
    (hsource : parent.source = .select child)
    (hmerged : MergeRule.inlining parent = some merged) (hgroups : parent.groupsRows = true)
    (hgroup : parent.isGroupWise = true) (hplain : child.isRowWise = true)
    (hchild : child.columnNames.Nodup) (horder : child.orderBy = [])
    (hparent : parent.groupBy ≠ [] → parent.orderBy ≠ [] → parent.columnNames.Nodup)
    (envs : List (Env V))
    (hbare : parent.groupBy ≠ [] ∨
      (∃ row ∈ child.result I A envs,
        parent.holds (I.aggregating A) (row.under parent.sourceName) = true) ∨
      ∀ c ∈ parent.columns, c.expr.hasBareColumn = false) :
    merged.result I A envs =
      parent.result I A ((child.result I A envs).map fun row => row.under parent.sourceName) := by
  rcases MergeRule.inlining_eq_some hjoins hmerged with ⟨child', hsource', h⟩
  obtain rfl : child = child' := by simpa [hsource] using hsource'
  have hA : ∀ f args env, (I.aggregating A).aggregate f args env = A f [] := fun _ _ _ => rfl
  have hand : (I.aggregating A).ReadsAnd := hand
  have hrows : child.result I A envs =
      (envs.filter (child.holds (I.aggregating A))).map (child.project (I.aggregating A)) := by
    rw [Select.result, if_neg (by simp [Select.groupsRows_child hplain])]
    exact Select.rows_of_unsorted _ h.child_not_distinct horder
      (Select.limit_of_groupsRows h hgroups) envs
  have hkept := Select.filter_inlined hA h hgroup hchild hand envs
  rw [hrows] at hbare
  rw [hrows, List.map_map, Select.result, if_pos (Select.groupsRows_merged h hgroups hplain),
    Select.result, if_pos hgroups]
  refine (Select.rowsOver_inlined hA h hgroups hgroup hplain hchild horder hparent hand ?_).symm
  refine hbare.imp_right (Or.imp_left ?_)
  -- a row of the child that the parent keeps is that of an environment that is kept
  rintro ⟨_, hrow, hholds⟩ hempty
  rcases List.mem_map.1 hrow with ⟨env, henv, rfl⟩
  have hmem : Select.seen (I.aggregating A) parent child env ∈
      ((envs.filter (child.holds (I.aggregating A))).map
        (Select.seen (I.aggregating A) parent child)).filter (parent.holds (I.aggregating A)) :=
    List.mem_filter.2 ⟨List.mem_map_of_mem henv, hholds⟩
  rw [hkept, hempty] at hmem
  cases hmem

/-! ## Instances

A parent that filters, groups, counts, sums and sorts, for which the rows are kept, and for which they
are not if `AND` means something else; one that gives two columns one name, and one that shows a
column of no row, for which they are not either. -/

/-- Sizes and sums of groups of numbers. -/
def Aggregation.numbers : Aggregation Nat
  | .count, rows => rows.length
  | .sum, rows => rows.flatten.foldr Nat.add 0
  | _, _ => 0

/-- `SELECT b.x AS x, b.x + b.y AS z FROM t b WHERE b.y > b.x`. -/
def Select.sums : Statement :=
  { Select.plain 2 [⟨.column ⟨"b", "x"⟩ true, "x"⟩,
      ⟨.arithmetic (.column ⟨"b", "x"⟩ true) .add (.column ⟨"b", "y"⟩ true), "z"⟩]
      (.table 1 ⟨none, "t"⟩) "b" with
    filter := some (.comparison (.column ⟨"b", "y"⟩ true) .gt (.column ⟨"b", "x"⟩ true)) }

/-- `SELECT a.x AS x, COUNT(*) AS n, SUM(a.z) AS total FROM sums a WHERE a.z > a.x GROUP BY a.x
ORDER BY SUM(a.z) DESC`. -/
def Select.totals : Statement :=
  { Select.plain 3 [⟨.column ⟨"a", "x"⟩ true, "x"⟩, ⟨.aggregate .count [], "n"⟩,
      ⟨.aggregate .sum [.column ⟨"a", "z"⟩ true], "total"⟩] (.select .sums) "a" with
    groupBy := [⟨.column ⟨"a", "x"⟩ true, "x"⟩]
    orderBy := [⟨.aggregate .sum [.column ⟨"a", "z"⟩ true], true⟩]
    filter := some (.comparison (.column ⟨"a", "z"⟩ true) .gt (.column ⟨"a", "x"⟩ true)) }

theorem result_of_inlining_totals :
    ∃ merged, MergeRule.inlining .totals = some merged ∧
      merged.result .numbers .numbers (pairEnvs [(1, 2), (4, 6), (1, 5), (7, 3)]) =
        Select.totals.result .numbers .numbers
          ((Select.sums.result .numbers .numbers (pairEnvs [(1, 2), (4, 6), (1, 5), (7, 3)])).map
            fun row => row.under "a") ∧
      merged.result .numbers .numbers (pairEnvs [(1, 2), (4, 6), (1, 5), (7, 3)]) =
        [[("x", 4), ("n", 1), ("total", 10)], [("x", 1), ("n", 2), ("total", 9)]] := by
  refine ⟨_, rfl, ?_, by decide⟩
  exact result_of_inlining .numbers .numbers Interpretation.numbers_readsAnd rfl rfl rfl (by decide)
    (by decide) (by decide) (by decide) rfl (fun _ _ => by decide) _ (.inl (by decide))

/-- `SELECT a.x AS u, COUNT(*) AS u FROM pairs a GROUP BY a.x ORDER BY COUNT(*)`. -/
def Select.countsNamedAlike : Statement :=
  { Select.plain 3 [⟨.column ⟨"a", "x"⟩ true, "u"⟩, ⟨.aggregate .count [], "u"⟩]
      (.select (.pairs [])) "a" with
    groupBy := [⟨.column ⟨"a", "x"⟩ true, "x"⟩]
    orderBy := [⟨.aggregate .count [], false⟩] }

/-- `SELECT 'a' AS one FROM t b`. -/
def Select.ones : Statement :=
  .plain 2 [⟨.literal "a", "one"⟩] (.table 1 ⟨none, "t"⟩) "b"

/-- `SELECT COUNT(*) AS n, a.one AS one FROM ones a`. -/
def Select.countBesideOne : Statement :=
  .plain 3 [⟨.aggregate .count [], "n"⟩, ⟨.column ⟨"a", "one"⟩ true, "one"⟩] (.select .ones) "a"

/-- Numbers, with connectives that never give a true value. -/
def Interpretation.falseConnectives : Interpretation Nat :=
  { Interpretation.numbers with logical := fun _ _ => 0 }

/-- **Three ways to change rows.**  A statement that sorts groups and has two columns of one name is
merged into one that sorts by the other column.  A statement that aggregates no rows and shows a
column as well is merged into one that shows the child's expression instead of `NULL`.  And where
`AND` is not a conjunction, two filters that rows pass one after the other are merged into one that
they do not pass. -/
theorem inlining_mixes_up_groups :
    (∃ merged, MergeRule.inlining .countsNamedAlike = some merged ∧
      Select.countsNamedAlike.groupsRows = true ∧ Select.countsNamedAlike.isGroupWise = true ∧
      (Select.pairs []).isRowWise = true ∧ (Select.pairs []).columnNames.Nodup ∧
      merged.result .numbers .numbers (pairEnvs [(1, 0), (1, 0), (2, 0)]) =
        [[("u", 1), ("u", 2)], [("u", 2), ("u", 1)]] ∧
      Select.countsNamedAlike.result .numbers .numbers
          (((Select.pairs []).result .numbers .numbers (pairEnvs [(1, 0), (1, 0), (2, 0)])).map
            fun row => row.under "a") =
        [[("u", 2), ("u", 1)], [("u", 1), ("u", 2)]]) ∧
    (∃ merged, MergeRule.inlining .countBesideOne = some merged ∧
      Select.countBesideOne.groupsRows = true ∧ Select.countBesideOne.isGroupWise = true ∧
      Select.ones.isRowWise = true ∧ Select.ones.columnNames.Nodup ∧
      merged.result .numbers .numbers (pairEnvs []) = [[("n", 0), ("one", 1)]] ∧
      Select.countBesideOne.result .numbers .numbers
          ((Select.ones.result .numbers .numbers (pairEnvs [])).map fun row => row.under "a") =
        [[("n", 0), ("one", 0)]]) ∧
    ∃ merged, MergeRule.inlining .totals = some merged ∧
      Select.totals.groupsRows = true ∧ Select.totals.isGroupWise = true ∧
      Select.sums.isRowWise = true ∧ Select.sums.columnNames.Nodup ∧
      Select.totals.columnNames.Nodup ∧
      merged.result .falseConnectives .numbers (pairEnvs [(1, 2)]) = [] ∧
      Select.totals.result .falseConnectives .numbers
          ((Select.sums.result .falseConnectives .numbers (pairEnvs [(1, 2)])).map
            fun row => row.under "a") =
        [[("x", 1), ("n", 1), ("total", 3)]] :=
  ⟨⟨_, rfl, by decide, by decide, by decide, by decide, by decide, by decide⟩,
    ⟨_, rfl, by decide, by decide, by decide, by decide, by decide, by decide⟩,
    ⟨_, rfl, by decide, by decide, by decide, by decide, by decide, by decide, by decide⟩⟩

end QueryPlan
