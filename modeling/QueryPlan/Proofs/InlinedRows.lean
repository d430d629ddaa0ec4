import QueryPlan.Proofs.Evaluation
import QueryPlan.Proofs.MergeRules

/-!
# Inlining keeps the rows

A parent without joins that reads a child is merged by inlining into one statement over the child's
sources.  This file shows that the merged statement has the rows of the parent over the rows of the
child, for statements that look at one row at a time.

The argument follows an environment of the child through both sides.  The parent reads the child's
row as an environment of its own (`seen`).  There every expression of the parent has the value of
the merged expression (`eval_inlined`), so both sides show the same row (`project_seen`), filter
alike (`holds_inlined`) and sort alike (`sortValues_of_parent`, `sortValues_of_child`).  What remains
is that filtering, removing repetitions, sorting and cutting off happen in another order
(`contexts_merged`), and the conditions of the rule are what lets them change places.

Sort keys of the merged statement are output names.  A name stands for the first column that has it,
so the keys are right only if no two columns of the parent have one name; `inlining_mixes_up_names`
shows a statement that is sorted by the wrong column otherwise.
-/

namespace QueryPlan

namespace Select

variable {σ V : Type} {parent child merged : Select σ} (I : Interpretation V)

/-! ## Expressions without names -/

/-- What an expression without output names is worth does not depend on the output. -/
theorem eval_output {e : Expr} (hnames : e.lineage.names = []) (env : Env V) (output : Row V) :
    e.eval I (env.reading I output) = e.eval I (env.reading I []) :=
  Expr.eval_unnamed I hnames (.inr rfl) rfl rfl rfl

/-! ## An environment on both sides -/

/-- What the parent reads at an environment of its child: the child's row, under the parent's name
for it. -/
def seen (parent child : Select σ) (env : Env V) : Env V :=
  Row.under (child.project I env) parent.sourceName

theorem names_of_isTransparent {s : Select σ} (h : s.isTransparent = true) {c : NamedExpr}
    (hc : c ∈ s.columns) : c.expr.lineage.names = [] :=
  unnamed_of_isTransparent h c.expr (by simp [selectExprs, List.mem_map_of_mem hc])

/-- What replaces a column of the parent is a column of the child, and has the value that the parent
reads in the child's row. -/
theorem exists_inlined_column (h : Inlines parent child merged) (hchild : child.columnNames.Nodup)
    {r : ColumnRef} (hr : r ∈ parent.columnRefs) :
    ∃ c ∈ child.columns, (columnSubstitution parent.sourceName child).get? r = some c.expr ∧
      ∀ env : Env V, I.valueIn (seen I parent child env r.table) r.column =
        c.expr.eval I (env.reading I []) := by
  obtain ⟨e, he⟩ := h.covered r hr
  obtain ⟨c, hc, hcol, rfl⟩ := mem_of_get?_columnSubstitution he
  refine ⟨c, hc, he, fun env => ?_⟩
  have hcolumn : child.column? c.name = some c := find?_name_of_nodup hchild hc
  rw [seen, Row.under, h.own_columns r hr, if_pos rfl, valueIn_project, hcol, hcolumn]
  rfl

/-- A column of the parent is read in the child's row as its replacement is at the environment. -/
theorem readAs_inlined_column (h : Inlines parent child merged) (hchild : child.columnNames.Nodup)
    {r : ColumnRef} (hr : r ∈ parent.columnRefs) (q : Bool) (env : Env V) (output : Row V) :
    Expr.ReadAs I (columnSubstitution parent.sourceName child).get?
      ((seen I parent child env).reading I output) (env.reading I output) (.column r q) := by
  obtain ⟨c, hc, hget, hvalue⟩ := exists_inlined_column I h hchild hr
  simp only [Expr.ReadAs, hget, Option.getD_some]
  exact (eval_output I (names_of_isTransparent h.child_transparent hc) env output).trans
    (hvalue env).symm

/-- **Inlining is reading the child's row.**  What occurs in an expression of the parent has, with the
child's columns inlined and at an environment of the child, the value that it has where the parent
reads the child's row.  There may be aggregates if they are worth the same at every environment. -/
theorem eval_inlined_of_mem_walk (h : Inlines parent child merged)
    (hchild : child.columnNames.Nodup) {e a : Expr} (he : e ∈ parent.exprs) (ha : a ∈ e.walk)
    (hraws : e.lineage.raws = []) (hwin : e.lineage.window = false)
    (hagg : e.lineage.aggregate = false ∨
      ∃ value : AggregateFunction → V, ∀ f args env, I.aggregate f args env = value f)
    (env : Env V) (output : Row V) :
    (a.substitute (columnSubstitution parent.sourceName child)).eval I (env.reading I output) =
      a.eval I ((seen I parent child env).reading I output) := by
  refine Expr.eval_bindColumns I _ _ _ a fun d hd => ?_
  have hd := Expr.mem_walk_trans hd ha
  cases d with
  | column r q =>
      have hr := mem_columnRefs_of_mem_exprs he (Expr.mem_lineage_columns.2 ⟨q, hd⟩)
      exact readAs_inlined_column I h hchild hr q env output
  | name n => rfl
  | raw sql inputs g =>
      have hu : ⟨sql, inputs⟩ ∈ e.lineage.raws := Expr.mem_lineage_raws.2 ⟨g, hd⟩
      simp [hraws] at hu
  | aggregate f args =>
      have hsome : e.lineage.aggregate = true := Expr.lineage_aggregate_iff.2 ⟨f, args, hd⟩
      obtain ⟨value, hvalue⟩ := hagg.resolve_left (by simp [hsome])
      simp [Expr.ReadAs, Env.reading, hvalue]
  | window f args ps os => simp [Expr.lineage_window_iff.2 ⟨f, args, ps, os, hd⟩] at hwin
  | _ => trivial

theorem eval_inlined (h : Inlines parent child merged) (hrow : parent.isRowWise = true)
    (hchild : child.columnNames.Nodup) {e : Expr} (he : e ∈ parent.exprs) (env : Env V)
    (output : Row V) :
    (e.substitute (columnSubstitution parent.sourceName child)).eval I (env.reading I output) =
      e.eval I ((seen I parent child env).reading I output) := by
  simp only [isRowWise, Bool.and_eq_true, List.all_eq_true, List.isEmpty_iff,
    Bool.not_eq_true'] at hrow
  obtain ⟨⟨hraws, hagg⟩, hwin⟩ := hrow.2 e he
  exact eval_inlined_of_mem_walk I h hchild he e.mem_walk_self hraws hwin (.inl hagg) env output

theorem mem_exprs_of_mem_columns {s : Select σ} {c : NamedExpr} (hc : c ∈ s.columns) :
    c.expr ∈ s.exprs := by
  simp [exprs, selectExprs, List.mem_map_of_mem hc]

/-- Both sides show the same row. -/
theorem project_seen (h : Inlines parent child merged) (hrow : parent.isRowWise = true)
    (hchild : child.columnNames.Nodup) (env : Env V) :
    parent.project I (seen I parent child env) = merged.project I env := by
  simp only [project, h.columns, substituteColumns, List.map_map]
  refine List.map_congr_left fun c hc => ?_
  have heval := eval_inlined I h hrow hchild (mem_exprs_of_mem_columns hc) env []
  exact congrArg (c.name, ·) heval.symm

/-- A conjunction of filters passes what both pass. -/
theorem all_conjoin (hand : I.ReadsAnd) (ρ : Reading V) (l r : Option Expr) :
    (Expr.conjoin l r).all (fun e => I.isTrue (e.eval I ρ)) =
      (l.all (fun e => I.isTrue (e.eval I ρ)) && r.all fun e => I.isTrue (e.eval I ρ)) := by
  fun_cases Expr.conjoin l r with
  | case1 r => simp
  | case2 l hl => simp
  | case3 args r => simp [Expr.eval, hand _, List.all_map, Function.comp_def]
  | case4 l r hl => simp [Expr.eval, hand _]

/-- The merged statement passes what the child passes and the parent passes of that, if inlining
keeps the value of the parent's filter. -/
theorem holds_inlined (h : Inlines parent child merged) (hand : I.ReadsAnd) {env : Env V}
    (hfilter : ∀ e, parent.filter = some e →
      (e.substitute (columnSubstitution parent.sourceName child)).eval I (env.reading I []) =
        e.eval I ((seen I parent child env).reading I [])) :
    merged.holds I env = (parent.holds I (seen I parent child env) && child.holds I env) := by
  rw [holds, h.filter, all_conjoin I hand, Bool.and_comm]
  congr 1
  rw [holds]
  cases hf : parent.filter with
  | none => rfl
  | some e =>
      simp only [Option.map_some, Option.all_some]
      rw [hfilter e hf]

theorem holds_merged (h : Inlines parent child merged) (hrow : parent.isRowWise = true)
    (hchild : child.columnNames.Nodup) (hand : I.ReadsAnd) (env : Env V) :
    merged.holds I env = (parent.holds I (seen I parent child env) && child.holds I env) := by
  refine holds_inlined I h hand fun e he => ?_
  exact eval_inlined I h hrow hchild (by simp [exprs, he]) env []

/-! ## Sort keys -/

/-- Columns of the merged statement hold no output names, so they have their values whatever the
output is. -/
theorem names_of_merged (h : Inlines parent child merged) {c : NamedExpr}
    (hc : c ∈ merged.columns) : c.expr.lineage.names = [] := by
  rw [h.columns] at hc
  obtain ⟨p, hp, rfl⟩ := List.mem_map.1 hc
  exact (lineage_part_substitute Lineage.combine_names (fun _ => rfl)
    (fun _ => names_of_isTransparent h.child_transparent) _ _).trans
    (names_of_isTransparent h.parent_transparent hp)

/-- A sort key that names a merged column has the value of that column, if it is the only one of its
name. -/
theorem sortValue_name (hnames : merged.columnNames.Nodup) {c : NamedExpr}
    (hc : c ∈ merged.columns) (env : Env V) :
    merged.sortValue I env (.name c.name) = c.expr.eval I (env.reading I []) := by
  have hcolumn : merged.column? c.name = some c := find?_name_of_nodup hnames hc
  change I.valueIn (merged.project I env) c.name = _
  rw [valueIn_project, hcolumn]
  rfl

/-- If the parent has no order, the merged statement sorts as the child does. -/
theorem sortValues_of_child (h : Inlines parent child merged)
    (hparent : child.orderBy ≠ [] → parent.columnNames.Nodup) (horder : parent.orderBy = [])
    (env : Env V) :
    merged.sortValues I env = child.sortValues I env := by
  refine map_eq_of_forall₂ (order_of_child h horder) fun k hk k' hk' => ?_
  have hnames : merged.columnNames.Nodup :=
    columnNames_merged h ▸ hparent (List.ne_nil_of_mem hk)
  -- a key of the child is either one of its output names or evaluated at its environment
  obtain ⟨c, hc, rfl, hexpr | ⟨n, d, hn, hd, hexpr⟩⟩ := hk'
  · rw [sortValue_name I hnames hc, sortValue, hexpr,
      eval_output I (names_of_merged h hc) env (child.project I env)]
  · have hvalue : child.sortValue I env (.name n) = d.expr.eval I (env.reading I []) := by
      change I.valueIn (child.project I env) n = _
      rw [valueIn_project, hd]
      rfl
    rw [sortValue_name I hnames hc, hn, hvalue, hexpr]

/-- If the parent has an order, the merged statement sorts as the parent does. -/
theorem sortValues_of_parent (h : Inlines parent child merged) (hrow : parent.isRowWise = true)
    (hchild : child.columnNames.Nodup) (hparent : parent.columnNames.Nodup)
    (horder : parent.orderBy ≠ []) (env : Env V) :
    merged.sortValues I env = parent.sortValues I (seen I parent child env) := by
  have hnames : merged.columnNames.Nodup := columnNames_merged h ▸ hparent
  refine map_eq_of_forall₂ (order_of_parent h horder) fun k hk k' hk' => ?_
  obtain ⟨n, -, rfl, hname | ⟨c, hc, rfl, hexpr⟩⟩ := hk'
  · -- an output name of the parent is the same output name of the merged statement
    rw [hname]
    change (⟨I.valueIn (merged.project I env) n, _⟩ : SortKey V) =
      ⟨I.valueIn (parent.project I (seen I parent child env)) n, _⟩
    rw [project_seen I h hrow hchild]
  · have hk : k.expr ∈ parent.exprs := by simp [exprs, orderExprs, List.mem_map_of_mem hk]
    rw [sortValue_name I hnames hc,
      ← eval_output I (names_of_merged h hc) env (parent.project I (seen I parent child env)),
      hexpr, eval_inlined I h hrow hchild hk, sortValue]

/-! ## The whole statement -/

section Contexts

/-- Two limits are one. -/
theorem cut_cut {α : Type} (a b : Option Nat) (l : List α) :
    cut a (cut b l) = cut (tighterLimit a b) l := by
  cases a <;> cases b <;> simp [cut, tighterLimit, List.take_take]

/-- Rows that are equal are equivalent in an order by output columns. -/
theorem before_of_project_eq {s : Select σ} (hkeys : ∀ k ∈ s.orderBy, ∃ n, k.expr = .name n)
    {a b : Env V} (h : s.project I a = s.project I b) : s.Before I a b := by
  have hvalues : s.sortValues I a = s.sortValues I b := by
    refine List.map_congr_left fun k hk => ?_
    obtain ⟨n, hn⟩ := hkeys k hk
    rw [hn]
    change (⟨I.valueIn (s.project I a) n, _⟩ : SortKey V) = ⟨I.valueIn (s.project I b) n, _⟩
    rw [h]
  rw [Before, hvalues]
  exact I.lexLe_self _

theorem before_of_orderBy_nil {s : Select σ} (h : s.orderBy = []) (a b : Env V) :
    s.Before I a b := by
  rw [Before, sortValues, h]
  rfl

variable [DecidableEq V]

/-- The environments that a statement puts out over a list of images, in terms of the list. -/
theorem contexts_map {α : Type} (s : Select σ) (φ : α → Env V) (l : List α) :
    s.contexts I (l.map φ) =
      (cut s.limit ((if s.distinct then
          distinctBy (fun a => s.project I (φ a)) (l.filter fun a => s.holds I (φ a))
        else l.filter fun a => s.holds I (φ a)).insertionSort
          fun a b => s.Before I (φ a) (φ b))).map φ := by
  rw [contexts, unsorted, List.filter_map, map_cut]
  congr 1
  by_cases hd : s.distinct
  · rw [if_pos hd, if_pos hd, distinctBy_map]
    exact (List.map_insertionSort _ _ φ _ fun _ _ _ _ => Iff.rfl).symm
  · rw [if_neg hd, if_neg hd]
    exact (List.map_insertionSort _ _ φ _ fun _ _ _ _ => Iff.rfl).symm

/-- The environments that the child puts out: it is not `DISTINCT`. -/
theorem contexts_child (h : Inlines parent child merged) (envs : List (Env V)) :
    child.contexts I envs =
      cut child.limit ((envs.filter (child.holds I)).insertionSort (child.Before I)) := by
  rw [contexts, unsorted, if_neg (by simp [h.child_not_distinct])]

/-- The environments that the merged statement puts out, before they are sorted: the parent filters
what the child lets through. -/
theorem unsorted_merged (h : Inlines parent child merged) (hrow : parent.isRowWise = true)
    (hchild : child.columnNames.Nodup) (hand : I.ReadsAnd) (envs : List (Env V)) :
    merged.unsorted I envs =
      if parent.distinct then
        distinctBy (merged.project I) ((envs.filter (child.holds I)).filter fun env =>
          parent.holds I (seen I parent child env))
      else (envs.filter (child.holds I)).filter fun env =>
        parent.holds I (seen I parent child env) := by
  have hfilter : envs.filter (merged.holds I) = (envs.filter (child.holds I)).filter fun env =>
      parent.holds I (seen I parent child env) := by
    rw [List.filter_filter]
    exact List.filter_congr fun env _ => holds_merged I h hrow hchild hand env
  rw [unsorted, hfilter, h.distinct]

/-- **The same environments in the same order.**  Over what the child puts out, the parent puts out
what the merged statement does.  If the child cuts rows off, the parent does nothing to them but
show them and cut off more; otherwise filtering and removing repetitions may come before sorting. -/
theorem contexts_merged (h : Inlines parent child merged) (hrow : parent.isRowWise = true)
    (hchild : child.columnNames.Nodup)
    (hparent : parent.orderBy ≠ [] ∨ child.orderBy ≠ [] → parent.columnNames.Nodup)
    (hlimit : child.limit = none ∨ parent.orderBy = []) (hand : I.ReadsAnd) (envs : List (Env V)) :
    parent.contexts I ((child.contexts I envs).map (seen I parent child)) =
      (merged.contexts I envs).map (seen I parent child) := by
  rw [contexts_map, contexts_child I h]
  simp only [project_seen I h hrow hchild]
  congr 1
  rw [contexts, unsorted_merged I h hrow hchild hand, h.limit]
  generalize envs.filter (child.holds I) = kept
  by_cases horder : parent.orderBy = []
  · -- the parent does not sort, and the merged statement sorts as the child does
    have hbefore : ∀ a b, child.Before I a b ↔ merged.Before I a b := fun a b => by
      simp only [Before, sortValues_of_child I h (fun hc => hparent (.inr hc)) horder]
    rw [insertionSort_of_forall fun a b => before_of_orderBy_nil I horder _ _,
      insertionSort_congr hbefore]
    cases hl : child.limit with
    | none =>
        have heq : ∀ a b : Env V, merged.project I a = merged.project I b → merged.Before I a b :=
          fun a b => before_of_project_eq I (orderBy_names h)
        simp only [cut, filter_insertionSort]
        by_cases hd : parent.distinct
        · rw [if_pos hd, if_pos hd, distinctBy_insertionSort heq]
          cases parent.limit <;> rfl
        · rw [if_neg hd, if_neg hd]
          cases parent.limit <;> rfl
    | some n =>
        have hbelow := h.limit_below
        simp only [limitStaysBelow, hl, Option.isNone_some, Bool.false_or, Bool.and_eq_true,
          Bool.not_eq_true', Option.isNone_iff_eq_none] at hbelow
        have hpass : ∀ env ∈ kept, parent.holds I (seen I parent child env) = true := by
          intro env _
          rw [holds, hbelow.1.1.1.1]
          rfl
        have hpass' : ∀ env ∈ cut (some n) (kept.insertionSort (merged.Before I)),
            parent.holds I (seen I parent child env) = true := fun env henv =>
          hpass env ((List.mem_insertionSort _).1 (List.mem_of_mem_take henv))
        rw [if_neg (by simp [hbelow.2]), if_neg (by simp [hbelow.2]), List.filter_eq_self.2 hpass,
          List.filter_eq_self.2 hpass', cut_cut]
  · -- the child neither sorts nor cuts off, and the merged statement sorts as the parent does
    have hchildOrder := h.one_order.resolve_left horder
    have hbefore : ∀ a b, parent.Before I (seen I parent child a) (seen I parent child b) ↔
        merged.Before I a b := fun a b => by
      simp only [Before, sortValues_of_parent I h hrow hchild (hparent (.inl horder)) horder]
    rw [insertionSort_of_forall fun a b => before_of_orderBy_nil I hchildOrder a b,
      insertionSort_congr hbefore, hlimit.resolve_right horder]
    cases parent.limit <;> rfl

end Contexts

end Select

/-- **Inlining keeps the rows.**  Let a statement without joins that looks at one row at a time be
merged by inlining with a child whose columns have different names.  If no row is cut off before the
parent sorts, and the parent's columns have different names where there is an order, then over every
list of environments of the child, and whatever the operators mean, the merged statement has the
rows of the parent over the rows of the child: the same rows with the same column names in the same
order.  The child is meant to look at one row at a time as well, but no step depends on it. -/
theorem rows_of_inlining {V : Type} [DecidableEq V] (I : Interpretation V) (hand : I.ReadsAnd)
    {parent child merged : Statement} (hjoins : parent.joins = [])
    (hsource : parent.source = .select child)
    (hmerged : MergeRule.inlining parent = some merged)
    (hrow : parent.isRowWise = true) (hchild : child.columnNames.Nodup)
    (hparent : parent.orderBy ≠ [] ∨ child.orderBy ≠ [] → parent.columnNames.Nodup)
    (hlimit : child.limit = none ∨ parent.orderBy = []) (envs : List (Env V)) :
    merged.rows I envs =
      parent.rows I ((child.rows I envs).map fun row => row.under parent.sourceName) := by
  obtain ⟨child', hsource', h⟩ := MergeRule.inlining_eq_some hjoins hmerged
  obtain rfl : child = child' := by simpa [hsource] using hsource'
  have hseen : (child.rows I envs).map (fun row => row.under parent.sourceName) =
      (child.contexts I envs).map (Select.seen I parent child) := by
    rw [Select.rows, List.map_map]
    rfl
  rw [hseen, Select.rows, Select.rows,
    Select.contexts_merged I h hrow hchild hparent hlimit hand, List.map_map]
  exact List.map_congr_left fun env _ => (Select.project_seen I h hrow hchild env).symm

/-! ## Two instances

Over numbers, a sorted child below a `DISTINCT` parent with a filter and a limit; and a parent that
gives two columns one name, for which the rows are not kept. -/

/-- Numbers as values, with 0 for `NULL` and for what is not true. -/
def Interpretation.numbers : Interpretation Nat where
  null := 0
  literal v := v.length
  comparison
    | .eq, a, b => if a = b then 1 else 0
    | .notEq, a, b => if a = b then 0 else 1
    | .lt, a, b => if a < b then 1 else 0
    | .ltEq, a, b => if a ≤ b then 1 else 0
    | .gt, a, b => if b < a then 1 else 0
    | .gtEq, a, b => if b ≤ a then 1 else 0
  logical
    | .and, vs => if vs.all (· != 0) then 1 else 0
    | .or, vs => if vs.any (· != 0) then 1 else 0
  isNull a := if a = 0 then 1 else 0
  arithmetic
    | .add, a, b => a + b
    | .subtract, a, b => a - b
    | .multiply, a, b => a * b
    | .divide, a, b => a / b
  call _ vs := vs.length
  cast _ a := a
  truncate _ a := a
  between a low high := if low ≤ a ∧ a ≤ high then 1 else 0
  raw _ _ := 0
  aggregate _ _ _ := 0
  window _ _ _ _ _ := 0
  isTrue a := a != 0
  le a b := decide (a ≤ b)
  le_total a b := by simpa using Nat.le_total a b
  le_trans a b c hab hbc := by
    simp only [decide_eq_true_eq] at *
    exact Nat.le_trans hab hbc

theorem Interpretation.numbers_readsAnd : Interpretation.numbers.ReadsAnd := by
  intro vs
  simp only [Interpretation.numbers]
  cases vs.all (· != 0) <;> rfl

/-- `SELECT b.x AS x, b.y AS y FROM t b` in the given order. -/
def Select.pairs (orderBy : List (SortKey Expr)) : Statement :=
  { Select.plain 2 [⟨.column ⟨"b", "x"⟩ true, "x"⟩, ⟨.column ⟨"b", "y"⟩ true, "y"⟩]
      (.table 1 ⟨none, "t"⟩) "b" with
    orderBy }

/-- Environments in which `b` has the given values of `x` and `y`. -/
def pairEnvs (pairs : List (Nat × Nat)) : List (Env Nat) :=
  pairs.map fun p => Row.under [("x", p.1), ("y", p.2)] "b"

/-- `SELECT DISTINCT a.y AS u FROM pairs a WHERE a.y > a.x LIMIT 2`, over pairs sorted by `y`. -/
def Select.largerSeconds : Statement :=
  { Select.plain 3 [⟨.column ⟨"a", "y"⟩ true, "u"⟩]
      (.select (.pairs [⟨.column ⟨"b", "y"⟩ true, false⟩])) "a" with
    filter := some (.comparison (.column ⟨"a", "y"⟩ true) .gt (.column ⟨"a", "x"⟩ true))
    limit := some 2
    distinct := true }

theorem rows_of_inlining_largerSeconds :
    ∃ merged, MergeRule.inlining .largerSeconds = some merged ∧
      merged.rows .numbers (pairEnvs [(1, 7), (2, 5), (3, 5), (9, 4), (2, 8)]) =
        Select.largerSeconds.rows .numbers
          (((Select.pairs [⟨.column ⟨"b", "y"⟩ true, false⟩]).rows .numbers
            (pairEnvs [(1, 7), (2, 5), (3, 5), (9, 4), (2, 8)])).map fun row => row.under "a") ∧
      merged.rows .numbers (pairEnvs [(1, 7), (2, 5), (3, 5), (9, 4), (2, 8)]) =
        [[("u", 5)], [("u", 7)]] :=
  ⟨_, rfl, rows_of_inlining .numbers Interpretation.numbers_readsAnd rfl rfl rfl (by decide)
    (by decide) (fun _ => by decide) (.inl rfl) _, by decide⟩

/-- `SELECT a.x AS u, a.y AS u FROM pairs a ORDER BY a.y`. -/
def Select.namedAlike : Statement :=
  { Select.plain 3 [⟨.column ⟨"a", "x"⟩ true, "u"⟩, ⟨.column ⟨"a", "y"⟩ true, "u"⟩]
      (.select (.pairs [])) "a" with
    orderBy := [⟨.column ⟨"a", "y"⟩ true, false⟩] }

/-- **Names that are used twice mix up the order.**  A statement with two columns of one name is
merged with a child whose names differ, although the merged statement sorts by the other column. -/
theorem inlining_mixes_up_names :
    ∃ merged, MergeRule.inlining .namedAlike = some merged ∧
      (Select.pairs []).columnNames.Nodup ∧ (Select.pairs []).isRowWise = true ∧
      Select.namedAlike.isRowWise = true ∧
      merged.rows .numbers (pairEnvs [(1, 2), (2, 1)]) =
        [[("u", 1), ("u", 2)], [("u", 2), ("u", 1)]] ∧
      Select.namedAlike.rows .numbers
          (((Select.pairs []).rows .numbers (pairEnvs [(1, 2), (2, 1)])).map
            fun row => row.under "a") =
        [[("u", 2), ("u", 1)], [("u", 1), ("u", 2)]] :=
  ⟨_, rfl, by decide, by decide, by decide, by decide, by decide⟩

end QueryPlan
