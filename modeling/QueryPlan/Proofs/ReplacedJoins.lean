import QueryPlan.Proofs.Joining
import QueryPlan.Proofs.MergeRules

/-!
# A replaced source, join by join

A source that is a plain projection is replaced by the relation that it projects.  Here the change is
followed through the joins, from left to right.  On both sides the joined rows agree on the sources
that stay, and the row of the projection has the values that its expressions have at the row of the
relation (`Reflects`).  Where a left outer join fills in nulls this holds because the expressions are
columns of the relation.

* `Select.IsView.valueAt_substitute` — so an expression has the same values on both sides.
* `Join.forall₂_extend_replaced` — so no join condition tells them apart, and they stay related when
  one more source is joined; `Join.forall₂_foldl_replaced` says the same of all joins.
* `Join.inScope_replaced` — join conditions still read nothing but what has been joined.
-/

namespace QueryPlan

/-! ## The rows of a source -/

/-- A plain projection shows a row for each row that it reads. -/
theorem Select.IsPlain.rows_eq {σ V : Type} [DecidableEq V] {s : Select σ} (h : s.IsPlain)
    (I : Interpretation V) (envs : List (Env V)) : s.rows I envs = envs.map (s.project I) := by
  have hpass : envs.filter (s.holds I) = envs := by
    refine List.filter_eq_self.2 ?_
    intro env _
    rw [Select.holds, h.filter, Option.all_none]
  have hsort : ∀ a b, s.Before I a b := by
    intro a b
    rw [Select.Before, Select.sortValues, Select.sortValues, h.orderBy]
    rfl
  rw [Select.rows, Select.contexts, Select.unsorted, h.distinct, h.limit, hpass,
    insertionSort_of_forall hsort]
  rfl

/-- The rows of a node, from those of the nodes that are no plain projections. -/
def Node.rowsOf {V : Type} [DecidableEq V] (I : Interpretation V) (base : Node → List (Row V)) :
    Node → List (Row V)
  | .select s =>
      if s.isPlainProjection then
        s.rows I ((s.source.rowsOf I base).map (·.under s.sourceName))
      else base (.select s)
  | n => base n

theorem Node.rowsOf_of_isPlainProjection {V : Type} [DecidableEq V] (I : Interpretation V)
    (base : Node → List (Row V)) {s : Statement} (h : s.isPlainProjection = true) :
    (Node.select s).rowsOf I base =
      (s.source.rowsOf I base).map fun row => s.project I (row.under s.sourceName) := by
  rw [Node.rowsOf, if_pos h, (Select.isPlain_of_isPlainProjection h).rows_eq, List.map_map]
  rfl

/-! ## Environments on both sides -/

/-- A plain projection whose columns can be told apart, and that reads nothing but its source. -/
structure Select.IsView {σ : Type} (child : Select σ) : Prop where
  plain : child.isPlainProjection = true
  names : child.columnNames.Nodup
  own : ∀ r ∈ child.columnRefs, r.table = child.sourceName

/-- A row has the values that the child's columns have at another row, that of its source. -/
def Select.PutsOut {σ V : Type} (child : Select σ) (I : Interpretation V) (row row' : Row V) : Prop :=
  ∀ c ∈ child.columns, I.valueIn row c.name =
    c.expr.eval I ((row'.under child.sourceName).reading I [])

/-- Two environments that agree on what has been joined, the child's columns being computed from its
source in the second. -/
structure Reflects {σ V : Type} (I : Interpretation V) (name : String) (child : Select σ)
    (seen : List String) (env env' : Env V) : Prop where
  others : ∀ n ∈ seen, n ≠ name → env' n = env n
  child : name ∈ seen → child.PutsOut I (env name) (env' child.sourceName)

namespace Select

variable {σ V : Type} {I : Interpretation V} {A : Across V} {name : String} {child : Select σ}
  {seen : List String} {envs envs' : List (Env V)}

theorem envAt_of_forall₂ {R : Env V → Env V → Prop} (h : List.Forall₂ R envs envs') :
    ∀ i < envs.length, R (envAt envs i) (envAt envs' i) := by
  intro i hi
  have hi' : i < envs'.length := h.length_eq ▸ hi
  simp only [envAt, List.getD_eq_getElem?_getD, List.getElem?_eq_getElem hi,
    List.getElem?_eq_getElem hi', Option.getD_some]
  exact h.get hi hi'

/-- A column of a view is computed from the row of its source. -/
theorem IsView.valueAt_column (hview : child.IsView) {c : NamedExpr} (hc : c ∈ child.columns)
    (extent : Extent V) (nameAt : Nat → String → V) (i : Nat) :
    c.expr.valueAt I A (.over I envs extent nameAt) i =
      c.expr.eval I (((envAt envs i child.sourceName).under child.sourceName).reading I []) := by
  have hplain := isPlain_of_isPlainProjection hview.plain
  refine Expr.valueAt_eq_eval _ ?_
  intro d hd
  cases d with
  | column r q =>
      have hr : r ∈ child.columnRefs := mem_columnRefs_of_mem_exprs
        (mem_exprs.2 (.inl (List.mem_map_of_mem hc))) (Expr.mem_lineage_columns.2 ⟨q, hd⟩)
      simp [Expr.SeesRow, Frame.over, Env.reading, Row.under, hview.own r hr]
  | name n =>
      have hn := Expr.mem_lineage_names.2 hd
      rw [hplain.names c hc] at hn
      cases hn
  | raw sql inputs g =>
      have hu : ⟨sql, inputs⟩ ∈ c.expr.lineage.raws := Expr.mem_lineage_raws.2 ⟨g, hd⟩
      rw [hplain.raws c hc] at hu
      cases hu
  | aggregate f args =>
      have hagg := Expr.lineage_aggregate_iff.2 ⟨f, args, hd⟩
      rw [hplain.aggregate c hc] at hagg
      cases hagg
  | window f args ps os =>
      have hwin := Expr.lineage_window_iff.2 ⟨f, args, ps, os, hd⟩
      rw [hplain.window c hc] at hwin
      cases hwin
  | _ => trivial

/-- An expression that reads what has been joined, and of the child only what it puts out. -/
structure Readable (name : String) (child : Select σ) (seen : List String) (e : Expr) : Prop where
  raws : e.lineage.raws = []
  tables : ∀ r ∈ e.lineage.columns, r.table ∈ seen
  covered : ∀ r ∈ e.lineage.columns, r.table = name →
    ∃ d, (columnSubstitution name child).get? r = some d

/-- **Replacing the child's columns is reading its row.**  An expression has the same values on both
sides. -/
theorem IsView.valueAt_substitute (hview : child.IsView)
    (hrows : List.Forall₂ (Reflects I name child seen) envs envs') {e : Expr}
    (he : Readable name child seen e) {extent : Extent V} (hsize : extent.size = envs.length)
    {nameAt nameAt' : Nat → String → V}
    (hnames : ∀ n ∈ e.lineage.names, ∀ i < envs.length, nameAt' i n = nameAt i n) :
    ∀ i < envs.length,
      (e.substitute (columnSubstitution name child)).valueAt I A (.over I envs' extent nameAt') i =
        e.valueAt I A (.over I envs extent nameAt) i := by
  have hextent : (Frame.over I envs' extent nameAt').extent =
      (Frame.over I envs extent nameAt).extent := rfl
  rw [← hsize]
  refine Expr.valueAt_bindColumns hextent e ?_
  intro d hd i hi
  replace hi : i < envs.length := hsize ▸ hi
  have hreflects := envAt_of_forall₂ hrows i hi
  cases d with
  | column r q =>
      have hr : r ∈ e.lineage.columns := Expr.mem_lineage_columns.2 ⟨q, hd⟩
      have htable := he.tables r hr
      by_cases hchild : r.table = name
      · rcases he.covered r hr hchild with ⟨d, hget⟩
        rcases mem_of_get?_columnSubstitution hget with ⟨c, hc, hcolumn, rfl⟩
        simp only [Expr.ReadAt, hget, Option.getD_some, hview.valueAt_column hc]
        rw [← hreflects.child (hchild ▸ htable) c hc]
        simp only [Frame.over, hchild, hcolumn]
      · have hget : (columnSubstitution name child).get? r = none := by
          rw [get?_columnSubstitution, if_neg hchild]
        simp only [Expr.ReadAt, hget, Option.getD_none, Expr.valueAt, Frame.over]
        rw [hreflects.others r.table htable hchild]
  | name n => exact hnames n (Expr.mem_lineage_names.2 hd) i hi
  | raw sql inputs g =>
      have hu : ⟨sql, inputs⟩ ∈ e.lineage.raws := Expr.mem_lineage_raws.2 ⟨g, hd⟩
      rw [he.raws] at hu
      cases hu
  | _ => trivial

theorem IsView.putsOut_project (hview : child.IsView) (row : Row V) :
    child.PutsOut I (child.project I (row.under child.sourceName)) row := by
  intro c hc
  have hcolumn : child.column? c.name = some c := find?_name_of_nodup hview.names hc
  rw [valueIn_project, hcolumn]
  rfl

/-- References to columns have no value where their row is one of nulls. -/
theorem putsOut_null (hrefs : ∀ c ∈ child.columns, ∃ r, c.expr.columnRef? = some r) :
    child.PutsOut I [] [] := by
  intro c hc
  rcases hrefs c hc with ⟨r, hr⟩
  cases hexpr : c.expr with
  | column r' q => simp [Expr.eval, Env.reading, Row.under, Interpretation.valueIn]
  | _ => simp [hexpr, Expr.columnRef?] at hr

end Select

/-! ## Joins on both sides -/

namespace Reflects

variable {σ V : Type} {I : Interpretation V} {name : String} {child : Select σ}
  {seen : List String} {env env' : Env V}

/-- One more source that is not replaced. -/
theorem bind_other (h : Reflects I name child seen env env') {n : String} (hne : n ≠ name)
    (hfree : n ≠ child.sourceName) (row : Row V) :
    Reflects I name child (n :: seen) (env.bind n row) (env'.bind n row) where
  others m hm hmname := by
    by_cases hmn : m = n
    · rw [hmn, Env.bind_self, Env.bind_self]
    · rw [Env.bind_of_ne _ _ hmn, Env.bind_of_ne _ _ hmn]
      exact h.others m (List.mem_of_ne_of_mem hmn hm) hmname
  child hname := by
    rw [Env.bind_of_ne _ _ hne.symm, Env.bind_of_ne _ _ hfree.symm]
    exact h.child (List.mem_of_ne_of_mem hne.symm hname)

/-- The source that is replaced. -/
theorem bind_child (h : Reflects I name child seen env env')
    (hfree : ∀ n ∈ seen, n ≠ name → n ≠ child.sourceName) {row row' : Row V}
    (hout : child.PutsOut I row row') :
    Reflects I name child (name :: seen) (env.bind name row) (env'.bind child.sourceName row') where
  others m hm hmname := by
    have hmseen : m ∈ seen := List.mem_of_ne_of_mem hmname hm
    rw [Env.bind_of_ne _ _ hmname, Env.bind_of_ne _ _ (hfree m hmseen hmname)]
    exact h.others m hmseen hmname
  child _ := by
    rw [Env.bind_self, Env.bind_self]
    exact hout

end Reflects

namespace Join

/-- A join with the child of a name replaced by its source. -/
def replaced (name : String) (child : Statement) (j : Join Node) : Join Node where
  source := if j.sourceName = name then child.source else j.source
  sourceName := if j.sourceName = name then child.sourceName else j.sourceName
  kind := j.kind
  condition := j.condition.map (Expr.substitute (Select.columnSubstitution name child))

/-- What a join must be like for a child to be replaced. -/
structure Admits (name : String) (child : Statement) (j : Join Node) : Prop where
  kind : j.kind ≠ .fullOuter
  raws : ∀ e ∈ j.condition, e.lineage.raws = []
  names : ∀ e ∈ j.condition, e.lineage.names = []
  covered : ∀ e ∈ j.condition, ∀ r ∈ e.lineage.columns, r.table = name →
    ∃ d, (Select.columnSubstitution name child).get? r = some d
  source : j.sourceName = name → j.source = .select child
  null_filled : j.sourceName = name → j.kind = .leftOuter →
    ∀ c ∈ child.columns, ∃ r, c.expr.columnRef? = some r
  name_free : j.sourceName ≠ name → j.sourceName ≠ child.sourceName

/-- Every condition reads only sources that have been joined before, and the one it belongs to. -/
def InScope {σ : Type} : List String → List (Join σ) → Prop
  | _, [] => True
  | seen, j :: js =>
      (∀ e ∈ j.condition, ∀ r ∈ e.lineage.columns, r.table ∈ j.sourceName :: seen) ∧
        InScope (j.sourceName :: seen) js

variable {V : Type} {I : Interpretation V} {A : Across V} {name : String}
  {child : Statement} {seen : List String} {envs envs' : List (Env V)}

theorem accepts_replaced (hview : child.IsView) {j : Join Node} (hj : j.Admits name child)
    (hscope : ∀ e ∈ j.condition, ∀ r ∈ e.lineage.columns, r.table ∈ seen) {env env' : Env V}
    (h : Reflects I name child seen env env') :
    (j.replaced name child).accepts I A env' = j.accepts I A env := by
  unfold accepts replaced
  cases hcondition : j.condition with
  | none => rfl
  | some e =>
      have he : e ∈ j.condition := hcondition
      have hvalue : (e.substitute (Select.columnSubstitution name child)).valueAt I A
          (.rows I A [env']) 0 = e.valueAt I A (.rows I A [env]) 0 :=
        hview.valueAt_substitute (.cons h .nil) ⟨hj.raws e he, hscope e he, hj.covered e he⟩ rfl
          (by simp [hj.names e he]) 0 Nat.one_pos
      simp only [Option.map_some, Option.all_some]
      exact congrArg I.isTrue hvalue

variable [DecidableEq V] {base : Node → List (Row V)}

/-- **One join.**  Joining the source, or what replaces it, keeps both sides related. -/
theorem forall₂_extend_replaced (hview : child.IsView) {j : Join Node} (hj : j.Admits name child)
    (hscope : ∀ e ∈ j.condition, ∀ r ∈ e.lineage.columns, r.table ∈ j.sourceName :: seen)
    (hfree : ∀ n ∈ seen, n ≠ name → n ≠ child.sourceName)
    (henvs : List.Forall₂ (Reflects I name child seen) envs envs') :
    List.Forall₂ (Reflects I name child (j.sourceName :: seen))
      (j.extend I A (j.source.rowsOf I base) envs)
      ((j.replaced name child).extend I A ((j.replaced name child).source.rowsOf I base) envs') := by
  have haccepts : ∀ {env env'}, Reflects I name child (j.sourceName :: seen) env env' →
      (j.replaced name child).accepts I A env' = j.accepts I A env :=
    accepts_replaced hview hj hscope
  by_cases hname : j.sourceName = name
  · have hsource : (j.replaced name child).source = child.source := if_pos hname
    have hnew : (j.replaced name child).sourceName = child.sourceName := if_pos hname
    have hrows : List.Forall₂ (child.PutsOut I) (j.source.rowsOf I base)
        ((j.replaced name child).source.rowsOf I base) := by
      rw [hj.source hname, hsource, Node.rowsOf_of_isPlainProjection I base hview.plain,
        List.forall₂_map_left_iff, List.forall₂_same]
      intro row _
      exact hview.putsOut_project row
    refine forall₂_extend ?_ haccepts hrows rfl hj.kind ?_ henvs
    · intro env env' henv row row' hrow
      rw [hname, hnew]
      exact henv.bind_child hfree hrow
    · intro hleft env env' henv
      rw [hname, hnew]
      exact henv.bind_child hfree (Select.putsOut_null (hj.null_filled hname hleft))
  · have hsource : (j.replaced name child).source = j.source := if_neg hname
    have hnew : (j.replaced name child).sourceName = j.sourceName := if_neg hname
    have hrows : List.Forall₂ Eq (j.source.rowsOf I base)
        ((j.replaced name child).source.rowsOf I base) := by
      rw [hsource]
      exact List.forall₂_refl _
    refine forall₂_extend ?_ haccepts hrows rfl hj.kind ?_ henvs
    · rintro env env' henv row _ rfl
      rw [hnew]
      exact henv.bind_other hname (hj.name_free hname) row
    · intro _ env env' henv
      rw [hnew]
      exact henv.bind_other hname (hj.name_free hname) []

/-- **All joins.**  Joining one source after the other keeps both sides related. -/
theorem forall₂_foldl_replaced (hview : child.IsView) : ∀ {js : List (Join Node)}
    {seen : List String} {envs envs' : List (Env V)},
    (∀ j ∈ js, j.Admits name child) → InScope seen js →
    (∀ n ∈ seen, n ≠ name → n ≠ child.sourceName) →
    List.Forall₂ (Reflects I name child seen) envs envs' →
    List.Forall₂ (Reflects I name child ((js.map Join.sourceName).reverse ++ seen))
      (js.foldl (fun envs j => j.extend I A (j.source.rowsOf I base) envs) envs)
      ((js.map (replaced name child)).foldl
        (fun envs j => j.extend I A (j.source.rowsOf I base) envs) envs')
  | [], _, _, _, _, _, _, henvs => henvs
  | j :: js, seen, envs, envs', hadmits, hscope, hfree, henvs => by
      have hj := hadmits j List.mem_cons_self
      have hfree' : ∀ n ∈ j.sourceName :: seen, n ≠ name → n ≠ child.sourceName := by
        intro n hn hne
        rcases List.mem_cons.1 hn with rfl | hn
        · exact hj.name_free hne
        · exact hfree n hn hne
      rw [List.map_cons, List.reverse_cons, List.append_assoc]
      refine forall₂_foldl_replaced hview ?_ hscope.2 hfree' ?_
      · intro k hk
        exact hadmits k (List.mem_cons_of_mem _ hk)
      · exact forall₂_extend_replaced hview hj hscope.1 hfree henvs

/-- The name under which a source is read once the child has been replaced. -/
def renamed (name : String) (child : Statement) (n : String) : String :=
  if n = name then child.sourceName else n

theorem table_of_mem_substitute (hview : child.IsView) {e : Expr}
    (hcovered : ∀ r ∈ e.lineage.columns, r.table = name →
      ∃ d, (Select.columnSubstitution name child).get? r = some d) {r' : ColumnRef}
    (hr' : r' ∈ (e.substitute (Select.columnSubstitution name child)).lineage.columns) :
    ∃ r ∈ e.lineage.columns, r'.table = renamed name child r.table := by
  rcases Select.mem_columns_substitute hr' with ⟨r, hr, ⟨rfl, hnone⟩ | ⟨htable, hread⟩⟩
  · refine ⟨r', hr, ?_⟩
    rw [renamed, if_neg]
    intro htable
    rcases hcovered r' hr htable with ⟨d, hget⟩
    rw [hnone] at hget
    cases hget
  · refine ⟨r, hr, ?_⟩
    rw [renamed, if_pos htable]
    exact hview.own r' hread

/-- Conditions stay in scope. -/
theorem inScope_replaced (hview : child.IsView) : ∀ {js : List (Join Node)} {seen : List String},
    (∀ j ∈ js, j.Admits name child) → InScope seen js →
    InScope (seen.map (renamed name child)) (js.map (replaced name child))
  | [], _, _, _ => trivial
  | j :: js, seen, hadmits, hscope => by
      refine ⟨?_, inScope_replaced hview (fun k hk => hadmits k (List.mem_cons_of_mem _ hk))
        hscope.2⟩
      intro e' he' r' hr'
      rcases Option.map_eq_some_iff.1 he' with ⟨e, he, rfl⟩
      rcases table_of_mem_substitute hview ((hadmits j List.mem_cons_self).covered e he) hr' with
        ⟨r, hr, htable⟩
      rw [htable]
      exact List.mem_map_of_mem (hscope.1 e he r hr)

end Join

end QueryPlan
