import QueryPlan.Proofs.Aggregation
import QueryPlan.Proofs.Identities
import QueryPlan.Proofs.References

/-!
# Nested functions

Aggregates and window functions look at many rows at once, and may not stand anywhere: not in the
arguments of an aggregate, and a window function not below another one; nor in a filter, a grouping
key or a join condition.  A statement that keeps to this is stratified (`Select.isStratified`).

Merging puts expressions of a child in place of columns of its parent.

* `Expr.isNested_bindColumns_iff` — what is put in place of columns, below which functions, decides
  whether an expression is still nested as it should be.
* `Projects.isStratified`, `isStratified_of_replaceSources?` — projections and replaced sources keep
  statements stratified.
* `Inlines.isStratified_iff_nestsWindows` — so does inlining, unless a window function of the parent
  reads a column that the child computes with a window function.
-/

namespace QueryPlan

/-! ## Expressions -/

/-- Whether something looks at more than one row. -/
def Lineage.acrossRows (l : Lineage) : Bool :=
  l.aggregate || l.window

theorem Lineage.combine_acrossRows (ls : List Lineage) :
    (combine ls).acrossRows = ls.any acrossRows := by
  induction ls with
  | nil => rfl
  | cons l ls ih =>
      rw [List.any_cons, ← ih]
      show (l.aggregate || (combine ls).aggregate || (l.window || (combine ls).window)) =
        (l.aggregate || l.window || ((combine ls).aggregate || (combine ls).window))
      ac_rfl

namespace Expr

/-- Whether an expression looks at one row only: it holds no aggregate and no window function. -/
def isScalar (e : Expr) : Bool :=
  !e.lineage.acrossRows

/-- Whether an aggregate or a window function stands above nothing that it must not stand above. -/
def nestsHere : Expr → Bool
  | .aggregate _ args => args.all isScalar
  | .window _ args ps os => (args ++ ps ++ os.map SortKey.expr).all fun a => !a.lineage.window
  | _ => true

/-- Whether all functions of an expression are nested as they should be. -/
def isNested (e : Expr) : Bool :=
  e.walk.all nestsHere

/-- Whether one expression may stand below the function that another one starts with. -/
def MayHold (d x : Expr) : Prop :=
  (d.ownLineage.aggregate = true → x.isScalar = true) ∧
    (d.ownLineage.window = true → x.lineage.window = false)

theorem nestsHere_iff {d : Expr} : d.nestsHere = true ↔ ∀ c ∈ d.children, d.MayHold c := by
  cases d with
  | aggregate f args => simp [nestsHere, MayHold, children, ownLineage]
  | window f args ps os =>
      rw [nestsHere, List.all_eq_true]
      exact forall₂_congr fun c _ => by simp [MayHold, ownLineage]
  | _ => simp [nestsHere, MayHold, ownLineage]

theorem isNested_iff {e : Expr} : e.isNested = true ↔ ∀ d ∈ e.walk, d.nestsHere = true :=
  List.all_eq_true

theorem isScalar_iff {e : Expr} :
    e.isScalar = true ↔ e.lineage.aggregate = false ∧ e.lineage.window = false := by
  simp [isScalar, Lineage.acrossRows]

/-- What looks at one row holds nothing that could be nested wrongly. -/
theorem isNested_of_isScalar {e : Expr} (h : e.isScalar = true) : e.isNested = true := by
  rw [isScalar_iff] at h
  refine isNested_iff.2 fun d hd => ?_
  cases d with
  | aggregate f args => simp [lineage_aggregate_iff.2 ⟨f, args, hd⟩] at h
  | window f args ps os => simp [lineage_window_iff.2 ⟨f, args, ps, os, hd⟩] at h
  | _ => rfl

theorem isScalar_and (args : List Expr) : (logical .and args).isScalar = args.all isScalar := by
  rw [isScalar, lineage_flag_eq Lineage.combine_acrossRows]
  show (!(false || args.any fun a => a.lineage.acrossRows)) = args.all isScalar
  rw [Bool.false_or, List.not_any_eq_all_not]
  rfl

theorem isScalar_conjoin {l r : Option Expr} {e : Expr} (h : conjoin l r = some e)
    (hl : l.all isScalar = true) (hr : r.all isScalar = true) : e.isScalar = true := by
  unfold conjoin at h
  split at h
  · simpa [h] using hr
  · simpa [h] using hl
  · cases h
    rw [Option.all_some, isScalar_and] at hl
    simpa [isScalar_and, hl] using hr
  · cases h
    simpa [isScalar_and] using ⟨hl, hr⟩

section Substitution

variable {f : ColumnRef → Option Expr}

theorem isScalar_bindColumns_iff {e : Expr} :
    (e.bindColumns f).isScalar = true ↔
      e.isScalar = true ∧ ∀ r ∈ e.lineage.columns, ∀ x, f r = some x → x.isScalar = true := by
  have hflag := lineage_flag_bindColumns f Lineage.combine_acrossRows (fun _ => rfl) e
  simp [isScalar, hflag, Option.any_eq_false]

theorem window_bindColumns_iff {e : Expr} :
    (e.bindColumns f).lineage.window = false ↔
      e.lineage.window = false ∧
        ∀ r ∈ e.lineage.columns, ∀ x, f r = some x → x.lineage.window = false := by
  simp [lineage_window_bindColumns, Option.any_eq_false]

theorem mayHold_bindColumns_iff {d e : Expr} :
    d.MayHold (e.bindColumns f) ↔
      d.MayHold e ∧ ∀ r ∈ e.lineage.columns, ∀ x, f r = some x → d.MayHold x := by
  simp only [MayHold, isScalar_bindColumns_iff, window_bindColumns_iff]
  grind

/-- At one place: what is put below a function may stand there. -/
theorem nestsHere_bindColumns_iff {d : Expr} (hd : d.columnRef? = none) :
    (d.bindColumns f).nestsHere = true ↔
      d.nestsHere = true ∧ ∀ r ∈ d.lineage.columns, ∀ x, f r = some x → d.MayHold x := by
  rcases bindColumns_of_not_column f hd with ⟨hchildren, hown, hcolumns⟩
  have hsame : ∀ x, (d.bindColumns f).MayHold x ↔ d.MayHold x := by
    intro x
    rw [MayHold, MayHold, hown]
  simp only [nestsHere_iff, hchildren, List.forall_mem_map, hsame, mayHold_bindColumns_iff]
  rw [lineage_columns_eq, hcolumns, List.nil_append]
  simp only [List.mem_flatMap]
  constructor
  · intro h
    refine ⟨fun c hc => (h c hc).1, ?_⟩
    rintro r ⟨c, hc, hr⟩
    exact (h c hc).2 r hr
  · rintro ⟨hbefore, hput⟩ c hc
    exact ⟨hbefore c hc, fun r hr => hput r ⟨c, hc, hr⟩⟩

theorem mayHold_column (r : ColumnRef) (q : Bool) (x : Expr) : (column r q).MayHold x :=
  ⟨nofun, nofun⟩

/-- **Nesting under substitution.**  With columns replaced by expressions that are nested as they
should be, an expression still is if and only if it was before and each function may hold what is
put below it. -/
theorem isNested_bindColumns_iff {e : Expr}
    (hf : ∀ r ∈ e.lineage.columns, ∀ x, f r = some x → x.isNested = true) :
    (e.bindColumns f).isNested = true ↔
      e.isNested = true ∧
        ∀ d ∈ e.walk, ∀ r ∈ d.lineage.columns, ∀ x, f r = some x → d.MayHold x := by
  simp only [isNested_iff] at hf ⊢
  constructor
  · intro h
    have hat : ∀ d ∈ e.walk, d.nestsHere = true ∧
        ∀ r ∈ d.lineage.columns, ∀ x, f r = some x → d.MayHold x := by
      intro d hd
      cases hcolumn : d.columnRef? with
      | none => exact (nestsHere_bindColumns_iff hcolumn).1 (h _ (bindColumns_mem_walk f hd))
      | some r =>
          rcases eq_column_of_columnRef? hcolumn with ⟨q, rfl⟩
          exact ⟨rfl, fun _ _ x _ => mayHold_column r q x⟩
    exact ⟨fun d hd => (hat d hd).1, fun d hd => (hat d hd).2⟩
  · rintro ⟨hbefore, hput⟩ x hx
    rcases exists_of_mem_walk_bindColumns f e hx with ⟨d, hd, hcolumn, rfl⟩ | ⟨r, q, hr, hx⟩
    · exact (nestsHere_bindColumns_iff hcolumn).2 ⟨hbefore d hd, hput d hd⟩
    · cases hreplaced : f r with
      | none =>
          rw [hreplaced] at hx
          obtain rfl : x = .column r q := List.mem_singleton.1 hx
          rfl
      | some d =>
          rw [hreplaced] at hx
          exact hf r (mem_lineage_columns.2 ⟨q, hr⟩) d hreplaced x hx

/-- What looks at one row may be put anywhere. -/
theorem isNested_bindColumns_of_isScalar {e : Expr} (he : e.isNested = true)
    (hf : ∀ r x, f r = some x → x.isScalar = true) : (e.bindColumns f).isNested = true := by
  refine (isNested_bindColumns_iff fun r _ x hx => isNested_of_isScalar (hf r x hx)).2 ⟨he, ?_⟩
  intro d _ r _ x hx
  exact ⟨fun _ => hf r x hx, fun _ => (isScalar_iff.1 (hf r x hx)).2⟩

end Substitution

end Expr

/-! ## Statements -/

namespace Select

section Stratified

variable {σ : Type} {parent child merged : Select σ}

/-- The expressions that decide about single rows: join conditions, filter and grouping keys. -/
def rowExprs (s : Select σ) : List Expr :=
  s.conditions ++ s.filter.toList ++ s.groupExprs

/-- Whether aggregates and window functions stand only where they may. -/
def isStratified (s : Select σ) : Bool :=
  s.exprs.all Expr.isNested && s.rowExprs.all Expr.isScalar

theorem isStratified_iff {s : Select σ} :
    s.isStratified = true ↔
      (∀ e ∈ s.exprs, e.isNested = true) ∧ ∀ e ∈ s.rowExprs, e.isScalar = true := by
  rw [isStratified, Bool.and_eq_true, List.all_eq_true, List.all_eq_true]

theorem mem_rowExprs {s : Select σ} {e : Expr} :
    e ∈ s.rowExprs ↔ e ∈ s.conditions ∨ s.filter = some e ∨ e ∈ s.groupExprs := by
  simp [rowExprs]

/-- What a projection puts out is the child's. -/
theorem Projects.isStratified {parent child merged : Statement} (h : Projects parent child merged)
    (hchild : child.isStratified = true) : merged.isStratified = true := by
  rw [isStratified_iff] at hchild ⊢
  refine ⟨?_, ?_⟩
  · intro e he
    rcases h.exprs_cases he with he | ⟨n, rfl⟩
    · exact hchild.1 e he
    · rfl
  · have hsame : merged.rowExprs = child.rowExprs := by
      rw [rowExprs, rowExprs, conditions, conditions, groupExprs, h.sources.2.2, h.filter,
        h.groupBy, groupExprs_relabel]
      rfl
    rw [hsame]
    exact hchild.2

/-! ## Replaced sources -/

/-- A plain child computes nothing across rows. -/
theorem isScalar_of_isPlain (h : child.IsPlain) {name : String} {r : ColumnRef} {x : Expr}
    (hx : (columnSubstitution name child).get? r = some x) : x.isScalar = true := by
  rcases mem_of_get?_columnSubstitution hx with ⟨c, hc, -, rfl⟩
  exact Expr.isScalar_iff.2 ⟨h.aggregate c hc, h.window c hc⟩

theorem Replaces.isStratified {s child merged : Statement} {place : Nat} {name : String}
    (h : s.Replaces place name child merged) (hs : s.isStratified = true) :
    merged.isStratified = true := by
  have hplain := isPlain_of_isPlainProjection h.plain
  rw [isStratified_iff] at hs ⊢
  refine ⟨?_, ?_⟩
  · rw [h.exprs, List.forall_mem_map]
    intro e he
    exact Expr.isNested_bindColumns_of_isScalar (hs.1 e he) fun _ _ => isScalar_of_isPlain hplain
  · have hrow : merged.rowExprs =
        s.rowExprs.map (Expr.substitute (columnSubstitution name child)) := by
      simp [rowExprs, groupExprs, h.conditions, h.filter, h.groupBy, substituteColumns,
        Option.toList_map, Function.comp_def]
    rw [hrow, List.forall_mem_map]
    intro e he
    exact Expr.isScalar_bindColumns_iff.2 ⟨hs.2 e he, fun _ _ _ => isScalar_of_isPlain hplain⟩

/-- Sources are replaced one after the other, and each step keeps the statement stratified. -/
theorem isStratified_of_replaceSources? {merged : Statement} {places : List Nat} :
    ∀ {s : Statement}, replaceSources? places s = some merged → s.isStratified = true →
      merged.isStratified = true := by
  induction places with
  | nil =>
      intro s h
      cases h
  | cons place places ih =>
      intro s h hs
      rcases replaceSources?_cons h with hskip | ⟨name, child, t, hstep, rfl | hrest⟩
      · exact ih hskip hs
      · exact hstep.isStratified hs
      · exact ih hrest (hstep.isStratified hs)

/-! ## Inlined columns -/

/-- Whether a window function of the parent reads a column that the child computes with a window
function. -/
def nestsWindows (parent child : Select σ) : Bool :=
  parent.columns.any fun c => c.expr.walk.any fun d => d.ownLineage.window &&
    d.lineage.columns.any fun r => (child.lastColumn? r.column).any fun x => x.expr.lineage.window

theorem nestsWindows_eq_false_iff :
    parent.nestsWindows child = false ↔
      ∀ c ∈ parent.columns, ∀ d ∈ c.expr.walk, ∀ r ∈ d.lineage.columns, ∀ x,
        child.lastColumn? r.column = some x → d.ownLineage.window = true →
        x.expr.lineage.window = false := by
  simp only [nestsWindows, List.any_eq_false, Bool.and_eq_true, List.any_eq_true,
    Option.any_eq_true]
  grind

namespace Inlines

variable (h : Inlines parent child merged) {x : NamedExpr} (hx : x ∈ child.columns)

include h hx

/-- Over aggregates the parent only picks columns. -/
theorem picks_of_aggregate (hagg : x.expr.lineage.aggregate = true) :
    parent.filter = none ∧ parent.groupBy = [] ∧
      ∀ c ∈ parent.columns, ∃ r, c.expr.columnRef? = some r := by
  have hgroups : child.groupsRows = true := groupsRows_iff.2 (.inr ⟨x, hx, hagg⟩)
  have hintact := h.groups_intact
  simp only [groupsStayIntact, hgroups, Bool.not_true, Bool.false_or, Bool.and_eq_true,
    List.isEmpty_iff, List.all_eq_true, Option.isSome_iff_exists,
    Option.isNone_iff_eq_none] at hintact
  exact ⟨hintact.1.1, hintact.1.2, hintact.2⟩

/-- Over window functions the parent neither filters nor aggregates, and does not group by them. -/
theorem keeps_of_window (hwindow : x.expr.lineage.window = true) :
    parent.groupsByWindow child = false ∧ parent.filter = none ∧
      ∀ c ∈ parent.columns, c.expr.lineage.aggregate = false := by
  have hwindows : child.outputLineage.window = true := by
    rw [outputLineage, Expr.lineages, Lineage.combine_window]
    simp only [selectExprs, List.map_map, List.any_map, List.any_eq_true]
    exact ⟨x, hx, hwindow⟩
  have hintact := h.windows_intact
  simp only [windowsStayIntact, hwindows, Bool.not_true, Bool.false_or, Bool.and_eq_true,
    Bool.not_eq_true', Option.isNone_iff_eq_none] at hintact
  refine ⟨hintact.1.1, hintact.1.2, fun c hc => ?_⟩
  cases hagg : c.expr.lineage.aggregate with
  | false => rfl
  | true =>
      rw [outputLineage_aggregate_iff.2 ⟨c, hc, hagg⟩] at hintact
      cases hintact.2

/-- What is inlined in a filter looks at one row. -/
theorem isScalar_of_filter (hfilter : parent.filter ≠ none) : x.expr.isScalar = true := by
  refine Expr.isScalar_iff.2 ⟨?_, ?_⟩
  · exact Bool.eq_false_iff.2 fun hagg => hfilter (h.picks_of_aggregate hx hagg).1
  · exact Bool.eq_false_iff.2 fun hwindow => hfilter (h.keeps_of_window hx hwindow).2.1

/-- What is inlined in a grouping key looks at one row. -/
theorem isScalar_of_groupBy {g : NamedExpr} (hg : g ∈ parent.groupBy) {r : ColumnRef}
    (hr : r ∈ g.expr.lineage.columns) (hname : r.column = x.name) : x.expr.isScalar = true := by
  refine Expr.isScalar_iff.2 ⟨?_, ?_⟩
  · refine Bool.eq_false_iff.2 fun hagg => ?_
    exact List.ne_nil_of_mem hg (h.picks_of_aggregate hx hagg).2.1
  · refine Bool.eq_false_iff.2 fun hwindow => ?_
    have htable : r.table = parent.sourceName := by
      refine h.own_columns r (mem_columnRefs_of_mem_exprs ?_ hr)
      exact mem_exprs.2 (.inr (.inr (.inr (.inl (List.mem_map_of_mem hg)))))
    have hmem : r.column ∈ child.windowNames := by
      rw [hname]
      exact List.mem_map_of_mem (List.mem_filter.2 ⟨hx, hwindow⟩)
    have hgroups : parent.groupsByWindow child = true := by
      simp only [groupsByWindow, List.any_eq_true]
      exact ⟨g, hg, r, hr, by simp [htable, hmem]⟩
    rw [(h.keeps_of_window hx hwindow).1] at hgroups
    cases hgroups

/-- What is inlined below an aggregate looks at one row. -/
theorem isScalar_of_aggregate {c : NamedExpr} (hc : c ∈ parent.columns) {d : Expr}
    (hd : d ∈ c.expr.walk) (hagg : d.ownLineage.aggregate = true) : x.expr.isScalar = true := by
  have hown : c.expr.lineage.aggregate = true := by
    rw [Expr.lineage, Lineage.combine_aggregate, List.any_map]
    exact List.any_eq_true.2 ⟨d, hd, hagg⟩
  refine Expr.isScalar_iff.2 ⟨?_, ?_⟩
  · refine Bool.eq_false_iff.2 fun hbelow => ?_
    rcases (h.picks_of_aggregate hx hbelow).2.2 c hc with ⟨r, hr⟩
    rw [lineage_of_columnRef? hr] at hown
    cases hown
  · refine Bool.eq_false_iff.2 fun hwindow => ?_
    rw [(h.keeps_of_window hx hwindow).2.2 c hc] at hown
    cases hown

end Inlines

namespace Inlines

variable (h : Inlines parent child merged) (hparent : parent.isStratified = true)
  (hchild : child.isStratified = true)

include h hparent hchild

/-- Where rows are looked at one by one, inlining keeps it so. -/
theorem isScalar_of_mem_rowExprs : ∀ e ∈ merged.rowExprs, e.isScalar = true := by
  rw [isStratified_iff] at hparent hchild
  have hrow : ∀ e ∈ child.rowExprs, e.isScalar = true := hchild.2
  intro e he
  rcases mem_rowExprs.1 he with hcondition | hfilter | hgroup
  · rw [conditions, h.sources.2.2] at hcondition
    exact hrow e (mem_rowExprs.2 (.inl hcondition))
  · rw [h.filter] at hfilter
    refine Expr.isScalar_conjoin hfilter ?_ ?_
    · rw [Option.all_eq_true]
      exact fun d hd => hrow d (mem_rowExprs.2 (.inr (.inl hd)))
    · rw [Option.all_map, Option.all_eq_true]
      intro d hd
      refine Expr.isScalar_bindColumns_iff.2 ⟨hparent.2 d (mem_rowExprs.2 (.inr (.inl hd))), ?_⟩
      intro r _ y hy
      rcases mem_of_get?_columnSubstitution hy with ⟨x, hx, -, rfl⟩
      exact h.isScalar_of_filter hx (by simp [hd])
  · rw [groupExprs, h.groupBy] at hgroup
    split at hgroup
    · rw [groupExprs_relabel] at hgroup
      exact hrow e (mem_rowExprs.2 (.inr (.inr hgroup)))
    · rw [substituteColumns, List.map_map] at hgroup
      rcases List.mem_map.1 hgroup with ⟨g, hg, rfl⟩
      have hkey := hparent.2 g.expr (mem_rowExprs.2 (.inr (.inr (List.mem_map_of_mem hg))))
      refine Expr.isScalar_bindColumns_iff.2 ⟨hkey, ?_⟩
      intro r hr y hy
      rcases mem_of_get?_columnSubstitution hy with ⟨x, hx, hname, rfl⟩
      exact h.isScalar_of_groupBy hx hg hr hname

/-- A column of the parent is nested as it should be, with the child's columns inlined, if and only
if its window functions read no window functions. -/
theorem isNested_column_iff {c : NamedExpr} (hc : c ∈ parent.columns) :
    (c.expr.substitute (columnSubstitution parent.sourceName child)).isNested = true ↔
      ∀ d ∈ c.expr.walk, ∀ r ∈ d.lineage.columns, ∀ x,
        child.lastColumn? r.column = some x → d.ownLineage.window = true →
        x.expr.lineage.window = false := by
  rw [isStratified_iff] at hparent hchild
  have hexpr : c.expr ∈ parent.exprs := mem_exprs.2 (.inl (List.mem_map_of_mem hc))
  have hget : ∀ d ∈ c.expr.walk, ∀ r ∈ d.lineage.columns,
      (columnSubstitution parent.sourceName child).get? r =
        (child.lastColumn? r.column).map NamedExpr.expr := by
    intro d hd r hr
    rcases Expr.mem_lineage_columns.1 hr with ⟨q, hq⟩
    have hread := Expr.mem_lineage_columns.2 ⟨q, Expr.mem_walk_trans hq hd⟩
    rw [get?_columnSubstitution, if_pos (h.own_columns r (mem_columnRefs_of_mem_exprs hexpr hread))]
  have hreplaced : ∀ r ∈ c.expr.lineage.columns, ∀ y,
      (columnSubstitution parent.sourceName child).get? r = some y → y.isNested = true := by
    intro r _ y hy
    rcases mem_of_get?_columnSubstitution hy with ⟨x, hx, -, rfl⟩
    exact hchild.1 x.expr (mem_exprs.2 (.inl (List.mem_map_of_mem hx)))
  rw [Expr.substitute, Expr.isNested_bindColumns_iff hreplaced]
  constructor
  · rintro ⟨-, hholds⟩ d hd r hr x hx
    exact (hholds d hd r hr x.expr (by rw [hget d hd r hr, hx]; rfl)).2
  · intro hwindows
    refine ⟨hparent.1 c.expr hexpr, fun d hd r hr y hy => ?_⟩
    rw [hget d hd r hr] at hy
    rcases Option.map_eq_some_iff.1 hy with ⟨x, hx, rfl⟩
    exact ⟨h.isScalar_of_aggregate (mem_of_lastColumn? hx) hc hd, hwindows d hd r hr x hx⟩

/-- **Inlining nests nothing but window functions.** -/
theorem isStratified_iff_nestsWindows :
    merged.isStratified = true ↔ parent.nestsWindows child = false := by
  have hrow := h.isScalar_of_mem_rowExprs hparent hchild
  rw [nestsWindows_eq_false_iff, isStratified_iff]
  constructor
  · rintro ⟨hnested, -⟩ c hc
    refine (h.isNested_column_iff hparent hchild hc).1 (hnested _ (mem_exprs.2 (.inl ?_)))
    rw [selectExprs, h.columns, substituteColumns, List.map_map]
    exact List.mem_map_of_mem hc
  · intro hwindows
    refine ⟨fun e he => ?_, hrow⟩
    rcases mem_exprs.1 he with hselect | hcondition | hfilter | hgroup | horder
    · rw [selectExprs, h.columns, substituteColumns, List.map_map] at hselect
      rcases List.mem_map.1 hselect with ⟨c, hc, rfl⟩
      exact (h.isNested_column_iff hparent hchild hc).2 (hwindows c hc)
    · exact Expr.isNested_of_isScalar (hrow e (mem_rowExprs.2 (.inl hcondition)))
    · exact Expr.isNested_of_isScalar (hrow e (mem_rowExprs.2 (.inr (.inl hfilter))))
    · exact Expr.isNested_of_isScalar (hrow e (mem_rowExprs.2 (.inr (.inr hgroup))))
    · rcases List.mem_map.1 horder with ⟨k, hk, rfl⟩
      rcases orderBy_names h k hk with ⟨n, hn⟩
      rw [hn]
      rfl

end Inlines

end Stratified

end Select

/-- **Merging keeps statements stratified, windows over windows apart.**  Let a statement and all
statements that it reads be stratified.  If it is merged as a projection, or its sources are
replaced, then what results is stratified.  If it is merged by inlining with the child that it
reads, then what results is stratified if and only if no window function in its select list reads a
column that the child computes with a window function. -/
theorem stratified_kept_iff {s merged : Statement} (hs : s.isStratified = true)
    (hsources : ∀ child, .select child ∈ s.sourceNodes → child.isStratified = true) :
    (MergeRule.projection s = some merged → merged.isStratified = true) ∧
      (MergeRule.inlining s = some merged →
        (s.joins ≠ [] → merged.isStratified = true) ∧
        ∀ child, s.joins = [] → s.source = .select child →
          (merged.isStratified = true ↔ s.nestsWindows child = false)) := by
  have hfrom : ∀ child, s.source = .select child → child.isStratified = true := by
    intro child hsource
    exact hsources child (by simp [Select.sourceNodes, Select.sources, hsource])
  refine ⟨?_, ?_⟩
  · intro h
    rcases MergeRule.projection_eq_some h with ⟨child, hsource, hprojects⟩
    exact hprojects.isStratified (hfrom child hsource)
  · intro h
    refine ⟨?_, ?_⟩
    · intro hjoins
      rw [MergeRule.inlining, if_neg (by simpa using hjoins), Select.joinSources?] at h
      split at h
      case isTrue => exact Select.isStratified_of_replaceSources? h hs
      case isFalse => cases h
    · intro child hjoins hsource
      rcases MergeRule.inlining_eq_some hjoins h with ⟨child', hsource', hinlines⟩
      obtain rfl : child = child' := by simpa [hsource] using hsource'
      exact hinlines.isStratified_iff_nestsWindows hs (hfrom child hsource)

/-- `SELECT ROW_NUMBER() OVER (ORDER BY b.x) AS rn FROM t b`. -/
def Select.numbered : Statement :=
  .plain 2 [⟨.window .rowNumber [] [] [⟨.column ⟨"b", "x"⟩ true, false⟩], "rn"⟩]
    (.table 1 ⟨none, "t"⟩) "b"

/-- `SELECT SUM(a.rn) OVER () AS s FROM numbered a`. -/
def Select.sumOfNumbers : Statement :=
  .plain 3 [⟨.window .sum [.column ⟨"a", "rn"⟩ true] [] [], "s"⟩] (.select .numbered) "a"

/-- The number of a row is put into the sum over the numbers, where it may not stand. -/
theorem stratified_lost_sumOfNumbers :
    Select.sumOfNumbers.isStratified = true ∧ Select.numbered.isStratified = true ∧
      ∃ merged, MergeRule.inlining .sumOfNumbers = some merged ∧
        merged.columns = [⟨.window .sum
          [.window .rowNumber [] [] [⟨.column ⟨"b", "x"⟩ true, false⟩]] [] [], "s"⟩] ∧
        ¬ merged.isStratified = true := by
  have hs : Select.sumOfNumbers.isStratified = true := by decide
  have hchild : Select.numbered.isStratified = true := by decide
  have hsources : ∀ child, .select child ∈ Select.sumOfNumbers.sourceNodes →
      child.isStratified = true := by
    intro child hmem
    obtain rfl : child = .numbered := by
      simpa [Select.sourceNodes, Select.sources, Select.sumOfNumbers, Select.plain] using hmem
    exact hchild
  have hmerged : MergeRule.inlining Select.sumOfNumbers = some _ := rfl
  refine ⟨hs, hchild, _, hmerged, rfl, ?_⟩
  rw [((stratified_kept_iff hs hsources).2 hmerged).2 .numbered rfl rfl]
  decide

end QueryPlan
