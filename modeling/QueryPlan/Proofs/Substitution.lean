import Mathlib.Data.List.Basic
import QueryPlan.Proofs.Lineage

/-!
# Substitution, constructor by constructor

`Expr.bindColumns` is an instance of a general transformation.  The equations below say what it does
at each form of expression, so that later proofs need not look into that.  Nothing is replaced but
column references, and the replacements are not looked into again.

* `induct_children` — induction over expressions by their children, whatever the form; `consulted_eq`
  describes in these terms where a function that offers replacements is asked.
* `transform_eq` — a transformation offers a replacement or goes on to the children, whatever the form.
* `walk_bindColumns` — a walk over an expression with columns replaced, in terms of a walk over the
  expression; from it comes `lineage_bindColumns`, what such an expression reads, and from that
  * `lineage_columns_bindColumns` — the columns are those that the replacements read,
  * `lineage_part_bindColumns` — names and uninterpreted SQL of the replacements are added at the
    places of the columns,
  * `lineage_flag_bindColumns` — it holds an aggregate, or a window function, exactly when it held one
    before or one of the replacements that were used does.
* `bindColumns_bindColumns` — two substitutions in a row are one.
* `get?_ofList` — in a substitution made from a list the last replacement for a column counts.
-/

namespace QueryPlan

namespace Expr

section Equations

variable (f : ColumnRef → Option Expr)

@[simp] theorem bindColumns_column (r : ColumnRef) (q : Bool) :
    (column r q).bindColumns f = (f r).getD (.column r q) := rfl

@[simp] theorem bindColumns_name (n : String) : (name n).bindColumns f = .name n := rfl

@[simp] theorem bindColumns_raw (sql : String) (inputs : Option (List String)) (g : Bool) :
    (raw sql inputs g).bindColumns f = .raw sql inputs g := rfl

@[simp] theorem bindColumns_literal (v : String) : (literal v).bindColumns f = .literal v := rfl

@[simp] theorem bindColumns_null : null.bindColumns f = .null := rfl

@[simp] theorem bindColumns_comparison (l : Expr) (op : Comparison) (r : Expr) :
    (comparison l op r).bindColumns f = .comparison (l.bindColumns f) op (r.bindColumns f) := rfl

@[simp] theorem bindColumns_logical (op : Connective) (as : List Expr) :
    (logical op as).bindColumns f = .logical op (as.map (bindColumns f)) :=
  congrArg (logical op) (transformList_eq_map _ as)

@[simp] theorem bindColumns_isNull (a : Expr) :
    (isNull a).bindColumns f = .isNull (a.bindColumns f) := rfl

@[simp] theorem bindColumns_arithmetic (l : Expr) (op : ArithmeticOp) (r : Expr) :
    (arithmetic l op r).bindColumns f = .arithmetic (l.bindColumns f) op (r.bindColumns f) := rfl

@[simp] theorem bindColumns_call (g : String) (as : List Expr) :
    (call g as).bindColumns f = .call g (as.map (bindColumns f)) :=
  congrArg (call g) (transformList_eq_map _ as)

@[simp] theorem bindColumns_aggregate (g : AggregateFunction) (as : List Expr) :
    (aggregate g as).bindColumns f = .aggregate g (as.map (bindColumns f)) :=
  congrArg (aggregate g) (transformList_eq_map _ as)

@[simp] theorem bindColumns_window (g : WindowFunction) (as ps : List Expr)
    (os : List (SortKey Expr)) :
    (window g as ps os).bindColumns f =
      .window g (as.map (bindColumns f)) (ps.map (bindColumns f))
        (os.map fun k => { k with expr := k.expr.bindColumns f }) := by
  have h : (window g as ps os).bindColumns f =
      .window g (transformList _ as) (transformList _ ps) (transformKeys _ os) := rfl
  rw [h, transformList_eq_map, transformList_eq_map, transformKeys_eq_map]
  rfl

@[simp] theorem bindColumns_cast (a : Expr) (type : String) :
    (cast a type).bindColumns f = .cast (a.bindColumns f) type := rfl

@[simp] theorem bindColumns_truncate (grain : Grain) (a : Expr) :
    (truncate grain a).bindColumns f = .truncate grain (a.bindColumns f) := rfl

@[simp] theorem bindColumns_between (a low high : Expr) :
    (between a low high).bindColumns f =
      .between (a.bindColumns f) (low.bindColumns f) (high.bindColumns f) := rfl

end Equations

/-! ## Induction over sub-expressions -/

theorem sizeOf_lt_of_mem_children {d e : Expr} (h : d ∈ e.children) : sizeOf d < sizeOf e := by
  cases e with
  | column | name | raw | literal | null => simp [children] at h
  | comparison l op r | arithmetic l op r =>
      simp only [children, List.mem_cons, List.not_mem_nil, or_false] at h
      simp only [comparison.sizeOf_spec, arithmetic.sizeOf_spec]
      rcases h with rfl | rfl <;> omega
  | logical op as | call op as | aggregate op as =>
      have has := List.sizeOf_lt_of_mem h
      simp only [children, logical.sizeOf_spec, call.sizeOf_spec, aggregate.sizeOf_spec] at *
      omega
  | isNull a | cast a t | truncate g a =>
      simp only [children, List.mem_singleton] at h
      simp only [isNull.sizeOf_spec, cast.sizeOf_spec, truncate.sizeOf_spec, h]
      omega
  | window g as ps os =>
      simp only [children, List.mem_append, List.mem_map] at h
      simp only [window.sizeOf_spec]
      rcases h with (h | h) | ⟨k, h, rfl⟩
      · have has := List.sizeOf_lt_of_mem h
        omega
      · have hps := List.sizeOf_lt_of_mem h
        omega
      · have hos := List.sizeOf_lt_of_mem h
        have hk : sizeOf k.expr < sizeOf k := by
          cases k
          simp only [SortKey.mk.sizeOf_spec]
          omega
        omega
  | between a low high =>
      simp only [children, List.mem_cons, List.not_mem_nil, or_false] at h
      simp only [between.sizeOf_spec]
      rcases h with rfl | rfl | rfl <;> omega

/-- What holds of an expression whenever it holds of its children holds of every expression. -/
@[elab_as_elim]
theorem induct_children {P : Expr → Prop} (e : Expr)
    (step : ∀ e, (∀ d ∈ e.children, P d) → P e) : P e :=
  step e fun d h =>
    have := sizeOf_lt_of_mem_children h
    induct_children d step
termination_by sizeOf e

/-- Induction that takes columns apart from what is built over children. -/
@[elab_as_elim]
theorem induct_columns {P : Expr → Prop} (e : Expr) (column : ∀ r q, P (.column r q))
    (step : ∀ e, e.columnRef? = none → (∀ d ∈ e.children, P d) → P e) : P e := by
  induction e using induct_children with
  | step e ih =>
    cases e with
    | column r q => exact column r q
    | _ => exact step _ rfl ih

theorem mem_walk_self (e : Expr) : e ∈ e.walk := by
  rw [walk_eq]
  exact List.mem_cons_self

theorem mem_walk_of_mem_children {d c e : Expr} (hc : c ∈ e.children) (hd : d ∈ c.walk) :
    d ∈ e.walk := by
  rw [walk_eq]
  exact List.mem_cons_of_mem _ (List.mem_flatMap.2 ⟨c, hc, hd⟩)

theorem mem_walk_trans {a d e : Expr} (had : a ∈ d.walk) (hde : d ∈ e.walk) : a ∈ e.walk := by
  induction e using induct_children with
  | step e ih =>
    rw [walk_eq] at hde
    rcases List.mem_cons.1 hde with rfl | hde
    · exact had
    · rcases List.mem_flatMap.1 hde with ⟨c, hc, hdc⟩
      exact mem_walk_of_mem_children hc (ih c hc hdc)

theorem consultedList_eq (f : Expr → Option Expr) (as : List Expr) :
    consultedList f as = as.flatMap (consulted f) := by
  induction as with
  | nil => rfl
  | cons a as ih => rw [consultedList, ih, List.flatMap_cons]

theorem consultedKeys_eq (f : Expr → Option Expr) (ks : List (SortKey Expr)) :
    consultedKeys f ks = (ks.map SortKey.expr).flatMap (consulted f) := by
  induction ks with
  | nil => rfl
  | cons k ks ih => rw [consultedKeys, ih, List.map_cons, List.flatMap_cons]

/-- A function that offers replacements is asked at an expression first and then, unless it offers
one there, at the children in order. -/
theorem consulted_eq (f : Expr → Option Expr) (e : Expr) :
    consulted f e = e :: if (f e).isSome then [] else e.children.flatMap (consulted f) := by
  cases e <;> simp [consulted, children, consultedList_eq, consultedKeys_eq]

/-- An expression with its children replaced. -/
def mapChildren (f : Expr → Expr) : Expr → Expr
  | e@(.column ..) | e@(.name _) | e@(.raw ..) | e@(.literal _) | e@.null => e
  | .comparison l op r => .comparison (f l) op (f r)
  | .logical op as => .logical op (as.map f)
  | .isNull a => .isNull (f a)
  | .arithmetic l op r => .arithmetic (f l) op (f r)
  | .call g as => .call g (as.map f)
  | .aggregate g as => .aggregate g (as.map f)
  | .window g as ps os =>
      .window g (as.map f) (ps.map f) (os.map fun k => { k with expr := f k.expr })
  | .cast a type => .cast (f a) type
  | .truncate grain a => .truncate grain (f a)
  | .between a low high => .between (f a) (f low) (f high)

theorem mapChildren_congr {f g : Expr → Expr} {e : Expr} (h : ∀ d ∈ e.children, f d = g d) :
    e.mapChildren f = e.mapChildren g := by
  cases e with
  | window w as ps os =>
      simp only [children, List.mem_append, List.mem_map] at h
      have hargs := List.map_congr_left fun a ha => h a (.inl (.inl ha))
      have hparts := List.map_congr_left fun a ha => h a (.inl (.inr ha))
      have hkeys : (os.map fun k => { k with expr := f k.expr }) =
          os.map fun k => { k with expr := g k.expr } := by
        refine List.map_congr_left ?_
        intro k hk
        rw [h k.expr (.inr ⟨k, hk, rfl⟩)]
      rw [mapChildren, mapChildren, hargs, hparts, hkeys]
  | _ => simp_all [mapChildren, children]

theorem mapChildren_mapChildren (f g : Expr → Expr) (e : Expr) :
    (e.mapChildren f).mapChildren g = e.mapChildren (g ∘ f) := by
  cases e <;> simp [mapChildren, Function.comp_def]

theorem mapChildren_id (e : Expr) : e.mapChildren id = e := by
  cases e <;> simp [mapChildren]

theorem columnRef?_mapChildren (f : Expr → Expr) (e : Expr) :
    (e.mapChildren f).columnRef? = e.columnRef? := by
  cases e <;> rfl

/-- Where no replacement is offered, the children are transformed. -/
theorem transform_eq (f : Expr → Option Expr) (e : Expr) :
    e.transform f = (f e).getD (e.mapChildren (transform f)) := by
  cases e <;> simp [transform, mapChildren]

/-- What is noted of an expression is noted of itself or of a child. -/
theorem lineage_flag_eq {flag : Lineage → Bool} (hflag : ∀ ls, flag (.combine ls) = ls.any flag)
    (e : Expr) :
    flag e.lineage = (flag e.ownLineage || e.children.any fun d => flag d.lineage) := by
  simp only [lineage, hflag, List.any_map]
  rw [walk_eq]
  simp only [List.any_cons, List.any_flatMap, Function.comp_def]

/-- The columns of an expression come from itself, then from its children. -/
theorem lineage_columns_eq (e : Expr) :
    e.lineage.columns =
      e.ownLineage.columns ++ e.children.flatMap fun d => d.lineage.columns := by
  simp only [lineage, Lineage.combine_columns, List.flatMap_map]
  rw [walk_eq]
  simp only [List.flatMap_cons, List.flatMap_assoc]

/-! ## Lineage under substitution -/

section LineageUnderSubstitution

variable (f : ColumnRef → Option Expr)

/-- Apart from columns, replacing columns acts on the children only. -/
theorem bindColumns_of_not_column {e : Expr} (h : e.columnRef? = none) :
    (e.bindColumns f).children = e.children.map (bindColumns f) ∧
      (e.bindColumns f).ownLineage = e.ownLineage ∧ e.ownLineage.columns = [] := by
  cases e with
  | column r q => simp [columnRef?] at h
  | window g as ps os =>
      simp [children, ownLineage, Function.comp_def]
  | _ => simp [children, ownLineage]

theorem bindColumns_eq_mapChildren {e : Expr} (h : e.columnRef? = none) :
    e.bindColumns f = e.mapChildren (bindColumns f) := by
  rw [bindColumns, transform_eq, h]
  rfl

theorem bindColumns_of_replaced {d e : Expr} (h : e.columnRef?.bind f = some d) :
    e.bindColumns f = d := by
  rw [bindColumns, transform_eq, h]
  rfl

theorem lineage_column (r : ColumnRef) (q : Bool) : (column r q).lineage = { columns := [r] } := rfl

/-- A child reads what the expression reads. -/
theorem mem_lineage_columns_of_mem_children {d e : Expr} (hd : d ∈ e.children) {r : ColumnRef}
    (hr : r ∈ d.lineage.columns) : r ∈ e.lineage.columns := by
  rw [lineage_columns_eq]
  exact List.mem_append_right _ (List.mem_flatMap.2 ⟨d, hd, hr⟩)

/-- What the replacements are for columns that are not read plays no part. -/
theorem bindColumns_congr {f g : ColumnRef → Option Expr} (e : Expr) :
    (∀ r ∈ e.lineage.columns, f r = g r) → e.bindColumns f = e.bindColumns g := by
  induction e using induct_columns with
  | column r q =>
      intro h
      rw [bindColumns_column, bindColumns_column, h r (by simp [lineage_column])]
  | step e hc ih =>
      intro h
      rw [bindColumns_eq_mapChildren f hc, bindColumns_eq_mapChildren g hc]
      refine mapChildren_congr ?_
      intro d hd
      exact ih d hd fun r hr => h r (mem_lineage_columns_of_mem_children hd hr)

/-- **Two substitutions in a row.**  The second one acts on the replacements of the first, and on the
columns that the first has left. -/
theorem bindColumns_bindColumns (f g : ColumnRef → Option Expr) (e : Expr) :
    (e.bindColumns f).bindColumns g =
      e.bindColumns fun r => ((f r).map (bindColumns g)).or (g r) := by
  induction e using induct_columns with
  | column r q =>
      rw [bindColumns_column, bindColumns_column]
      cases f r with
      | none => rfl
      | some d => rfl
  | step e hc ih =>
      have hbound : (e.mapChildren (bindColumns f)).columnRef? = none := by
        rw [columnRef?_mapChildren, hc]
      rw [bindColumns_eq_mapChildren f hc, bindColumns_eq_mapChildren g hbound,
        mapChildren_mapChildren, bindColumns_eq_mapChildren _ hc]
      exact mapChildren_congr ih

/-- Where nothing is replaced, nothing changes. -/
theorem bindColumns_none (e : Expr) : e.bindColumns (fun _ => none) = e := by
  induction e using induct_columns with
  | column r q => rfl
  | step e hc ih =>
      rw [bindColumns_eq_mapChildren _ hc]
      exact (mapChildren_congr ih).trans (mapChildren_id e)

/-- **A walk under substitution.**  It goes through the replacements where the columns were that are
replaced, and visits everything else in its place. -/
theorem walk_bindColumns (e : Expr) :
    (e.bindColumns f).walk =
      e.walk.flatMap fun d => (d.columnRef?.bind f).elim [d.bindColumns f] walk := by
  induction e using induct_columns with
  | column r q =>
      rw [bindColumns_column, walk, List.flatMap_singleton, columnRef?, Option.bind_some]
      cases hf : f r with
      | none => simp [hf, walk]
      | some d => rfl
  | step e hc ih =>
      rw [walk_eq, (bindColumns_of_not_column f hc).1, walk_eq e, List.flatMap_cons, hc,
        List.flatMap_map, List.flatMap_assoc, List.flatMap_congr ih]
      rfl

/-- What occurs in an expression occurs, with columns replaced, in the expression with columns
replaced. -/
theorem bindColumns_mem_walk {d e : Expr} (hd : d ∈ e.walk) :
    d.bindColumns f ∈ (e.bindColumns f).walk := by
  rw [walk_bindColumns]
  refine List.mem_flatMap.2 ⟨d, hd, ?_⟩
  cases h : d.columnRef?.bind f with
  | none => exact List.mem_singleton_self _
  | some c =>
      rw [bindColumns_of_replaced f h]
      exact mem_walk_self c

/-- What is itself left as it is stays where it occurs. -/
theorem mem_walk_bindColumns {d e : Expr} (hd : d ∈ e.walk) (hstays : d.bindColumns f = d) :
    d ∈ (e.bindColumns f).walk := by
  rw [← hstays]
  exact bindColumns_mem_walk f hd

/-- What occurs in an expression with columns replaced occurred in it before, with other columns, or
comes from what stands for a column. -/
theorem exists_of_mem_walk_bindColumns {x : Expr} (e : Expr) (hx : x ∈ (e.bindColumns f).walk) :
    (∃ d ∈ e.walk, d.columnRef? = none ∧ x = d.bindColumns f) ∨
      ∃ r q, .column r q ∈ e.walk ∧ x ∈ ((f r).getD (.column r q)).walk := by
  rw [walk_bindColumns] at hx
  obtain ⟨d, hd, hx⟩ := List.mem_flatMap.1 hx
  cases hc : d.columnRef? with
  | none =>
      rw [hc] at hx
      exact .inl ⟨d, hd, hc, List.mem_singleton.1 hx⟩
  | some r =>
      obtain ⟨q, rfl⟩ := eq_column_of_columnRef? hc
      refine .inr ⟨r, q, hd, ?_⟩
      rw [hc, Option.bind_some] at hx
      cases hf : f r with
      | none => simpa [hf, walk] using hx
      | some d => simpa [hf] using hx

/-- Only columns are replaced, and by themselves they read nothing but the column. -/
theorem ownLineage_bindColumns {d : Expr} (h : d.columnRef?.bind f = none) :
    (d.bindColumns f).ownLineage = d.ownLineage := by
  cases hc : d.columnRef? with
  | none => exact (bindColumns_of_not_column f hc).2.1
  | some r =>
      obtain ⟨q, rfl⟩ := eq_column_of_columnRef? hc
      rw [bindColumns_column, show f r = none from h]
      rfl

/-- **Lineage under substitution.**  An expression with columns replaced reads, from place to place of
a walk over the expression, what the replacement reads or what is read there anyway. -/
theorem lineage_bindColumns (e : Expr) :
    (e.bindColumns f).lineage =
      .combine (e.walk.map fun d => (d.columnRef?.bind f).elim d.ownLineage lineage) := by
  rw [lineage, walk_bindColumns, List.map_flatMap, Lineage.combine_flatMap]
  congr 2
  funext d
  cases h : d.columnRef?.bind f with
  | none => simp [Lineage.append, ownLineage_bindColumns f h]
  | some c => rfl

/-- The columns that a column reads when it is replaced. -/
def boundColumns (r : ColumnRef) : List ColumnRef :=
  match f r with
  | some d => d.lineage.columns
  | none => [r]

/-- **Columns under substitution.**  An expression with columns replaced reads what the replacements
read, and the columns that are not replaced. -/
theorem lineage_columns_bindColumns (e : Expr) :
    (e.bindColumns f).lineage.columns = e.lineage.columns.flatMap (boundColumns f) := by
  rw [lineage_bindColumns, lineage, Lineage.combine_columns, Lineage.combine_columns,
    List.flatMap_map, List.flatMap_map, List.flatMap_assoc]
  refine List.flatMap_congr ?_
  intro d _
  cases d with
  | column r q =>
      rw [columnRef?, Option.bind_some, ownLineage, List.flatMap_singleton, boundColumns]
      cases f r <;> rfl
  | _ => rfl

/-- **Names and fragments under substitution.**  What is collected from an expression with columns
replaced is what is collected from the expression, and at the place of each column that is replaced
what is collected from its replacement. -/
theorem lineage_part_bindColumns {α : Type} {part : Lineage → List α}
    (hpart : ∀ ls, part (.combine ls) = ls.flatMap part)
    (hcolumn : ∀ r, part { columns := [r] } = []) (e : Expr) :
    part (e.bindColumns f).lineage =
      e.walk.flatMap fun d =>
        part d.ownLineage ++ (d.columnRef?.bind f).elim [] fun c => part c.lineage := by
  rw [lineage_bindColumns, hpart, List.flatMap_map]
  refine List.flatMap_congr ?_
  intro d _
  cases h : d.columnRef?.bind f with
  | none => exact (List.append_nil _).symm
  | some c =>
      obtain ⟨r, hr, -⟩ := Option.bind_eq_some_iff.1 h
      obtain ⟨q, rfl⟩ := eq_column_of_columnRef? hr
      rw [ownLineage, hcolumn]
      rfl

/-- If the replacements add nothing to what is collected, an expression with columns replaced has
what it had. -/
theorem lineage_part_bindColumns_of_nil {α : Type} {part : Lineage → List α}
    (hpart : ∀ ls, part (.combine ls) = ls.flatMap part)
    (hcolumn : ∀ r, part { columns := [r] } = []) (e : Expr)
    (hnil : ∀ r ∈ e.lineage.columns, ∀ d, f r = some d → part d.lineage = []) :
    part (e.bindColumns f).lineage = part e.lineage := by
  rw [lineage_part_bindColumns f hpart hcolumn, lineage, hpart, List.flatMap_map]
  refine List.flatMap_congr ?_
  intro d hd
  cases h : d.columnRef?.bind f with
  | none => exact List.append_nil _
  | some c =>
      obtain ⟨r, hr, hf⟩ := Option.bind_eq_some_iff.1 h
      obtain ⟨q, rfl⟩ := eq_column_of_columnRef? hr
      rw [Option.elim_some, hnil r (mem_lineage_columns.2 ⟨q, hd⟩) c hf, List.append_nil]

/-- Setting qualifiers replaces each column by itself. -/
theorem setQualified_eq_bindColumns (q : Bool) (e : Expr) :
    e.setQualified q = e.bindColumns fun r => some (.column r q) := by
  rw [setQualified, bindColumns]
  congr 1
  funext d
  cases d <;> rfl

/-- Whether sources are printed plays no part in what an expression reads. -/
theorem lineage_setQualified (q : Bool) (e : Expr) : (e.setQualified q).lineage = e.lineage := by
  rw [setQualified_eq_bindColumns, lineage_bindColumns, lineage]
  congr 2
  funext d
  cases d <;> rfl

/-- **Flags under substitution.**  What is noted of an expression with columns replaced was noted of
it before, or is noted of the replacement of some column that it reads. -/
theorem lineage_flag_bindColumns {flag : Lineage → Bool}
    (hflag : ∀ ls, flag (.combine ls) = ls.any flag)
    (hcolumn : ∀ r, flag { columns := [r] } = false) (e : Expr) :
    flag (e.bindColumns f).lineage =
      (flag e.lineage || e.lineage.columns.any fun r => (f r).any fun d => flag d.lineage) := by
  have hplace : ∀ d : Expr, flag ((d.columnRef?.bind f).elim d.ownLineage lineage) =
      (flag d.ownLineage ||
        d.ownLineage.columns.any fun r => (f r).any fun c => flag c.lineage) := by
    intro d
    cases d with
    | column r q =>
        rw [columnRef?, Option.bind_some, ownLineage, hcolumn]
        cases hf : f r with
        | none => simp [hf, hcolumn]
        | some c => simp [hf]
    | _ => simp [columnRef?, ownLineage]
  rw [lineage_bindColumns, lineage, hflag, hflag, Lineage.combine_columns, List.any_map,
    List.any_map, List.flatMap_map, List.any_flatMap, Bool.eq_iff_iff]
  simp only [Bool.or_eq_true, List.any_eq_true, Function.comp, hplace, and_or_left, exists_or]

/-- An expression with columns replaced holds an aggregate exactly when it held one before, or the
replacement of some column that it reads does. -/
theorem lineage_aggregate_bindColumns (e : Expr) :
    (e.bindColumns f).lineage.aggregate =
      (e.lineage.aggregate ||
        e.lineage.columns.any fun r => (f r).any fun d => d.lineage.aggregate) :=
  lineage_flag_bindColumns f Lineage.combine_aggregate (fun _ => rfl) e

/-- The same for window functions. -/
theorem lineage_window_bindColumns (e : Expr) :
    (e.bindColumns f).lineage.window =
      (e.lineage.window || e.lineage.columns.any fun r => (f r).any fun d => d.lineage.window) :=
  lineage_flag_bindColumns f Lineage.combine_window (fun _ => rfl) e

end LineageUnderSubstitution

end Expr

/-! ## Substitutions made from lists -/

namespace Substitution

/-- A column that is kept has the replacement it had. -/
theorem lookup_filter (keep : ColumnRef → Bool) {r : ColumnRef} (h : keep r = true)
    (ps : List (ColumnRef × Expr)) : (ps.filter fun p => keep p.1).lookup r = ps.lookup r := by
  induction ps with
  | nil => rfl
  | cons p ps ih =>
      rw [List.filter_cons, List.lookup_cons]
      split_ifs with hp
      · rw [List.lookup_cons, ih]
      · have hne : (r == p.1) = false := beq_eq_false_iff_ne.2 fun e => hp (e ▸ h)
        rw [ih, hne]

theorem get?_insert (σ : Substitution) (r : ColumnRef) (e : Expr) (r' : ColumnRef) :
    (σ.insert r e).get? r' = if r' = r then some e else σ.get? r' := by
  simp only [get?, insert, List.lookup_cons]
  by_cases h : r' = r
  · simp [h]
  · have hkept := lookup_filter (fun c => c ≠ r) (decide_eq_true h) σ.entries
    rw [if_neg h, beq_eq_false_iff_ne.2 h, hkept]

/-- Of several replacements for one column the last one counts. -/
theorem get?_ofList (ps : List (ColumnRef × Expr)) (r : ColumnRef) :
    (ofList ps).get? r = ps.reverse.lookup r := by
  have key : ∀ (ps : List (ColumnRef × Expr)) (σ : Substitution),
      (ps.foldl (fun σ p => σ.insert p.1 p.2) σ).get? r = (ps.reverse.lookup r).or (σ.get? r) := by
    intro ps
    induction ps with
    | nil => intro σ; rfl
    | cons p ps ih =>
        intro σ
        rw [List.foldl_cons, ih, List.reverse_cons, List.lookup_append, Option.or_assoc,
          get?_insert]
        congr 1
        obtain ⟨r', e⟩ := p
        by_cases h : r = r'
        · simp [h]
        · rw [if_neg h, List.lookup_cons, beq_eq_false_iff_ne.2 h]
          rfl
  rw [ofList, key]
  simp [get?]

end Substitution

end QueryPlan
