import QueryPlan.Plan.Basic
import QueryPlan.Proofs.Lists
import QueryPlan.Proofs.Substitution

/-!
# What statements mean

A denotation for expressions and for statements that look at one row at a time.  Values form an
arbitrary type, and what the scalar operators do to them is an arbitrary `Interpretation`; only the
order by which `ORDER BY` sorts has laws, namely that it is total and transitive.

* `Expr.eval` — the value of an expression.  A `Reading` says what its leaves stand for.  Aggregates
  and window functions look at more than one row, and uninterpreted SQL at nothing known, so their
  values belong to the reading too.
* `Expr.eval_bindColumns_surface` — the substitution lemma: putting expressions in place of columns
  is the same as reading the columns as the values of those expressions.
* `Select.rows` — the rows of a statement over a list of environments, one for each combination of
  source rows: those that pass the filter, without repetitions if the statement is `DISTINCT`, in
  the order of the sort keys, as many as the limit allows, each shown through the select list.

`Select.rows` is the meaning of a statement that is `isRowWise`: one without groups, aggregates,
windows and uninterpreted SQL.  What such a form is worth at an environment is left open: it is a
part of the interpretation about which nothing is known.
-/

namespace QueryPlan

/-! ## Values -/

/-- A row: the values of its columns by name, in order. -/
abbrev Row (V : Type) := List (String × V)

/-- What a statement reads at one time: a row for the name of each source. -/
abbrev Env (V : Type) := String → Row V

/-- What the operators do to values, which values are true, and how values are ordered.  Forms that
look beyond one row, or at nothing known, may have any value at an environment. -/
structure Interpretation (V : Type) where
  null : V
  literal : String → V
  comparison : Comparison → V → V → V
  logical : Connective → List V → V
  isNull : V → V
  arithmetic : ArithmeticOp → V → V → V
  call : String → List V → V
  cast : String → V → V
  truncate : Grain → V → V
  between : V → V → V → V
  raw : String → Env V → V
  aggregate : AggregateFunction → List Expr → Env V → V
  window : WindowFunction → List Expr → List Expr → List (SortKey Expr) → Env V → V
  isTrue : V → Bool
  /-- Whether a value may stand before another one in ascending order. -/
  le : V → V → Bool
  le_total : ∀ a b, le a b = true ∨ le b a = true
  le_trans : ∀ a b c, le a b = true → le b c = true → le a c = true

namespace Interpretation

variable {V : Type} (I : Interpretation V)

/-- A conjunction is true exactly when all its arguments are. -/
def ReadsAnd : Prop :=
  ∀ vs : List V, I.isTrue (I.logical .and vs) = vs.all I.isTrue

/-- The value of a column in a row. -/
def valueIn (row : Row V) (column : String) : V :=
  (row.lookup column).getD I.null

end Interpretation

/-- What the leaves of an expression stand for, and the forms that look beyond one row. -/
structure Reading (V : Type) where
  column : ColumnRef → V
  name : String → V
  raw : String → V
  aggregate : AggregateFunction → List Expr → V
  window : WindowFunction → List Expr → List Expr → List (SortKey Expr) → V

/-! ## Expressions -/

namespace Expr

variable {V : Type}

mutual
/-- The value of an expression. -/
def eval (I : Interpretation V) (ρ : Reading V) : Expr → V
  | .column r _ => ρ.column r
  | .name n => ρ.name n
  | .raw sql _ _ => ρ.raw sql
  | .literal v => I.literal v
  | .null => I.null
  | .comparison l op r => I.comparison op (eval I ρ l) (eval I ρ r)
  | .logical op args => I.logical op (evalList I ρ args)
  | .isNull a => I.isNull (eval I ρ a)
  | .arithmetic l op r => I.arithmetic op (eval I ρ l) (eval I ρ r)
  | .call f args => I.call f (evalList I ρ args)
  | .aggregate f args => ρ.aggregate f args
  | .window f args ps os => ρ.window f args ps os
  | .cast a type => I.cast type (eval I ρ a)
  | .truncate grain a => I.truncate grain (eval I ρ a)
  | .between a low high => I.between (eval I ρ a) (eval I ρ low) (eval I ρ high)

/-- The values of a list of expressions. -/
def evalList (I : Interpretation V) (ρ : Reading V) : List Expr → List V
  | [] => []
  | a :: as => eval I ρ a :: evalList I ρ as
end

@[simp] theorem evalList_eq_map (I : Interpretation V) (ρ : Reading V) (as : List Expr) :
    evalList I ρ as = as.map (eval I ρ) := by
  induction as with
  | nil => rfl
  | cons a as ih => rw [evalList, ih, List.map_cons]

/-! ## Substitution -/

/-- Whether a reading of one sub-expression is that of what `f` puts in its place. -/
def ReadAs (I : Interpretation V) (f : ColumnRef → Option Expr) (ρ ρ' : Reading V) : Expr → Prop
  | .column r q => ((f r).getD (.column r q)).eval I ρ' = ρ.column r
  | .name n => ρ'.name n = ρ.name n
  | .raw sql _ _ => ρ'.raw sql = ρ.raw sql
  | .aggregate g args => ρ'.aggregate g (args.map (bindColumns f)) = ρ.aggregate g args
  | .window g args ps os =>
      ρ'.window g (args.map (bindColumns f)) (ps.map (bindColumns f))
        (os.map fun k => { k with expr := k.expr.bindColumns f }) = ρ.window g args ps os
  | _ => True

/-- Whether a form looks at more than one row. -/
def looksAcross : Expr → Bool
  | .aggregate .. | .window .. => true
  | _ => false

/-- The sub-expressions that are read at one row: those that are not inside an aggregate or a window,
and these themselves. -/
def surface (e : Expr) : List Expr :=
  e.consulted fun d => if d.looksAcross then some d else none

theorem surface_eq (e : Expr) :
    e.surface = e :: if e.looksAcross then [] else e.children.flatMap surface := by
  rw [surface, consulted_eq]
  cases e.looksAcross <;> rfl

theorem mem_surface_self (e : Expr) : e ∈ e.surface := by
  rw [surface_eq]
  exact List.mem_cons_self

theorem mem_surface_of_mem_children {d c e : Expr} (he : e.looksAcross = false)
    (hc : c ∈ e.children) (hd : d ∈ c.surface) : d ∈ e.surface := by
  rw [surface_eq, he]
  exact List.mem_cons_of_mem _ (List.mem_flatMap.2 ⟨c, hc, hd⟩)

theorem mem_walk_of_mem_surface {d e : Expr} (hd : d ∈ e.surface) : d ∈ e.walk := by
  induction e using induct_children with
  | step e ih =>
    rw [surface_eq] at hd
    rw [walk_eq]
    rcases List.mem_cons.1 hd with rfl | hd
    · exact List.mem_cons_self
    · cases hacross : e.looksAcross with
      | true => simp [hacross] at hd
      | false =>
          rw [hacross, if_neg Bool.false_ne_true] at hd
          rcases List.mem_flatMap.1 hd with ⟨c, hc, hdc⟩
          exact List.mem_cons_of_mem _ (List.mem_flatMap.2 ⟨c, hc, ih c hc hdc⟩)

section Substitution

variable (I : Interpretation V) (f : ColumnRef → Option Expr) (ρ ρ' : Reading V)

/-- **Substitution lemma.**  An expression with columns replaced has, under `ρ'`, the value that the
expression has under `ρ`, if `ρ` reads each leaf as `ρ'` reads what replaces it.  Inside a form that
looks at more than one row there are no leaves to read. -/
theorem eval_bindColumns_surface (e : Expr) (h : ∀ d ∈ e.surface, ReadAs I f ρ ρ' d) :
    (e.bindColumns f).eval I ρ' = e.eval I ρ := by
  induction e using induct_children with
  | step e ih =>
    have hself := h e e.mem_surface_self
    have hchild : e.looksAcross = false → ∀ d ∈ e.children,
        (d.bindColumns f).eval I ρ' = d.eval I ρ := by
      intro hrow d hd
      exact ih d hd fun d' hd' => h d' (mem_surface_of_mem_children hrow hd hd')
    cases e with
    | column | name | raw => exact hself
    | literal | null => rfl
    | comparison l op r | arithmetic l op r =>
        have hl := hchild rfl l (by simp [children])
        have hr := hchild rfl r (by simp [children])
        simp only [bindColumns_comparison, bindColumns_arithmetic, eval, hl, hr]
    | logical op as | call op as =>
        have has : as.map (fun a => (a.bindColumns f).eval I ρ') = as.map (eval I ρ) :=
          List.map_congr_left (hchild rfl)
        simp only [bindColumns_logical, bindColumns_call, eval, evalList_eq_map, List.map_map,
          Function.comp_def, has]
    | isNull a | cast a _ | truncate _ a =>
        have ha := hchild rfl a (by simp [children])
        simp only [bindColumns_isNull, bindColumns_cast, bindColumns_truncate, eval, ha]
    | aggregate g as => rwa [bindColumns_aggregate]
    | window g as ps os => rwa [bindColumns_window]
    | between a low high =>
        have ha := hchild rfl a (by simp [children])
        have hlow := hchild rfl low (by simp [children])
        have hhigh := hchild rfl high (by simp [children])
        simp only [bindColumns_between, eval, ha, hlow, hhigh]

theorem eval_bindColumns (e : Expr) (h : ∀ d ∈ e.walk, ReadAs I f ρ ρ' d) :
    (e.bindColumns f).eval I ρ' = e.eval I ρ :=
  eval_bindColumns_surface I f ρ ρ' e fun d hd => h d (mem_walk_of_mem_surface hd)

/-- The value of an expression depends only on how what occurs in it is read. -/
theorem eval_congr {e : Expr} (h : ∀ d ∈ e.walk, ReadAs I (fun _ => none) ρ ρ' d) :
    e.eval I ρ' = e.eval I ρ := by
  rw [← eval_bindColumns I (fun _ => none) ρ ρ' e h, bindColumns_none]

variable {ρ ρ'} in
/-- The value of an expression without output names does not depend on how names are read, nor on how
aggregates are if it has none. -/
theorem eval_unnamed {e : Expr} (hnames : e.lineage.names = [])
    (hagg : e.lineage.aggregate = false ∨ ρ'.aggregate = ρ.aggregate)
    (hcolumn : ρ'.column = ρ.column) (hraw : ρ'.raw = ρ.raw) (hwindow : ρ'.window = ρ.window) :
    e.eval I ρ' = e.eval I ρ := by
  refine eval_congr I ρ ρ' ?_
  intro d hd
  cases d with
  | name n =>
      have hn : n ∈ e.lineage.names := mem_lineage_names.2 hd
      simp [hnames] at hn
  | aggregate f args =>
      have hsome : e.lineage.aggregate = true := lineage_aggregate_iff.2 ⟨f, args, hd⟩
      rw [ReadAs, List.map_id'' bindColumns_none, hagg.resolve_left (by simp [hsome])]
  | window f args ps os =>
      simp only [ReadAs, List.map_id'' bindColumns_none, bindColumns_none, List.map_id', hwindow]
  | column r q => exact congrFun hcolumn r
  | raw sql inputs g => exact congrFun hraw sql
  | _ => trivial

end Substitution

end Expr

/-! ## Sort keys -/

namespace Interpretation

variable {V : Type} (I : Interpretation V)

/-- Whether a value may stand before another one under a key. -/
def keyLe (descending : Bool) (a b : V) : Bool :=
  if descending then I.le b a else I.le a b

/-- Whether a row with the first key values may stand before one with the second: the first key that
tells them apart decides. -/
def lexLe : List (SortKey V) → List (SortKey V) → Bool
  | k :: ks, l :: ls =>
      I.keyLe k.descending k.expr l.expr && (!I.keyLe k.descending l.expr k.expr || lexLe ks ls)
  | _, _ => true

theorem keyLe_total (d : Bool) (a b : V) : I.keyLe d a b = true ∨ I.keyLe d b a = true := by
  cases d
  · exact I.le_total a b
  · exact I.le_total b a

theorem keyLe_trans {d : Bool} {a b c : V} (hab : I.keyLe d a b = true)
    (hbc : I.keyLe d b c = true) : I.keyLe d a c = true := by
  cases d
  · exact I.le_trans a b c hab hbc
  · exact I.le_trans c b a hbc hab

theorem lexLe_self : ∀ ks : List (SortKey V), I.lexLe ks ks = true
  | [] => rfl
  | k :: ks => by
      have hk : I.keyLe k.descending k.expr k.expr = true := by
        rcases I.keyLe_total k.descending k.expr k.expr with h | h <;> exact h
      simp only [lexLe, hk, lexLe_self ks, Bool.or_true, Bool.and_self]

section Lexicographic

variable {ε : Type} (value₁ value₂ value₃ : ε → V)

theorem lexLe_total : ∀ ks : List (SortKey ε),
    I.lexLe (ks.map fun k => ⟨value₁ k.expr, k.descending⟩)
        (ks.map fun k => ⟨value₂ k.expr, k.descending⟩) = true ∨
      I.lexLe (ks.map fun k => ⟨value₂ k.expr, k.descending⟩)
        (ks.map fun k => ⟨value₁ k.expr, k.descending⟩) = true
  | [] => .inl rfl
  | k :: ks => by
      simp only [List.map_cons, lexLe]
      have hk := I.keyLe_total k.descending (value₁ k.expr) (value₂ k.expr)
      cases h₁ : I.keyLe k.descending (value₁ k.expr) (value₂ k.expr) <;>
        cases h₂ : I.keyLe k.descending (value₂ k.expr) (value₁ k.expr)
      · simp [h₁, h₂] at hk
      · simp
      · simp
      · simpa using lexLe_total ks

theorem lexLe_trans : ∀ ks : List (SortKey ε),
    I.lexLe (ks.map fun k => ⟨value₁ k.expr, k.descending⟩)
        (ks.map fun k => ⟨value₂ k.expr, k.descending⟩) = true →
      I.lexLe (ks.map fun k => ⟨value₂ k.expr, k.descending⟩)
        (ks.map fun k => ⟨value₃ k.expr, k.descending⟩) = true →
      I.lexLe (ks.map fun k => ⟨value₁ k.expr, k.descending⟩)
        (ks.map fun k => ⟨value₃ k.expr, k.descending⟩) = true
  | [], _, _ => rfl
  | k :: ks, h₁₂, h₂₃ => by
      simp only [List.map_cons, lexLe, Bool.and_eq_true, Bool.or_eq_true, Bool.not_eq_true'] at *
      refine ⟨I.keyLe_trans h₁₂.1 h₂₃.1, ?_⟩
      -- unless the third value is strictly larger, all three are equivalent under this key
      rcases hk : I.keyLe k.descending (value₃ k.expr) (value₁ k.expr) with _ | _
      · exact .inl rfl
      · have h₂₁ := I.keyLe_trans h₂₃.1 hk
        have h₃₂ := I.keyLe_trans hk h₁₂.1
        rw [h₂₁] at h₁₂
        rw [h₃₂] at h₂₃
        exact .inr (lexLe_trans ks (h₁₂.2.resolve_left (by simp)) (h₂₃.2.resolve_left (by simp)))

end Lexicographic

end Interpretation

/-! ## Columns by name -/

section Columns

variable {V : Type}

theorem lookup_named (value : Expr → V) (n : String) :
    ∀ columns : List NamedExpr,
      (columns.map fun c => (c.name, value c.expr)).lookup n =
        (columns.find? fun c => c.name == n).map fun c => value c.expr
  | [] => rfl
  | c :: columns => by
      rw [List.map_cons, List.lookup_cons, List.find?_cons, lookup_named value n columns]
      by_cases h : c.name = n
      · simp [h]
      · rw [beq_eq_false_iff_ne.2 h, beq_eq_false_iff_ne.2 (Ne.symm h)]

theorem find?_name_of_nodup {columns : List NamedExpr} (h : (columns.map NamedExpr.name).Nodup)
    {c : NamedExpr} (hc : c ∈ columns) :
    (columns.find? fun d => d.name == c.name) = some c := by
  induction columns with
  | nil => simp at hc
  | cons d columns ih =>
      rw [List.map_cons, List.nodup_cons] at h
      rcases List.mem_cons.1 hc with rfl | hc
      · simp
      · have hne : d.name ≠ c.name := fun e => h.1 (e ▸ List.mem_map_of_mem hc)
        rw [List.find?_cons_of_neg (by simpa using hne), ih h.2 hc]

end Columns

/-! ## Statements -/

/-- The environment in which a row is read under a name. -/
def Row.under {V : Type} (row : Row V) (name : String) : Env V := fun n =>
  if n = name then row else []

/-- How expressions are read at an environment, output names standing for the columns of a row. -/
def Env.reading {V : Type} (I : Interpretation V) (env : Env V) (output : Row V) : Reading V where
  column r := I.valueIn (env r.table) r.column
  name n := I.valueIn output n
  raw sql := I.raw sql env
  aggregate f args := I.aggregate f args env
  window f args ps os := I.window f args ps os env

namespace Select

variable {σ V : Type}

/-- Whether a statement looks at one row at a time and at nothing unknown: it has no groups,
aggregates, windows or uninterpreted SQL. -/
def isRowWise (s : Select σ) : Bool :=
  s.groupBy.isEmpty &&
    s.exprs.all fun e => e.lineage.raws.isEmpty && !e.lineage.aggregate && !e.lineage.window

section Rows

variable (I : Interpretation V)

/-- Whether an environment passes the filter. -/
def holds (s : Select σ) (env : Env V) : Bool :=
  s.filter.all fun e => I.isTrue (e.eval I (env.reading I []))

/-- The row that a statement shows at an environment. -/
def project (s : Select σ) (env : Env V) : Row V :=
  s.columns.map fun c => (c.name, c.expr.eval I (env.reading I []))

theorem valueIn_project (s : Select σ) (env : Env V) (n : String) :
    I.valueIn (s.project I env) n =
      ((s.column? n).map fun c => c.expr.eval I (env.reading I [])).getD I.null := by
  rw [Interpretation.valueIn, project, lookup_named fun e => e.eval I (env.reading I []), column?]

/-- The value by which an environment is sorted; a name is that of the statement's own column. -/
def sortValue (s : Select σ) (env : Env V) (e : Expr) : V :=
  e.eval I (env.reading I (s.project I env))

/-- The values of all sort keys at an environment. -/
def sortValues (s : Select σ) (env : Env V) : List (SortKey V) :=
  s.orderBy.map fun k => ⟨s.sortValue I env k.expr, k.descending⟩

/-- Whether the row of one environment may stand before that of another. -/
def Before (s : Select σ) (a b : Env V) : Prop :=
  I.lexLe (s.sortValues I a) (s.sortValues I b) = true

instance (s : Select σ) : DecidableRel (s.Before I) := fun _ _ =>
  inferInstanceAs (Decidable (_ = true))

instance (s : Select σ) : Std.Total (s.Before I) where
  total a b := I.lexLe_total (s.sortValue I a) (s.sortValue I b) s.orderBy

instance (s : Select σ) : IsTrans (Env V) (s.Before I) where
  trans a b c := I.lexLe_trans (s.sortValue I a) (s.sortValue I b) (s.sortValue I c) s.orderBy

variable [DecidableEq V]

/-- The environments whose rows are put out, before they are sorted. -/
def unsorted (s : Select σ) (envs : List (Env V)) : List (Env V) :=
  if s.distinct then distinctBy (s.project I) (envs.filter (s.holds I))
  else envs.filter (s.holds I)

/-- The environments whose rows are put out, in order. -/
def contexts (s : Select σ) (envs : List (Env V)) : List (Env V) :=
  cut s.limit ((s.unsorted I envs).insertionSort (s.Before I))

/-- The rows of a statement over a list of environments. -/
def rows (s : Select σ) (envs : List (Env V)) : List (Row V) :=
  (s.contexts I envs).map (s.project I)

end Rows

end Select

end QueryPlan
