import Mathlib.Data.List.Forall2
import QueryPlan.Proofs.Evaluation

/-!
# Joined rows

A statement with several sources reads joined rows: an environment has a row for every source.  The
sources are joined from left to right.  Inner and cross joins keep the pairs that match, a left outer
join fills in a row of nulls where nothing matches, and a full outer join does so on both sides.

Over joined rows there are expressions that look at more than one row.  So an expression has a value
at each of several rows at once (`Expr.valueAt`), and an aggregate or window function sees the values
of its arguments at all of them, and the values by which rows are filtered and grouped.  What it
makes of these is left open, and so is the value of a name that is no output name.

* `Expr.valueAt_bindColumns` — the substitution lemma.
* `Expr.valueAt_eq_eval` — what looks at one row at a time has the value that it has at that row.
* `Select.joinedRows` — the joined rows of a statement; `Join.forall₂_extend` says that joining rows
  that are related gives rows that are related.
* `Select.valuesAt` — the values of all expressions of a statement at a joined row.
-/

namespace QueryPlan

/-! ## Expressions over several rows -/

/-- The rows that are looked at together: how many there are, and the values of the filter and of the
grouping keys at each. -/
structure Extent (V : Type) where
  size : Nat
  filter : Option (List V) := none
  keys : List (List V) := []

/-- What is left open: the value, at a row, of functions that see all rows, and of a name that is no
output name. -/
structure Across (V : Type) where
  aggregate : Extent V → AggregateFunction → List (List V) → Nat → V
  window : Extent V → WindowFunction → List (List V) → List (List V) → List (SortKey (List V)) →
    Nat → V
  bare : String → Env V → V

/-- What the leaves of an expression stand for at each of several rows. -/
structure Frame (V : Type) where
  extent : Extent V
  column : Nat → ColumnRef → V
  name : Nat → String → V
  raw : Nat → String → V

namespace Expr

section Values

variable {V : Type} (I : Interpretation V) (A : Across V) (φ : Frame V)

mutual
/-- The value of an expression at a row. -/
def valueAt : Expr → Nat → V
  | .column r _, i => φ.column i r
  | .name n, i => φ.name i n
  | .raw sql _ _, i => φ.raw i sql
  | .literal v, _ => I.literal v
  | .null, _ => I.null
  | .comparison l op r, i => I.comparison op (valueAt l i) (valueAt r i)
  | .logical op args, i => I.logical op (valuesAt args i)
  | .isNull a, i => I.isNull (valueAt a i)
  | .arithmetic l op r, i => I.arithmetic op (valueAt l i) (valueAt r i)
  | .call f args, i => I.call f (valuesAt args i)
  | .aggregate f args, i => A.aggregate φ.extent f (spreads args) i
  | .window f args ps os, i =>
      A.window φ.extent f (spreads args) (spreads ps) (spreadKeys os) i
  | .cast a type, i => I.cast type (valueAt a i)
  | .truncate grain a, i => I.truncate grain (valueAt a i)
  | .between a low high, i => I.between (valueAt a i) (valueAt low i) (valueAt high i)

/-- The values of a list of expressions at a row. -/
def valuesAt : List Expr → Nat → List V
  | [], _ => []
  | a :: as, i => valueAt a i :: valuesAt as i

/-- The values of a list of expressions at all rows. -/
def spreads : List Expr → List (List V)
  | [] => []
  | a :: as => (List.range φ.extent.size).map (valueAt a) :: spreads as

/-- The values of sort keys at all rows. -/
def spreadKeys : List (SortKey Expr) → List (SortKey (List V))
  | [] => []
  | k :: ks => ⟨(List.range φ.extent.size).map (valueAt k.expr), k.descending⟩ :: spreadKeys ks
end

/-- The values of an expression at all rows. -/
def spread (e : Expr) : List V :=
  (List.range φ.extent.size).map (e.valueAt I A φ)

@[simp] theorem valuesAt_eq_map (as : List Expr) (i : Nat) :
    valuesAt I A φ as i = as.map (valueAt I A φ · i) := by
  induction as with
  | nil => rfl
  | cons a as ih => rw [valuesAt, ih, List.map_cons]

@[simp] theorem spreads_eq_map (as : List Expr) : spreads I A φ as = as.map (spread I A φ) := by
  induction as with
  | nil => rfl
  | cons a as ih =>
      rw [spreads, ih, List.map_cons]
      rfl

@[simp] theorem spreadKeys_eq_map (ks : List (SortKey Expr)) :
    spreadKeys I A φ ks = ks.map fun k => ⟨k.expr.spread I A φ, k.descending⟩ := by
  induction ks with
  | nil => rfl
  | cons k ks ih =>
      rw [spreadKeys, ih, List.map_cons]
      rfl

end Values

/-! ## Substitution -/

section Substitution

variable {V : Type} {I : Interpretation V} {A : Across V} {φ φ' : Frame V}
  {f : ColumnRef → Option Expr}

/-- Whether one frame reads a leaf, at a row, as another frame reads what `f` puts in its place. -/
def ReadAt (I : Interpretation V) (A : Across V) (f : ColumnRef → Option Expr) (φ φ' : Frame V)
    (i : Nat) : Expr → Prop
  | .column r q => ((f r).getD (.column r q)).valueAt I A φ' i = φ.column i r
  | .name n => φ'.name i n = φ.name i n
  | .raw sql _ _ => φ'.raw i sql = φ.raw i sql
  | _ => True

theorem spread_congr {e e' : Expr} (hextent : φ'.extent = φ.extent)
    (h : ∀ i < φ.extent.size, e'.valueAt I A φ' i = e.valueAt I A φ i) :
    e'.spread I A φ' = e.spread I A φ := by
  rw [spread, spread, hextent]
  refine List.map_congr_left ?_
  intro i hi
  exact h i (List.mem_range.1 hi)

/-- **Substitution lemma.**  An expression with columns replaced has, at every row, the value of the
expression, if at every row its leaves are read as what replaces them. -/
theorem valueAt_bindColumns (hextent : φ'.extent = φ.extent) (e : Expr)
    (h : ∀ d ∈ e.walk, ∀ i < φ.extent.size, ReadAt I A f φ φ' i d) :
    ∀ i < φ.extent.size, (e.bindColumns f).valueAt I A φ' i = e.valueAt I A φ i := by
  induction e using induct_children with
  | step e ih =>
    have hself := h e e.mem_walk_self
    have hchild : ∀ d ∈ e.children, ∀ i < φ.extent.size,
        (d.bindColumns f).valueAt I A φ' i = d.valueAt I A φ i := by
      intro d hd
      exact ih d hd fun d' hd' => h d' (mem_walk_of_mem_children hd hd')
    -- functions across rows see the values of their arguments at all rows
    have hspread : ∀ d ∈ e.children, (d.bindColumns f).spread I A φ' = d.spread I A φ :=
      fun d hd => spread_congr hextent (hchild d hd)
    intro i hi
    cases e with
    | column | name | raw => exact hself i hi
    | literal | null => rfl
    | comparison l op r | arithmetic l op r =>
        have hl := hchild l (by simp [children]) i hi
        have hr := hchild r (by simp [children]) i hi
        simp only [bindColumns_comparison, bindColumns_arithmetic, valueAt, hl, hr]
    | logical op as | call op as =>
        have has : as.map (fun a => (a.bindColumns f).valueAt I A φ' i) =
            as.map (valueAt I A φ · i) := List.map_congr_left fun a ha => hchild a ha i hi
        simp only [bindColumns_logical, bindColumns_call, valueAt, valuesAt_eq_map, List.map_map,
          Function.comp_def, has]
    | isNull a | cast a _ | truncate _ a =>
        have ha := hchild a (by simp [children]) i hi
        simp only [bindColumns_isNull, bindColumns_cast, bindColumns_truncate, valueAt, ha]
    | aggregate g as =>
        have has : as.map (fun a => (a.bindColumns f).spread I A φ') = as.map (spread I A φ) :=
          List.map_congr_left hspread
        simp only [bindColumns_aggregate, valueAt, spreads_eq_map, List.map_map, Function.comp_def,
          hextent, has]
    | window g as ps os =>
        simp only [children, List.mem_append, List.mem_map] at hspread
        have has : as.map (fun a => (a.bindColumns f).spread I A φ') = as.map (spread I A φ) :=
          List.map_congr_left fun a ha => hspread a (.inl (.inl ha))
        have hps : ps.map (fun a => (a.bindColumns f).spread I A φ') = ps.map (spread I A φ) :=
          List.map_congr_left fun a ha => hspread a (.inl (.inr ha))
        have hos : os.map (fun k => (⟨(k.expr.bindColumns f).spread I A φ', k.descending⟩ :
            SortKey (List V))) = os.map fun k => ⟨k.expr.spread I A φ, k.descending⟩ :=
          List.map_congr_left fun k hk => by rw [hspread k.expr (.inr ⟨k, hk, rfl⟩)]
        simp only [bindColumns_window, valueAt, spreads_eq_map, spreadKeys_eq_map, List.map_map,
          Function.comp_def, hextent, has, hps, hos]
    | between a low high =>
        have ha := hchild a (by simp [children]) i hi
        have hlow := hchild low (by simp [children]) i hi
        have hhigh := hchild high (by simp [children]) i hi
        simp only [bindColumns_between, valueAt, ha, hlow, hhigh]

/-- Whether a sub-expression looks at one row only, and is read there as a reading says. -/
def SeesRow (φ : Frame V) (ρ : Reading V) (i : Nat) : Expr → Prop
  | .column r _ => φ.column i r = ρ.column r
  | .name n => φ.name i n = ρ.name n
  | .raw sql _ _ => φ.raw i sql = ρ.raw sql
  | .aggregate .. | .window .. => False
  | _ => True

/-- What looks at one row at a time has the value that it has at that row. -/
theorem valueAt_eq_eval {ρ : Reading V} {i : Nat} (e : Expr) (h : ∀ d ∈ e.walk, SeesRow φ ρ i d) :
    e.valueAt I A φ i = e.eval I ρ := by
  induction e using induct_children with
  | step e ih =>
    have hself := h e e.mem_walk_self
    have hchild : ∀ d ∈ e.children, d.valueAt I A φ i = d.eval I ρ := by
      intro d hd
      exact ih d hd fun d' hd' => h d' (mem_walk_of_mem_children hd hd')
    cases e with
    | column | name | raw => exact hself
    | literal | null => rfl
    | comparison l op r | arithmetic l op r =>
        have hl := hchild l (by simp [children])
        have hr := hchild r (by simp [children])
        simp only [valueAt, eval, hl, hr]
    | logical op as | call op as =>
        have has : as.map (valueAt I A φ · i) = as.map (eval I ρ) := List.map_congr_left hchild
        simp only [valueAt, eval, valuesAt_eq_map, evalList_eq_map, has]
    | isNull a | cast a _ | truncate _ a =>
        have ha := hchild a (by simp [children])
        simp only [valueAt, eval, ha]
    | aggregate | window => exact hself.elim
    | between a low high =>
        have ha := hchild a (by simp [children])
        have hlow := hchild low (by simp [children])
        have hhigh := hchild high (by simp [children])
        simp only [valueAt, eval, ha, hlow, hhigh]

end Substitution

end Expr

/-! ## Frames of environments -/

section Frames

variable {V : Type} (I : Interpretation V) (A : Across V)

/-- The environment at a place of a list; past the end there is nothing to read. -/
def envAt (envs : List (Env V)) (i : Nat) : Env V :=
  envs.getD i fun _ => []

/-- The frame in which columns are read at a list of environments. -/
def Frame.over (envs : List (Env V)) (extent : Extent V) (name : Nat → String → V) : Frame V where
  extent
  column i r := I.valueIn (envAt envs i r.table) r.column
  name
  raw i sql := I.raw sql (envAt envs i)

/-- The value of a name that is no output name. -/
def bareName (envs : List (Env V)) (i : Nat) (n : String) : V :=
  A.bare n (envAt envs i)

/-- The frame of a list of environments that have not been filtered or grouped yet. -/
def Frame.rows (envs : List (Env V)) : Frame V :=
  .over I envs { size := envs.length } (bareName A envs)

end Frames

/-! ## Joins -/

/-- An environment with a row for one more source. -/
def Env.bind {V : Type} (env : Env V) (name : String) (row : Row V) : Env V := fun n =>
  if n = name then row else env n

@[simp] theorem Env.bind_self {V : Type} (env : Env V) (name : String) (row : Row V) :
    env.bind name row name = row :=
  if_pos rfl

theorem Env.bind_of_ne {V : Type} (env : Env V) {name n : String} (row : Row V) (h : n ≠ name) :
    env.bind name row n = env n :=
  if_neg h

namespace Join

variable {σ V : Type} (I : Interpretation V) (A : Across V)

/-- Whether a joined row matches; without a condition every pair does. -/
def accepts (j : Join σ) (env : Env V) : Bool :=
  j.condition.all fun e => I.isTrue (e.valueAt I A (.rows I A [env]) 0)

/-- An environment paired with each row that matches it. -/
def pairs (j : Join σ) (rows : List (Row V)) (env : Env V) : List (Env V) :=
  (rows.map (env.bind j.sourceName)).filter (j.accepts I A)

/-- An environment paired with each row that matches it, or with a row of nulls if none does. -/
def pairsOrNull (j : Join σ) (rows : List (Row V)) (env : Env V) : List (Env V) :=
  if (j.pairs I A rows env).isEmpty then [env.bind j.sourceName []] else j.pairs I A rows env

/-- The rows that match no environment, each with nulls for the sources before it. -/
def unmatched (j : Join σ) (rows : List (Row V)) (envs : List (Env V)) : List (Env V) :=
  (rows.filter fun row => !envs.any fun env => j.accepts I A (env.bind j.sourceName row)).map
    (·.under j.sourceName)

/-- The rows of a further source joined to the rows that have been joined before. -/
def extend (j : Join σ) (rows : List (Row V)) (envs : List (Env V)) : List (Env V) :=
  match j.kind with
  | .inner | .cross => envs.flatMap (j.pairs I A rows)
  | .leftOuter => envs.flatMap (j.pairsOrNull I A rows)
  | .fullOuter => envs.flatMap (j.pairsOrNull I A rows) ++ j.unmatched I A rows envs

section Related

variable {I A} {j j' : Join σ} {R R' : Env V → Env V → Prop} {T : Row V → Row V → Prop}
  {rows rows' : List (Row V)}
  (hbind : ∀ {env env'}, R env env' → ∀ {row row'}, T row row' →
    R' (env.bind j.sourceName row) (env'.bind j'.sourceName row'))
  (haccepts : ∀ {env env'}, R' env env' → j'.accepts I A env' = j.accepts I A env)
  (hrows : List.Forall₂ T rows rows')

include hbind haccepts hrows

theorem forall₂_pairs {env env' : Env V} (henv : R env env') :
    List.Forall₂ R' (j.pairs I A rows env) (j'.pairs I A rows' env') := by
  refine List.rel_filter ?_ (List.rel_map (fun _ _ h => hbind henv h) hrows)
  intro x x' hx
  show j.accepts I A x = true ↔ j'.accepts I A x' = true
  rw [haccepts hx]

theorem forall₂_pairsOrNull
    (hnull : ∀ {env env'}, R env env' →
      R' (env.bind j.sourceName []) (env'.bind j'.sourceName []))
    {env env' : Env V} (henv : R env env') :
    List.Forall₂ R' (j.pairsOrNull I A rows env) (j'.pairsOrNull I A rows' env') := by
  have hpairs := forall₂_pairs hbind haccepts hrows henv
  unfold pairsOrNull
  by_cases hnone : j.pairs I A rows env = []
  · have hnone' : j'.pairs I A rows' env' = [] := by
      rw [hnone] at hpairs
      exact List.forall₂_nil_left_iff.1 hpairs
    simpa [hnone, hnone'] using hnull henv
  · have hsome : j'.pairs I A rows' env' ≠ [] := by
      intro hnone'
      rw [hnone'] at hpairs
      exact hnone (List.forall₂_nil_right_iff.1 hpairs)
    simpa [hnone, hsome] using hpairs

/-- Joining related rows to related rows gives related rows, if the conditions do not tell them
apart. -/
theorem forall₂_extend (hkind : j'.kind = j.kind) (hfull : j.kind ≠ .fullOuter)
    (hnull : j.kind = .leftOuter → ∀ {env env'}, R env env' →
      R' (env.bind j.sourceName []) (env'.bind j'.sourceName []))
    {envs envs' : List (Env V)} (henvs : List.Forall₂ R envs envs') :
    List.Forall₂ R' (j.extend I A rows envs) (j'.extend I A rows' envs') := by
  unfold extend
  rw [hkind]
  cases h : j.kind with
  | inner | cross =>
      exact List.rel_flatMap henvs fun _ _ henv => forall₂_pairs hbind haccepts hrows henv
  | leftOuter =>
      exact List.rel_flatMap henvs fun _ _ henv =>
        forall₂_pairsOrNull hbind haccepts hrows (hnull h) henv
  | fullOuter => exact absurd h hfull

end Related

end Join

/-! ## Statements -/

/-- The values of all expressions of a statement, its join conditions aside. -/
structure Values (V : Type) where
  columns : Row V
  filter : Option V
  groupBy : Row V
  orderBy : List (SortKey V)
deriving DecidableEq

namespace Select

variable {σ V : Type} (I : Interpretation V) (A : Across V)

/-- The joined rows of a statement, from the rows of its sources. -/
def joinedRows (rowsOf : σ → List (Row V)) (s : Select σ) : List (Env V) :=
  s.joins.foldl (fun envs j => j.extend I A (rowsOf j.source) envs)
    ((rowsOf s.source).map (·.under s.sourceName))

/-- The joined rows with the values by which they are filtered and grouped. -/
def extent (s : Select σ) (envs : List (Env V)) : Extent V where
  size := envs.length
  filter := s.filter.map (Expr.spread I A (.rows I A envs))
  keys := s.groupExprs.map (Expr.spread I A (.rows I A envs))

/-- How the select list is read. -/
def outputFrame (s : Select σ) (envs : List (Env V)) : Frame V :=
  .over I envs (s.extent I A envs) (bareName A envs)

/-- How the sort keys are read: an output name stands for the first column that has it. -/
def orderFrame (s : Select σ) (envs : List (Env V)) : Frame V :=
  .over I envs (s.extent I A envs) fun i n =>
    match s.column? n with
    | some c => c.expr.valueAt I A (s.outputFrame I A envs) i
    | none => bareName A envs i n

/-- The values of a statement's expressions at one of its joined rows. -/
def valuesAt (s : Select σ) (envs : List (Env V)) (i : Nat) : Values V where
  columns := s.columns.map fun c => (c.name, c.expr.valueAt I A (s.outputFrame I A envs) i)
  filter := s.filter.map fun e => e.valueAt I A (.rows I A envs) i
  groupBy := s.groupBy.map fun g => (g.name, g.expr.valueAt I A (.rows I A envs) i)
  orderBy := s.orderBy.map fun k =>
    ⟨k.expr.valueAt I A (s.orderFrame I A envs) i, k.descending⟩

end Select

end QueryPlan
