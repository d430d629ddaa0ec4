import QueryPlan.Merge.Basic
import QueryPlan.Proofs.Evaluation

/-!
# Statements over contexts

What a statement puts out is decided at its *contexts*: the joined rows that pass its filter or, if
it groups, the groups of these.  From there on all statements are alike: each context is shown as a
row, repetitions are removed, and the rest is sorted and cut off.  This file describes that part for
contexts of any kind.

* `Meaning` — what expressions are worth at a context.  A value may depend on all contexts at once,
  so aggregates and windows need no special treatment.
* `Select.rowsOver` — the rows of a statement over a list of contexts.
* `rows_eq_rowsOver` — the rows of a statement that looks at one row at a time are those over the
  environments that pass its filter.
* `Select.SameContexts` — all that the contexts of a statement depend on is the same.
-/

namespace QueryPlan

/-- What expressions are worth at one of a list of contexts.  A sort key may look at the row that the
context is shown as. -/
structure Meaning (κ V : Type) where
  value : List κ → κ → Expr → V
  key : List κ → κ → Row V → Expr → V

namespace Meaning

variable {κ V : Type}

/-- In sort keys an output name stands for the output column, and a key without names and without
uninterpreted SQL does not look at the output. -/
structure Lawful (I : Interpretation V) (m : Meaning κ V) : Prop where
  name : ∀ cs c row n, m.key cs c row (.name n) = I.valueIn row n
  blind : ∀ cs c row row' e, e.lineage.names = [] → e.lineage.raws = [] →
    m.key cs c row e = m.key cs c row' e

/-- Where contexts are the rows of a source, the columns of that source are read there. -/
structure ReadsRows (I : Interpretation V) (m : Meaning (Row V) V) (source : String) : Prop where
  value : ∀ rows row r q, r.table = source → m.value rows row (.column r q) = I.valueIn row r.column
  key : ∀ rows row output r q, r.table = source →
    m.key rows row output (.column r q) = I.valueIn row r.column

/-- Rows that are looked at one at a time. -/
def ofRows (I : Interpretation V) : Meaning (Env V) V where
  value _ env e := e.eval I (env.reading I [])
  key _ env row e := e.eval I (env.reading I row)

end Meaning

namespace Select

variable {σ κ κ' V : Type}

section Output

variable (m : Meaning κ V)

/-- The row that a context is shown as. -/
def output (s : Select σ) (cs : List κ) (c : κ) : Row V :=
  s.columns.map fun column => (column.name, m.value cs c column.expr)

/-- The values by which a context is sorted. -/
def orderValues (s : Select σ) (cs : List κ) (c : κ) : List (SortKey V) :=
  s.orderBy.map fun k => ⟨m.key cs c (s.output m cs c) k.expr, k.descending⟩

theorem valueIn_output (I : Interpretation V) (s : Select σ) (cs : List κ) (c : κ) (n : String) :
    I.valueIn (s.output m cs c) n =
      ((s.column? n).map fun column => m.value cs c column.expr).getD I.null := by
  rw [Interpretation.valueIn, output, lookup_named (m.value cs c), column?]

variable (I : Interpretation V)

/-- Whether one context may stand before another. -/
def Precedes (s : Select σ) (cs : List κ) (a b : κ) : Prop :=
  I.lexLe (s.orderValues m cs a) (s.orderValues m cs b) = true

instance (s : Select σ) (cs : List κ) : DecidableRel (s.Precedes m I cs) := fun _ _ =>
  inferInstanceAs (Decidable (_ = true))

theorem precedes_of_orderBy_nil {s : Select σ} (h : s.orderBy = []) (cs : List κ) (a b : κ) :
    s.Precedes m I cs a b := by
  rw [Precedes, orderValues, h]
  rfl

variable [DecidableEq V]

/-- The contexts without those that are shown as a row which has been shown before, if the statement
is `DISTINCT`. -/
def remaining (s : Select σ) (cs : List κ) : List κ :=
  if s.distinct then distinctBy (s.output m cs) cs else cs

/-- The contexts that are put out, in order. -/
def chosen (s : Select σ) (cs : List κ) : List κ :=
  cut s.limit ((s.remaining m cs).insertionSort (s.Precedes m I cs))

/-- The rows of a statement over its contexts. -/
def rowsOver (s : Select σ) (cs : List κ) : List (Row V) :=
  (s.chosen m I cs).map (s.output m cs)

theorem mem_of_mem_remaining {s : Select σ} {cs : List κ} {c : κ} (h : c ∈ s.remaining m cs) :
    c ∈ cs := by
  unfold remaining at h
  split at h
  · exact mem_of_mem_distinctBy h
  · exact h

theorem mem_of_mem_chosen {s : Select σ} {cs : List κ} {c : κ} (h : c ∈ s.chosen m I cs) :
    c ∈ cs :=
  mem_of_mem_remaining m ((List.mem_insertionSort _).1 (mem_of_mem_cut h))

/-- Without an order and a limit, what is left is put out as it comes. -/
theorem rowsOver_of_unsorted {s : Select σ} (horder : s.orderBy = []) (hlimit : s.limit = none)
    (cs : List κ) : s.rowsOver m I cs = (s.remaining m cs).map (s.output m cs) := by
  rw [rowsOver, chosen, hlimit, insertionSort_of_forall (precedes_of_orderBy_nil m I horder cs)]
  rfl

end Output

/-- A statement that looks at one row at a time has its rows over the environments that pass the
filter. -/
theorem rows_eq_rowsOver [DecidableEq V] (I : Interpretation V) (s : Select σ)
    (envs : List (Env V)) : s.rows I envs = s.rowsOver (.ofRows I) I (envs.filter (s.holds I)) :=
  rfl

/-- One context is shown, unless the limit forbids it; there is nothing to sort. -/
theorem rowsOver_singleton [DecidableEq V] (m : Meaning κ V) (I : Interpretation V) (s : Select σ)
    (c : κ) : s.rowsOver m I [c] = cut s.limit [s.output m [c] c] := by
  have hremaining : s.remaining m [c] = [c] := by
    unfold remaining
    split <;> rfl
  rw [rowsOver, chosen, hremaining, List.insertionSort_cons, List.insertionSort_nil, map_cut]
  rfl

/-- Two statements have the same rows over contexts that correspond, if these are shown and sorted
alike. -/
theorem rowsOver_map [DecidableEq V] (I : Interpretation V) {m : Meaning κ V} {m' : Meaning κ' V}
    {s t : Select σ} (φ : κ → κ') {cs : List κ} (hdistinct : t.distinct = s.distinct)
    (hlimit : t.limit = s.limit)
    (houtput : ∀ c ∈ cs, t.output m' (cs.map φ) (φ c) = s.output m cs c)
    (horder : ∀ c ∈ cs, t.orderValues m' (cs.map φ) (φ c) = s.orderValues m cs c) :
    t.rowsOver m' I (cs.map φ) = s.rowsOver m I cs := by
  have hremaining : t.remaining m' (cs.map φ) = (s.remaining m cs).map φ := by
    unfold remaining
    rw [hdistinct]
    split
    · rw [distinctBy_map]
      refine congrArg (List.map φ) (distinctBy_congr ?_)
      intro a ha b hb
      rw [houtput a ha, houtput b hb]
    · rfl
  have hsorted : ((s.remaining m cs).map φ).insertionSort (t.Precedes m' I (cs.map φ)) =
      ((s.remaining m cs).insertionSort (s.Precedes m I cs)).map φ := by
    refine (List.map_insertionSort _ _ φ _ ?_).symm
    intro a ha b hb
    rw [Precedes, Precedes, horder a (mem_of_mem_remaining m ha),
      horder b (mem_of_mem_remaining m hb)]
  rw [rowsOver, chosen, hremaining, hsorted, hlimit, ← map_cut, List.map_map]
  refine List.map_congr_left ?_
  intro c hc
  exact houtput c (mem_of_mem_chosen m I hc)

/-- All that decides the contexts of a statement: what it reads, joins, filters and groups by, and
whether it groups at all. -/
structure SameContexts (s t : Select σ) : Prop where
  source : t.source = s.source
  sourceName : t.sourceName = s.sourceName
  joins : t.joins = s.joins
  filter : t.filter = s.filter
  groupExprs : t.groupExprs = s.groupExprs
  groupsRows : t.groupsRows = s.groupsRows

end Select

end QueryPlan
