import QueryPlan.Expr.Substitution
import QueryPlan.Plan.Basic

/-!
# Merging a statement with the statement it reads

A statement (the parent) that reads another one (the child) can often be merged with it into one
statement.  This module holds the notions that the merging rules share: what a statement reads, when
its columns can be replaced at all, and how limits and grouping keys are carried over.
-/

namespace QueryPlan

/-- The smaller of two limits, each of which may be absent. -/
def tighterLimit : Option Nat → Option Nat → Option Nat
  | some a, some b => some (min a b)
  | a, none => a
  | none, b => b

/-- The name of the first column that computes an expression. -/
def nameFor? (columns : List NamedExpr) (e : Expr) : Option String :=
  (columns.find? fun c => decide (c.expr = e)).map NamedExpr.name

/-- Grouping keys moved into a merged statement: a key takes the name of the merged column that
shows it, if there is one. -/
def relabelGroupBy (groupBy merged : List NamedExpr) : List NamedExpr :=
  groupBy.map fun g => { g with name := (nameFor? merged g.expr).getD g.name }

/-- Columns with a substitution carried out in their expressions. -/
def substituteColumns (subst : Substitution) (columns : List NamedExpr) : List NamedExpr :=
  columns.map fun c => { c with expr := c.expr.substitute subst }

namespace Select

variable {σ : Type}

/-- What the select list reads. -/
def outputLineage (s : Select σ) : Lineage :=
  Expr.lineages s.selectExprs

/-- What the sort keys read. -/
def sortLineage (s : Select σ) : Lineage :=
  Expr.lineages s.orderExprs

/-- What everything but the sort keys reads. -/
def unorderedLineage (s : Select σ) : Lineage :=
  Expr.lineages (s.selectExprs ++ s.conditions ++ s.filter.toList ++ s.groupExprs)

/-- Whether the columns of a statement can be replaced soundly: no SQL has unknown inputs, and no
name without a source occurs outside the sort keys. -/
def isTransparent (s : Select σ) : Bool :=
  !s.unorderedLineage.hasUnknownInputs && s.unorderedLineage.names.isEmpty &&
    !s.sortLineage.hasUnknownInputs

/-- Whether a statement puts out groups of rows: it groups, or its select list aggregates. -/
def groupsRows (s : Select σ) : Bool :=
  !s.groupBy.isEmpty || s.outputLineage.aggregate

/-- Every column that a statement reads. -/
def columnRefs (s : Select σ) : List ColumnRef :=
  s.exprs.flatMap fun e => e.lineage.columns

/-- The expressions of a child's columns, in place of the parent's references to them. -/
def columnSubstitution (sourceName : String) (child : Select σ) : Substitution :=
  .ofList (child.columns.map fun c => (⟨sourceName, c.name⟩, c.expr))

/-- Whether every reference of a statement to a source has a replacement. -/
def coveredBy (s : Select σ) (sourceName : String) (subst : Substitution) : Bool :=
  s.columnRefs.all fun r => r.table != sourceName || subst.contains r

/-- Whether two statements define CTEs of one name. -/
def sharesCteName (a b : Select σ) : Bool :=
  b.ctes.any fun c => (a.ctes.map Cte.name).contains c.name

end Select

end QueryPlan
