import QueryPlan.Merge.Basic

/-!
# Merging a projection

`Select.projection?` removes a parent that only picks and renames columns of its child, with an
order and a limit of its own at most.  The child keeps its clauses.  A child that is `DISTINCT` or
groups must show all columns that make its rows, or its groups, what they are; and a parent may sort
only rows that the child has neither sorted nor cut off.
-/

namespace QueryPlan

namespace Select

variable {σ : Type}

/-- Whether a statement has no clause but a select list, an order and a limit. -/
def isProjection (s : Select σ) : Bool :=
  s.joins.isEmpty && s.filter.isNone && s.groupBy.isEmpty && !s.distinct

/-- The column of the child that a column of the parent shows. -/
def shownColumn? (parent child : Select σ) (c : NamedExpr) : Option NamedExpr :=
  match c.expr.columnRef? with
  | some r => if r.table = parent.sourceName then child.column? r.column else none
  | none => none

/-- The output name by which a sort key of the parent can be given. -/
def sortName? (parent : Select σ) : Expr → Option String
  | .name n => (parent.column? n).map NamedExpr.name
  | .column r _ =>
    if r.table = parent.sourceName then
      (parent.columns.find? fun c => decide (c.expr.columnRef? = some r)).map NamedExpr.name
    else none
  | _ => none

/-- The order of the merged statement: that of the child, or that of the parent by output names. -/
def projectedOrder? (parent child : Select σ) : Option (List (SortKey Expr)) :=
  if parent.orderBy.isEmpty then some child.orderBy
  else if !child.orderBy.isEmpty || child.limit.isSome then none
  else parent.orderBy.mapM fun k =>
    (parent.sortName? k.expr).map fun n => { k with expr := .name n }

/-- Whether a child's rows and groups are still told apart by the columns with the given names. -/
def survives (child : Select σ) (used : List String) : Bool :=
  (!child.distinct || child.columns.all fun c => used.contains c.name) &&
    child.groupBy.all fun g => used.contains g.name

/-- Whether parent and child can be merged, as far as that can be seen without their columns. -/
def allowsProjection (parent child : Select σ) : Bool :=
  parent.isProjection && parent.isTransparent && child.isTransparent &&
    child.sortLineage.names.isEmpty && !parent.sharesCteName child

/-- The child with the select list, order and limit of a parent that is a projection. -/
def projectOnto? (parent child : Select σ) : Option (Select σ) :=
  if parent.allowsProjection child then do
    let shown ← parent.columns.mapM (parent.shownColumn? child)
    if child.survives (shown.map NamedExpr.name) then
      let columns := List.zipWith (fun c d => { d with name := c.name }) parent.columns shown
      let orderBy ← parent.projectedOrder? child
      return { child with
        id := parent.id
        columns
        orderBy
        groupBy := relabelGroupBy child.groupBy columns
        ctes := parent.ctes ++ child.ctes
        limit := tighterLimit parent.limit child.limit }
    else none
  else none

end Select

/-- Merges a statement that is a projection of the statement it reads. -/
def Select.projection? (s : Statement) : Option Statement :=
  s.source.select?.bind s.projectOnto?

end QueryPlan
