import QueryPlan.Merge.Basic

/-!
# Merging by inlining columns

`Select.inlining?` merges a parent without joins with its child by putting the expressions of the
child's columns in place of the parent's references to them.  Filters, groups, limits and windows
must not change places in the merged statement, which is what the conditions below see to.
-/

namespace QueryPlan

namespace Select

variable {σ : Type}

/-- Whether a limit of the child keeps its meaning: nothing in the parent may filter, group,
aggregate, number or compare rows above it. -/
def limitStaysBelow (parent child : Select σ) : Bool :=
  child.limit.isNone ||
    (parent.filter.isNone && parent.groupBy.isEmpty && !parent.outputLineage.aggregate &&
      !parent.outputLineage.window && !parent.distinct)

/-- Whether every grouping key of the child is shown by the parent. -/
def groupKeysShown (parent child : Select σ) : Bool :=
  child.groupBy.all fun g =>
    parent.outputLineage.columns.any fun r => r.table == parent.sourceName && r.column == g.name

/-- Whether groups of the child are left alone: the parent neither filters nor groups, and only
picks columns. -/
def groupsStayIntact (parent child : Select σ) : Bool :=
  !child.groupsRows ||
    (parent.filter.isNone && parent.groupBy.isEmpty &&
      parent.columns.all fun c => c.expr.columnRef?.isSome)

/-- The names of the columns that use a window function. -/
def windowNames (s : Select σ) : List String :=
  (s.columns.filter fun c => c.expr.lineage.window).map NamedExpr.name

/-- Whether the parent groups by a window function of the child. -/
def groupsByWindow (parent child : Select σ) : Bool :=
  parent.groupBy.any fun g => g.expr.lineage.columns.any fun r =>
    r.table == parent.sourceName && child.windowNames.contains r.column

/-- Whether windows of the child see the same rows: the parent neither filters nor aggregates, and
does not group by them. -/
def windowsStayIntact (parent child : Select σ) : Bool :=
  !child.outputLineage.window ||
    (!parent.groupsByWindow child && parent.filter.isNone && !parent.outputLineage.aggregate)

/-- Whether parent and child can be merged by inlining. -/
def allowsInlining (parent child : Select σ) : Bool :=
  parent.isTransparent && child.isTransparent && !child.distinct &&
    (parent.orderBy.isEmpty || child.orderBy.isEmpty) &&
    (parent.groupBy.isEmpty || child.groupBy.isEmpty) &&
    !parent.sharesCteName child &&
    parent.limitStaysBelow child && parent.groupKeysShown child &&
    parent.groupsStayIntact child && parent.windowsStayIntact child &&
    (parent.groupBy.isEmpty || child.outputLineage.raws.isEmpty) &&
    parent.coveredBy parent.sourceName (columnSubstitution parent.sourceName child) &&
    parent.columnRefs.all fun r => r.table == parent.sourceName

/-- The parent's sort keys by output names of the merged statement. -/
def inlinedParentOrder? (parent : Select σ) (subst : Substitution) (merged : List NamedExpr) :
    Option (List (SortKey Expr)) :=
  parent.orderBy.mapM fun k => do
    let name ← match k.expr.name? with
      | some n => (parent.column? n).map NamedExpr.name
      | none => nameFor? merged (k.expr.substitute subst)
    return { k with expr := .name name }

/-- The child's sort keys by output names of the merged statement. -/
def inlinedChildOrder? (child : Select σ) (merged : List NamedExpr) :
    Option (List (SortKey Expr)) :=
  child.orderBy.mapM fun k => do
    let target ← match k.expr.name? with
      | some n => (child.column? n).map NamedExpr.expr
      | none => some k.expr
    let name ← nameFor? merged target
    return { k with expr := .name name }

/-- Parent and child as one statement, the child's columns inlined. -/
def inlineInto? (parent child : Select σ) : Option (Select σ) :=
  if parent.allowsInlining child then do
    let subst := columnSubstitution parent.sourceName child
    let columns := substituteColumns subst parent.columns
    let orderBy ←
      if parent.orderBy.isEmpty then child.inlinedChildOrder? columns
      else parent.inlinedParentOrder? subst columns
    return {
      id := parent.id
      columns
      source := child.source
      sourceName := child.sourceName
      ctes := parent.ctes ++ child.ctes
      joins := child.joins
      groupBy :=
        if parent.groupBy.isEmpty then relabelGroupBy child.groupBy columns
        else substituteColumns subst parent.groupBy
      orderBy
      filter := Expr.conjoin child.filter (parent.filter.map (Expr.substitute subst))
      limit := tighterLimit parent.limit child.limit
      distinct := parent.distinct }
  else none

end Select

/-- Merges a statement without joins with the statement it reads, inlining its columns. -/
def Select.inlining? (s : Statement) : Option Statement :=
  s.source.select?.bind s.inlineInto?

end QueryPlan
