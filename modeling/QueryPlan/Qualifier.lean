import QueryPlan.Expr.Substitution
import QueryPlan.Rebuild

/-!
# Dropping column qualifiers

In a statement with one source, columns need no qualifier.  `GROUP BY` and `ORDER BY` are the
exception: there a bare name that is also an output name means that output column.  A qualifier is
dropped in these clauses only where the output column of that name is the very column meant.
-/

namespace QueryPlan

/-- Whether the columns that an expression reads mean the same without qualifiers in a clause where
output names come first. -/
def bindsSameBare (columns : List NamedExpr) (e : Expr) : Bool :=
  e.lineage.columns.all fun r => columns.all fun c =>
    c.name != r.column || c.expr.columnRef? == some r

/-- An expression of such a clause, without qualifiers if it means the same without them. -/
def dropQualifiersIfSame (columns : List NamedExpr) (e : Expr) : Expr :=
  if bindsSameBare columns e then e.setQualified false else e

/-- A statement without the qualifiers that it does not need. -/
def Select.dropQualifiers {σ : Type} (s : Select σ) : Select σ :=
  if s.joins.isEmpty then
    { s with
      columns := s.columns.map fun c => { c with expr := c.expr.setQualified false }
      filter := s.filter.map (Expr.setQualified false)
      groupBy := s.groupBy.map fun g => { g with expr := dropQualifiersIfSame s.columns g.expr }
      orderBy := s.orderBy.map fun k => { k with expr := dropQualifiersIfSame s.columns k.expr } }
  else s

/-- Rebuilds a plan without the qualifiers that it does not need. -/
def Node.dropQualifiers (n : Node) (next : NodeId) : Except Error (Node × NodeId) :=
  n.rebuilt { finish := Select.dropQualifiers } next

def Pass.dropQualifiers : Pass where
  name := "table_alias_simplifier"
  run := Node.dropQualifiers

end QueryPlan
