import QueryPlan.Rebuild
import QueryPlan.Requirement.Propagation
import QueryPlan.Text.Quoted

/-!
# Dropping columns that nothing reads

`Node.pruneWith` rebuilds a plan and keeps in every statement the columns that are required of it
and those it groups by, and of its CTEs those of which something is required.  A statement without
an entry, or one that would keep no column, is a defect.  `Node.prune` takes the requirements from
the plan itself.
-/

namespace QueryPlan

namespace Pruning

def passName : String := "column_pruner"

/-- A defect met at a statement. -/
def defect (required : Requirements) (s : Statement) (message : String) : Error :=
  .defect
    { pass := passName
      node := s.id
      message
      nodeText := s.toJson.text
      state := required.summary }

/-- The columns of a statement that are in a set or grouped by. -/
def kept (names : NameSet) (s : Statement) : List NamedExpr :=
  s.columns.filter fun c => names.contains c.name || s.groupNames.contains c.name

/-- The columns that a statement keeps. -/
def columns (required : Requirements) (s : Statement) : Except Error (List NamedExpr) :=
  match required.get? s.id with
  | none =>
      .error <| defect required s "select statement was not reached while tagging required columns"
  | some names =>
    if (kept names s).isEmpty then
      .error <| defect required s <|
        "every select column was pruned; columns " ++ quotedList s.columnNames ++ ", required " ++
          quotedSet names.toList
    else .ok (kept names s)

/-- What pruning does at one statement. -/
def rebuilder (required : Requirements) : Rebuilder where
  columns := columns required
  keeps c := required.requires c.id

end Pruning

namespace Node

/-- Rebuilds a plan with the columns that are required. -/
def pruneWith (required : Requirements) (n : Node) (next : NodeId) :
    Except Error (Node × NodeId) :=
  n.rebuilt (Pruning.rebuilder required) next

/-- Rebuilds a plan without the columns that nothing reads; a plan whose columns are not known is
left alone. -/
def prune (n : Node) (next : NodeId) : Except Error (Node × NodeId) := do
  match ← Requirements.ofPlan n n with
  | none => return (n, next)
  | some required => n.pruneWith required next

end Node

def Pass.prune : Pass where
  name := Pruning.passName
  run := Node.prune

end QueryPlan
