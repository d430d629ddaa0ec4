import QueryPlan.Rebuild

/-!
# Copying a plan

`Node.copy` gives every node of a plan, tables and texts included, a new identity and leaves all
else as it is.  A node that is shared in the plan is shared in the copy.
-/

namespace QueryPlan

namespace Node

mutual
/-- Builds the copy of a node. -/
def duplicate : Node → StateM Build Node
  | .table id t => Build.once id do return .table (← Build.fresh) t
  | .text id sql => Build.once id do return .text (← Build.fresh) sql
  | .select s => Build.once s.id do
      let id ← Build.fresh
      let source ← s.source.duplicate
      let ctes ← duplicateCtes s.ctes
      let joins ← duplicateJoins s.joins
      return .select { s with id, source, ctes, joins }
  | .cte c => Build.once c.id do
      return .cte (← Build.cteOnce c c.body.duplicate)
  | .createTable id t query => Build.once id do
      let query ← query.duplicate
      return .createTable (← Build.fresh) t query

/-- Builds the copies of the sources of joins. -/
def duplicateJoins : List (Join Node) → StateM Build (List (Join Node))
  | [] => return []
  | j :: js => do
      let source ← j.source.duplicate
      return { j with source } :: (← duplicateJoins js)

/-- Builds the copies of CTEs. -/
def duplicateCtes : List (Cte Node) → StateM Build (List (Cte Node))
  | [] => return []
  | c :: cs => do
      let c ← Build.cteOnce c c.body.duplicate
      return c :: (← duplicateCtes cs)
end

/-- The copy of a plan, given the first free identity, and the next one. -/
def copy (n : Node) (next : NodeId) : Node × NodeId :=
  let (n, b) := n.duplicate.run { next }
  (n, b.next)

end Node

end QueryPlan
