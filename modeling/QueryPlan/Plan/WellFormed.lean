import QueryPlan.Error
import QueryPlan.Plan.Reachable

/-!
# Well-formed plans

Every kind of node has a rule of its own: a table has a name; a statement has columns, and its
column names, source names and CTE names are pairwise different, no source name being empty; a CTE
and the creation of a table wrap a statement.  `Node.localFault?` checks the rule of one node, and
`Node.validate` reports the first fault in the order in which the nodes of a plan are met.
-/

namespace QueryPlan

/-- The first member of a list that occurs in `seen` or before it in the list. -/
def firstRepeat? (seen : List String) : List String → Option String
  | [] => none
  | x :: xs => if x ∈ seen then some x else firstRepeat? (x :: seen) xs

/-- The first source name that is empty or a repetition. -/
def sourceFault? (node : NodeId) (seen : List String) : List String → Option PlanFault
  | [] => none
  | x :: xs =>
    if x.isEmpty then some (.emptySourceName node)
    else if x ∈ seen then some (.repeatedSource node x)
    else sourceFault? node (x :: seen) xs

/-- What breaks the rule of a statement: its columns, then its sources, then its CTEs. -/
def Select.fault? {σ : Type} (s : Select σ) : Option PlanFault :=
  if s.columns.isEmpty then some (.noColumns s.id)
  else
    (firstRepeat? [] s.columnNames).map (.repeatedColumn s.id) <|>
      sourceFault? s.id [] s.sourceNames <|>
      (firstRepeat? [] (s.ctes.map Cte.name)).map (.repeatedCte s.id)

namespace Node

/-- What breaks the rule of a node. -/
def localFault? : Node → Option PlanFault
  | .table id t => if t.name.isEmpty then some (.emptyTableName id) else none
  | .text .. => none
  | .select s => s.fault?
  | .cte c => if c.body.isSelect then none else some (.cteBody c.name c.body.kindName)
  | .createTable _ t query =>
      if query.isSelect then none else some (.createTableBody t query.kindName)

/-- Refuses a plan in which some node breaks its rule. -/
def validate (n : Node) : Except Error Unit :=
  match n.reachable.findSome? localFault? with
  | some fault => .error (.plan fault)
  | none => .ok ()

end Node

end QueryPlan
