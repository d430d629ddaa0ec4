import Std.Data.TreeSet
import QueryPlan.Plan.Basic

/-!
# The nodes of a plan

`Node.reachable` lists the nodes of a plan in depth-first pre-order.  A node is known by its
identity: of several nodes with one identity the first one reached is listed, and the others are
neither listed nor looked into.
-/

namespace QueryPlan

/-- The nodes met so far, the latest first, and their identities. -/
structure Visited where
  seen : Std.TreeSet NodeId := ∅
  latest : List Node := []

/-- Meets a node: if its identity is new it is noted and `below` is visited. -/
def Visited.meet (v : Visited) (n : Node) (below : Visited → Visited) : Visited :=
  if v.seen.contains n.id then v
  else below { seen := v.seen.insert n.id, latest := n :: v.latest }

namespace Node

mutual
/-- Meets a node and everything below it. -/
def visit : Node → Visited → Visited
  | n@(.table ..), v | n@(.text ..), v => v.meet n fun v => v
  | n@(.select s), v =>
      v.meet n fun v => visitCtes s.ctes (visitJoins s.joins (s.source.visit v))
  | n@(.cte c), v => v.meet n c.body.visit
  | n@(.createTable _ _ query), v => v.meet n query.visit

/-- Meets the sources of joins, in order. -/
def visitJoins : List (Join Node) → Visited → Visited
  | [], v => v
  | j :: js, v => visitJoins js (j.source.visit v)

/-- Meets CTEs, in order. -/
def visitCtes : List (Cte Node) → Visited → Visited
  | [], v => v
  | c :: cs, v => visitCtes cs (v.meet (.cte c) c.body.visit)
end

/-- The nodes that can be reached from a list of nodes, in the order in which they are met. -/
def reachableFrom (ns : List Node) : List Node :=
  (ns.foldl (fun v n => visit n v) ({} : Visited)).latest.reverse

/-- The nodes of a plan, in the order in which they are met. -/
def reachable (n : Node) : List Node :=
  reachableFrom [n]

/-- Whether a node is a select query given as text. -/
def isText : Node → Bool
  | .text .. => true
  | _ => false

end Node

/-- Whether a select query given as text occurs anywhere below a statement. -/
def Select.hasTextBelow (s : Statement) : Bool :=
  (Node.reachableFrom (Node.select s).parents).any Node.isText

end QueryPlan
