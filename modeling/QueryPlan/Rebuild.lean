import Std.Data.TreeMap
import QueryPlan.Error

/-!
# Rebuilding a plan

A pass builds a new plan from a given one.  What has been built for an identity is remembered, so a
node that is shared in the given plan is built once and shared in the new one.  Of several nodes
with one identity the first one reached decides what is built.

* `Build` holds the next identity that is free and what has been built so far.
* `Rebuilder` says what a pass does at one statement, and `Node.rebuild` carries it out everywhere.
  Tables and select texts are kept as they are; every other node gets a new identity, after those of
  the nodes it reads.
-/

namespace QueryPlan

/-- The state of building a plan. -/
structure Build where
  /-- All identities from here on are free. -/
  next : NodeId
  /-- What has been built, by the identity it was built for. -/
  done : Std.TreeMap NodeId Node := ∅

namespace Build

variable {m : Type → Type} [Monad m]

/-- Takes an identity that is free. -/
def fresh : StateT Build m NodeId :=
  modifyGet fun b => (b.next, { b with next := b.next + 1 })

/-- Remembers what has been built for an identity. -/
def remember (id : NodeId) (n : Node) : StateT Build m Unit :=
  modify fun b => { b with done := b.done.insert id n }

/-- Builds a node, unless something has been built for its identity. -/
def once (id : NodeId) (build : StateT Build m Node) : StateT Build m Node := do
  match (← get).done[id]? with
  | some n => return n
  | none =>
    let n ← build
    remember id n
    return n

/-- Builds a CTE from its body, unless a CTE has been built for its identity. -/
def cteOnce (c : Cte Node) (build : StateT Build m Node) : StateT Build m (Cte Node) := do
  match (← get).done[c.id]?.bind Node.cte? with
  | some built => return built
  | none =>
    let body ← build
    let built := { c with id := ← fresh, body }
    remember c.id (.cte built)
    return built

end Build

/-- A computation that builds nodes and may fail. -/
abbrev Rebuild := StateT Build (Except Error)

/-- What a pass does at one statement. -/
structure Rebuilder where
  /-- The columns to keep, before anything below the statement is built. -/
  columns : Statement → Except Error (List NamedExpr) := fun s => .ok s.columns
  /-- Whether a CTE is kept. -/
  keeps : Cte Node → Bool := fun _ => true
  /-- What becomes of the statement whose sources and CTEs are built. -/
  finish : Statement → Statement := id

namespace Node

mutual
/-- Builds the new form of a node. -/
def rebuild (r : Rebuilder) : Node → Rebuild Node
  | n@(.table id _) | n@(.text id _) => Build.once id (pure n)
  | .select s => Build.once s.id do
      let columns ← r.columns s
      let source ← s.source.rebuild r
      let joins ← rebuildJoins r s.joins
      let ctes ← rebuildCtes r s.ctes
      return .select (r.finish { s with id := ← Build.fresh, columns, source, joins, ctes })
  | .cte c => Build.once c.id do
      return .cte (← Build.cteOnce c (c.body.rebuild r))
  | .createTable id t query => Build.once id do
      let query ← query.rebuild r
      return .createTable (← Build.fresh) t query

/-- Builds the sources of joins, in order. -/
def rebuildJoins (r : Rebuilder) : List (Join Node) → Rebuild (List (Join Node))
  | [] => return []
  | j :: js => do
      let source ← j.source.rebuild r
      return { j with source } :: (← rebuildJoins r js)

/-- Builds the CTEs that are kept, in order. -/
def rebuildCtes (r : Rebuilder) : List (Cte Node) → Rebuild (List (Cte Node))
  | [] => return []
  | c :: cs => do
      if r.keeps c then
        let c ← Build.cteOnce c (c.body.rebuild r)
        return c :: (← rebuildCtes r cs)
      else rebuildCtes r cs
end

/-- Builds the new form of a plan, given the first free identity; returns the next one. -/
def rebuilt (r : Rebuilder) (n : Node) (next : NodeId) : Except Error (Node × NodeId) := do
  let (n, b) ← (n.rebuild r).run { next }
  return (n, b.next)

end Node

/-- A named transformation of plans, which is given the first free identity and returns the next. -/
structure Pass where
  name : String
  run : Node → NodeId → Except Error (Node × NodeId)

end QueryPlan
