import QueryPlan.Plan.Reachable
import QueryPlan.Requirement
import QueryPlan.Requirement.Rounds
import QueryPlan.Scope

/-!
# Which columns a plan needs

Requirements flow from the root of a plan towards its tables.  The columns required of a statement,
together with those that `DISTINCT`, `GROUP BY` and `ORDER BY` force, decide through the lineage of
their expressions which columns are required of each source.

A statement is looked at again only when its set has another size than when it was last looked at,
so shared statements converge.  CTEs are noted when they are read and looked at after the main
traversal, in the order of their identities, until none of their sets has grown
(`Propagation.settle`).  Every round of that loop finds a strictly larger set for each CTE it looks
at, and a set holds no names but those that occur in the plan; hence `propagationRounds` bounds the
number of rounds.
-/

namespace QueryPlan

/-! ## What a statement needs -/

namespace Select

/-- The output names that a statement needs for itself.  `DISTINCT` compares whole rows, and an
order by SQL with unknown inputs may depend on any column. -/
def forcedNames (s : Statement) : List String :=
  let order := Expr.lineages s.orderExprs
  s.groupNames ++
    if s.distinct || order.hasUnknownInputs then s.columnNames
    else (order.names ++ order.declaredInputs).filter s.columnNames.contains

/-- What a statement reads to put out the required columns. -/
def requiredLineage (s : Statement) (required : NameSet) : Lineage :=
  Expr.lineages <|
    (s.columns.filter fun c => required.contains c.name).map NamedExpr.expr ++ s.conditions ++
      s.filter.toList ++ s.groupExprs ++ s.orderExprs

/-- Whether some column is read from a source that the statement does not have. -/
def readsUnknownSource (s : Statement) (lineage : Lineage) : Bool :=
  lineage.columns.any fun r => (s.source? r.table).isNone

end Select

/-! ## The state of the propagation -/

/-- What has been found out so far. -/
structure Propagation where
  required : Requirements := {}
  /-- The size of a node's set when the node was last looked at. -/
  seenSize : Std.TreeMap NodeId Nat := ∅
  /-- The CTEs that are read somewhere, by identity. -/
  referenced : Std.TreeMap NodeId (Cte Node) := ∅

namespace Propagation

/-- The number of names required of a node. -/
def count (p : Propagation) (node : NodeId) : Nat :=
  (p.required.names node).size

/-- Notes that a node is looked at with its present set. -/
def mark (p : Propagation) (node : NodeId) : Propagation :=
  { p with seenSize := p.seenSize.insert node (p.count node) }

/-- Whether a node was last looked at with a set of the present size. -/
def isSettled (p : Propagation) (node : NodeId) : Bool :=
  p.seenSize[node]? == some (p.count node)

/-- Whether a node's set has grown since the node was looked at. -/
def isStale (p : Propagation) (node : NodeId) : Bool :=
  match p.seenSize[node]? with
  | some size => size != p.count node
  | none => p.count node != 0

def requireAll (p : Propagation) (node : NodeId) (names : List String) : Propagation :=
  { p with required := p.required.addAll node names }

/-- Requires of one node what is required of another. -/
def handOn (p : Propagation) (node next : NodeId) : Propagation :=
  p.requireAll next (p.required.names node).toList

/-- Notes that a CTE is read; of two CTEs with one identity the first is kept. -/
def refer (p : Propagation) (c : Cte Node) : Propagation :=
  { p with referenced := p.referenced.insertIfNew c.id c }

/-- Requires a column of a source and, if the source names a CTE, of that CTE. -/
def requireOf (p : Propagation) (scope : Scope) (source : Node) (name : String) : Propagation :=
  let p := p.requireAll source.id [name]
  match source.namedCte? scope with
  | some c => (p.requireAll c.id [name]).refer c
  | none => p

/-- Requires columns of a source. -/
def requireAllOf (p : Propagation) (scope : Scope) (source : Node) (names : List String) :
    Propagation :=
  names.foldl (fun p name => p.requireOf scope source name) p

/-- Makes sure that some column of a source is required, for one that is read only for its number
of rows: its first column is. -/
def requireSome (p : Propagation) (scope : Scope) (source : Node) : Propagation :=
  let target := ((source.namedCte? scope).map Cte.id).getD source.id
  if p.required.requires target then p
  else p.requireAllOf scope source ((source.exposedNames scope).take 1)

/-- Requires the CTEs of a statement completely if a select query given as text below the statement
might read them. -/
def requireCtes (p : Propagation) (scope : Scope) (s : Statement) : Propagation :=
  if !s.ctes.isEmpty && s.hasTextBelow then
    s.ctes.foldl (fun p c => (p.requireAll c.id (c.body.exposedNames scope)).refer c) p
  else p

/-- Requires every column that the sources of a statement show. -/
def requireShown (p : Propagation) (scope : Scope) (s : Statement) : Propagation :=
  s.sources.foldl (fun p source => p.requireAllOf scope source.2 (source.2.exposedNames scope)) p

/-- Requires a name without a source of every source. -/
def requireUnqualified (p : Propagation) (scope : Scope) (s : Statement) (name : String) :
    Propagation :=
  s.sources.foldl (fun p source => p.requireOf scope source.2 name) p

/-- Requires a column of the source it names. -/
def requireColumn (p : Propagation) (scope : Scope) (s : Statement) (r : ColumnRef) : Propagation :=
  match s.source? r.table with
  | some source => p.requireOf scope source r.column
  | none => p

/-- Requires of the sources and CTEs of a statement what the statement needs. -/
def requireInputs (p : Propagation) (scope : Scope) (s : Statement) : Propagation :=
  let lineage := s.requiredLineage (p.required.names s.id)
  let p := p.requireCtes scope s
  let p :=
    if lineage.hasUnknownInputs || s.readsUnknownSource lineage then p.requireShown scope s else p
  let p := (lineage.declaredInputs ++ lineage.names).foldl
    (fun p name => p.requireUnqualified scope s name) p
  lineage.columns.foldl (fun p r => p.requireColumn scope s r) p

/-- Looks at a CTE: its body has to provide what is required of it. -/
def enterCte (p : Propagation) (c : Cte Node) : Propagation :=
  (p.mark c.id).handOn c.id c.body.id

end Propagation

/-! ## Propagating through a plan -/

namespace Node

mutual
/-- Looks at a node and at everything below it that has to be looked at again. -/
def propagate (scopes : Scopes) : Node → Propagation → Except Error Propagation
  | .table .., p | .text .., p => .ok p
  | .select s, p => do
      let p := p.requireAll s.id s.forcedNames
      if p.isSettled s.id then return p
      let scope ← scopes.find s
      let p := (p.mark s.id).requireInputs scope s
      let p ← s.source.propagate scopes (p.requireSome scope s.source)
      propagateJoins scopes scope s.joins p
  | .cte c, p => c.body.propagate scopes (p.enterCte c)
  | .createTable id _ query, p => query.propagate scopes (p.handOn id query.id)

/-- Looks at the sources of joins, in order. -/
def propagateJoins (scopes : Scopes) (scope : Scope) :
    List (Join Node) → Propagation → Except Error Propagation
  | [], p => .ok p
  | j :: js, p => do
      let p ← j.source.propagate scopes (p.requireSome scope j.source)
      propagateJoins scopes scope js p
end

end Node

namespace Propagation

/-- The CTEs whose sets have grown since they were looked at, in the order of their identities. -/
def staleCtes (p : Propagation) : List (Cte Node) :=
  (p.referenced.toList.map Prod.snd).filter fun c => p.isStale c.id

/-- Looks at CTEs, in order. -/
def propagateCtes (scopes : Scopes) : List (Cte Node) → Propagation → Except Error Propagation
  | [], p => .ok p
  | c :: cs, p => do
      let p ← c.body.propagate scopes (p.enterCte c)
      propagateCtes scopes cs p

/-- Looks at CTEs until none of their sets has grown, for at most the given number of rounds. -/
def settle (scopes : Scopes) : Rounds → Propagation → Except Error Propagation
  | .over, p => .ok p
  | .next rest, p =>
    match p.staleCtes with
    | [] => .ok p
    | cs => do
        let p ← propagateCtes scopes cs p
        settle scopes (rest ()) p

end Propagation

/-- Rounds that suffice: as many as there are pairs of a CTE and a name, and more. -/
def propagationRounds (scopeRoot root : Node) : Rounds :=
  let all : Rounds := scopeRoot.rounds fun _ => root.rounds fun _ => .over
  all.forEach fun _ => all

/-- What has been found out when all of a plan has been looked at, the columns `shown` at its root
being required.  Names of CTEs are understood as they are in the plan `scopeRoot`. -/
def Propagation.ofPlan (scopeRoot root : Node) (shown : List String) :
    Except Error Propagation := do
  let scopes := Scopes.ofPlan scopeRoot
  let p ← root.propagate scopes (({} : Propagation).requireAll root.id shown)
  settle scopes (propagationRounds scopeRoot root) p

/-- The columns required of every node of a plan when all columns shown at its root are; nothing if
those are not known. -/
def Requirements.ofPlan (scopeRoot root : Node) : Except Error (Option Requirements) :=
  match root.exposedColumns? ∅ with
  | none => .ok none
  | some columns => do
      let p ← Propagation.ofPlan scopeRoot root (columns.map NamedExpr.name)
      return some p.required

end QueryPlan
