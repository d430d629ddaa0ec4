import Std.Data.TreeMap
import QueryPlan.Error
import QueryPlan.Plan.Serial

/-!
# Scopes of common table expressions

A `Scope` says which CTE a name stands for at one point of a query.  Entering a statement adds its
own CTEs, and an inner definition hides an outer one of the same name.

`Scopes.ofPlan` records the scope of every statement of a plan.  The traversal is depth first, and a
statement that is reached twice keeps the scope of the first path.
-/

namespace QueryPlan

/-- The CTEs that can be read at one point of a query, by name. -/
abbrev Scope := Std.TreeMap String (Cte Node)

namespace Scope

/-- The scope that a list of definitions opens; of two for one name the later counts. -/
def ofCtes (cs : List (Cte Node)) : Scope :=
  cs.foldl (fun scope c => scope.insert c.name c) ∅

/-- An outer scope with the definitions of an inner one, which hide those of the same name. -/
def enter (outer inner : Scope) : Scope :=
  inner.toList.foldl (fun scope entry => scope.insert entry.1 entry.2) outer

/-- The names of a scope with the identities of their CTEs, in the order of the names. -/
def summary (scope : Scope) : List (String × NodeId) :=
  scope.toList.map fun entry => (entry.1, entry.2.id)

def toJson (scope : Scope) : Json :=
  .obj (scope.summary.map fun entry => (entry.1, .nat entry.2))

end Scope

namespace Node

/-- The CTE that a node names: only a table without schema can. -/
def namedCte? (scope : Scope) : Node → Option (Cte Node)
  | .table _ ⟨none, name⟩ => scope[name]?
  | _ => none

/-- `exposedColumns?`, following at most the given number of names of CTEs. -/
def exposedColumnsWithin? (scope : Scope) : Nat → Node → Option (List NamedExpr)
  | hops, n =>
    match n.unwrapped with
    | .select s => some s.columns
    | t =>
      match hops, t.namedCte? scope with
      | hops + 1, some c => exposedColumnsWithin? scope hops c.body
      | _, _ => none

/-- The select list that can be seen at a node, through CTEs and table creations; nothing if it is
not known.  A chain of names without a repetition is no longer than the scope is large. -/
def exposedColumns? (scope : Scope) (n : Node) : Option (List NamedExpr) :=
  n.exposedColumnsWithin? scope scope.size

/-- The output names that can be seen at a node; none if they are not known. -/
def exposedNames (scope : Scope) (n : Node) : List String :=
  ((n.exposedColumns? scope).getD []).map NamedExpr.name

end Node

/-! ## The scopes of a plan -/

/-- The scope recorded for each statement. -/
abbrev Scopes := Std.TreeMap NodeId Scope

namespace Scopes

mutual
/-- Adds the scopes of the statements below a node at which `visible` can be read. -/
def record (visible : Scope) : Node → Scopes → Scopes
  | .table .., scopes | .text .., scopes => scopes
  | .select s, scopes =>
      if scopes.contains s.id then scopes
      else
        let own := visible.enter (.ofCtes s.ctes)
        let scopes := record own s.source (scopes.insert s.id own)
        recordCtes own s.ctes (recordJoins own s.joins scopes)
  | .cte c, scopes => record visible c.body scopes
  | .createTable _ _ query, scopes => record visible query scopes

/-- `record` for the sources of joins, in order. -/
def recordJoins (visible : Scope) : List (Join Node) → Scopes → Scopes
  | [], scopes => scopes
  | j :: js, scopes => recordJoins visible js (record visible j.source scopes)

/-- `record` for the bodies of CTEs, in order. -/
def recordCtes (visible : Scope) : List (Cte Node) → Scopes → Scopes
  | [], scopes => scopes
  | c :: cs, scopes => recordCtes visible cs (record visible c.body scopes)
end

/-- The scope of every statement of a plan. -/
def ofPlan (root : Node) : Scopes :=
  record ∅ root ∅

def toJson (scopes : Scopes) : Json :=
  .obj (scopes.toList.map fun entry => (entry.1.repr, entry.2.toJson))

/-- The scope of a statement; to ask for one that was not recorded is a defect. -/
def find (scopes : Scopes) (s : Statement) : Except Error Scope :=
  match scopes[s.id]? with
  | some scope => .ok scope
  | none => .error <| .defect
      { pass := "cte_lookup"
        node := s.id
        message := "no CTE alias mapping was recorded for this select statement"
        nodeText := s.toJson.text
        state := scopes.toJson.text }

end Scopes

end QueryPlan
