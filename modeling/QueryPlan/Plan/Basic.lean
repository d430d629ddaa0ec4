import QueryPlan.Expr.Lineage
import QueryPlan.Table

/-!
# Query plans

A plan is a directed acyclic graph of nodes.  A node is a table, a select query given as text, a
select statement, a common table expression (CTE) or the creation of a table from a query.  Nodes
are immutable, and sharing is expressed by identity: a `NodeId` that occurs at two places stands for
one node.

* `Select` is a select statement over sources of any type; `Statement` is one whose sources are
  nodes.  Keeping the source type open lets the clauses be discussed apart from the graph.
* `Node.parents` lists the nodes a node reads, in the order in which every traversal visits them:
  the source of `FROM`, the sources of the joins, then the CTEs.
-/

namespace QueryPlan

/-- The identity of a node. -/
abbrev NodeId := Nat

/-- A node's identity as it is shown in messages. -/
def nodeLabel (id : NodeId) : String :=
  "n" ++ id.repr

/-- A computed column and the name under which it is put out. -/
structure NamedExpr where
  expr : Expr
  name : String
deriving DecidableEq

inductive JoinKind where
  | leftOuter | fullOuter | inner | cross
deriving DecidableEq, Repr

/-- A further source of a statement; without a condition every pair of rows matches. -/
structure Join (σ : Type) where
  source : σ
  sourceName : String
  kind : JoinKind
  condition : Option Expr

/-- A query that can be read under a name. -/
structure Cte (σ : Type) where
  id : NodeId
  name : String
  body : σ

/-- A select statement over sources of type `σ`.  A grouping key carries the output name of the
select column that shows it. -/
structure Select (σ : Type) where
  id : NodeId
  columns : List NamedExpr
  source : σ
  sourceName : String
  ctes : List (Cte σ)
  joins : List (Join σ)
  groupBy : List NamedExpr
  orderBy : List (SortKey Expr)
  filter : Option Expr
  limit : Option Nat
  distinct : Bool

/-- A node of a plan. -/
inductive Node where
  | table (id : NodeId) (name : TableName)
  /-- A select query given as text, which this library does not look into. -/
  | text (id : NodeId) (sql : String)
  | select (statement : Select Node)
  | cte (cte : Cte Node)
  | createTable (id : NodeId) (name : TableName) (query : Node)

/-- A select statement of a plan. -/
abbrev Statement := Select Node

instance : Inhabited Node := ⟨.text 0 ""⟩

/-- A statement that only puts out columns of one source. -/
def Select.plain (id : NodeId) (columns : List NamedExpr) (source : Node) (sourceName : String) :
    Statement where
  id
  columns
  source
  sourceName
  ctes := []
  joins := []
  groupBy := []
  orderBy := []
  filter := none
  limit := none
  distinct := false

namespace Select

variable {σ : Type}

/-- The output names of a statement, in order. -/
def columnNames (s : Select σ) : List String :=
  s.columns.map NamedExpr.name

/-- The first column put out under a name. -/
def column? (s : Select σ) (name : String) : Option NamedExpr :=
  s.columns.find? fun c => c.name == name

/-- The sources with their names: that of `FROM`, then those of the joins. -/
def sources (s : Select σ) : List (String × σ) :=
  (s.sourceName, s.source) :: s.joins.map fun j => (j.sourceName, j.source)

/-- The names of the sources. -/
def sourceNames (s : Select σ) : List String :=
  s.sourceName :: s.joins.map Join.sourceName

/-- The first source with a name. -/
def source? (s : Select σ) (name : String) : Option σ :=
  s.sources.lookup name

/-- The expressions of the select list. -/
def selectExprs (s : Select σ) : List Expr :=
  s.columns.map NamedExpr.expr

/-- The conditions of the joins that have one. -/
def conditions (s : Select σ) : List Expr :=
  s.joins.filterMap Join.condition

/-- The grouping expressions. -/
def groupExprs (s : Select σ) : List Expr :=
  s.groupBy.map NamedExpr.expr

/-- The names of the grouping keys. -/
def groupNames (s : Select σ) : List String :=
  s.groupBy.map NamedExpr.name

/-- The expressions of the sort keys. -/
def orderExprs (s : Select σ) : List Expr :=
  s.orderBy.map SortKey.expr

/-- The same statement under another identity. -/
def withId (s : Select σ) (id : NodeId) : Select σ :=
  { s with id }

/-- Every expression of a statement: select list, join conditions, filter, grouping, order. -/
def exprs (s : Select σ) : List Expr :=
  s.selectExprs ++ s.conditions ++ s.filter.toList ++ s.groupExprs ++ s.orderExprs

end Select

namespace Node

def id : Node → NodeId
  | .table id _ | .text id _ | .createTable id _ _ => id
  | .select s => s.id
  | .cte c => c.id

/-- The kind of a node as it is shown in messages. -/
def kindName : Node → String
  | .table .. => "Table"
  | .text .. => "SelectText"
  | .select _ => "SelectStatement"
  | .cte _ => "Cte"
  | .createTable .. => "CreateTableAs"

def select? : Node → Option Statement
  | .select s => some s
  | _ => none

def isSelect (n : Node) : Bool :=
  n.select?.isSome

def table? : Node → Option TableName
  | .table _ t => some t
  | _ => none

def cte? : Node → Option (Cte Node)
  | .cte c => some c
  | _ => none

/-- The nodes a node reads. -/
def parents : Node → List Node
  | .table .. | .text .. => []
  | .select s => s.source :: (s.joins.map Join.source ++ s.ctes.map .cte)
  | .cte c => [c.body]
  | .createTable _ _ query => [query]

/-- The node below any CTE and table creation that wraps it. -/
def unwrapped : Node → Node
  | .cte c => c.body.unwrapped
  | .createTable _ _ query => query.unwrapped
  | n => n

end Node

end QueryPlan
