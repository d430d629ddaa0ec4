import QueryPlan.Expr.Basic

/-!
# What an expression reads

`Expr.lineage` collects, in pre-order, the columns, output names and uninterpreted fragments of an
expression, and notes whether it holds an aggregate or a window function.  Every decision about an
expression that needs to know its inputs is made from its lineage and never from its text.
-/

namespace QueryPlan

/-- A fragment of uninterpreted SQL together with its declared inputs. -/
structure RawUsage where
  sql : String
  inputs : Option (List String)
deriving DecidableEq, Repr

/-- What an expression, or a collection of expressions, reads. -/
structure Lineage where
  columns : List ColumnRef := []
  names : List String := []
  raws : List RawUsage := []
  aggregate : Bool := false
  window : Bool := false
deriving DecidableEq, Repr

namespace Lineage

/-- The lineage of two collections, the first one in front. -/
def append (a b : Lineage) : Lineage where
  columns := a.columns ++ b.columns
  names := a.names ++ b.names
  raws := a.raws ++ b.raws
  aggregate := a.aggregate || b.aggregate
  window := a.window || b.window

instance : Append Lineage := ⟨append⟩

/-- The lineage of a collection, from those of its members. -/
def combine (ls : List Lineage) : Lineage :=
  ls.foldr append {}

/-- Whether some uninterpreted fragment does not declare its inputs. -/
def hasUnknownInputs (l : Lineage) : Bool :=
  l.raws.any fun u => u.inputs.isNone

/-- The declared inputs of all fragments, in order. -/
def declaredInputs (l : Lineage) : List String :=
  l.raws.flatMap fun u => u.inputs.getD []

end Lineage

namespace Expr

/-- What an expression reads by itself, its sub-expressions left out. -/
def ownLineage : Expr → Lineage
  | .column r _ => { columns := [r] }
  | .name n => { names := [n] }
  | .raw sql inputs _ => { raws := [⟨sql, inputs⟩] }
  | .aggregate .. => { aggregate := true }
  | .window .. => { window := true }
  | _ => {}

/-- What an expression reads. -/
def lineage (e : Expr) : Lineage :=
  .combine (e.walk.map ownLineage)

/-- What a list of expressions reads. -/
def lineages (es : List Expr) : Lineage :=
  .combine (es.map lineage)

end Expr

end QueryPlan
