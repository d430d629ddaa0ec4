import Std.Data.TreeMap
import Std.Data.TreeSet
import QueryPlan.Plan.Basic
import QueryPlan.Text.Json

/-!
# Required columns

`Requirements` holds, for every node that something has been required of, the set of names of the
columns required.  Sets only grow.  A node with an empty set differs from one without an entry.
-/

namespace QueryPlan

/-- A set of column names. -/
abbrev NameSet := Std.TreeSet String

/-- The names of the columns required of each node. -/
structure Requirements where
  sets : Std.TreeMap NodeId NameSet := ∅

namespace Requirements

/-- The set required of a node; nothing if the node has no entry. -/
def get? (r : Requirements) (node : NodeId) : Option NameSet :=
  r.sets[node]?

/-- The set required of a node; empty if the node has no entry. -/
def names (r : Requirements) (node : NodeId) : NameSet :=
  (r.get? node).getD ∅

def contains (r : Requirements) (node : NodeId) : Bool :=
  r.sets.contains node

/-- Whether something is required of a node. -/
def requires (r : Requirements) (node : NodeId) : Bool :=
  !(r.names node).isEmpty

/-- Whether a name is not yet required of a node. -/
def lacks (r : Requirements) (node : NodeId) (name : String) : Bool :=
  !(r.names node).contains name

/-- Requires names of a node, which has an entry afterwards even if there are no names. -/
def addAll (r : Requirements) (node : NodeId) (names : List String) : Requirements :=
  ⟨r.sets.insert node (names.foldl (fun set name => set.insert name) (r.names node))⟩

/-- Requires a name of a node. -/
def add (r : Requirements) (node : NodeId) (name : String) : Requirements :=
  r.addAll node [name]

/-- The number of nodes with an entry. -/
def size (r : Requirements) : Nat :=
  r.sets.size

def isEmpty (r : Requirements) : Bool :=
  r.sets.isEmpty

/-- All sets as JSON, nodes and names in increasing order. -/
def toJson (r : Requirements) : Json :=
  .obj [("required",
    .obj (r.sets.toList.map fun entry => (entry.1.repr, .ofStrings entry.2.toList)))]

/-- All sets as JSON text. -/
def summary (r : Requirements) : String :=
  r.toJson.text

end Requirements

end QueryPlan
