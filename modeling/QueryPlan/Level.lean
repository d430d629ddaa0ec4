/-!
# Optimisation levels

A level says which passes run.  Each level includes the one below it, except that `o3` replaces the
projection rule of `o2` by the stronger inlining rules.
-/

namespace QueryPlan

inductive Level where
  /-- Nothing runs. -/
  | o0
  /-- Unused columns are dropped. -/
  | o1
  /-- Sub-queries that only feed a projection are merged as well. -/
  | o2
  /-- Sub-queries are merged wherever their columns can be inlined. -/
  | o3
  /-- Column qualifiers that are not needed are dropped as well. -/
  | o4
deriving DecidableEq, Repr

namespace Level

/-- All levels, the lowest first. -/
def all : List Level :=
  [.o0, .o1, .o2, .o3, .o4]

/-- The level's place in the order. -/
def rank : Level → Nat
  | .o0 => 0
  | .o1 => 1
  | .o2 => 2
  | .o3 => 3
  | .o4 => 4

def name : Level → String
  | .o0 => "O0"
  | .o1 => "O1"
  | .o2 => "O2"
  | .o3 => "O3"
  | .o4 => "O4"

/-- The level with a name, letter for letter. -/
def ofName? (name : String) : Option Level :=
  all.find? fun l => l.name == name

/-- The level given by its name or by its rank alone. -/
def ofNameOrRank? (text : String) : Option Level :=
  all.find? fun l => l.name == text || l.rank.repr == text

end Level

end QueryPlan
