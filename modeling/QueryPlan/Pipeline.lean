import QueryPlan.Plan.WellFormed
import QueryPlan.Pruning
import QueryPlan.Qualifier
import QueryPlan.Merge

/-!
# The optimiser

`optimize` checks the configuration and, if asked to, the plan, and then runs the passes of the
configured level one after the other.  An error is reported with the plan and the pass in which it
was met.
-/

namespace QueryPlan

/-- The identity of a whole plan: 128 bits. -/
structure PlanId where
  bits : BitVec 128
deriving DecidableEq

namespace PlanId

/-- The 32 hexadecimal digits of an identity, in lower case. -/
def digits (id : PlanId) : List Char :=
  id.bits.toHex.toList

/-- The identity as it is shown in messages. -/
def render (id : PlanId) : String :=
  "sql_plan_" ++ String.ofList id.digits

/-- The identity in groups of 8, 4, 4, 4 and 12 digits. -/
def grouped (id : PlanId) : String :=
  let ds := id.digits
  "-".intercalate
    ([ds.take 8, (ds.drop 8).take 4, (ds.drop 12).take 4, (ds.drop 16).take 4, ds.drop 20].map
      String.ofList)

end PlanId

/-- A plan as it is handed over for rendering. -/
structure Plan where
  id : PlanId
  root : Node

/-- The passes that a configuration asks for, in order. -/
def Config.passes (c : Config) : List Pass :=
  match c.level with
  | .o0 => []
  | .o1 => [.prune]
  | .o2 => [.prune, .mergeProjections c.maxRounds]
  | .o3 => [.prune, .mergeInlining c.maxRounds]
  | .o4 => [.prune, .mergeInlining c.maxRounds, .dropQualifiers]

/-- Puts a failure into a context. -/
def inContext {α : Type} (doing : String) (result : Except Error α) : Except Error α :=
  result.mapError (.context doing)

/-- Runs passes one after the other. -/
def runPasses (plan : PlanId) : List Pass → Node → NodeId → Except Error (Node × NodeId)
  | [], n, next => .ok (n, next)
  | pass :: passes, n, next => do
      let (n, next) ← inContext ("pass " ++ inQuotes pass.name ++ " on " ++ plan.render)
        (pass.run n next)
      runPasses plan passes n next

/-- The optimised plan, given the first free identity, and the next one. -/
def optimize (c : Config) (plan : Plan) (next : NodeId) : Except Error (Plan × NodeId) := do
  c.check
  if c.validateInput then
    inContext ("validating " ++ plan.id.render) plan.root.validate
  let (root, next) ← runPasses plan.id c.passes plan.root next
  return ({ plan with root }, next)

end QueryPlan
