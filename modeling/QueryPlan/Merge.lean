import QueryPlan.Merge.Inlining
import QueryPlan.Merge.JoinSource
import QueryPlan.Merge.Projection
import QueryPlan.Rebuild

/-!
# Merging the statements of a plan

`Node.merge` rebuilds a plan from below and merges every statement with what it reads for as long as
a rule applies, up to a number of rounds.  There are two rules: `MergeRule.projection` merges
projections only, and `MergeRule.inlining` merges wherever columns can be inlined.
-/

namespace QueryPlan

/-- One merging step at a statement; nothing if no merge is sound. -/
abbrev MergeRule := Statement → Option Statement

namespace MergeRule

def projection : MergeRule :=
  Select.projection?

/-- Without joins the statement is merged with its source, otherwise its sources are replaced. -/
def inlining : MergeRule := fun s =>
  if s.joins.isEmpty then s.inlining? else s.joinSources?

/-- Applies a rule until it no longer applies, for at most the given number of rounds. -/
def exhaust (rule : MergeRule) : Nat → Statement → Statement
  | 0, s => s
  | rounds + 1, s =>
    match rule s with
    | some merged => rule.exhaust rounds merged
    | none => s

/-- What merging does at one statement. -/
def rebuilder (rule : MergeRule) (rounds : Nat) : Rebuilder where
  finish := rule.exhaust rounds

end MergeRule

/-- Rebuilds a plan, merging statements by a rule. -/
def Node.merge (rule : MergeRule) (rounds : Nat) (n : Node) (next : NodeId) :
    Except Error (Node × NodeId) :=
  n.rebuilt (rule.rebuilder rounds) next

namespace Pass

/-- Merges projections. -/
def mergeProjections (rounds : Nat) : Pass where
  name := "sub_query_reducer"
  run := Node.merge .projection rounds

/-- Merges wherever columns can be inlined. -/
def mergeInlining (rounds : Nat) : Pass where
  name := "rewriting_sub_query_reducer"
  run := Node.merge .inlining rounds

end Pass

end QueryPlan
