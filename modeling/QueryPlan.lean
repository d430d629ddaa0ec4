import QueryPlan.Config
import QueryPlan.Config.Reader
import QueryPlan.Digest
import QueryPlan.Error
import QueryPlan.Expr.Basic
import QueryPlan.Expr.Lineage
import QueryPlan.Expr.Render
import QueryPlan.Expr.Serial
import QueryPlan.Expr.Substitution
import QueryPlan.Level
import QueryPlan.Merge
import QueryPlan.Merge.Basic
import QueryPlan.Merge.Inlining
import QueryPlan.Merge.JoinSource
import QueryPlan.Merge.Projection
import QueryPlan.Pipeline
import QueryPlan.Plan.Basic
import QueryPlan.Plan.Copy
import QueryPlan.Plan.Reachable
import QueryPlan.Plan.Render
import QueryPlan.Plan.Serial
import QueryPlan.Plan.WellFormed
import QueryPlan.Proofs.Aggregation
import QueryPlan.Proofs.BuiltForm
import QueryPlan.Proofs.ClosedRequirements
import QueryPlan.Proofs.ConfigText
import QueryPlan.Proofs.Contexts
import QueryPlan.Proofs.Copying
import QueryPlan.Proofs.Coverage
import QueryPlan.Proofs.CteResolution
import QueryPlan.Proofs.Draining
import QueryPlan.Proofs.Erasure
import QueryPlan.Proofs.Evaluation
import QueryPlan.Proofs.FirstFault
import QueryPlan.Proofs.FirstRefusal
import QueryPlan.Proofs.FixedPoint
import QueryPlan.Proofs.FreeNames
import QueryPlan.Proofs.GroupedRows
import QueryPlan.Proofs.Hoisting
import QueryPlan.Proofs.Identities
import QueryPlan.Proofs.InlinedRows
import QueryPlan.Proofs.Interface
import QueryPlan.Proofs.JoinedValues
import QueryPlan.Proofs.Joining
import QueryPlan.Proofs.JsonGrammar
import QueryPlan.Proofs.JsonText
import QueryPlan.Proofs.LexicalScopes
import QueryPlan.Proofs.Likeness
import QueryPlan.Proofs.Lineage
import QueryPlan.Proofs.Lists
import QueryPlan.Proofs.Lockstep
import QueryPlan.Proofs.MergeRules
import QueryPlan.Proofs.NameBinding
import QueryPlan.Proofs.Nesting
import QueryPlan.Proofs.NullFilling
import QueryPlan.Proofs.OptimizingTwice
import QueryPlan.Proofs.Passes
import QueryPlan.Proofs.ProjectedRows
import QueryPlan.Proofs.Propagation
import QueryPlan.Proofs.PrunedAlike
import QueryPlan.Proofs.PrunedForm
import QueryPlan.Proofs.Pruning
import QueryPlan.Proofs.PruningFailure
import QueryPlan.Proofs.PruningTwice
import QueryPlan.Proofs.QualifierFlags
import QueryPlan.Proofs.Qualifiers
import QueryPlan.Proofs.Rebuilding
import QueryPlan.Proofs.References
import QueryPlan.Proofs.Renaming
import QueryPlan.Proofs.Requirements
import QueryPlan.Proofs.RewriteSteps
import QueryPlan.Proofs.RuleExtension
import QueryPlan.Proofs.ScopePaths
import QueryPlan.Proofs.Scopes
import QueryPlan.Proofs.Serialization
import QueryPlan.Proofs.Settling
import QueryPlan.Proofs.Sharing
import QueryPlan.Proofs.SortedLimits
import QueryPlan.Proofs.StringLiterals
import QueryPlan.Proofs.Subnodes
import QueryPlan.Proofs.Substitution
import QueryPlan.Proofs.SubstitutionLaws
import QueryPlan.Proofs.TableNames
import QueryPlan.Proofs.TextScopes
import QueryPlan.Proofs.Trimming
import QueryPlan.Proofs.Tuples
import QueryPlan.Proofs.UnqualifiedNames
import QueryPlan.Proofs.Validity
import QueryPlan.Proofs.Visits
import QueryPlan.Proofs.Weights
import QueryPlan.Proofs.WellScoped
import QueryPlan.Pruning
import QueryPlan.Qualifier
import QueryPlan.Rebuild
import QueryPlan.Requirement
import QueryPlan.Requirement.Propagation
import QueryPlan.Requirement.Rounds
import QueryPlan.Scope
import QueryPlan.Table
import QueryPlan.Text.Blank
import QueryPlan.Text.Json
import QueryPlan.Text.Json.Reader
import QueryPlan.Text.Quoted
import QueryPlan.Text.Unprintable
