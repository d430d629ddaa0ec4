import Mathlib.Logic.Relation
import QueryPlan.Proofs.MergeRules
import QueryPlan.Proofs.Rebuilding
import QueryPlan.Qualifier

/-!
# What a pass does to one statement

Apart from pruning, a pass rewrites each statement after its sources and CTEs have been built.  All
that it can do is a series of single steps: a projection is merged, columns are inlined, a source is
replaced (`MergeStep`), or qualifiers are dropped (`RewriteStep`).  What a series of steps keeps is
shown for one step.

* `MergeRule.Stepwise` — a rule whose every application is a series of steps, and at least one.  Both
  rules are (`stepwise_projection`, `stepwise_inlining`).
* `Rebuilder.Rewrites` — a pass that keeps all columns and CTEs and takes such steps.
* `RewriteStep.columnNames`, `RewriteStep.readsBelow` — a step keeps the output names, and what the
  statement reads afterwards lies below what it read before.
-/

namespace QueryPlan

open Relation

/-! ## Steps -/

/-- A statement is merged with something that it reads. -/
inductive MergeStep : Statement → Statement → Prop
  | project {parent child merged : Statement} : parent.source = .select child →
      Select.Projects parent child merged → MergeStep parent merged
  | inline {parent child merged : Statement} : parent.joins = [] →
      parent.source = .select child → Select.Inlines parent child merged → MergeStep parent merged
  | replace {s child merged : Statement} {place : Nat} {name : String} :
      s.Replaces place name child merged → MergeStep s merged

/-- A statement is merged with something that it reads, or qualifiers are dropped. -/
inductive RewriteStep : Statement → Statement → Prop
  | merge {s merged : Statement} : MergeStep s merged → RewriteStep s merged
  | drop (s : Statement) : RewriteStep s s.dropQualifiers

/-- A statement reads only what lies below the nodes that another statement reads. -/
def Select.ReadsBelow (s merged : Statement) : Prop :=
  ∀ m ∈ (Node.select merged).parents, ∃ p ∈ (Node.select s).parents, m ∈ p.subnodes

namespace Select

variable {s child merged : Statement}

theorem readsBelow_of_subset
    (h : ∀ m ∈ (Node.select merged).parents, m ∈ (Node.select s).parents) : s.ReadsBelow merged :=
  fun m hm => ⟨m, h m hm, Node.mem_subnodes_self m⟩

theorem ReadsBelow.trans {last : Statement} (h : s.ReadsBelow merged)
    (h' : merged.ReadsBelow last) : s.ReadsBelow last := by
  intro m hm
  rcases h' m hm with ⟨p, hp, hmp⟩
  rcases h p hp with ⟨q, hq, hpq⟩
  exact ⟨q, hq, Node.mem_subnodes_trans hmp hpq⟩

/-- Everything below the new statement but the statement itself lay below the old one. -/
theorem ReadsBelow.mem_subnodes (h : s.ReadsBelow merged) {m : Node}
    (hm : m ∈ (Node.select merged).subnodes) :
    m = .select merged ∨ m ∈ (Node.select s).subnodes := by
  rcases Node.mem_subnodes_iff.1 hm with rfl | ⟨p, hp, hm⟩
  · exact .inl rfl
  · rcases h p hp with ⟨q, hq, hpq⟩
    exact .inr (Node.mem_subnodes_iff.2 (.inr ⟨q, hq, Node.mem_subnodes_trans hm hpq⟩))

theorem child_mem_parents (hsource : s.source = .select child) :
    .select child ∈ (Node.select s).parents := by
  simp [Node.parents, hsource]

theorem Replaces.child_mem_parents {place : Nat} {name : String}
    (h : s.Replaces place name child merged) : .select child ∈ (Node.select s).parents := by
  rcases h.sources_split with ⟨before, after, -, hsources, -⟩
  simp [parents_select, sourceNodes, hsources]

/-- A statement that takes over the sources of its child, and the CTEs of both. -/
theorem readsBelow_of_child (hsource : s.source = .select child)
    (hsources : merged.source = child.source ∧ merged.sourceName = child.sourceName ∧
      merged.joins = child.joins) (hctes : merged.ctes = s.ctes ++ child.ctes) :
    s.ReadsBelow merged := by
  have hchild := child_mem_parents hsource
  intro m hm
  rw [Node.parents, hsources.1, hsources.2.2, hctes] at hm
  simp only [List.map_append, List.mem_cons, List.mem_append, List.mem_map] at hm
  rcases hm with rfl | ⟨j, hj, rfl⟩ | ⟨c, hc, rfl⟩ | ⟨c, hc, rfl⟩
  · exact ⟨_, hchild, Node.mem_subnodes_of_mem_parents (by simp [Node.parents])⟩
  · exact ⟨_, hchild,
      Node.mem_subnodes_of_mem_parents (by simp [Node.parents, List.mem_map_of_mem hj])⟩
  · exact ⟨.cte c, by simp [Node.parents, hc], Node.mem_subnodes_self _⟩
  · exact ⟨_, hchild, Node.mem_subnodes_of_mem_parents (by simp [Node.parents, hc])⟩

theorem Replaces.readsBelow {place : Nat} {name : String} (h : s.Replaces place name child merged) :
    s.ReadsBelow merged := by
  rcases h.sources_split with ⟨before, after, -, hsources, hmerged⟩
  intro m hm
  rw [parents_select, sourceNodes, hmerged, h.ctes, List.mem_append, List.map_append,
    List.map_cons, List.mem_append, List.mem_cons] at hm
  rw [parents_select, sourceNodes, hsources]
  rcases hm with (hbefore | rfl | hafter) | hcte
  · exact ⟨m, by simp [hbefore], Node.mem_subnodes_self m⟩
  · exact ⟨.select child, by simp, Node.mem_subnodes_of_mem_parents (by simp [Node.parents])⟩
  · exact ⟨m, by simp [hafter], Node.mem_subnodes_self m⟩
  · exact ⟨m, List.mem_append_right _ hcte, Node.mem_subnodes_self m⟩

/-- **What steps keep.**  If a property of a statement follows, after a step, from its holding of
the statement before and of everything below, then a series of steps keeps it everywhere. -/
theorem everywhere_of_series {step : Statement → Statement → Prop} {L : Node → Prop}
    (hbelow : ∀ {s merged : Statement}, step s merged → s.ReadsBelow merged)
    (hstep : ∀ {s merged : Statement}, step s merged → (Node.select s).Everywhere L →
      L (.select merged))
    (h : ReflTransGen step s merged) (hs : (Node.select s).Everywhere L) :
    (Node.select merged).Everywhere L := by
  induction h with
  | refl => exact hs
  | tail _ hlast ih =>
      intro m hm
      rcases (hbelow hlast).mem_subnodes hm with rfl | hold
      · exact hstep hlast ih
      · exact ih m hold

theorem columnNames_dropQualifiers (s : Statement) :
    s.dropQualifiers.columnNames = s.columnNames := by
  unfold dropQualifiers
  split
  · simp [columnNames, Function.comp_def]
  · rfl

end Select

namespace MergeStep

variable {s merged : Statement}

theorem id_eq (h : MergeStep s merged) : merged.id = s.id := by
  cases h with
  | project _ h => exact h.id
  | inline _ _ h => exact h.id
  | replace h => exact h.id

theorem columnNames (h : MergeStep s merged) : merged.columnNames = s.columnNames := by
  cases h with
  | project _ h =>
      rcases h.shown with ⟨shown, hshown, -, hcolumns⟩
      rw [Select.columnNames, hcolumns]
      exact Select.map_name_zipWith (forall₂_of_mapM_eq_some hshown)
  | inline _ _ h =>
      rw [Select.columnNames, h.columns]
      exact Select.columnNames_substituteColumns _ _
  | replace h =>
      rw [Select.columnNames, h.columns]
      exact Select.columnNames_substituteColumns _ _

theorem readsBelow (h : MergeStep s merged) : s.ReadsBelow merged := by
  cases h with
  | project hsource h => exact Select.readsBelow_of_child hsource h.sources h.ctes
  | inline _ hsource h => exact Select.readsBelow_of_child hsource h.sources h.ctes
  | replace h => exact h.readsBelow

end MergeStep

namespace RewriteStep

variable {s merged : Statement}

theorem id_eq (h : RewriteStep s merged) : merged.id = s.id := by
  cases h with
  | merge h => exact h.id_eq
  | drop =>
      unfold Select.dropQualifiers
      split <;> rfl

theorem columnNames (h : RewriteStep s merged) : merged.columnNames = s.columnNames := by
  cases h with
  | merge h => exact h.columnNames
  | drop => exact Select.columnNames_dropQualifiers s

theorem readsBelow (h : RewriteStep s merged) : s.ReadsBelow merged := by
  cases h with
  | merge h => exact h.readsBelow
  | drop =>
      refine Select.readsBelow_of_subset ?_
      intro m hm
      unfold Select.dropQualifiers at hm
      split at hm
      · exact hm
      · exact hm

end RewriteStep

/-! ## Series of steps -/

namespace RewriteStep

variable {s merged : Statement} (h : ReflTransGen RewriteStep s merged)

include h

theorem series_id_eq : merged.id = s.id := by
  induction h with
  | refl => rfl
  | tail _ hstep ih => rw [hstep.id_eq, ih]

theorem series_columnNames : merged.columnNames = s.columnNames := by
  induction h with
  | refl => rfl
  | tail _ hstep ih => rw [hstep.columnNames, ih]

theorem series_readsBelow : s.ReadsBelow merged := by
  induction h with
  | refl => exact Select.readsBelow_of_subset fun _ hm => hm
  | tail _ hstep ih => exact ih.trans hstep.readsBelow

end RewriteStep

/-! ## Rules and passes -/

namespace MergeRule

/-- Every application of a rule is a series of steps, and at least one. -/
def Stepwise (rule : MergeRule) : Prop :=
  ∀ {s merged : Statement}, rule s = some merged → TransGen MergeStep s merged

theorem stepwise_projection : projection.Stepwise := by
  intro s merged h
  rcases projection_eq_some h with ⟨child, hsource, hproject⟩
  exact .single (.project hsource hproject)

theorem transGen_of_replaceSources? : ∀ {places : List Nat} {s merged : Statement},
    Select.replaceSources? places s = some merged → TransGen MergeStep s merged
  | [], s, merged, h => by cases h
  | place :: places, s, merged, h => by
      rcases Select.replaceSources?_cons h with hskip | ⟨name, child, s', hreplace, rfl | hrest⟩
      · exact transGen_of_replaceSources? hskip
      · exact .single (.replace hreplace)
      · exact .head (.replace hreplace) (transGen_of_replaceSources? hrest)

theorem stepwise_inlining : inlining.Stepwise := by
  intro s merged h
  by_cases hjoins : s.joins = []
  · rcases inlining_eq_some hjoins h with ⟨child, hsource, hinline⟩
    exact .single (.inline hjoins hsource hinline)
  · rw [inlining, if_neg (by simpa using hjoins), Select.joinSources?] at h
    split at h
    · exact transGen_of_replaceSources? h
    · cases h

variable {rule : MergeRule}

/-- To apply a rule until it no longer applies is a series of steps. -/
theorem Stepwise.reflTransGen_exhaust (hrule : rule.Stepwise) :
    ∀ (rounds : Nat) (s : Statement), ReflTransGen MergeStep s (rule.exhaust rounds s)
  | 0, s => .refl
  | rounds + 1, s => by
      rw [exhaust]
      split
      case h_1 merged h =>
        exact (hrule h).to_reflTransGen.trans (hrule.reflTransGen_exhaust rounds merged)
      case h_2 => exact .refl

end MergeRule

namespace Rebuilder

variable {r : Rebuilder}

/-- A pass that keeps all columns and CTEs, and then takes steps at every statement. -/
structure Rewrites (r : Rebuilder) : Prop where
  columns : ∀ s, r.columns s = .ok s.columns
  keeps : ∀ c, r.keeps c = true
  steps : ∀ s, ReflTransGen RewriteStep s (r.finish s)

theorem Rewrites.isLocal (h : r.Rewrites) : r.IsLocal where
  id_eq s := RewriteStep.series_id_eq (h.steps s)
  below s := RewriteStep.series_readsBelow (h.steps s)

theorem Rewrites.columns_eq (h : r.Rewrites) {done : Std.TreeMap NodeId Node} {s s₀ : Statement}
    (hprepares : r.Prepares done s s₀) : s₀.columns = s.columns := by
  have hcolumns := hprepares.columns
  rw [h.columns, Except.ok.injEq] at hcolumns
  exact hcolumns.symm

/-- A pass that only rewrites looks at everything that a node reads. -/
theorem Rewrites.reads_eq (h : r.Rewrites) (n : Node) : r.reads n = n.parents := by
  cases n with
  | select s =>
      have hall : s.ctes.filter r.keeps = s.ctes := List.filter_eq_self.2 fun c _ => h.keeps c
      rw [reads, hall, Node.parents]
  | table | text | cte | createTable => rfl

/-- A pass that only rewrites goes through. -/
theorem Rewrites.exists_rebuilt (h : r.Rewrites) (n : Node) (next : NodeId) :
    ∃ n' next', n.rebuilt r next = .ok (n', next') := by
  cases hrun : (n.rebuild r).run { next } with
  | ok out => exact ⟨out.1, out.2.next, Node.rebuilt_eq_ok_iff.2 ⟨out.2, hrun, rfl⟩⟩
  | error e =>
      rcases Node.rebuild_error n _ e hrun with ⟨s, -, herror⟩
      rw [h.columns s] at herror
      cases herror

theorem rewrites_of_stepwise {rule : MergeRule} (hrule : rule.Stepwise) (rounds : Nat) :
    (rule.rebuilder rounds).Rewrites where
  columns _ := rfl
  keeps _ := rfl
  steps s := (hrule.reflTransGen_exhaust rounds s).lift id fun _ _ => .merge

theorem rewrites_dropQualifiers : ({ finish := Select.dropQualifiers } : Rebuilder).Rewrites where
  columns _ := rfl
  keeps _ := rfl
  steps s := .single (.drop s)

end Rebuilder

end QueryPlan
