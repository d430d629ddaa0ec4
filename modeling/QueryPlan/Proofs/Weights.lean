import Mathlib.Algebra.Order.BigOperators.Group.List
import Mathlib.Algebra.Order.Ring.Nat
import QueryPlan.Proofs.PrunedForm
import QueryPlan.Proofs.RewriteSteps

/-!
# How much is written down in a plan

A plan is weighed by its statements, columns and CTEs, with the sharing written out
(`Node.weight`); what each of them counts is left open (`Weights`).  Identities weigh nothing.

No pass makes a plan heavier.  Each step of a merging rule takes away exactly one statement with its
columns (`MergeStep.weight`), so a pass that only rewrites builds nothing heavier than it was given
(`Rebuilder.Rewrites.weight_le`); and pruning takes away columns and CTEs.  If these count and the
weight is still the same, pruning has taken nothing away (`Node.pruned_eq_eraseIds`).
-/

namespace QueryPlan

open Relation

/-- What one statement, one column and one CTE count. -/
structure Weights where
  statement : Nat := 0
  column : Nat := 0
  cte : Nat := 0

/-- What a node counts by itself. -/
def Weights.own (w : Weights) : Node → Nat
  | .select s => w.statement + w.column * s.columns.length
  | .cte _ => w.cte
  | .table .. | .text .. | .createTable .. => 0

namespace Node

variable {w : Weights}

/-- The weight of a plan, with the sharing written out. -/
def weight (w : Weights) (n : Node) : Nat :=
  (n.subnodes.map w.own).sum

theorem weight_eq (n : Node) : n.weight w = (n.parents.map (weight w)).sum + w.own n := by
  rw [weight, subnodes_eq, List.map_cons, List.sum_cons, List.map_flatMap, List.flatMap_def,
    List.sum_flatten, List.map_map, Nat.add_comm]
  rfl

theorem weight_select (s : Statement) :
    (Node.select s).weight w = (s.sourceNodes.map (weight w)).sum +
      (s.ctes.map fun c => (Node.cte c).weight w).sum +
        (w.statement + w.column * s.columns.length) := by
  rw [weight_eq, Select.parents_select, List.map_append, List.sum_append, List.map_map]
  rfl

theorem weight_le_of_mem_subnodes {m n : Node} (h : m ∈ n.subnodes) : m.weight w ≤ n.weight w := by
  induction n using induct_parents with
  | h n ih =>
      rcases mem_subnodes_iff.1 h with rfl | ⟨p, hp, hm⟩
      · exact Nat.le_refl _
      · have hle := List.single_le_sum (by simp) _ (List.mem_map_of_mem (f := weight w) hp)
        rw [weight_eq n]
        exact Nat.le_trans (ih p hp hm) (Nat.le_add_right_of_le hle)

end Node

/-! ## Merging -/

namespace Select

variable {w : Weights} {s child merged : Statement}

/-- A child that is merged with its parent is gone. -/
theorem weight_of_child (hjoins : s.joins = []) (hsource : s.source = .select child)
    (hsources : merged.source = child.source ∧ merged.sourceName = child.sourceName ∧
      merged.joins = child.joins) (hctes : merged.ctes = s.ctes ++ child.ctes)
    (hcolumns : merged.columns.length = s.columns.length) :
    (Node.select merged).weight w + (w.statement + w.column * child.columns.length) =
      (Node.select s).weight w := by
  have hs : s.sourceNodes = [.select child] := by
    rw [sourceNodes, sources, hjoins, hsource]
    rfl
  have hmerged : merged.sourceNodes = child.sourceNodes := by
    rw [sourceNodes, sourceNodes, sources, sources, hsources.1, hsources.2.1, hsources.2.2]
  rw [Node.weight_select s, hs, Node.weight_select merged, hmerged, hctes, hcolumns,
    List.map_append, List.sum_append, List.map_singleton, List.sum_singleton,
    Node.weight_select child]
  omega

theorem Replaces.weight {place : Nat} {name : String} (h : s.Replaces place name child merged)
    (hcolumns : merged.columns.length = s.columns.length) :
    (Node.select merged).weight w + (w.statement + w.column * child.columns.length) =
      (Node.select s).weight w := by
  have hchild : (Node.select child).weight w =
      child.source.weight w + (w.statement + w.column * child.columns.length) := by
    have hplain := isPlain_of_isPlainProjection h.plain
    simp [Node.weight_select, sourceNodes, sources, hplain.joins, hplain.ctes]
  rcases h.sources_split with ⟨before, after, -, hsources, hmerged⟩
  rw [Node.weight_select, Node.weight_select, h.ctes, hcolumns, sourceNodes, sourceNodes, hsources,
    hmerged]
  simp only [List.map_append, List.map_cons, List.sum_append, List.sum_cons, hchild]
  omega

end Select

/-- **A step takes away one statement**, with its columns. -/
theorem MergeStep.weight {s merged : Statement} (h : MergeStep s merged) (w : Weights) :
    ∃ columns, (Node.select merged).weight w + (w.statement + w.column * columns) =
      (Node.select s).weight w := by
  have hcolumns : merged.columns.length = s.columns.length := by
    simpa [Select.columnNames] using congrArg List.length h.columnNames
  cases h with
  | project hsource h =>
      have hprojection := h.is_projection
      simp only [Select.isProjection, Bool.and_eq_true, List.isEmpty_iff] at hprojection
      exact ⟨_, Select.weight_of_child hprojection.1.1.1 hsource h.sources h.ctes hcolumns⟩
  | inline hjoins hsource h =>
      exact ⟨_, Select.weight_of_child hjoins hsource h.sources h.ctes hcolumns⟩
  | replace h => exact ⟨_, h.weight hcolumns⟩

theorem RewriteStep.weight_le {s merged : Statement} (h : RewriteStep s merged) (w : Weights) :
    (Node.select merged).weight w ≤ (Node.select s).weight w := by
  cases h with
  | merge h =>
      rcases h.weight w with ⟨columns, hweight⟩
      omega
  | drop =>
      have hsame : (Node.select s.dropQualifiers).parents = (Node.select s).parents ∧
          s.dropQualifiers.columns.length = s.columns.length := by
        unfold Select.dropQualifiers
        split
        · exact ⟨rfl, List.length_map _⟩
        · exact ⟨rfl, rfl⟩
      rw [Node.weight_eq, hsame.1, Weights.own, hsame.2, Node.weight_eq (.select s)]
      exact Nat.le_refl _

theorem RewriteStep.weight_le_of_series {s merged : Statement}
    (h : ReflTransGen RewriteStep s merged) (w : Weights) :
    (Node.select merged).weight w ≤ (Node.select s).weight w := by
  induction h with
  | refl => exact Nat.le_refl _
  | tail _ hstep ih => exact Nat.le_trans (hstep.weight_le w) ih

namespace Rebuilder

variable {r : Rebuilder} {plan : Node} {done : Std.TreeMap NodeId Node} {w : Weights}

/-- A prepared statement is no heavier than the given one if what it reads is not. -/
theorem Rewrites.weight_prepared_le (hrewrites : r.Rewrites) {s s₀ : Statement}
    (h : r.Prepares done s s₀)
    (hread : ∀ m ∈ (Node.select s).parents, ∀ m', done[m.id]? = some m' →
      m'.weight w ≤ m.weight w) :
    (Node.select s₀).weight w ≤ (Node.select s).weight w := by
  have hmatch := h.reads_match
  rw [hrewrites.reads_eq] at hmatch
  have hle : List.Forall₂ (fun m m' : Node => m'.weight w ≤ m.weight w)
      (Node.select s).parents (Node.select s₀).parents :=
    ((List.forall₂_and_left _ _).2 ⟨hread, hmatch⟩).imp fun _ m' h => h.1 m' h.2
  have hsum : ((Node.select s₀).parents.map (Node.weight w)).sum ≤
      ((Node.select s).parents.map (Node.weight w)).sum := by
    refine List.Forall₂.sum_le_sum ?_
    rw [List.forall₂_map_left_iff, List.forall₂_map_right_iff]
    exact hle.flip
  rw [Node.weight_eq, Node.weight_eq (.select s), Weights.own, Weights.own, hrewrites.columns_eq h]
  exact Nat.add_le_add_right hsum _

/-- What a pass that only rewrites builds for a node is no heavier than the node. -/
theorem Rewrites.weight_le (hrewrites : r.Rewrites) (hsound : r.Sound plan done) (n : Node) :
    n ∈ plan.subnodes → ∀ n', done[n.id]? = some n' → n'.weight w ≤ n.weight w := by
  induction n using Node.induct_parents with
  | h n ih =>
      intro hn n' hdone
      have hread : ∀ m ∈ n.parents, ∀ m', done[m.id]? = some m' → m'.weight w ≤ m.weight w :=
        fun m hm => ih m hm (Node.mem_subnodes_of_parent hm hn)
      have hforms := hsound n hn n' hdone
      cases n with
      | table | text => rw [show n' = _ from hforms]
      | select s =>
          rcases hforms.exists_prepares with ⟨s₀, hprepares, rfl⟩
          exact Nat.le_trans (RewriteStep.weight_le_of_series (hrewrites.steps s₀) w)
            (hrewrites.weight_prepared_le hprepares hread)
      | cte c =>
          rcases hforms with ⟨id, body, hbody, rfl⟩
          have hle := hread c.body (by simp [Node.parents]) body hbody
          rw [Node.weight_eq, Node.weight_eq (.cte c)]
          simpa [Node.parents, Weights.own] using hle
      | createTable id t query =>
          rcases hforms with ⟨id', query', hquery, rfl⟩
          have hle := hread query (by simp [Node.parents]) query' hquery
          rw [Node.weight_eq, Node.weight_eq (.createTable id t query)]
          simpa [Node.parents, Weights.own] using hle

end Rebuilder

/-- A pass that only rewrites makes no plan heavier. -/
theorem Node.weight_le_of_rebuilt {r : Rebuilder} (hrewrites : r.Rewrites) {n n' : Node}
    {next next' : NodeId} (hids : n.IdsIdentify) (h : n.rebuilt r next = .ok (n', next'))
    (w : Weights) : n'.weight w ≤ n.weight w := by
  rcases rebuilt_eq_ok_iff.1 h with ⟨b, hrun, -⟩
  rcases sound_of_run hids hrun with ⟨hsound, hdone⟩
  exact hrewrites.weight_le hsound n (mem_subnodes_self n) n' hdone

/-! ## Pruning -/

/-- Of two functions, one below the other, that have the same sum over a list. -/
theorem eq_of_sum_map_eq {α : Type} {f g : α → Nat} {l : List α} (hle : ∀ a ∈ l, f a ≤ g a)
    (h : (l.map f).sum = (l.map g).sum) : ∀ a ∈ l, f a = g a := by
  intro a ha
  by_contra hne
  exact (List.sum_lt_sum f g hle ⟨a, ha, Nat.lt_of_le_of_ne (hle a ha) hne⟩).ne h

namespace Node

variable {w : Weights} {required : Requirements}

/-- Identities weigh nothing. -/
theorem weight_eraseIds (n : Node) : n.eraseIds.weight w = n.weight w := by
  have hown : ∀ m : Node, w.own m.eraseIds = w.own m := by
    intro m
    cases m with
    | select s => rw [eraseIds_select]; rfl
    | table | text | cte | createTable => simp [eraseIds, Weights.own]
  rw [weight, subnodes_eraseIds, List.map_map, weight]
  congr 2
  exact funext hown

/-- The weight of a pruned statement, written over what the given statement has: a CTE that is
dropped weighs nothing. -/
theorem weight_pruned_select (s : Statement) :
    ((Node.select s).pruned required).weight w =
      (s.sourceNodes.map fun m => (m.pruned required).weight w).sum +
        (s.ctes.map fun c =>
          if required.requires c.id then ((Node.cte c).pruned required).weight w else 0).sum +
        (w.statement + w.column * (Pruning.kept (required.names s.id) s).length) := by
  have hsources : (s.forget (pruned required)).sourceNodes = s.sourceNodes.map (pruned required) := by
    rw [Select.sourceNodes, Select.sources_forget, Select.sourceNodes, List.map_map, List.map_map]
    rfl
  have hctes : ∀ cs : List (Cte Node),
      (((cs.filter fun c => required.requires c.id).map (Cte.forget (pruned required))).map
        fun c => (Node.cte c).weight w).sum =
      (cs.map fun c =>
        if required.requires c.id then ((Node.cte c).pruned required).weight w else 0).sum := by
    intro cs
    induction cs with
    | nil => rfl
    | cons c cs ih =>
        rw [List.filter_cons, List.map_cons, List.sum_cons, ← ih]
        split
        · simp only [List.map_cons, List.sum_cons, pruned_cte]
        · rw [Nat.zero_add]
  rw [pruned_select, weight_select, hctes]
  congr 2
  exact (congrArg (fun ms => (ms.map (weight w)).sum) hsources).trans (by rw [List.map_map])

/-- A pruned statement is no heavier in its sources, CTEs and columns if what it reads is not. -/
theorem weight_pruned_select_le {s : Statement}
    (hread : ∀ m ∈ (Node.select s).parents, (m.pruned required).weight w ≤ m.weight w) :
    (∀ m ∈ s.sourceNodes, (m.pruned required).weight w ≤ m.weight w) ∧
      (∀ c ∈ s.ctes, (if required.requires c.id then
        ((Node.cte c).pruned required).weight w else 0) ≤ (Node.cte c).weight w) ∧
      (Pruning.kept (required.names s.id) s).length ≤ s.columns.length := by
  rw [Select.parents_select] at hread
  refine ⟨fun m hm => hread m (List.mem_append_left _ hm), ?_, List.length_filter_le _ _⟩
  intro c hc
  split
  · exact hread _ (List.mem_append_right _ (List.mem_map_of_mem hc))
  · exact Nat.zero_le _

/-- **Pruning makes no plan heavier.** -/
theorem weight_pruned_le (n : Node) : (n.pruned required).weight w ≤ n.weight w := by
  induction n using induct_parents with
  | h n ih =>
      cases n with
      | table | text => exact Nat.le_refl _
      | cte c =>
          have hle := ih c.body (by simp [parents])
          rw [weight_eq, weight_eq (.cte c)]
          simpa [pruned, parents, Weights.own] using hle
      | createTable id t query =>
          have hle := ih query (by simp [parents])
          rw [weight_eq, weight_eq (.createTable id t query)]
          simpa [pruned, parents, Weights.own] using hle
      | select s =>
          rcases weight_pruned_select_le ih with ⟨hsources, hctes, hcolumns⟩
          rw [weight_pruned_select, weight_select]
          gcongr
          · exact List.sum_le_sum hsources
          · exact List.sum_le_sum hctes

/-- If columns and CTEs count and pruning has not made a plan lighter, it has dropped nothing. -/
theorem pruned_eq_eraseIds (hcolumn : 0 < w.column) (hcte : 0 < w.cte) (n : Node) :
    (n.pruned required).weight w = n.weight w → n.pruned required = n.eraseIds := by
  induction n using induct_parents with
  | h n ih =>
      intro hweight
      cases n with
      | table | text => rfl
      | cte c =>
          rw [weight_eq, weight_eq (.cte c)] at hweight
          have hbody := ih c.body (by simp [parents])
            (by simpa [pruned, parents, Weights.own] using hweight)
          rw [eraseIds, pruned, hbody]
      | createTable id t query =>
          rw [weight_eq, weight_eq (.createTable id t query)] at hweight
          have hquery := ih query (by simp [parents])
            (by simpa [pruned, parents, Weights.own] using hweight)
          rw [eraseIds, pruned, hquery]
      | select s =>
          have hle : ∀ m : Node, (m.pruned required).weight w ≤ m.weight w := weight_pruned_le
          rcases weight_pruned_select_le (s := s) fun m _ => hle m with ⟨hsources, hctes, hcolumns⟩
          have hsum := List.sum_le_sum hsources
          have hsum' := List.sum_le_sum hctes
          have hlength := Nat.mul_le_mul_left w.column hcolumns
          rw [weight_pruned_select, weight_select] at hweight
          have hsources_eq := eq_of_sum_map_eq hsources (by omega)
          have hctes_eq := eq_of_sum_map_eq hctes (by omega)
          have hkept : (Pruning.kept (required.names s.id) s).length = s.columns.length :=
            Nat.eq_of_mul_eq_mul_left hcolumn (by omega)
          -- a CTE counts, so one that weighs nothing is not there
          have hrequired : ∀ c ∈ s.ctes, required.requires c.id = true := by
            intro c hc
            by_contra hdropped
            have hnothing := hctes_eq c hc
            rw [if_neg hdropped, weight_eq (.cte c), Weights.own] at hnothing
            omega
          refine pruned_select_eq_eraseIds (List.filter_sublist.eq_of_length hkept) hrequired ?_
          intro m hm
          refine ih m hm ?_
          rw [Select.parents_select, List.mem_append] at hm
          rcases hm with hsource | hcte
          · exact hsources_eq m hsource
          · rcases List.mem_map.1 hcte with ⟨c, hc, rfl⟩
            simpa only [hrequired c hc, if_true] using hctes_eq c hc

/-- Pruning leaves a plan as it is, or builds its pruned form. -/
theorem eraseIds_of_prune {n n' : Node} {next next' : NodeId} (hids : n.IdsIdentify)
    (h : n.prune next = .ok (n', next')) :
    n'.eraseIds = n.eraseIds ∨ ∃ required, n'.eraseIds = n.pruned required := by
  rcases prune_eq_ok_iff.1 h with ⟨-, rfl, -⟩ | ⟨required, b, -, hrun, -⟩
  · exact .inl rfl
  · rcases sound_of_run hids hrun with ⟨hsound, hdone⟩
    exact .inr ⟨required, eraseIds_of_pruned hsound n (mem_subnodes_self n) n' hdone⟩

theorem weight_le_of_prune {n n' : Node} {next next' : NodeId} (hids : n.IdsIdentify)
    (h : n.prune next = .ok (n', next')) (w : Weights) : n'.weight w ≤ n.weight w := by
  rw [← weight_eraseIds n']
  rcases eraseIds_of_prune hids h with hsame | ⟨required, hpruned⟩
  · rw [hsame, weight_eraseIds]
  · rw [hpruned]
    exact weight_pruned_le n

theorem eraseIds_eq_of_prune {n n' : Node} {next next' : NodeId} (hids : n.IdsIdentify)
    (h : n.prune next = .ok (n', next')) (hcolumn : 0 < w.column) (hcte : 0 < w.cte)
    (hweight : n'.weight w = n.weight w) : n'.eraseIds = n.eraseIds := by
  rcases eraseIds_of_prune hids h with hsame | ⟨required, hpruned⟩
  · exact hsame
  · rw [hpruned]
    refine pruned_eq_eraseIds hcolumn hcte n ?_
    rw [← hpruned, weight_eraseIds, hweight]

end Node

end QueryPlan
