import QueryPlan.Proofs.Lockstep
import QueryPlan.Proofs.PrunedForm
import QueryPlan.Proofs.PruningFailure

/-!
# Pruning plans that are alike

Where the propagations through two plans that are alike end alike, the same is left of both plans,
up to identities (`Mirrors.pruned_nodeOf`), and pruning refuses one of them exactly if it refuses the
other (`Mirrors.exists_pruneWith_iff`).  For this, no column may be missing that pruning would leave
(`Likeness.Retains`).
-/

namespace QueryPlan

namespace Likeness

open Rebuilder

variable {plan : Node} (l : Likeness plan)

theorem select_of_nodeOf {n : Node} {s' : Statement} (hn : n ∈ plan.subnodes)
    (h : l.nodeOf n = .select s') : ∃ s, n = .select s := by
  cases n with
  | select s => exact ⟨s, rfl⟩
  | table i t => rw [l.table hn] at h; cases h
  | text i sql => rw [l.text hn] at h; cases h
  | cte c => rw [l.nodeOf_cte hn] at h; cases h
  | createTable i t query => rw [l.createTable hn] at h; cases h

/-- Everything that pruning leaves of a statement is kept. -/
def Retains (required : Requirements) : Prop :=
  ∀ s, .select s ∈ plan.subnodes → ∀ c ∈ Pruning.kept (required.names s.id) s,
    l.keeps s.id c.name = true

variable {l} {p p' : Propagation} {n : Node} {s : Statement}

/-- The same columns are left of statements that stand for each other. -/
theorem Mirrors.kept_statementOf (h : l.Mirrors p p') (hretains : l.Retains p.required)
    (hs : .select s ∈ plan.subnodes) :
    Pruning.kept (p'.required.names (l.idOf s.id)) (l.statementOf s) =
      Pruning.kept (p.required.names s.id) s := by
  have hgroup : (l.statementOf s).groupNames = s.groupNames := rfl
  have hcolumns : (l.statementOf s).columns = s.columns.filter fun c => l.keeps s.id c.name := rfl
  rw [Pruning.kept, hgroup, hcolumns, List.filter_filter]
  refine List.filter_congr ?_
  intro c hc
  have hsame : (p'.required.names (l.idOf s.id)).contains c.name =
      (p.required.names s.id).contains c.name := by
    rw [Bool.eq_iff_iff, Std.TreeSet.contains_iff_mem, Std.TreeSet.contains_iff_mem]
    exact h.requires hs
  rw [hsame, Bool.and_eq_left_iff_imp]
  intro hleft
  exact hretains s hs c (List.mem_filter.2 ⟨hc, hleft⟩)

/-- The same CTEs are left. -/
theorem Mirrors.filter_ctes (h : l.Mirrors p p') (hs : .select s ∈ plan.subnodes) :
    (l.statementOf s).ctes.filter (fun c => p'.required.requires c.id) =
      (s.ctes.filter fun c => p.required.requires c.id).map l.cteOf := by
  have hctes : (l.statementOf s).ctes = s.ctes.map l.cteOf := rfl
  rw [hctes, List.filter_map]
  refine congrArg (List.map l.cteOf) (List.filter_congr ?_)
  intro c hc
  have hplan : .cte c ∈ plan.subnodes :=
    Node.mem_subnodes_of_parent (by simp [Node.parents, hc]) hs
  exact h.requires_eq hplan

/-- **The same is left of plans that are alike.** -/
theorem Mirrors.pruned_nodeOf (h : l.Mirrors p p') (hretains : l.Retains p.required)
    (hn : n ∈ plan.subnodes) : (l.nodeOf n).pruned p'.required = n.pruned p.required := by
  induction n using Node.induct_parents with
  | h n ih =>
      have hread : ∀ m ∈ n.parents, (l.nodeOf m).pruned p'.required = m.pruned p.required :=
        fun m hm => ih m hm (Node.mem_subnodes_of_parent hm hn)
      cases n with
      | table i t => rw [l.table hn]; rfl
      | text i sql => rw [l.text hn]; rfl
      | createTable i t query =>
          rw [l.createTable hn, Node.pruned, Node.pruned, hread query (by simp [Node.parents])]
      | cte c =>
          have hbody := hread c.body (by simp [Node.parents])
          rw [l.nodeOf_cte hn, Node.pruned_cte, Node.pruned_cte, Cte.forget, Cte.forget, cteOf,
            Cte.relabel, hbody]
      | select s =>
          have hjoins : (l.statementOf s).joins.map (Join.forget (Node.pruned p'.required)) =
              s.joins.map (Join.forget (Node.pruned p.required)) := by
            have hsame : (l.statementOf s).joins = s.joins.map (Join.forget l.nodeOf) := rfl
            rw [hsame, List.map_map]
            refine List.map_congr_left ?_
            intro j hj
            have hsource := hread j.source (by simp [Node.parents, List.mem_map_of_mem hj])
            rw [Function.comp_apply, Join.forget, Join.forget, Join.forget, hsource]
          have hctes : ((l.statementOf s).ctes.filter fun c => p'.required.requires c.id).map
              (Cte.forget (Node.pruned p'.required)) =
              (s.ctes.filter fun c => p.required.requires c.id).map
                (Cte.forget (Node.pruned p.required)) := by
            rw [h.filter_ctes hn, List.map_map]
            refine List.map_congr_left ?_
            intro c hc
            have hmem : .cte c ∈ (Node.select s).parents := by
              simp [Node.parents, List.mem_of_mem_filter hc]
            have hsame := hread (.cte c) hmem
            rw [l.nodeOf_cte (Node.mem_subnodes_of_parent hmem hn), Node.pruned_cte,
              Node.pruned_cte] at hsame
            exact Node.cte.inj hsame
          have hsource : (l.statementOf s).source.pruned p'.required =
              s.source.pruned p.required := hread s.source (by simp [Node.parents])
          have hkept := h.kept_statementOf hretains hn
          have hid : (l.statementOf s).id = l.idOf s.id := rfl
          rw [l.nodeOf_select hn, Node.pruned_select, Node.pruned_select, hctes, hid, hkept]
          simp only [Select.forget, hsource, hjoins]
          rfl

/-- Pruning builds what stands for the nodes that it builds in the given plan. -/
theorem Mirrors.reads_nodeOf (h : l.Mirrors p p') (hn : n ∈ plan.subnodes) :
    (Pruning.rebuilder p'.required).reads (l.nodeOf n) =
      ((Pruning.rebuilder p.required).reads n).map l.nodeOf := by
  cases n with
  | table i t => rw [l.table hn]; rfl
  | text i sql => rw [l.text hn]; rfl
  | cte c => rw [l.nodeOf_cte hn]; rfl
  | createTable i t query => rw [l.createTable hn]; rfl
  | select s =>
      have hctes : ((l.statementOf s).ctes.filter fun c => p'.required.requires c.id).map Node.cte =
          ((s.ctes.filter fun c => p.required.requires c.id).map Node.cte).map l.nodeOf := by
        rw [h.filter_ctes hn, List.map_map, List.map_map]
        refine List.map_congr_left ?_
        intro c hc
        have hmem : .cte c ∈ (Node.select s).parents := by
          simp [Node.parents, List.mem_of_mem_filter hc]
        exact (l.nodeOf_cte (Node.mem_subnodes_of_parent hmem hn)).symm
      rw [l.nodeOf_select hn, reads_select, reads_select, List.map_append,
        sourceNodes_statementOf]
      exact congrArg (_ ++ ·) hctes

/-- Pruning looks at what stands for the nodes that it looks at in the given plan. -/
theorem Mirrors.reaches_nodeOf (h : l.Mirrors p p') {m : Node} (hn : n ∈ plan.subnodes)
    (hreach : (Pruning.rebuilder p.required).Reaches n m) :
    (Pruning.rebuilder p'.required).Reaches (l.nodeOf n) (l.nodeOf m) := by
  induction hreach with
  | refl => exact .refl _
  | step hm _ ih =>
      have hread := ih (Node.mem_subnodes_of_parent (mem_parents_of_mem_reads hm) hn)
      refine .step ?_ hread
      rw [h.reads_nodeOf hn]
      exact List.mem_map_of_mem hm

/-- Pruning looks at nothing else. -/
theorem Mirrors.exists_reaches (h : l.Mirrors p p') {n' m' : Node} (hn : n ∈ plan.subnodes)
    (heq : l.nodeOf n = n') (hreach : (Pruning.rebuilder p'.required).Reaches n' m') :
    ∃ m, (Pruning.rebuilder p.required).Reaches n m ∧ l.nodeOf m = m' := by
  induction hreach generalizing n with
  | refl => exact ⟨n, .refl n, heq⟩
  | step hm _ ih =>
      rw [← heq, h.reads_nodeOf hn] at hm
      rcases List.mem_map.1 hm with ⟨k, hk, hkm⟩
      rcases ih (Node.mem_subnodes_of_parent (mem_parents_of_mem_reads hk) hn) hkm with
        ⟨m, hreach, hm'⟩
      exact ⟨m, .step hk hreach, hm'⟩

/-- **Plans that are alike are refused alike.** -/
theorem Mirrors.exists_pruneWith_iff (h : l.Mirrors p p') (hretains : l.Retains p.required)
    (hids : plan.IdsIdentify) {next next' : NodeId} :
    (∃ out, (l.nodeOf plan).pruneWith p'.required next' = .ok out) ↔
      ∃ out, plan.pruneWith p.required next = .ok out := by
  have hroot := Node.mem_subnodes_self plan
  have hleft : ∀ s, .select s ∈ plan.subnodes →
      (p'.required.contains (l.statementOf s).id = true ∧
        Pruning.kept (p'.required.names (l.statementOf s).id) (l.statementOf s) ≠ [] ↔
      p.required.contains s.id = true ∧ Pruning.kept (p.required.names s.id) s ≠ []) := by
    intro s hs
    have hid : (l.statementOf s).id = l.idOf s.id := rfl
    rw [hid, h.kept_statementOf hretains hs]
    exact and_congr_left fun _ => h.contains hs
  rw [Node.exists_pruneWith_iff (l.idsIdentify_nodeOf hids), Node.exists_pruneWith_iff hids]
  constructor
  · intro hall s hs
    have hreach := h.reaches_nodeOf hroot hs
    rw [l.nodeOf_select hs.mem_subnodes] at hreach
    exact (hleft s hs.mem_subnodes).1 (hall _ hreach)
  · intro hall s' hs'
    rcases h.exists_reaches hroot rfl hs' with ⟨m, hm, heq⟩
    rcases l.select_of_nodeOf hm.mem_subnodes heq with ⟨s, rfl⟩
    rw [l.nodeOf_select hm.mem_subnodes] at heq
    cases heq
    exact (hleft s hm.mem_subnodes).2 (hall s hm)

/-- The columns at the roots of plans that are alike are both known, or neither. -/
theorem isSome_exposedColumns?_nodeOf :
    ((l.nodeOf plan).exposedColumns? ∅).isSome = (plan.exposedColumns? ∅).isSome := by
  rw [Node.exposedColumns?, Node.exposedColumns?]
  rcases LikeScope.empty.exposedColumnsWithin?_cases Scope.ofPlan_empty _
    (Node.mem_subnodes_self plan) with ⟨hnone, hnone'⟩ | ⟨s, -, hs, hs'⟩
  · rw [hnone, hnone']
  · rw [hs, hs']
    rfl

section Prune

variable (hids : plan.IdsIdentify) (hordered : l.Ordered)
  (hp : Propagation.ofPlan plan plan (plan.exposedNames ∅) = .ok p) (hcovers : l.Covers p)
  (hretains : l.Retains p.required) (hknown : (plan.exposedColumns? ∅).isSome = true)

include hids hordered hp hcovers hretains hknown

/-- **Plans that are alike are pruned alike.**  One of them is refused exactly if the other one is,
and what is left of them is the same up to identities. -/
theorem prune_nodeOf (next next' : NodeId) :
    ((∃ out, (l.nodeOf plan).prune next' = .ok out) ↔ ∃ out, plan.prune next = .ok out) ∧
      ∀ {q r : Node} {last last' : NodeId}, plan.prune next = .ok (q, last) →
        (l.nodeOf plan).prune next' = .ok (r, last') → r.eraseIds = q.eraseIds := by
  have hids' := l.idsIdentify_nodeOf hids
  rcases Propagation.exists_ofPlan hids' (Node.mem_subnodes_self _) with ⟨p', hp'⟩
  have hmirrors := mirrors_ofPlan hids hordered hp hcovers hp'
  have hrequired : Requirements.ofPlan plan plan = .ok (some p.required) := by
    rw [Requirements.ofPlan_eq, if_pos hknown, hp]
    rfl
  have hrequired' : Requirements.ofPlan (l.nodeOf plan) (l.nodeOf plan) =
      .ok (some p'.required) := by
    rw [Requirements.ofPlan_eq, if_pos (isSome_exposedColumns?_nodeOf.trans hknown), hp']
    rfl
  rw [Node.prune_of_some hrequired, Node.prune_of_some hrequired']
  refine ⟨hmirrors.exists_pruneWith_iff hretains hids, ?_⟩
  intro q r last last' hq hr
  rw [Node.eraseIds_of_pruneWith hids hq, Node.eraseIds_of_pruneWith hids' hr]
  exact hmirrors.pruned_nodeOf hretains (Node.mem_subnodes_self plan)

end Prune

end Likeness

end QueryPlan
