import QueryPlan.Proofs.BuiltForm
import QueryPlan.Proofs.Pruning

/-!
# The pruned form of a plan

Pruning builds every node once and remembers it by identity.  Up to identities the result is what a
plain recursion gives that drops what is not required, statement by statement, and remembers nothing
(`Node.pruned`).

* `Node.eraseIds_of_pruned` — what pruning builds is the pruned form, up to identities.
* `Node.pruned_select_eq_eraseIds` — where nothing is dropped, a statement is its own pruned form.
-/

namespace QueryPlan

namespace Node

mutual
/-- A plan with the columns and CTEs that are required, without identities. -/
def pruned (required : Requirements) : Node → Node
  | .table _ t => .table 0 t
  | .text _ sql => .text 0 sql
  | .select s => .select
      { s with
        id := 0
        columns := Pruning.kept (required.names s.id) s
        source := s.source.pruned required
        joins := prunedJoins required s.joins
        ctes := prunedCtes required s.ctes }
  | .cte c => .cte { c with id := 0, body := c.body.pruned required }
  | .createTable _ t query => .createTable 0 t (query.pruned required)

/-- `pruned` for the sources of joins. -/
def prunedJoins (required : Requirements) : List (Join Node) → List (Join Node)
  | [] => []
  | j :: js => { j with source := j.source.pruned required } :: prunedJoins required js

/-- `pruned` for the CTEs of which something is required. -/
def prunedCtes (required : Requirements) : List (Cte Node) → List (Cte Node)
  | [] => []
  | c :: cs =>
      if required.requires c.id then
        { c with id := 0, body := c.body.pruned required } :: prunedCtes required cs
      else prunedCtes required cs
end

variable {required : Requirements}

theorem prunedJoins_eq : ∀ js : List (Join Node),
    prunedJoins required js = js.map (Join.forget (pruned required))
  | [] => rfl
  | j :: js => by rw [prunedJoins, prunedJoins_eq js, List.map_cons, Join.forget]

theorem prunedCtes_eq : ∀ cs : List (Cte Node),
    prunedCtes required cs =
      (cs.filter fun c => required.requires c.id).map (Cte.forget (pruned required))
  | [] => rfl
  | c :: cs => by
      rw [prunedCtes, prunedCtes_eq cs, List.filter_cons]
      split
      · rw [List.map_cons, Cte.forget]
      · rfl

theorem pruned_select (s : Statement) :
    (Node.select s).pruned required = .select
      { s.forget (pruned required) with
        columns := Pruning.kept (required.names s.id) s
        ctes := (s.ctes.filter fun c => required.requires c.id).map
          (Cte.forget (pruned required)) } := by
  rw [pruned, prunedJoins_eq, prunedCtes_eq, Select.forget]

theorem pruned_cte (c : Cte Node) :
    (Node.cte c).pruned required = .cte (c.forget (pruned required)) := by
  rw [pruned, Cte.forget]

/-- The pruned form is what pruning builds, said without its memory. -/
theorem describes_pruned (plan : Node) :
    (Pruning.rebuilder required).Describes plan (pruned required) where
  table _ _ := rfl
  text _ _ := rfl
  cte := pruned_cte
  createTable _ _ _ := rfl
  select s columns _ hcolumns := by
    rw [pruned_select, (Pruning.columns_eq_ok_iff.1 hcolumns).2.2]
    rfl

/-- **What pruning builds** for a node is the pruned form of the node, up to identities. -/
theorem eraseIds_of_pruned {plan : Node} {done : Std.TreeMap NodeId Node}
    (hsound : (Pruning.rebuilder required).Sound plan done) (n : Node) :
    n ∈ plan.subnodes → ∀ n', done[n.id]? = some n' → n'.eraseIds = n.pruned required :=
  hsound.eraseIds_eq (fun _ => rfl) (describes_pruned plan) n

theorem eraseIds_of_pruneWith {n n' : Node} {next next' : NodeId} (hids : n.IdsIdentify)
    (h : n.pruneWith required next = .ok (n', next')) : n'.eraseIds = n.pruned required :=
  eraseIds_of_described hids (fun _ => rfl) (describes_pruned n) h

/-- A statement is its own pruned form if all its columns and CTEs are required and what it reads is
its own pruned form. -/
theorem pruned_select_eq_eraseIds {s : Statement}
    (hcolumns : Pruning.kept (required.names s.id) s = s.columns)
    (hctes : ∀ c ∈ s.ctes, required.requires c.id = true)
    (hread : ∀ m ∈ (Node.select s).parents, m.pruned required = m.eraseIds) :
    (Node.select s).pruned required = (Node.select s).eraseIds := by
  have hall : s.ctes.filter (fun c => required.requires c.id) = s.ctes :=
    List.filter_eq_self.2 hctes
  have hjoins : s.joins.map (Join.forget (pruned required)) =
      s.joins.map (Join.forget eraseIds) := by
    refine List.map_congr_left ?_
    intro j hj
    rw [Join.forget, Join.forget, hread j.source (by simp [parents, List.mem_map_of_mem hj])]
  have hbodies : s.ctes.map (Cte.forget (pruned required)) = s.ctes.map (Cte.forget eraseIds) := by
    refine List.map_congr_left ?_
    intro c hc
    have hsame := hread (.cte c) (by simp [parents, hc])
    rw [eraseIds_cte, pruned_cte] at hsame
    exact Node.cte.inj hsame
  rw [eraseIds_select, pruned_select, hcolumns, hall]
  simp only [Select.forget, hread s.source (by simp [parents]), hjoins, hbodies]

/-- The columns of the statements of a plan. -/
def shownColumns (n : Node) : List (List String) :=
  (n.subnodes.filterMap Node.select?).map Select.columnNames

end Node

end QueryPlan
