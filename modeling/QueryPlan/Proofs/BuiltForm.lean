import QueryPlan.Proofs.Erasure
import QueryPlan.Proofs.Rebuilding

/-!
# What a pass builds, without its memory

A pass remembers what it has built by identity.  Up to identities this can be said without the
memory: a function on nodes that treats each node as the pass does, with its own values for the
nodes that are read, gives what the pass builds (`Rebuilder.Describes`).

* `Prepares.forget_eq` — a prepared statement is the given one over what has been built.
* `Sound.eraseIds_eq` — what is built for a node is what a description says of it.
-/

namespace QueryPlan

namespace Rebuilder

variable {r : Rebuilder} {plan : Node} {done : Std.TreeMap NodeId Node}

/-- What a pass makes of a prepared statement does not depend on identities. -/
def IsNatural (r : Rebuilder) : Prop :=
  ∀ s, r.finish (s.forget Node.eraseIds) = (r.finish s).forget Node.eraseIds

/-- A statement as a pass prepares it, where `f` says what becomes of the nodes that it reads. -/
def preparedOver {τ : Type} (r : Rebuilder) (f : Node → τ) (columns : List NamedExpr)
    (s : Statement) : Select τ :=
  { s.forget f with columns, ctes := (s.ctes.filter r.keeps).map (Cte.forget f) }

/-- A prepared statement is the given one over what has been built for the nodes that it reads. -/
theorem Prepares.forget_eq {τ : Type} {f g : Node → τ} {s s₀ : Statement}
    (h : r.Prepares done s s₀)
    (hsources : ∀ m ∈ s.sourceNodes, ∀ m', done[m.id]? = some m' → f m' = g m)
    (hctes : ∀ c ∈ s.ctes, ∀ c', done[c.id]? = some (.cte c') → c'.forget f = c.forget g) :
    s₀.forget f = r.preparedOver g s₀.columns s := by
  have hsource := hsources s.source (by simp [Select.sourceNodes, Select.sources]) _ h.source
  have hjoins : s₀.joins.map (Join.forget f) = s.joins.map (Join.forget g) := by
    refine map_eq_of_forall₂ h.joins ?_
    rintro j hj j' ⟨source, hdone, rfl⟩
    have hmem : j.source ∈ s.sourceNodes := by
      simp only [Select.sourceNodes, Select.sources, List.map_cons, List.map_map]
      exact List.mem_cons_of_mem _ (List.mem_map_of_mem hj)
    rw [Join.forget, Join.forget, hsources j.source hmem source hdone]
  have hbodies : s₀.ctes.map (Cte.forget f) = (s.ctes.filter r.keeps).map (Cte.forget g) :=
    map_eq_of_forall₂ h.ctes fun c hc => hctes c (List.mem_of_mem_filter hc)
  rw [preparedOver, h.clauses]
  simp only [Select.forget, hsource, hjoins, hbodies]

/-- A function says, up to identities, what a pass builds for the nodes of a plan: at each of them
it does what the pass does, and takes its own values for what the node reads. -/
structure Describes (r : Rebuilder) (plan : Node) (f : Node → Node) : Prop where
  table : ∀ id t, f (.table id t) = .table 0 t
  text : ∀ id sql, f (.text id sql) = .text 0 sql
  select : ∀ s columns, .select s ∈ plan.subnodes → r.columns s = .ok columns →
    f (.select s) = .select (r.finish (r.preparedOver f columns s))
  cte : ∀ c, f (.cte c) = .cte (c.forget f)
  createTable : ∀ id t query, f (.createTable id t query) = .createTable 0 t (f query)

/-- **What is built is what a description says**, up to identities. -/
theorem Sound.eraseIds_eq {f : Node → Node} (hsound : r.Sound plan done) (hnatural : r.IsNatural)
    (hf : r.Describes plan f) (n : Node) :
    n ∈ plan.subnodes → ∀ n', done[n.id]? = some n' → n'.eraseIds = f n := by
  induction n using Node.induct_parents with
  | h n ih =>
      intro hn n' hdone
      have hread : ∀ m ∈ n.parents, ∀ m', done[m.id]? = some m' → m'.eraseIds = f m :=
        fun m hm => ih m hm (Node.mem_subnodes_of_parent hm hn)
      have hforms := hsound n hn n' hdone
      cases n with
      | table id t =>
          rw [show n' = _ from hforms, hf.table]
          rfl
      | text id sql =>
          rw [show n' = _ from hforms, hf.text]
          rfl
      | cte c =>
          rcases hforms with ⟨id, body, hbody, rfl⟩
          rw [Node.eraseIds, hf.cte, hread c.body (by simp [Node.parents]) body hbody]
          rfl
      | createTable id t query =>
          rcases hforms with ⟨id', query', hquery, rfl⟩
          rw [Node.eraseIds, hf.createTable, hread query (by simp [Node.parents]) query' hquery]
      | select s =>
          rcases hforms.exists_prepares with ⟨s₀, hprepares, rfl⟩
          rw [Select.parents_select] at hread
          have hprepared : s₀.forget Node.eraseIds = r.preparedOver f s₀.columns s := by
            refine hprepares.forget_eq (fun m hm => hread m (List.mem_append_left _ hm)) ?_
            intro c hc c' hdone
            have hcte := hread (.cte c) (List.mem_append_right _ (List.mem_map_of_mem hc)) _ hdone
            rw [Node.eraseIds_cte, hf.cte] at hcte
            exact Node.cte.inj hcte
          rw [Node.eraseIds_select, ← hnatural s₀, hprepared, hf.select s _ hn hprepares.columns]

end Rebuilder

/-- A whole plan is rebuilt as a description of the pass says. -/
theorem Node.eraseIds_of_described {r : Rebuilder} {f : Node → Node} {n n' : Node}
    {next next' : NodeId} (hids : n.IdsIdentify) (hnatural : r.IsNatural) (hf : r.Describes n f)
    (h : n.rebuilt r next = .ok (n', next')) : n'.eraseIds = f n := by
  rcases rebuilt_eq_ok_iff.1 h with ⟨b, hrun, -⟩
  rcases sound_of_run hids hrun with ⟨hsound, hdone⟩
  exact hsound.eraseIds_eq hnatural hf n (mem_subnodes_self n) n' hdone

end QueryPlan
