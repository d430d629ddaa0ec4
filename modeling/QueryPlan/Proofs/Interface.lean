import QueryPlan.Proofs.References

/-!
# What consumers of a plan see

Whoever uses an optimised plan knows it by its identity, by the kind of its root with the name that
the root creates or defines, and by the names and positions of its output columns.  The optimiser
keeps all of these, although pruning drops columns in every other statement and merging builds select
lists from those of parent and child.

* `Node.SameInterface` — two nodes that look alike from outside: the same wrappers with the same
  names around statements with the same output names, or around the very same leaf.
* `Rebuilder.Sound.sameInterface` — a pass keeps the interface of a node if it keeps the output names
  of the statement that the node wraps.  A pass that rewrites keeps those of all statements, and
  pruning keeps those of the statement at the root, since all its columns are required.
* `optimize_keeps_interface` — the whole optimiser.
-/

namespace QueryPlan

namespace Node

/-- Two nodes look alike from outside. -/
inductive SameInterface : Node → Node → Prop
  /-- A table stays the very same node. -/
  | table (id : NodeId) (t : TableName) : SameInterface (.table id t) (.table id t)
  /-- So does a select query given as text. -/
  | text (id : NodeId) (sql : String) : SameInterface (.text id sql) (.text id sql)
  | select {s s' : Statement} : s'.columnNames = s.columnNames →
      SameInterface (.select s) (.select s')
  | cte {c c' : Cte Node} : c'.name = c.name → SameInterface c.body c'.body →
      SameInterface (.cte c) (.cte c')
  | createTable {id id' : NodeId} {t : TableName} {query query' : Node} :
      SameInterface query query' → SameInterface (.createTable id t query) (.createTable id' t query')

/-- The output names that can be seen at a node where no CTE can be read; nothing if they are not
known. -/
def shownNames? (n : Node) : Option (List String) :=
  (n.exposedColumns? ∅).map (List.map NamedExpr.name)

theorem shownNames?_eq (n : Node) :
    n.shownNames? = n.unwrapped.select?.map Select.columnNames := by
  cases hn : n.unwrapped with
  | select s =>
      rw [shownNames?, exposedColumns?_of_unwrapped hn]
      rfl
  | table | text | cte | createTable =>
      rw [shownNames?, exposedColumns?, Std.TreeMap.size_emptyc, exposedColumnsWithin?, hn]
      rfl

namespace SameInterface

theorem refl (n : Node) : n.SameInterface n := by
  induction n using induct_parents with
  | h n ih =>
      cases n with
      | table id t => exact .table id t
      | text id sql => exact .text id sql
      | select s => exact .select rfl
      | cte c => exact .cte rfl (ih c.body (by simp [parents]))
      | createTable id t query => exact .createTable (ih query (by simp [parents]))

theorem trans {a b c : Node} (hab : a.SameInterface b) (hbc : b.SameInterface c) :
    a.SameInterface c := by
  induction hab generalizing c with
  | table | text => exact hbc
  | select hnames =>
      cases hbc with
      | select hnames' => exact .select (hnames'.trans hnames)
  | cte hname _ ih =>
      cases hbc with
      | cte hname' hbody => exact .cte (hname'.trans hname) (ih hbody)
  | createTable _ ih =>
      cases hbc with
      | createTable hquery => exact .createTable (ih hquery)

/-- Nodes that look alike show the same output names, or neither shows any. -/
theorem shownNames? {n n' : Node} (h : n.SameInterface n') : n'.shownNames? = n.shownNames? := by
  rw [shownNames?_eq, shownNames?_eq]
  induction h with
  | table | text => rfl
  | select hnames => exact congrArg some hnames
  | cte _ _ ih => exact ih
  | createTable _ ih => exact ih

end SameInterface

end Node

/-! ## One pass -/

namespace Rebuilder

variable {r : Rebuilder} {plan : Node} {done : Std.TreeMap NodeId Node}

/-- A pass builds nodes that look alike, if it keeps the output names of the statement that a node
wraps. -/
theorem Sound.sameInterface (hsound : r.Sound plan done) (n : Node) : n ∈ plan.subnodes →
    (∀ u, n.unwrapped = .select u → .select u ∈ plan.subnodes → ∀ u',
      done[u.id]? = some (.select u') → u'.columnNames = u.columnNames) →
    ∀ n', done[n.id]? = some n' → n.SameInterface n' := by
  induction n using Node.induct_parents with
  | h n ih =>
      intro hn hnames n' hdone
      have hforms := hsound n hn n' hdone
      cases n with
      | table id t =>
          rw [show n' = _ from hforms]
          exact .table id t
      | text id sql =>
          rw [show n' = _ from hforms]
          exact .text id sql
      | select s =>
          rcases hforms.exists_prepares with ⟨s₀, -, rfl⟩
          exact .select (hnames s rfl hn _ hdone)
      | cte c =>
          rcases hforms with ⟨id, body, hbody, rfl⟩
          exact .cte rfl (ih c.body (by simp [Node.parents]) (Node.body_mem_subnodes hn) hnames body
            hbody)
      | createTable id t query =>
          rcases hforms with ⟨id', query', hquery, rfl⟩
          exact .createTable (ih query (by simp [Node.parents]) (Node.query_mem_subnodes hn) hnames
            query' hquery)

end Rebuilder

namespace Pruning

variable {required : Requirements} {plan : Node} {done : Std.TreeMap NodeId Node}

/-- Pruning keeps the columns of the statement at the root, for all of them are required. -/
theorem columnNames_root (hids : plan.IdsIdentify)
    (hrequired : Requirements.ofPlan plan plan = .ok (some required))
    (hsound : (Pruning.rebuilder required).Sound plan done) {u u' : Statement}
    (hu : plan.unwrapped = .select u) (hmem : .select u ∈ plan.subnodes)
    (hdone : done[u.id]? = some (.select u')) : u'.columnNames = u.columnNames := by
  have hroot := Node.mem_subnodes_self plan
  rcases Requirements.exists_finished hids hroot hrequired with ⟨p, rfl, hp⟩
  have hshown : plan.exposedNames ∅ = u.columnNames := Node.exposedNames_of_unwrapped hu
  have hall : ∀ x ∈ u.columnNames, x ∈ p.required.names u.id := by
    intro x hx
    rw [← hshown] at hx
    exact hp.requires_unwrapped hids plan hroot u hu (hp.requires_shown hx)
  have hkept : Pruning.kept (p.required.names u.id) u = u.columns := by
    refine List.filter_eq_self.2 ?_
    intro c hc
    rw [Bool.or_eq_true, Std.TreeSet.contains_iff_mem]
    exact .inl (hall c.name (List.mem_map_of_mem hc))
  rcases (hsound (.select u) hmem _ hdone).exists_prepares with ⟨u₀, hprepares, heq⟩
  cases heq
  rcases Pruning.columns_eq_ok_iff.1 hprepares.columns with ⟨-, -, hcolumns⟩
  rw [hkept] at hcolumns
  exact congrArg (List.map NamedExpr.name) hcolumns

end Pruning

namespace Node

variable {n n' : Node} {next next' : NodeId}

theorem prune_sameInterface (hids : n.IdsIdentify) (h : n.prune next = .ok (n', next')) :
    n.SameInterface n' := by
  rcases prune_eq_ok_iff.1 h with ⟨-, rfl, -⟩ | ⟨required, b, hrequired, hrun, -⟩
  · exact .refl n'
  · rcases sound_of_run hids hrun with ⟨hsound, hdone⟩
    refine hsound.sameInterface n (mem_subnodes_self n) ?_ n' hdone
    intro u hu hmem u' hbuilt
    exact Pruning.columnNames_root hids hrequired hsound hu hmem hbuilt

theorem rewritten_sameInterface {r : Rebuilder} (hrewrites : r.Rewrites) (hids : n.IdsIdentify)
    (h : n.rebuilt r next = .ok (n', next')) : n.SameInterface n' := by
  rcases rebuilt_eq_ok_iff.1 h with ⟨b, hrun, -⟩
  rcases sound_of_run hids hrun with ⟨hsound, hdone⟩
  refine hsound.sameInterface n (mem_subnodes_self n) ?_ n' hdone
  intro u _ hmem u' hbuilt
  exact hrewrites.columnNames_eq hsound hmem hbuilt

end Node

/-! ## All passes -/

/-- What the passes leave of a plan: it looks as it did, and identities still tell its nodes apart. -/
structure Node.Follows (plan n : Node) (next : NodeId) : Prop where
  same : plan.SameInterface n
  ids : n.IdsIdentify
  below : n.IdsBelow next

/-- One more pass. -/
theorem Node.Follows.pass {plan n n' : Node} {next next' : NodeId} (hn : plan.Follows n next)
    {c : Config} {pass : Pass} (hpass : pass ∈ c.passes)
    (h : pass.run n next = .ok (n', next')) : plan.Follows n' next' := by
  rcases Config.run_identifies hpass hn.ids hn.below h with ⟨hids, hbelow⟩
  refine ⟨hn.same.trans ?_, hids, hbelow⟩
  rcases Config.mem_passes hpass with rfl | ⟨r, hrewrites, hrun⟩
  · exact Node.prune_sameInterface hn.ids h
  · rw [hrun n] at h
    exact Node.rewritten_sameInterface hrewrites hn.ids h

/-- **The optimiser keeps the interface of a plan**, where identities tell its nodes apart: the
identity of the plan, the kind of its root with the table that it creates or the name that it
defines, a root that is a table or a text altogether, and the output names in their order, repeated
ones included.  The first free identity must be free. -/
theorem optimize_keeps_interface {c : Config} {plan plan' : Plan} {next next' : NodeId}
    (hids : plan.root.IdsIdentify) (hnext : plan.root.IdsBelow next)
    (h : optimize c plan next = .ok (plan', next')) :
    plan'.id = plan.id ∧ plan.root.SameInterface plan'.root ∧
      plan'.root.shownNames? = plan.root.shownNames? := by
  rcases runPasses_of_optimize h with ⟨hruns, hid⟩
  have hfollows : plan.root.Follows plan'.root next' := by
    refine runPasses_keeps ?_ hruns ⟨.refl _, hids, hnext⟩
    intro pass hpass n next n' next' hrun hn
    exact hn.pass hpass hrun
  exact ⟨hid, hfollows.same, hfollows.same.shownNames?⟩

/-- `CREATE TABLE made AS` a statement whose sources lose a column and are then replaced. -/
def Node.madeOfProjections : Node :=
  .createTable 9 ⟨none, "made"⟩ (.select .joinedProjections)

theorem optimize_keeps_interface_madeOfProjections :
    Node.madeOfProjections.shownNames? = some ["p", "q"] ∧
      ∃ plan' next', optimize {} ⟨⟨7⟩, .madeOfProjections⟩ 10 = .ok (plan', next') ∧
        plan'.root.unwrapped.select?.map Select.sourceNames = some ["c", "e"] ∧
        plan'.id = ⟨7⟩ ∧ Node.madeOfProjections.SameInterface plan'.root ∧
        plan'.root.shownNames? = Node.madeOfProjections.shownNames? := by
  have hids : Node.madeOfProjections.IdsIdentify := Node.idsIdentify_of_nodup (by decide)
  have hbelow : Node.madeOfProjections.IdsBelow 10 := by
    unfold Node.IdsBelow
    decide
  have hruns : (optimize {} ⟨⟨7⟩, .madeOfProjections⟩ 10).toOption.bind
      (fun out => out.1.root.unwrapped.select?.map Select.sourceNames) = some ["c", "e"] := by
    decide +kernel
  rcases exists_ok_of_toOption_bind hruns with ⟨⟨plan', next'⟩, hout, hnames⟩
  exact ⟨rfl, plan', next', hout, hnames, optimize_keeps_interface hids hbelow hout⟩

end QueryPlan
