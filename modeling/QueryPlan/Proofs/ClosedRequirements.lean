import QueryPlan.Proofs.Settling

/-!
# The requirements of a plan are closed

The columns required of the nodes of a plan are *closed*: what a statement reads to put out the
columns required of it is required of its sources, and of the CTEs that these name.  What it reads
is said here in terms of the expressions that occur in its clauses, and not by the lineage that the
propagation works with.

* `Select.Needs` — the expressions that a statement reads.
* `Requirements.ClosedAt` — closure at one statement, clause by clause.
* `Requirements.Closed` — closure of a whole plan.
* `Requirements.closed_ofPlan` — the requirements of a plan are closed, although a statement whose
  set has kept its size is not looked at again.
-/

namespace QueryPlan

namespace Select

/-- A statement reads an expression: that of a required column, a join condition, the filter, a
grouping expression or a sort key. -/
def Needs (s : Statement) (required : NameSet) (e : Expr) : Prop :=
  (∃ c ∈ s.columns, c.name ∈ required ∧ c.expr = e) ∨ e ∈ s.conditions ∨ s.filter = some e ∨
    e ∈ s.groupExprs ∨ e ∈ s.orderExprs

theorem needs_iff {s : Statement} {required : NameSet} {e : Expr} :
    s.Needs required e ↔ e ∈ s.requiredExprs required :=
  mem_requiredExprs.symm

end Select

namespace Requirements

/-- A column is required of a source and, if the source names a CTE, of that CTE. -/
def RequiresOf (required : Requirements) (scope : Scope) (source : Node) (x : String) : Prop :=
  x ∈ required.names source.id ∧ ∀ c, source.namedCte? scope = some c → x ∈ required.names c.id

/-- All that a statement needs, given what is required of it, is required. -/
structure ClosedAt (required : Requirements) (scope : Scope) (s : Statement) : Prop where
  /-- The grouping keys are needed. -/
  groups : ∀ g ∈ s.groupBy, g.name ∈ required.names s.id
  /-- All columns are, if rows are compared as a whole or sorted by SQL with unknown inputs. -/
  whole : (s.distinct = true ∨ ∃ e ∈ s.orderExprs, ∃ sql g, Expr.raw sql none g ∈ e.walk) →
    ∀ c ∈ s.columns, c.name ∈ required.names s.id
  /-- A column is required of the source it names. -/
  columns : ∀ e, s.Needs (required.names s.id) e → ∀ r q, Expr.column r q ∈ e.walk →
    ∀ source, s.source? r.table = some source → required.RequiresOf scope source r.column
  /-- A name without a source is required of all sources. -/
  names : ∀ e, s.Needs (required.names s.id) e → ∀ x, Expr.name x ∈ e.walk →
    ∀ source ∈ s.sourceNodes, required.RequiresOf scope source x
  /-- So are the inputs that a fragment of SQL declares. -/
  inputs : ∀ e, s.Needs (required.names s.id) e → ∀ sql inputs g,
    Expr.raw sql (some inputs) g ∈ e.walk → ∀ x ∈ inputs,
      ∀ source ∈ s.sourceNodes, required.RequiresOf scope source x
  /-- If it is not known what is read, or from which source, then all that the sources show is. -/
  unknown : (∃ e, s.Needs (required.names s.id) e ∧ ((∃ sql g, Expr.raw sql none g ∈ e.walk) ∨
      ∃ r q, Expr.column r q ∈ e.walk ∧ s.source? r.table = none)) →
    ∀ source ∈ s.sourceNodes, ∀ x ∈ source.exposedNames scope, required.RequiresOf scope source x

/-- The requirements are closed in a whole plan, seen from a node whose columns are all required. -/
structure Closed (plan root : Node) (required : Requirements) : Prop where
  shown : ∀ x ∈ root.exposedNames ∅, x ∈ required.names root.id
  statements : ∀ s, .select s ∈ plan.subnodes → required.contains s.id = true →
    ∃ scope, (Scopes.ofPlan plan)[s.id]? = some scope ∧ required.ClosedAt scope s
  bodies : ∀ c, .cte c ∈ plan.subnodes → ∀ x ∈ required.names c.id, x ∈ required.names c.body.id
  queries : ∀ id t query, .createTable id t query ∈ plan.subnodes →
    ∀ x ∈ required.names id, x ∈ required.names query.id

/-- What a question asks for is required of the source and of the CTE. -/
theorem requiresOf_of_heeded {p : Propagation} {scope : Scope} {source : Node} {x : String}
    (h : ∀ i y, (Ask.ofSource source x).Requires scope i y → p.Requires i y) :
    p.required.RequiresOf scope source x := by
  refine ⟨h _ _ ⟨.inl rfl, rfl⟩, ?_⟩
  intro c hc
  exact h _ _ ⟨.inr ⟨c, hc, rfl⟩, rfl⟩

/-- A statement that is served is closed. -/
theorem closedAt_of_serves {plan : Node} {p : Propagation} {s : Statement} {set : NameSet}
    (hset : ∀ x, x ∈ set ↔ p.Requires s.id x)
    (h : p.Serves (Scopes.ofPlan plan) set (.select s)) :
    ∃ scope, (Scopes.ofPlan plan)[s.id]? = some scope ∧ p.required.ClosedAt scope s := by
  rcases h with ⟨hforced, scope, hscope, hasks⟩
  have hneeds : ∀ e, s.Needs (p.required.names s.id) e → e ∈ s.requiredExprs set := by
    intro e he
    refine Select.needs_iff.1 (he.imp_left ?_)
    rintro ⟨c, hc, hname, rfl⟩
    exact ⟨c, hc, (hset _).2 hname, rfl⟩
  have hask : ∀ source x, .ofSource source x ∈ s.asks scope (s.requiredLineage set) →
      p.required.RequiresOf scope source x := by
    intro source x ha
    exact requiresOf_of_heeded (hasks _ ha)
  refine ⟨scope, hscope, ?_, ?_, ?_, ?_, ?_, ?_⟩
  · intro g hg
    exact (hset _).1 (hforced _ (Select.mem_forcedNames.2 (.inl (List.mem_map_of_mem hg))))
  · intro hwhole c hc
    refine (hset _).1 (hforced _ (Select.mem_forcedNames.2 (.inr ⟨List.mem_map_of_mem hc, ?_⟩)))
    rcases hwhole with hdistinct | ⟨e, he, sql, g, hraw⟩
    · exact .inl hdistinct
    · refine .inr (.inl (Lineage.hasUnknownInputs_iff.2 ⟨⟨sql, none⟩, ?_, rfl⟩))
      exact Expr.mem_lineages_raws.2 ⟨e, he, Expr.mem_lineage_raws.2 ⟨g, hraw⟩⟩
  · intro e he r q hr source hsource
    refine hask source _ (Select.ofSource_mem_asks.2 (.inr (.inr ⟨r, ?_, hsource, rfl⟩)))
    exact Expr.mem_lineages_columns.2 ⟨e, hneeds e he, Expr.mem_lineage_columns.2 ⟨q, hr⟩⟩
  · intro e he x hx source hsource
    refine hask source _ (Select.ofSource_mem_asks.2 (.inr (.inl ⟨.inr ?_, hsource⟩)))
    exact Expr.mem_lineages_names.2 ⟨e, hneeds e he, Expr.mem_lineage_names.2 hx⟩
  · intro e he sql inputs g hraw x hx source hsource
    refine hask source _ (Select.ofSource_mem_asks.2 (.inr (.inl ⟨.inl ?_, hsource⟩)))
    refine Lineage.mem_declaredInputs.2 ⟨⟨sql, some inputs⟩, ?_, inputs, rfl, hx⟩
    exact Expr.mem_lineages_raws.2 ⟨e, hneeds e he, Expr.mem_lineage_raws.2 ⟨g, hraw⟩⟩
  · rintro ⟨e, he, hunknown⟩ source hsource x hx
    refine hask source _ (Select.ofSource_mem_asks.2 (.inl ⟨?_, hsource, hx⟩))
    rcases hunknown with ⟨sql, g, hraw⟩ | ⟨r, q, hr, hnone⟩
    · refine .inl (Lineage.hasUnknownInputs_iff.2 ⟨⟨sql, none⟩, ?_, rfl⟩)
      exact Expr.mem_lineages_raws.2 ⟨e, hneeds e he, Expr.mem_lineage_raws.2 ⟨g, hraw⟩⟩
    · refine .inr (List.any_eq_true.2 ⟨r, ?_, by rw [hnone]; rfl⟩)
      exact Expr.mem_lineages_columns.2 ⟨e, hneeds e he, Expr.mem_lineage_columns.2 ⟨q, hr⟩⟩

/-- **The requirements of a plan are closed**, where identities tell its nodes apart. -/
theorem closed_ofPlan {plan root : Node} {required : Requirements} (hids : plan.IdsIdentify)
    (hroot : root ∈ plan.subnodes) (h : Requirements.ofPlan plan root = .ok (some required)) :
    Closed plan root required := by
  rcases exists_finished hids hroot h with ⟨p, rfl, hp⟩
  refine ⟨?_, ?_, ?_, ?_⟩
  · intro x hx
    exact hp.requires_shown hx
  · intro s hs hentry
    rcases hp.consistent.exists_serves hs (hp.isSettled hs hentry) with ⟨set, hset, hserves⟩
    exact closedAt_of_serves hset hserves
  · intro c hc x hx
    exact hp.requires_body hids hc hx
  · intro id t query hn x hx
    exact hp.requires_query hn hx

end Requirements

/-- `SELECT b.u AS u, b.v AS v, b.w AS w FROM t b`. -/
def Select.threeOfTable : Statement :=
  .plain 2 [⟨.column ⟨"b", "u"⟩ true, "u"⟩, ⟨.column ⟨"b", "v"⟩ true, "v"⟩,
    ⟨.column ⟨"b", "w"⟩ true, "w"⟩] (.table 1 ⟨none, "t"⟩) "b"

/-- `WITH r AS (SELECT b.u AS u, b.v AS v, b.w AS w FROM t b)
SELECT a.u AS u FROM r a INNER JOIN r d ON a.u = d.v`. -/
def Select.cteReadTwice : Statement :=
  { Select.plain 6 [⟨.column ⟨"a", "u"⟩ true, "u"⟩] (.table 4 ⟨none, "r"⟩) "a" with
    ctes := [⟨3, "r", .select .threeOfTable⟩]
    joins := [⟨.table 5 ⟨none, "r"⟩, "d", .inner,
      some (.comparison (.column ⟨"a", "u"⟩ true) .eq (.column ⟨"d", "v"⟩ true))⟩] }

/-- A CTE that is read twice has to provide what either reading needs, and no more. -/
theorem Requirements.closed_cteReadTwice :
    ∃ required, Requirements.ofPlan (.select .cteReadTwice) (.select .cteReadTwice) =
        .ok (some required) ∧
      Closed (.select .cteReadTwice) (.select .cteReadTwice) required ∧
      (required.names 4).toList = ["u"] ∧ (required.names 5).toList = ["v"] ∧
      (required.names 3).toList = ["u", "v"] ∧ (required.names 2).toList = ["u", "v"] := by
  have hids : (Node.select .cteReadTwice).IdsIdentify := Node.idsIdentify_of_nodup (by decide)
  have hroot := Node.mem_subnodes_self (.select .cteReadTwice)
  exact ⟨_, rfl, closed_ofPlan hids hroot rfl, rfl, rfl, rfl, rfl⟩

end QueryPlan
