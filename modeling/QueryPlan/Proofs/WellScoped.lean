import QueryPlan.Proofs.Settling

/-!
# Where required columns come from

In a well-scoped plan a statement reads from a source only what the source shows, with one
exception: a name without a source is asked of every source of the statement, although it may be
shown by another source, or be an output name of the statement itself.

So what is required of a node that shows columns is founded in one of two ways
(`Propagation.Founded`): some of it is shown by the node, or some of it is a name without a source
that a statement reading the node needs.  Every step keeps this (`Step.allFounded`).  It matters
here that something is required of a statement before it is visited (`Fed`): a grouping key need not
be among the columns of the statement.
-/

namespace QueryPlan

/-! ## Well-scoped plans -/

/-- A name occurs without a source: as a name, or as a declared input of a fragment. -/
def Lineage.Mentions (l : Lineage) (x : String) : Prop :=
  x ∈ l.names ∨ x ∈ l.declaredInputs

theorem Lineage.Mentions.mono {es es' : List Expr} (hsub : es ⊆ es') {x : String}
    (h : (Expr.lineages es).Mentions x) : (Expr.lineages es').Mentions x := by
  rcases h with hx | hx
  · rcases Expr.mem_lineages_names.1 hx with ⟨e, he, hx⟩
    exact .inl (Expr.mem_lineages_names.2 ⟨e, hsub he, hx⟩)
  · rcases Expr.mem_lineages_declaredInputs.1 hx with ⟨e, he, hx⟩
    exact .inr (Expr.mem_lineages_declaredInputs.2 ⟨e, hsub he, hx⟩)

namespace Select

/-- Some source shows a name, or its columns are not known. -/
def MayShow (s : Statement) (scope : Scope) (x : String) : Prop :=
  ∃ source ∈ s.sourceNodes, ∀ columns, source.exposedColumns? scope = some columns →
    x ∈ columns.map NamedExpr.name

/-- Every column names a source of the statement and one of its columns, where these are known.
Names without a source are shown by some source; in `ORDER BY` they may also be output names. -/
structure WellScoped (s : Statement) (scope : Scope) : Prop where
  columns : ∀ r ∈ (Expr.lineages s.exprs).columns, ∃ source, s.source? r.table = some source ∧
    ∀ columns, source.exposedColumns? scope = some columns → r.column ∈ columns.map NamedExpr.name
  names : ∀ x, (Expr.lineages
    (s.selectExprs ++ s.conditions ++ s.filter.toList ++ s.groupExprs)).Mentions x →
    s.MayShow scope x
  order : ∀ x, (Expr.lineages s.orderExprs).Mentions x → x ∈ s.columnNames ∨ s.MayShow scope x

/-- A statement reads a node: as a source, as the CTE that a source names, or through a CTE or the
creation of a table that it reads. -/
inductive Reads (scope : Scope) (s : Statement) : Node → Prop
  | source {n : Node} : n ∈ s.sourceNodes → Reads scope s n
  | named {n : Node} {c : Cte Node} : n ∈ s.sourceNodes → n.namedCte? scope = some c →
      Reads scope s (.cte c)
  | body {c : Cte Node} : Reads scope s (.cte c) → Reads scope s c.body
  | query {id : NodeId} {t : TableName} {query : Node} :
      Reads scope s (.createTable id t query) → Reads scope s query

variable {s : Statement} {scope : Scope} {x : String}

theorem reads_of_notes {plan n source : Node} (hids : plan.IdsIdentify) (hscope : scope.OfPlan plan)
    (hsource : source ∈ s.sourceNodes) (hplan : source ∈ plan.subnodes) (hn : n ∈ plan.subnodes)
    (h : source.Notes scope n.id) : s.Reads scope n := by
  rcases h with hid | ⟨c, hc, hid⟩
  · rw [hids n hn _ hplan hid]
    exact .source hsource
  · rw [hids n hn _ (Node.mem_subnodes_of_namedCte? hscope hc) hid]
    exact .named hsource hc

theorem requiredExprs_mono {set set' : NameSet} (h : ∀ x ∈ set, x ∈ set') :
    s.requiredExprs set ⊆ s.requiredExprs set' := by
  intro e he
  refine mem_requiredExprs.2 ((mem_requiredExprs.1 he).imp_left ?_)
  rintro ⟨c, hc, hname, rfl⟩
  exact ⟨c, hc, h _ hname, rfl⟩

end Select

/-- Every statement of a plan is well-scoped where it stands. -/
def Node.WellScoped (plan : Node) : Prop :=
  ∀ s, .select s ∈ plan.subnodes → ∀ scope, (Scopes.ofPlan plan)[s.id]? = some scope →
    s.WellScoped scope

/-! ## Founded requirements -/

/-- A node that shows columns and at which it is noted what is required of a source shows what the
source does. -/
theorem Node.exists_columns_of_notes {plan n source : Node} {scope : Scope}
    (hids : plan.IdsIdentify) (hscope : scope.OfPlan plan) (hsource : source ∈ plan.subnodes)
    (hn : n ∈ plan.subnodes) (hshows : n.exposedNames ∅ ≠ []) (h : source.Notes scope n.id) :
    ∃ columns, source.exposedColumns? scope = some columns ∧
      n.exposedNames ∅ = columns.map NamedExpr.name := by
  rcases exists_unwrapped_of_exposedNames hshows with ⟨s, hs⟩
  refine ⟨s.columns, ?_, exposedNames_of_unwrapped hs⟩
  rcases h with hid | ⟨c, hc, hid⟩
  · rw [← hids n hn _ hsource hid]
    exact exposedColumns?_of_unwrapped hs
  · rw [hids n hn _ (mem_subnodes_of_namedCte? hscope hc) hid] at hs
    exact exposedColumns?_of_namedCte? hc hs

theorem Node.exposedNames_of_notes {plan n source : Node} {scope : Scope} (hids : plan.IdsIdentify)
    (hscope : scope.OfPlan plan) (hsource : source ∈ plan.subnodes) (hn : n ∈ plan.subnodes)
    (hshows : n.exposedNames ∅ ≠ []) (h : source.Notes scope n.id) :
    source.exposedNames scope = n.exposedNames ∅ := by
  rcases exists_columns_of_notes hids hscope hsource hn hshows h with ⟨columns, hcolumns, hnames⟩
  rw [hnames, exposedNames, hcolumns]
  rfl

/-- A name without a source is required of a node, and a statement that reads the node needs it. -/
def Requirements.ByName (required : Requirements) (plan n : Node) : Prop :=
  ∃ reader scope x, .select reader ∈ plan.subnodes ∧
    (Scopes.ofPlan plan)[reader.id]? = some scope ∧ reader.Reads scope n ∧
    (reader.requiredLineage (required.names reader.id)).Mentions x ∧ x ∈ required.names n.id

namespace Propagation

/-- Some of what is required of a node is shown by the node, or is a name without a source. -/
def Founded (plan : Node) (p : Propagation) (n : Node) : Prop :=
  (∃ x ∈ n.exposedNames ∅, p.Requires n.id x) ∨ p.required.ByName plan n

/-- What is required of nodes that show columns is founded. -/
def AllFounded (plan : Node) (p : Propagation) : Prop :=
  ∀ n ∈ plan.subnodes, n.exposedNames ∅ ≠ [] → (∃ x, p.Requires n.id x) → Founded plan p n

section Founding

variable {plan n : Node} {scope : Scope} {p p' : Propagation} {s : Statement}

/-- What is handed on to a node is founded there if it is where it comes from. -/
theorem Founded.handOn {m : Node} (h : Founded plan p n)
    (hshown : n.exposedNames ∅ = m.exposedNames ∅)
    (hreads : ∀ (reader : Statement) (scope : Scope), reader.Reads scope n → reader.Reads scope m)
    (hgrows : ∀ i x, p.Requires i x → p'.Requires i x)
    (hnext : ∀ x, p.Requires n.id x → p'.Requires m.id x) : Founded plan p' m := by
  rcases h with ⟨x, hshow, hx⟩ | ⟨reader, scope, x, hreader, hscope, hread, hmentions, hx⟩
  · exact .inl ⟨x, hshown ▸ hshow, hnext x hx⟩
  · exact .inr ⟨reader, scope, x, hreader, hscope, hreads reader scope hread,
      hmentions.mono (Select.requiredExprs_mono (hgrows _)), hnext x hx⟩

theorem Founded.mono (h : Founded plan p n) (hgrows : ∀ i x, p.Requires i x → p'.Requires i x) :
    Founded plan p' n :=
  h.handOn rfl (fun _ _ hread => hread) hgrows (hgrows _)

/-- A question about a column is founded in what the node shows, and a question about a name without
a source in the statement that asks. -/
theorem founded_of_asked (hids : plan.IdsIdentify) (hscope : scope.OfPlan plan)
    (hs : .select s ∈ plan.subnodes) (hfound : (Scopes.ofPlan plan)[s.id]? = some scope)
    (hscoped : s.WellScoped scope) (hn : n ∈ plan.subnodes) (hshows : n.exposedNames ∅ ≠ [])
    {set : NameSet} (hset : ∀ y ∈ set, p.Requires s.id y) {a : Ask}
    (ha : a ∈ s.asks scope (s.requiredLineage set)) {x : String} (hasked : a.Requires scope n.id x)
    (hx : p.Requires n.id x) : Founded plan p n := by
  cases a with
  | ofCte c names =>
      have hc : .cte c ∈ plan.subnodes := Select.ofPlan_of_mem_asks hs ha
      rcases Select.of_ofCte_mem_asks ha with ⟨-, rfl⟩
      rcases hasked with ⟨hid, hname⟩
      have hnode : n = .cte c := hids n hn _ hc hid
      subst hnode
      rcases Node.exists_unwrapped_of_exposedNames hshows with ⟨u, hu⟩
      have hbody : c.body.unwrapped = .select u := hu
      refine .inl ⟨x, ?_, hx⟩
      rw [Node.exposedNames_of_unwrapped hu]
      rwa [Node.exposedNames_of_unwrapped hbody] at hname
  | ofSource source name =>
      rcases hasked with ⟨hnotes, rfl⟩
      have hsource := Select.source_mem_of_mem_asks ha
      have hplan := Select.mem_subnodes_of_mem_sourceNodes hs hsource
      rcases Select.ofSource_mem_asks.1 ha with
        ⟨-, -, hshown⟩ | ⟨hmentions, -⟩ | ⟨r, hr, hread, rfl⟩
      · rw [Node.exposedNames_of_notes hids hscope hplan hn hshows hnotes] at hshown
        exact .inl ⟨x, hshown, hx⟩
      · have hreads := Select.reads_of_notes hids hscope hsource hplan hn hnotes
        have hneeded := Lineage.Mentions.mono (Select.requiredExprs_mono hset) hmentions.symm
        exact .inr ⟨s, scope, x, hs, hfound, hreads, hneeded, hx⟩
      · rcases Expr.mem_lineages_columns.1 hr with ⟨e, he, hr⟩
        have hexpr := Select.requiredExprs_subset _ he
        rcases hscoped.columns r (Expr.mem_lineages_columns.2 ⟨e, hexpr, hr⟩) with
          ⟨source', hread', hknown⟩
        rw [hread] at hread'
        cases hread'
        rcases Node.exists_columns_of_notes hids hscope hplan hn hshows hnotes with
          ⟨columns, hcolumns, hnames⟩
        refine .inl ⟨r.column, ?_, hx⟩
        rw [hnames]
        exact hknown columns hcolumns

/-- **Every step keeps requirements founded**, in a well-scoped plan. -/
theorem Step.allFounded (hids : plan.IdsIdentify) (hscoped : plan.WellScoped)
    (hstep : Step plan (Scopes.ofPlan plan) p p') (h : AllFounded plan p) : AllFounded plan p' := by
  have hscopes : (Scopes.ofPlan plan).OfPlan plan := Scopes.ofPlan_ofPlan
  intro n hn hshows hx
  rcases hx with ⟨x, hx⟩
  have hgrows : ∀ i y, p.Requires i y → p'.Requires i y := fun _ _ => hstep.grows
  have hold : (∃ y, p.Requires n.id y) → Founded plan p' n := by
    intro hy
    exact (h n hn hshows hy).mono hgrows
  cases hstep with
  | @force s hs hfed =>
      rcases requires_requireAll.1 hx with hbefore | ⟨hid, -⟩
      · exact hold ⟨x, hbefore⟩
      · have hnode : n = .select s := hids n hn _ hs hid
        subst hnode
        -- a forced name would be unfounded on its own: the visit is what had a reason
        exact hold (hfed hshows)
  | @look s scope hs hscope hforced =>
      rcases requires_requireInputs.1 hx with hbefore | ⟨a, ha, hasked⟩
      · exact hold ⟨x, hbefore⟩
      · exact founded_of_asked hids (hscopes _ _ hscope) hs hscope (hscoped s hs scope hscope) hn
          hshows (hgrows s.id) ha hasked hx
  | @supply s scope source hs hscope hsource =>
      rcases requires_of_requireSome hx with hbefore | ⟨a, ha, hasked⟩
      · exact hold ⟨x, hbefore⟩
      · rcases List.mem_map.1 ha with ⟨y, hy, rfl⟩
        rcases hasked with ⟨hnotes, rfl⟩
        have hplan := Select.mem_subnodes_of_mem_sourceNodes hs hsource
        have hshown := List.mem_of_mem_take hy
        rw [Node.exposedNames_of_notes hids (hscopes _ _ hscope) hplan hn hshows hnotes] at hshown
        exact .inl ⟨x, hshown, hx⟩
  | @enter c hc =>
      rcases requires_handOn.1 hx with hbefore | ⟨hid, hfrom⟩
      · exact hold ⟨x, hbefore⟩
      · have hnode : n = c.body := hids n hn _ (Node.body_mem_subnodes hc) hid
        subst hnode
        have hsame : (Node.cte c).exposedNames ∅ = c.body.exposedNames ∅ :=
          Node.exposedNames_congr rfl
        refine (h _ hc (hsame ▸ hshows) ⟨x, hfrom⟩).handOn hsame (fun _ _ => .body) hgrows ?_
        intro y hy
        exact requires_handOn.2 (.inr ⟨rfl, hy⟩)
  | @handOn id t query hc =>
      rcases requires_handOn.1 hx with hbefore | ⟨hid, hfrom⟩
      · exact hold ⟨x, hbefore⟩
      · have hnode : n = query := hids n hn _ (Node.query_mem_subnodes hc) hid
        subst hnode
        have hsame : (Node.createTable id t n).exposedNames ∅ = n.exposedNames ∅ :=
          Node.exposedNames_congr rfl
        refine (h _ hc (hsame ▸ hshows) ⟨x, hfrom⟩).handOn hsame (fun _ _ => .query) hgrows ?_
        intro y hy
        exact requires_handOn.2 (.inr ⟨rfl, hy⟩)

theorem allFounded_start {root : Node} (hids : plan.IdsIdentify) (hroot : root ∈ plan.subnodes) :
    AllFounded plan (start root) := by
  intro n hn _ hx
  rcases hx with ⟨x, hx⟩
  rcases requires_start.1 hx with ⟨hid, hshown⟩
  have hnode : n = root := hids n hn _ hroot hid
  subst hnode
  exact .inl ⟨x, hshown, hx⟩

theorem Finished.allFounded {root : Node} (h : Finished plan root p) (hids : plan.IdsIdentify)
    (hroot : root ∈ plan.subnodes) (hscoped : plan.WellScoped) :
    AllFounded plan p := by
  refine Run.preserves ?_ h.run (allFounded_start hids hroot)
  intro q q' hstep hq
  exact hstep.allFounded hids hscoped hq

end Founding

end Propagation

end QueryPlan
