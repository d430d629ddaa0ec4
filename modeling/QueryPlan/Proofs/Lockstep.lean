import QueryPlan.Proofs.Likeness

/-!
# Propagating through plans that are alike

The propagation through a plan and the propagation through a plan that is like it go in step: after
each step one state says of every node what the other says of the node that stands for it
(`Likeness.Mirrors`).  A column that is missing makes no difference as long as it is never required,
so the states in the end need only be bounded by the columns that are kept (`Likeness.Covers`).

CTEs are looked at in the order of their identities, and which columns are required depends on that
order: a source of which something is required already is not asked for its first column.  So the
order has to be the same in both plans (`Likeness.Ordered`).

* `Mirrors.propagate`, `Mirrors.settle` — visits and rounds go in step.
* `mirrors_ofPlan` — hence the states in the end are alike.
-/

namespace QueryPlan

namespace Likeness

/-! ## States -/

section States

variable {plan : Node} (l : Likeness plan)

/-- Everything that is required is kept. -/
def Covers (p : Propagation) : Prop :=
  ∀ n ∈ plan.subnodes, ∀ x, p.Requires n.id x → l.keeps n.id x = true

/-- What one state says of the nodes of the plan, the other says of what stands for them. -/
structure Mirrors (p p' : Propagation) : Prop where
  requires : ∀ {n : Node} {x : String}, n ∈ plan.subnodes →
    (p'.Requires (l.idOf n.id) x ↔ p.Requires n.id x)
  contains : ∀ {n : Node}, n ∈ plan.subnodes →
    (p'.required.contains (l.idOf n.id) = true ↔ p.required.contains n.id = true)
  seen : ∀ {n : Node}, n ∈ plan.subnodes → p'.seenSize[l.idOf n.id]? = p.seenSize[n.id]?
  refers : ∀ {c : Cte Node}, .cte c ∈ plan.subnodes →
    p'.referenced[l.idOf c.id]? = p.referenced[c.id]?.map l.cteOf
  origin : ∀ {j : NodeId} {c' : Cte Node}, p'.referenced[j]? = some c' →
    ∃ c, .cte c ∈ plan.subnodes ∧ j = l.idOf c.id
  refersTo : p.RefersTo plan

variable {l} {p p' : Propagation} {n : Node}

theorem Mirrors.requireAll (h : l.Mirrors p p') (hn : n ∈ plan.subnodes) {names names' : List String}
    (hnames : ∀ x, x ∈ names' ↔ x ∈ names) :
    l.Mirrors (p.requireAll n.id names) (p'.requireAll (l.idOf n.id) names') where
  requires {m x} hm := by
    rw [Propagation.requires_requireAll, Propagation.requires_requireAll, h.requires hm,
      l.idOf_eq_iff hm hn, hnames]
  contains {m} hm := by
    rw [Propagation.contains_requireAll, Propagation.contains_requireAll, h.contains hm,
      l.idOf_eq_iff hm hn]
  seen := h.seen
  refers := h.refers
  origin := h.origin
  refersTo := h.refersTo

theorem Mirrors.refer (h : l.Mirrors p p') {c : Cte Node} (hc : .cte c ∈ plan.subnodes) :
    l.Mirrors (p.refer c) (p'.refer (l.cteOf c)) where
  requires := h.requires
  contains := h.contains
  seen := h.seen
  refers {d} hd := by
    have hid : l.idOf c.id = l.idOf d.id ↔ c.id = d.id := l.idOf_eq_iff hc hd
    have hmem : (l.cteOf c).id ∈ p'.referenced ↔ c.id ∈ p.referenced := by
      have hcte : (l.cteOf c).id = l.idOf c.id := rfl
      rw [Std.TreeMap.mem_iff_isSome_getElem?, Std.TreeMap.mem_iff_isSome_getElem?, hcte,
        h.refers hc, Option.isSome_map]
    simp only [Propagation.refer, Std.TreeMap.getElem?_insertIfNew, hmem, Nat.compare_eq_eq]
    by_cases hnew : c.id = d.id ∧ c.id ∉ p.referenced
    · rw [if_pos hnew, if_pos ⟨hid.2 hnew.1, hnew.2⟩]
      rfl
    · rw [if_neg hnew, if_neg fun h => hnew ⟨hid.1 h.1, h.2⟩]
      exact h.refers hd
  origin {j c'} hj := by
    rw [Propagation.refer, Std.TreeMap.getElem?_insertIfNew] at hj
    split at hj
    case isTrue hnew => exact ⟨c, hc, (Nat.compare_eq_eq.1 hnew.1).symm⟩
    case isFalse => exact h.origin hj
  refersTo := h.refersTo.refer hc

theorem Mirrors.count_eq (h : l.Mirrors p p') (hn : n ∈ plan.subnodes) :
    p'.count (l.idOf n.id) = p.count n.id := by
  refine Nat.le_antisymm (Propagation.count_le_count ?_) (Propagation.count_le_count ?_)
  · exact fun x hx => (h.requires hn).1 hx
  · exact fun x hx => (h.requires hn).2 hx

theorem Mirrors.mark (h : l.Mirrors p p') (hn : n ∈ plan.subnodes) :
    l.Mirrors (p.mark n.id) (p'.mark (l.idOf n.id)) where
  requires := h.requires
  contains := h.contains
  seen {m} hm := by
    simp only [Propagation.seenSize_mark, l.idOf_eq_iff hm hn, h.count_eq hn, h.seen hm]
  refers := h.refers
  origin := h.origin
  refersTo := h.refersTo

theorem Mirrors.handOn (h : l.Mirrors p p') (hn : n ∈ plan.subnodes) {m : Node}
    (hm : m ∈ plan.subnodes) :
    l.Mirrors (p.handOn n.id m.id) (p'.handOn (l.idOf n.id) (l.idOf m.id)) := by
  refine h.requireAll hm ?_
  intro x
  rw [Std.TreeSet.mem_toList, Std.TreeSet.mem_toList]
  exact h.requires hn

theorem Mirrors.enterCte (h : l.Mirrors p p') {c : Cte Node} (hc : .cte c ∈ plan.subnodes) :
    l.Mirrors (p.enterCte c) (p'.enterCte (l.cteOf c)) := by
  have hbody := Node.body_mem_subnodes hc
  have hid : (l.cteOf c).body.id = l.idOf c.body.id := l.id_nodeOf hbody
  rw [Propagation.enterCte, Propagation.enterCte, hid]
  exact (h.mark hc).handOn hc hbody

theorem Mirrors.isSettled_eq (h : l.Mirrors p p') (hn : n ∈ plan.subnodes) :
    p'.isSettled (l.idOf n.id) = p.isSettled n.id := by
  rw [Propagation.isSettled, Propagation.isSettled, h.seen hn, h.count_eq hn]

theorem Mirrors.isStale_eq (h : l.Mirrors p p') (hn : n ∈ plan.subnodes) :
    p'.isStale (l.idOf n.id) = p.isStale n.id := by
  rw [Propagation.isStale, Propagation.isStale, h.seen hn, h.count_eq hn]

theorem Mirrors.requires_eq (h : l.Mirrors p p') (hn : n ∈ plan.subnodes) :
    p'.required.requires (l.idOf n.id) = p.required.requires n.id := by
  rw [Bool.eq_iff_iff, Requirements.requires_iff, Requirements.requires_iff]
  exact exists_congr fun x => h.requires hn

end States

/-! ## Questions -/

section Questions

variable {plan : Node} (l : Likeness plan)

/-- What stands for a question. -/
def askOf : Ask → Ask
  | .ofSource source name => .ofSource (l.nodeOf source) name
  | .ofCte c names => .ofCte (l.cteOf c) names

/-- What a question asks for is kept. -/
def CoversAsk : Ask → Prop
  | .ofSource source name => l.keeps source.id name = true
  | .ofCte c names => ∀ x ∈ names, l.keeps c.id x = true

variable {l} {p p' : Propagation} {scope scope' : Scope}

theorem Mirrors.ask (h : l.Mirrors p p') (hlike : l.LikeScope scope scope')
    (hscope : scope.OfPlan plan) {a : Ask} (ha : a.OfPlan plan) :
    l.Mirrors (p.ask scope a) (p'.ask scope' (l.askOf a)) := by
  cases a with
  | ofCte c names => exact (h.requireAll (n := .cte c) ha fun x => Iff.rfl).refer ha
  | ofSource source name =>
      have hnamed := hlike.namedCte?_eq ha
      have hid : (l.nodeOf source).id = l.idOf source.id := l.id_nodeOf ha
      have hsource : l.Mirrors (p.requireAll source.id [name])
          (p'.requireAll (l.idOf source.id) [name]) := h.requireAll ha fun x => Iff.rfl
      simp only [askOf, Propagation.ask, Propagation.requireOf, hnamed, hid]
      cases hcte : source.namedCte? scope with
      | none => exact hsource
      | some c =>
          have hc := Node.mem_subnodes_of_namedCte? hscope hcte
          exact (hsource.requireAll (n := .cte c) hc fun x => Iff.rfl).refer hc

theorem Mirrors.foldl_ask (hlike : l.LikeScope scope scope') (hscope : scope.OfPlan plan)
    {as : List Ask} (has : ∀ a ∈ as, a.OfPlan plan) (h : l.Mirrors p p') :
    l.Mirrors (as.foldl (Propagation.ask scope) p)
      ((as.map l.askOf).foldl (Propagation.ask scope') p') := by
  induction as generalizing p p' with
  | nil => exact h
  | cons a as ih =>
      exact ih (fun b hb => has b (List.mem_cons_of_mem _ hb))
        (h.ask hlike hscope (has a List.mem_cons_self))

/-- If the sets are covered after some questions, then what these ask for is kept. -/
theorem Covers.coversAsk {as : List Ask} (h : l.Covers (as.foldl (Propagation.ask scope) p))
    {a : Ask} (ha : a ∈ as) (hplan : a.OfPlan plan) : l.CoversAsk a := by
  cases a with
  | ofSource source name =>
      exact h source hplan name (Propagation.requires_foldl_ask.2 (.inr ⟨_, ha, .inl rfl, rfl⟩))
  | ofCte c names =>
      intro x hx
      exact h (.cte c) hplan x (Propagation.requires_foldl_ask.2 (.inr ⟨_, ha, rfl, hx⟩))

end Questions

/-! ## The questions of a statement -/

section Statements

variable {plan : Node} {l : Likeness plan} {s : Statement} {scope scope' : Scope}

theorem source?_statementOf (table : String) :
    (l.statementOf s).source? table = (s.source? table).map l.nodeOf := by
  rw [Select.source?, sources_statementOf, Select.source?]
  induction s.sources with
  | nil => rfl
  | cons source sources ih =>
      rw [List.map_cons, List.lookup_cons, List.lookup_cons, ih]
      cases table == source.1 <;> rfl

theorem readsUnknownSource_statementOf (lineage : Lineage) :
    (l.statementOf s).readsUnknownSource lineage = s.readsUnknownSource lineage := by
  simp only [Select.readsUnknownSource, source?_statementOf, Option.isNone_map]

theorem mem_columnNames_statementOf {x : String} :
    x ∈ (l.statementOf s).columnNames ↔ x ∈ s.columnNames ∧ l.keeps s.id x = true := by
  have hcolumns : (l.statementOf s).columnNames = s.columnNames.filter (l.keeps s.id) := by
    rw [Select.columnNames, Select.columnNames, List.filter_map]
    rfl
  rw [hcolumns, List.mem_filter]

/-- A statement needs the same for itself, if that is kept. -/
theorem mem_forcedNames_statementOf (hkeeps : ∀ x ∈ s.forcedNames, l.keeps s.id x = true)
    (x : String) : x ∈ (l.statementOf s).forcedNames ↔ x ∈ s.forcedNames := by
  have hsame : x ∈ (l.statementOf s).forcedNames ↔ x ∈ s.groupNames ∨
      (x ∈ s.columnNames ∧ l.keeps s.id x = true) ∧
      (s.distinct = true ∨ (Expr.lineages s.orderExprs).hasUnknownInputs = true ∨
        x ∈ (Expr.lineages s.orderExprs).names ∨
        x ∈ (Expr.lineages s.orderExprs).declaredInputs) := by
    rw [Select.mem_forcedNames, mem_columnNames_statementOf]
    rfl
  rw [hsame, Select.mem_forcedNames]
  constructor
  · rintro (hgroup | ⟨⟨hcolumn, -⟩, hneeds⟩)
    · exact .inl hgroup
    · exact .inr ⟨hcolumn, hneeds⟩
  · rintro (hgroup | ⟨hcolumn, hneeds⟩)
    · exact .inl hgroup
    · have hkept := hkeeps x (Select.mem_forcedNames.2 (.inr ⟨hcolumn, hneeds⟩))
      exact .inr ⟨⟨hcolumn, hkept⟩, hneeds⟩

/-- A statement reads the same for the required columns, if those are kept. -/
theorem requiredLineage_statementOf {set set' : NameSet} (hset : ∀ x, x ∈ set' ↔ x ∈ set)
    (hkeeps : ∀ x ∈ set, l.keeps s.id x = true) :
    (l.statementOf s).requiredLineage set' = s.requiredLineage set := by
  have hcolumns : (l.statementOf s).columns.filter (fun c => set'.contains c.name) =
      s.columns.filter fun c => set.contains c.name := by
    have hfilter : (l.statementOf s).columns = s.columns.filter fun c => l.keeps s.id c.name := rfl
    rw [hfilter, List.filter_filter]
    refine List.filter_congr ?_
    intro c _
    rw [Bool.eq_iff_iff, Bool.and_eq_true, Std.TreeSet.contains_iff_mem,
      Std.TreeSet.contains_iff_mem, hset]
    exact ⟨fun h => h.1, fun h => ⟨h, hkeeps _ h⟩⟩
  have hconditions : (l.statementOf s).conditions = s.conditions := Select.conditions_forget _ s
  rw [Select.requiredLineage, hcolumns, hconditions, Select.requiredLineage]
  rfl

theorem cteAsks_statementOf (hids : plan.IdsIdentify) (hs : .select s ∈ plan.subnodes)
    (hlike : l.LikeScope scope scope') (hscope : scope.OfPlan plan)
    (hkeeps : ∀ a ∈ s.cteAsks scope, l.CoversAsk a) :
    (l.statementOf s).cteAsks scope' = (s.cteAsks scope).map l.askOf := by
  have hctes : (l.statementOf s).ctes = s.ctes.map l.cteOf := rfl
  rw [Select.cteAsks, l.hasTextBelow_statementOf hids hs, hctes, List.isEmpty_map]
  rw [Select.cteAsks] at hkeeps ⊢
  split
  case isFalse => rfl
  case isTrue htext =>
    rw [if_pos htext] at hkeeps
    rw [List.map_map, List.map_map]
    refine List.map_congr_left ?_
    intro c hc
    have hplan : .cte c ∈ plan.subnodes :=
      Node.mem_subnodes_of_parent (by simp [Node.parents, hc]) hs
    have hbody : (Node.cte c).exposedNames scope = c.body.exposedNames scope :=
      Node.exposedNames_congr rfl
    have hbody' : (Node.cte (l.cteOf c)).exposedNames scope' =
      (l.cteOf c).body.exposedNames scope' := Node.exposedNames_congr rfl
    have hnames := hlike.exposedNames_eq hscope hplan fun x hx =>
      hkeeps _ (List.mem_map_of_mem hc) x (hbody ▸ hx)
    rw [l.nodeOf_cte hplan, hbody', hbody] at hnames
    exact congrArg (Ask.ofCte (l.cteOf c)) hnames

theorem shownAsks_statementOf (hs : .select s ∈ plan.subnodes)
    (hlike : l.LikeScope scope scope') (hscope : scope.OfPlan plan)
    (hkeeps : ∀ a ∈ s.shownAsks scope, l.CoversAsk a) :
    (l.statementOf s).shownAsks scope' = (s.shownAsks scope).map l.askOf := by
  rw [Select.shownAsks, sources_statementOf, List.flatMap_map, Select.shownAsks, List.map_flatMap,
    List.flatMap_def, List.flatMap_def]
  refine congrArg List.flatten (List.map_congr_left ?_)
  intro source hsource
  have hplan : source.2 ∈ plan.subnodes :=
    Select.mem_subnodes_of_mem_sourceNodes hs (List.mem_map_of_mem hsource)
  have hnames := hlike.exposedNames_eq hscope hplan fun x hx =>
    hkeeps (.ofSource source.2 x) (List.mem_flatMap.2 ⟨source, hsource, List.mem_map_of_mem hx⟩)
  rw [hnames, List.map_map]
  rfl

theorem unqualifiedAsks_statementOf (names : List String) :
    (l.statementOf s).unqualifiedAsks names = (s.unqualifiedAsks names).map l.askOf := by
  rw [Select.unqualifiedAsks, sources_statementOf, Select.unqualifiedAsks, List.map_flatMap]
  simp only [List.map_map]
  rfl

theorem columnAsks_statementOf (refs : List ColumnRef) :
    (l.statementOf s).columnAsks refs = (s.columnAsks refs).map l.askOf := by
  rw [Select.columnAsks, Select.columnAsks, List.map_filterMap]
  simp only [source?_statementOf, Option.map_map]
  rfl

/-- **A statement asks the same**, if what it asks for is kept. -/
theorem asks_statementOf (hids : plan.IdsIdentify) (hs : .select s ∈ plan.subnodes)
    (hlike : l.LikeScope scope scope') (hscope : scope.OfPlan plan) {lineage : Lineage}
    (hkeeps : ∀ a ∈ s.asks scope lineage, l.CoversAsk a) :
    (l.statementOf s).asks scope' lineage = (s.asks scope lineage).map l.askOf := by
  simp only [Select.asks, List.mem_append] at hkeeps
  have hctes := cteAsks_statementOf hids hs hlike hscope fun a ha =>
    hkeeps a (.inl (.inl (.inl ha)))
  have hshown : (if lineage.hasUnknownInputs || (l.statementOf s).readsUnknownSource lineage then
      (l.statementOf s).shownAsks scope' else []) =
      (if lineage.hasUnknownInputs || s.readsUnknownSource lineage then s.shownAsks scope
        else []).map l.askOf := by
    rw [readsUnknownSource_statementOf]
    split
    case isFalse => rfl
    case isTrue hunknown =>
      refine shownAsks_statementOf hs hlike hscope ?_
      intro a ha
      refine hkeeps a (.inl (.inl (.inr ?_)))
      rwa [if_pos hunknown]
  rw [Select.asks, hctes, hshown, unqualifiedAsks_statementOf, columnAsks_statementOf,
    Select.asks, List.map_append, List.map_append, List.map_append]

theorem firstAsks_nodeOf {source : Node} (hsource : source ∈ plan.subnodes)
    (hlike : l.LikeScope scope scope') (hscope : scope.OfPlan plan)
    (hkeeps : ∀ a ∈ Select.firstAsks scope source, l.CoversAsk a) :
    Select.firstAsks scope' (l.nodeOf source) =
      (Select.firstAsks scope source).map l.askOf := by
  have hfirst := hlike.take_exposedNames_eq hscope hsource fun x hx =>
    hkeeps (.ofSource source x) (List.mem_map_of_mem hx)
  rw [Select.firstAsks, hfirst, Select.firstAsks, List.map_map]
  rfl

end Statements

/-! ## Visits -/

end Likeness

namespace Node

variable {scopes : Scopes} {p p' : Propagation} {i : NodeId} {x : String}

theorem grows_foldlM_propagate {scope : Scope} {ns : List Node}
    (hns : ∀ n ∈ ns, ∀ p p', n.propagate scopes p = .ok p' → p.Requires i x → p'.Requires i x)
    (h : ns.foldlM (fun p n => n.propagate scopes (p.requireSome scope n)) p = .ok p')
    (hx : p.Requires i x) : p'.Requires i x := by
  induction ns generalizing p with
  | nil =>
      rw [← Except.ok.inj h]
      exact hx
  | cons n ns ih =>
      rw [List.foldlM_cons, bind_eq_ok] at h
      rcases h with ⟨p₁, hn, h⟩
      exact ih (fun m hm => hns m (List.mem_cons_of_mem _ hm)) h
        (hns n List.mem_cons_self _ _ hn (Propagation.requires_requireSome hx))

/-- Along a visit the sets grow. -/
theorem grows_propagate (n : Node) (h : n.propagate scopes p = .ok p') (hx : p.Requires i x) :
    p'.Requires i x := by
  induction n using induct_parents generalizing p p' with
  | h n ih =>
      cases n with
      | table | text =>
          rw [← Except.ok.inj h]
          exact hx
      | cte c =>
          exact ih c.body (by simp [parents]) h (Propagation.requires_handOn.2 (.inl hx))
      | createTable id t query =>
          exact ih query (by simp [parents]) h (Propagation.requires_handOn.2 (.inl hx))
      | select s =>
          have hforced : (p.requireAll s.id s.forcedNames).Requires i x :=
            Propagation.requires_requireAll.2 (.inl hx)
          rw [propagate_select] at h
          split at h
          case isTrue =>
            rw [← Except.ok.inj h]
            exact hforced
          case isFalse =>
            rcases bind_eq_ok.1 h with ⟨scope, -, h⟩
            refine grows_foldlM_propagate ?_ h (Propagation.requires_requireInputs.2 (.inl hforced))
            intro m hm p p' hp hx
            exact ih m (by simp [Select.parents_select, hm]) hp hx

end Node

namespace Likeness

section Visits

variable {plan : Node} {l : Likeness plan} {scopes scopes' : Scopes} {scope scope' : Scope}
  {p p' p₁ : Propagation}

theorem Covers.mono (h : l.Covers p₁) (hgrows : ∀ i x, p.Requires i x → p₁.Requires i x) :
    l.Covers p :=
  fun n hn x hx => h n hn x (hgrows _ _ hx)

/-- A source of which nothing is required is asked for its first column in both plans. -/
theorem Mirrors.requireSome (h : l.Mirrors p p') (hlike : l.LikeScope scope scope')
    (hscope : scope.OfPlan plan) {source : Node} (hsource : source ∈ plan.subnodes)
    (hcovers : l.Covers (p.requireSome scope source)) :
    l.Mirrors (p.requireSome scope source) (p'.requireSome scope' (l.nodeOf source)) := by
  have htarget : p'.required.requires
      ((((l.nodeOf source).namedCte? scope').map Cte.id).getD (l.nodeOf source).id) =
      p.required.requires (((source.namedCte? scope).map Cte.id).getD source.id) := by
    rw [hlike.namedCte?_eq hsource]
    cases hcte : source.namedCte? scope with
    | none =>
        rw [l.id_nodeOf hsource]
        exact h.requires_eq hsource
    | some c => exact h.requires_eq (n := .cte c) (Node.mem_subnodes_of_namedCte? hscope hcte)
  rw [Propagation.requireSome_eq_foldl_ask] at hcovers ⊢
  rw [Propagation.requireSome_eq_foldl_ask, htarget]
  split
  case isTrue => exact h
  case isFalse hnone =>
    rw [if_neg hnone] at hcovers
    have hplan : ∀ a ∈ Select.firstAsks scope source, a.OfPlan plan :=
      fun a ha => Select.ofPlan_of_mem_firstAsks hsource ha
    rw [firstAsks_nodeOf hsource hlike hscope fun a ha => hcovers.coversAsk ha (hplan a ha)]
    exact .foldl_ask hlike hscope hplan h

/-- A statement is looked at in both plans. -/
theorem Mirrors.look (h : l.Mirrors p p') (hids : plan.IdsIdentify)
    (hlike : l.LikeScope scope scope') (hscope : scope.OfPlan plan) {s : Statement}
    (hs : .select s ∈ plan.subnodes) (hcovers : l.Covers ((p.mark s.id).requireInputs scope s)) :
    l.Mirrors ((p.mark s.id).requireInputs scope s)
      ((p'.mark (l.idOf s.id)).requireInputs scope' (l.statementOf s)) := by
  have hmark : l.Mirrors (p.mark s.id) (p'.mark (l.idOf s.id)) := h.mark (n := .select s) hs
  have hrequired : ∀ x ∈ (p.mark s.id).required.names s.id, l.keeps s.id x = true := fun x hx =>
    hcovers (.select s) hs x (Propagation.requires_requireInputs.2 (.inl hx))
  have hlineage : (l.statementOf s).requiredLineage
      ((p'.mark (l.idOf s.id)).required.names (l.statementOf s).id) =
      s.requiredLineage ((p.mark s.id).required.names s.id) :=
    requiredLineage_statementOf (fun x => hmark.requires (n := .select s) hs) hrequired
  rw [Propagation.requireInputs_eq_foldl_ask] at hcovers ⊢
  rw [Propagation.requireInputs_eq_foldl_ask, hlineage]
  have hplan : ∀ a ∈ s.asks scope (s.requiredLineage ((p.mark s.id).required.names s.id)),
      a.OfPlan plan := fun a ha => Select.ofPlan_of_mem_asks hs ha
  rw [asks_statementOf hids hs hlike hscope fun a ha => hcovers.coversAsk ha (hplan a ha)]
  exact .foldl_ask hlike hscope hplan hmark

/-- Sources are visited in both plans, one after the other. -/
theorem Mirrors.sources (hlike : l.LikeScope scope scope') (hscope : scope.OfPlan plan)
    {ns : List Node} (hns : ∀ n ∈ ns, n ∈ plan.subnodes)
    (hvisit : ∀ n ∈ ns, ∀ {p p' p₁ : Propagation}, l.Mirrors p p' →
      n.propagate scopes p = .ok p₁ → l.Covers p₁ →
      ∃ p₁', (l.nodeOf n).propagate scopes' p' = .ok p₁' ∧ l.Mirrors p₁ p₁')
    (h : l.Mirrors p p')
    (hp₁ : ns.foldlM (fun p n => n.propagate scopes (p.requireSome scope n)) p = .ok p₁)
    (hcovers : l.Covers p₁) :
    ∃ p₁', (ns.map l.nodeOf).foldlM
      (fun p n => n.propagate scopes' (p.requireSome scope' n)) p' = .ok p₁' ∧
      l.Mirrors p₁ p₁' := by
  induction ns generalizing p p' with
  | nil =>
      rw [← Except.ok.inj hp₁]
      exact ⟨p', rfl, h⟩
  | cons n ns ih =>
      rw [List.foldlM_cons, bind_eq_ok] at hp₁
      rcases hp₁ with ⟨p₂, hn, hrest⟩
      have hcovers₂ : l.Covers p₂ := hcovers.mono fun i x hx =>
        Node.grows_foldlM_propagate (fun m _ p p' => m.grows_propagate) hrest hx
      have hsome : l.Covers (p.requireSome scope n) := hcovers₂.mono fun i x hx =>
        n.grows_propagate hn hx
      have hfirst := h.requireSome hlike hscope (hns n List.mem_cons_self) hsome
      rcases hvisit n List.mem_cons_self hfirst hn hcovers₂ with ⟨p₂', hn', h₂⟩
      rcases ih (fun m hm => hns m (List.mem_cons_of_mem _ hm))
        (fun m hm => hvisit m (List.mem_cons_of_mem _ hm)) h₂ hrest with ⟨p₁', hrest', h₁⟩
      refine ⟨p₁', ?_, h₁⟩
      rw [List.map_cons, List.foldlM_cons, bind_eq_ok]
      exact ⟨p₂', hn', hrest'⟩

/-- Where a statement of the plan has a scope, what stands for it has one that is alike. -/
theorem LikeScopes.exists_find (hlike : l.LikeScopes scopes scopes') {s : Statement}
    (hs : .select s ∈ plan.subnodes) (hfind : scopes.find s = .ok scope) :
    ∃ scope', scopes'.find (l.statementOf s) = .ok scope' ∧ l.LikeScope scope scope' := by
  have hrel := hlike s hs
  rw [Node.find_eq_ok.1 hfind] at hrel
  cases hscope' : scopes'[l.idOf s.id]? with
  | none =>
      rw [hscope'] at hrel
      cases hrel
  | some scope' =>
      rw [hscope'] at hrel
      cases hrel with
      | some hrel => exact ⟨scope', Node.find_eq_ok.2 hscope', hrel⟩

/-- **Visits go in step.** -/
theorem Mirrors.propagate (hids : plan.IdsIdentify) (hscopes : scopes.OfPlan plan)
    (hlike : l.LikeScopes scopes scopes') (n : Node) (hn : n ∈ plan.subnodes)
    (h : l.Mirrors p p') (hp₁ : n.propagate scopes p = .ok p₁) (hcovers : l.Covers p₁) :
    ∃ p₁', (l.nodeOf n).propagate scopes' p' = .ok p₁' ∧ l.Mirrors p₁ p₁' := by
  induction n using Node.induct_parents generalizing p p' p₁ with
  | h n ih =>
      cases n with
      | table i t =>
          rw [l.table hn, ← Except.ok.inj hp₁]
          exact ⟨p', rfl, h⟩
      | text i sql =>
          rw [l.text hn, ← Except.ok.inj hp₁]
          exact ⟨p', rfl, h⟩
      | cte c =>
          rw [l.nodeOf_cte hn]
          exact ih c.body (by simp [Node.parents]) (Node.body_mem_subnodes hn) (h.enterCte hn) hp₁
            hcovers
      | createTable i t query =>
          have hquery := Node.query_mem_subnodes hn
          rw [l.createTable hn, Node.propagate, l.id_nodeOf hquery]
          exact ih query (by simp [Node.parents]) hquery (h.handOn hn hquery) hp₁ hcovers
      | select s =>
          rw [Node.propagate_select] at hp₁
          have hforcedCovers : l.Covers (p.requireAll s.id s.forcedNames) := by
            refine hcovers.mono ?_
            intro i x hx
            split at hp₁
            case isTrue =>
              rw [← Except.ok.inj hp₁]
              exact hx
            case isFalse =>
              rcases bind_eq_ok.1 hp₁ with ⟨scope, -, hp₁⟩
              exact Node.grows_foldlM_propagate (fun m _ p p' => m.grows_propagate) hp₁
                (Propagation.requires_requireInputs.2 (.inl hx))
          have hnames := mem_forcedNames_statementOf (l := l) fun x hx =>
            hforcedCovers (.select s) hn x (Propagation.requires_requireAll.2 (.inr ⟨rfl, hx⟩))
          have hforced : l.Mirrors (p.requireAll s.id s.forcedNames)
              (p'.requireAll (l.statementOf s).id (l.statementOf s).forcedNames) :=
            h.requireAll (n := .select s) hn hnames
          have hsettled : (p'.requireAll (l.statementOf s).id (l.statementOf s).forcedNames).isSettled
              (l.statementOf s).id = (p.requireAll s.id s.forcedNames).isSettled s.id :=
            hforced.isSettled_eq (n := .select s) hn
          rw [l.nodeOf_select hn, Node.propagate_select, hsettled]
          split
          case isTrue hdone =>
            rw [if_pos hdone] at hp₁
            rw [← Except.ok.inj hp₁]
            exact ⟨_, rfl, hforced⟩
          case isFalse hdone =>
            rw [if_neg hdone] at hp₁
            rcases bind_eq_ok.1 hp₁ with ⟨scope, hfind, hp₁⟩
            rcases hlike.exists_find hn hfind with ⟨scope', hfind', hlikeScope⟩
            have hscope := hscopes _ _ (Node.find_eq_ok.1 hfind)
            have hlook := hforced.look hids hlikeScope hscope hn <| hcovers.mono fun i x hx =>
              Node.grows_foldlM_propagate (fun m _ p p' => m.grows_propagate) hp₁ hx
            have hparent : ∀ m ∈ s.sourceNodes, m ∈ (Node.select s).parents := fun m hm => by
              simp [Select.parents_select, hm]
            have hmem : ∀ m ∈ s.sourceNodes, m ∈ plan.subnodes := fun m hm =>
              Node.mem_subnodes_of_parent (hparent m hm) hn
            rcases Mirrors.sources hlikeScope hscope hmem
              (fun m hm {_ _ _} hm₁ hm₂ hm₃ => ih m (hparent m hm) (hmem m hm) hm₁ hm₂ hm₃)
              hlook hp₁ hcovers with ⟨p₁', hp₁', h₁⟩
            rw [← sourceNodes_statementOf] at hp₁'
            exact ⟨p₁', bind_eq_ok.2 ⟨scope', hfind', hp₁'⟩, h₁⟩

end Visits

/-! ## Rounds -/

end Likeness

namespace Propagation

variable {scopes : Scopes} {p p' : Propagation} {i : NodeId} {x : String}

theorem grows_propagateCtes {cs : List (Cte Node)} (h : propagateCtes scopes cs p = .ok p')
    (hx : p.Requires i x) : p'.Requires i x := by
  induction cs generalizing p with
  | nil =>
      rw [← Except.ok.inj h]
      exact hx
  | cons c cs ih =>
      rcases propagateCtes_cons_eq_ok.1 h with ⟨p₁, hc, h⟩
      exact ih h (c.body.grows_propagate hc (requires_handOn.2 (.inl hx)))

/-- Where no set has grown, the rounds are over. -/
theorem settle_of_staleCtes_eq_nil (rounds : Rounds) (h : p.staleCtes = []) :
    settle scopes rounds p = .ok p := by
  cases rounds with
  | «over» => rfl
  | next rest => rw [settle, h]

theorem settle_next_eq_ok {rest : Unit → Rounds} (h : p.staleCtes ≠ []) :
    settle scopes (.next rest) p = .ok p' ↔
      ∃ p₁, propagateCtes scopes p.staleCtes p = .ok p₁ ∧ settle scopes (rest ()) p₁ = .ok p' := by
  rw [settle]
  split
  case h_1 hnil => exact absurd hnil h
  case h_2 => rw [bind_eq_ok]

theorem grows_settle {rounds : Rounds} (h : settle scopes rounds p = .ok p')
    (hx : p.Requires i x) : p'.Requires i x := by
  induction rounds generalizing p with
  | «over» =>
      rw [← Except.ok.inj h]
      exact hx
  | next rest ih =>
      by_cases hnil : p.staleCtes = []
      · rw [settle_of_staleCtes_eq_nil _ hnil] at h
        rw [← Except.ok.inj h]
        exact hx
      · rcases (settle_next_eq_ok hnil).1 h with ⟨p₁, hround, h⟩
        exact ih () h (grows_propagateCtes hround hx)

end Propagation

namespace Likeness

section Rounds

variable {plan : Node} (l : Likeness plan)

/-- The identities of CTEs are in the same order. -/
def Ordered : Prop :=
  ∀ {c d : Cte Node}, .cte c ∈ plan.subnodes → .cte d ∈ plan.subnodes → c.id < d.id →
    l.idOf c.id < l.idOf d.id

variable {l} {scopes scopes' : Scopes} {p p' p₁ p₁' : Propagation}

/-- The CTEs that are read are listed in the same order. -/
theorem Mirrors.toList_referenced (hordered : l.Ordered) (h : l.Mirrors p p') :
    p'.referenced.toList = p.referenced.toList.map fun entry => (l.idOf entry.1, l.cteOf entry.2) := by
  have hplan : ∀ entry ∈ p.referenced.toList, entry.2.id = entry.1 ∧ .cte entry.2 ∈ plan.subnodes :=
    fun entry hentry => h.refersTo _ _ (Std.TreeMap.mem_toList_iff_getElem?_eq_some.1 hentry)
  have hsorted : ∀ t : Std.TreeMap NodeId (Cte Node), t.toList.Pairwise fun a b => a.1 < b.1 :=
    fun t => Std.TreeMap.ordered_keys_toList.imp fun h => Nat.compare_eq_lt.1 h
  refine eq_of_pairwise_lt Prod.fst (hsorted _) ?_ ?_
  · rw [List.pairwise_map]
    refine (hsorted p.referenced).imp_of_mem ?_
    intro a b ha hb hlt
    rcases hplan a ha with ⟨hida, hca⟩
    rcases hplan b hb with ⟨hidb, hcb⟩
    rw [← hida, ← hidb] at hlt ⊢
    exact hordered hca hcb hlt
  · rintro ⟨j, c'⟩
    rw [Std.TreeMap.mem_toList_iff_getElem?_eq_some, List.mem_map]
    constructor
    · intro hj
      rcases h.origin hj with ⟨c, hc, rfl⟩
      rw [h.refers hc] at hj
      rcases Option.map_eq_some_iff.1 hj with ⟨d, hd, rfl⟩
      exact ⟨(c.id, d), Std.TreeMap.mem_toList_iff_getElem?_eq_some.2 hd, rfl⟩
    · rintro ⟨entry, hentry, heq⟩
      rcases hplan entry hentry with ⟨hid, hc⟩
      have hfound := Std.TreeMap.mem_toList_iff_getElem?_eq_some.1 hentry
      cases heq
      rw [← hid, h.refers hc, hid, hfound]
      rfl

/-- The CTEs that have to be looked at again are the same, in the same order. -/
theorem Mirrors.staleCtes_eq (hordered : l.Ordered) (h : l.Mirrors p p') :
    p'.staleCtes = p.staleCtes.map l.cteOf := by
  have hlist : p'.referenced.toList.map Prod.snd =
      (p.referenced.toList.map Prod.snd).map l.cteOf := by
    rw [h.toList_referenced hordered, List.map_map, List.map_map]
    rfl
  rw [Propagation.staleCtes, hlist, Propagation.staleCtes, List.filter_map]
  refine congrArg (List.map l.cteOf) (List.filter_congr ?_)
  intro c hc
  rcases List.mem_map.1 hc with ⟨entry, hentry, rfl⟩
  have hplan := (h.refersTo _ _ (Std.TreeMap.mem_toList_iff_getElem?_eq_some.1 hentry)).2
  exact h.isStale_eq hplan

theorem Mirrors.mem_of_staleCtes (h : l.Mirrors p p') {c : Cte Node} (hc : c ∈ p.staleCtes) :
    .cte c ∈ plan.subnodes := by
  rcases (Propagation.mem_staleCtes.1 hc).1 with ⟨i, hi⟩
  exact (h.refersTo i c hi).2

variable (hids : plan.IdsIdentify) (hscopes : scopes.OfPlan plan)
  (hlike : l.LikeScopes scopes scopes')

include hids hscopes hlike

theorem Mirrors.propagateCtes {cs : List (Cte Node)} (hcs : ∀ c ∈ cs, .cte c ∈ plan.subnodes)
    (h : l.Mirrors p p') (hp₁ : Propagation.propagateCtes scopes cs p = .ok p₁)
    (hcovers : l.Covers p₁) :
    ∃ p₁', Propagation.propagateCtes scopes' (cs.map l.cteOf) p' = .ok p₁' ∧ l.Mirrors p₁ p₁' := by
  induction cs generalizing p p' with
  | nil =>
      rw [← Except.ok.inj hp₁]
      exact ⟨p', rfl, h⟩
  | cons c cs ih =>
      rcases Propagation.propagateCtes_cons_eq_ok.1 hp₁ with ⟨p₂, hc, hrest⟩
      have hplan := hcs c List.mem_cons_self
      have hcovers₂ : l.Covers p₂ := hcovers.mono fun i x hx =>
        Propagation.grows_propagateCtes hrest hx
      rcases (h.enterCte hplan).propagate hids hscopes hlike c.body (Node.body_mem_subnodes hplan)
        hc hcovers₂ with ⟨p₂', hc', h₂⟩
      rcases ih (fun d hd => hcs d (List.mem_cons_of_mem _ hd)) h₂ hrest with ⟨p₁', hrest', h₁⟩
      exact ⟨p₁', Propagation.propagateCtes_cons_eq_ok.2 ⟨p₂', hc', hrest'⟩, h₁⟩

/-- **Rounds go in step.**  The supplies of rounds may differ, as long as neither of them is what
ends the rounds. -/
theorem Mirrors.settle (hordered : l.Ordered) {rounds rounds' : Rounds} (h : l.Mirrors p p')
    (hp₁ : Propagation.settle scopes rounds p = .ok p₁)
    (hp₁' : Propagation.settle scopes' rounds' p' = .ok p₁') (hdone : p₁.staleCtes = [])
    (hdone' : p₁'.staleCtes = []) (hcovers : l.Covers p₁) : l.Mirrors p₁ p₁' := by
  have hstale := h.staleCtes_eq hordered
  induction rounds generalizing p p' rounds' with
  | «over» =>
      rw [← Except.ok.inj hp₁] at hdone ⊢
      rw [hdone, List.map_nil] at hstale
      rw [Propagation.settle_of_staleCtes_eq_nil _ hstale] at hp₁'
      rw [← Except.ok.inj hp₁']
      exact h
  | next rest ih =>
      by_cases hnil : p.staleCtes = []
      · rw [Propagation.settle_of_staleCtes_eq_nil _ hnil] at hp₁
        rw [hnil, List.map_nil] at hstale
        rw [Propagation.settle_of_staleCtes_eq_nil _ hstale] at hp₁'
        rw [← Except.ok.inj hp₁, ← Except.ok.inj hp₁']
        exact h
      · have hnil' : p'.staleCtes ≠ [] := by
          rw [hstale, ne_eq, List.map_eq_nil_iff]
          exact hnil
        cases rounds' with
        | «over» =>
            rw [← Except.ok.inj hp₁'] at hdone'
            exact absurd hdone' hnil'
        | next rest' =>
            rcases (Propagation.settle_next_eq_ok hnil).1 hp₁ with ⟨p₂, hround, hp₁⟩
            rcases (Propagation.settle_next_eq_ok hnil').1 hp₁' with ⟨p₂', hround', hp₁'⟩
            have hcovers₂ : l.Covers p₂ := hcovers.mono fun i x hx =>
              Propagation.grows_settle hp₁ hx
            rcases h.propagateCtes hids hscopes hlike (fun c hc => h.mem_of_staleCtes hc) hround
              hcovers₂ with ⟨p₃', hround₃, h₂⟩
            rw [← hstale, hround'] at hround₃
            cases hround₃
            exact ih () h₂ hp₁ hp₁' (h₂.staleCtes_eq hordered)

end Rounds

/-! ## The state in the end -/

section End

variable {plan : Node} {l : Likeness plan} {p p' : Propagation}

theorem mirrors_empty : l.Mirrors {} {} where
  requires _ := by simp only [Propagation.not_requires_empty]
  contains _ := by simp [Requirements.contains]
  seen _ := by simp
  refers _ := by simp
  origin hj := by simp at hj
  refersTo i c hc := by simp at hc

/-- **The propagation ends alike** in plans that are alike, if every column that is required is kept
and CTEs are in the same order. -/
theorem mirrors_ofPlan (hids : plan.IdsIdentify) (hordered : l.Ordered)
    (hp : Propagation.ofPlan plan plan (plan.exposedNames ∅) = .ok p) (hcovers : l.Covers p)
    (hp' : Propagation.ofPlan (l.nodeOf plan) (l.nodeOf plan) ((l.nodeOf plan).exposedNames ∅) =
      .ok p') : l.Mirrors p p' := by
  have hroot := Node.mem_subnodes_self plan
  have hfinished := Propagation.finished_ofPlan hids hroot hp
  have hfinished' := Propagation.finished_ofPlan (l.idsIdentify_nodeOf hids)
    (Node.mem_subnodes_self _) hp'
  have hscopes : (Scopes.ofPlan plan).OfPlan plan := Scopes.ofPlan_ofPlan
  rcases bind_eq_ok.1 hp with ⟨p₁, hvisit, hsettle⟩
  rcases bind_eq_ok.1 hp' with ⟨p₁', hvisit', hsettle'⟩
  have hshown : (l.nodeOf plan).exposedNames ∅ = plan.exposedNames ∅ := by
    refine LikeScope.empty.exposedNames_eq Scope.ofPlan_empty hroot ?_
    intro x hx
    exact hcovers plan hroot x (hfinished.requires_shown hx)
  have hstart : l.Mirrors (({} : Propagation).requireAll plan.id (plan.exposedNames ∅))
      (({} : Propagation).requireAll (l.nodeOf plan).id ((l.nodeOf plan).exposedNames ∅)) := by
    rw [hshown, l.id_nodeOf hroot]
    exact mirrors_empty.requireAll hroot fun x => Iff.rfl
  have hcovers₁ : l.Covers p₁ := hcovers.mono fun i x hx => Propagation.grows_settle hsettle hx
  rcases hstart.propagate hids hscopes likeScopes_ofPlan plan hroot hvisit hcovers₁ with
    ⟨p₂', hvisit₂, h⟩
  rw [hvisit'] at hvisit₂
  cases hvisit₂
  exact h.settle hids hscopes likeScopes_ofPlan hordered hsettle hsettle' hfinished.drained
    hfinished'.drained hcovers

end End

end Likeness

end QueryPlan
