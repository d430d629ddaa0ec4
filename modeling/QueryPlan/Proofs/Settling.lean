import Mathlib.Algebra.Group.Action.Defs
import Mathlib.Algebra.Order.BigOperators.Group.List
import Mathlib.Algebra.Order.Ring.Nat
import QueryPlan.Proofs.Visits

/-!
# The propagation settles

CTEs are looked at in rounds until none of their sets has grown, and the number of rounds is bounded
beforehand.  This file shows that the bound is never what ends the rounds.

Every round looks at a CTE whose set has grown, and notes a larger size for it.  The sizes noted add
up to the *effort* so far (`effort`).  It never falls (`Run.effort_le`), and it is at most the
number of nodes times the number of names that occur in the plan (`effort_le_mul`), since nothing
else is ever required of a node (`Step.namesOfPlan`).
-/

namespace QueryPlan

/-! ## The names of a plan -/

namespace Node

/-- The names that occur in a node. -/
def ownNames : Node → List String
  | .select s => s.ownNames
  | _ => []

/-- The names that occur in a plan. -/
def planNames (plan : Node) : List String :=
  plan.subnodes.flatMap ownNames

variable {plan : Node} {x : String}

theorem mem_planNames {s : Statement} (hs : .select s ∈ plan.subnodes) (hx : x ∈ s.ownNames) :
    x ∈ plan.planNames :=
  List.mem_flatMap.2 ⟨_, hs, hx⟩

theorem unwrapped_mem_subnodes (n : Node) : n.unwrapped ∈ n.subnodes := by
  induction n using induct_parents with
  | h n ih =>
      cases n with
      | table | text | select => exact mem_subnodes_self _
      | cte c =>
          exact mem_subnodes_iff.2 (.inr ⟨c.body, by simp [parents], ih c.body (by simp [parents])⟩)
      | createTable id t query =>
          exact mem_subnodes_iff.2 (.inr ⟨query, by simp [parents], ih query (by simp [parents])⟩)

/-- What a node of a plan shows is the select list of a statement of the plan. -/
theorem exists_select_of_exposedColumnsWithin? {scope : Scope} (hscope : scope.OfPlan plan)
    (hops : Nat) {n : Node} (hn : n ∈ plan.subnodes) {columns : List NamedExpr}
    (h : n.exposedColumnsWithin? scope hops = some columns) :
    ∃ s, .select s ∈ plan.subnodes ∧ s.columns = columns := by
  fun_induction exposedColumnsWithin? scope hops n with
  | case1 hops n s hs =>
      have hmem := mem_subnodes_trans (unwrapped_mem_subnodes n) hn
      rw [hs] at hmem
      exact ⟨s, hmem, Option.some.inj h⟩
  | case2 n _ hops c hcte ih =>
      have hc := mem_subnodes_of_namedCte? hscope hcte
      exact ih (body_mem_subnodes hc) h
  | case3 => simp at h

theorem mem_planNames_of_exposedNames {scope : Scope} (hscope : scope.OfPlan plan) {n : Node}
    (hn : n ∈ plan.subnodes) (hx : x ∈ n.exposedNames scope) : x ∈ plan.planNames := by
  rw [exposedNames, exposedColumns?] at hx
  cases hcolumns : n.exposedColumnsWithin? scope scope.size with
  | none => simp [hcolumns] at hx
  | some columns =>
      rcases exists_select_of_exposedColumnsWithin? hscope _ hn hcolumns with ⟨s, hs, rfl⟩
      rw [hcolumns, Option.getD_some] at hx
      refine mem_planNames hs ?_
      simp only [Select.ownNames, Select.columnNames, List.mem_append]
      exact .inl (.inl (.inl (.inl hx)))

end Node

namespace Select

variable {s : Statement} {x : String}

theorem mem_requiredExprs {required : NameSet} {e : Expr} : e ∈ s.requiredExprs required ↔
    (∃ c ∈ s.columns, c.name ∈ required ∧ c.expr = e) ∨ e ∈ s.conditions ∨ s.filter = some e ∨
      e ∈ s.groupExprs ∨ e ∈ s.orderExprs := by
  simp only [requiredExprs, List.mem_append, List.mem_map, List.mem_filter,
    Std.TreeSet.contains_iff_mem, Option.mem_toList, or_assoc, and_assoc]

theorem requiredExprs_subset (required : NameSet) : s.requiredExprs required ⊆ s.exprs := by
  intro e he
  simp only [exprs, List.mem_append, Option.mem_toList, or_assoc]
  refine (mem_requiredExprs.1 he).imp_left ?_
  rintro ⟨c, hc, -, rfl⟩
  exact List.mem_map_of_mem hc

/-- What a statement reads for the required columns are names that occur in it. -/
theorem mem_ownNames_of_requiredLineage {required : NameSet}
    (h : (∃ r ∈ (s.requiredLineage required).columns, r.column = x) ∨
      x ∈ (s.requiredLineage required).names ∨
      x ∈ (s.requiredLineage required).declaredInputs) : x ∈ s.ownNames := by
  have hsub := requiredExprs_subset (s := s) required
  simp only [ownNames, List.mem_append, List.mem_map]
  rcases h with ⟨r, hr, rfl⟩ | hx | hx
  · rcases Expr.mem_lineages_columns.1 hr with ⟨e, he, hr⟩
    exact .inl (.inl (.inr ⟨r, Expr.mem_lineages_columns.2 ⟨e, hsub he, hr⟩, rfl⟩))
  · rcases Expr.mem_lineages_names.1 hx with ⟨e, he, hx⟩
    exact .inl (.inr (Expr.mem_lineages_names.2 ⟨e, hsub he, hx⟩))
  · rcases Expr.mem_lineages_declaredInputs.1 hx with ⟨e, he, hx⟩
    exact .inr (Expr.mem_lineages_declaredInputs.2 ⟨e, hsub he, hx⟩)

theorem mem_ownNames_of_forcedNames (h : x ∈ s.forcedNames) : x ∈ s.ownNames := by
  simp only [ownNames, List.mem_append]
  rcases mem_forcedNames.1 h with hgroup | ⟨hcolumn, -⟩
  · exact .inl (.inl (.inl (.inr hgroup)))
  · exact .inl (.inl (.inl (.inl hcolumn)))

end Select

/-- Every question of a statement is about names of the plan. -/
theorem Ask.mem_planNames {plan : Node} {s : Statement} (hs : .select s ∈ plan.subnodes)
    {scope : Scope} (hscope : scope.OfPlan plan) {required : NameSet} {a : Ask}
    (ha : a ∈ s.asks scope (s.requiredLineage required)) {i : NodeId} {x : String}
    (hx : a.Requires scope i x) : x ∈ plan.planNames := by
  cases a with
  | ofCte c names =>
      rcases Select.of_ofCte_mem_asks ha with ⟨-, rfl⟩
      have hc : .cte c ∈ plan.subnodes := Select.ofPlan_of_mem_asks hs ha
      exact Node.mem_planNames_of_exposedNames hscope (Node.body_mem_subnodes hc) hx.2
  | ofSource source name =>
      have hname : x = name := hx.2
      subst hname
      rcases Select.ofSource_mem_asks.1 ha with ⟨-, hsource, hshown⟩ | ⟨hunqualified, -⟩ | hcolumn
      · have hplan := Select.mem_subnodes_of_mem_sourceNodes hs hsource
        exact Node.mem_planNames_of_exposedNames hscope hplan hshown
      · have hown := Select.mem_ownNames_of_requiredLineage (.inr hunqualified.symm)
        exact Node.mem_planNames hs hown
      · rcases hcolumn with ⟨r, hr, -, hcolumn⟩
        exact Node.mem_planNames hs (Select.mem_ownNames_of_requiredLineage (.inl ⟨r, hr, hcolumn⟩))

/-! ## Effort -/

namespace Propagation

/-- Only names of the plan are required. -/
def NamesOfPlan (plan : Node) (p : Propagation) : Prop :=
  ∀ i x, p.Requires i x → x ∈ plan.planNames

/-- The sizes that have been noted, over all nodes of a plan. -/
def effort (plan : Node) (p : Propagation) : Nat :=
  (plan.subnodes.map fun n => (p.seenSize[n.id]?).getD 0).sum

variable {plan : Node} {scopes : Scopes} {p p' : Propagation}

theorem Step.namesOfPlan (hscopes : scopes.OfPlan plan) (hstep : Step plan scopes p p')
    (h : NamesOfPlan plan p) : NamesOfPlan plan p' := by
  intro i x hx
  cases hstep with
  | force hs =>
      rcases requires_requireAll.1 hx with hx | ⟨-, hforced⟩
      · exact h i x hx
      · exact Node.mem_planNames hs (Select.mem_ownNames_of_forcedNames hforced)
  | look hs hscope =>
      rcases requires_requireInputs.1 hx with hx | ⟨a, ha, hasked⟩
      · exact h i x hx
      · exact Ask.mem_planNames hs (hscopes _ _ hscope) ha hasked
  | supply hs hscope hsource =>
      rcases requires_of_requireSome hx with hx | ⟨a, ha, hasked⟩
      · exact h i x hx
      · rcases List.mem_map.1 ha with ⟨y, hy, rfl⟩
        have hplan := Select.mem_subnodes_of_mem_sourceNodes hs hsource
        rw [hasked.2]
        have hshown := List.mem_of_mem_take hy
        exact Node.mem_planNames_of_exposedNames (hscopes _ _ hscope) hplan hshown
  | enter =>
      rcases requires_handOn.1 hx with hx | ⟨-, hx⟩
      · exact h i x hx
      · exact h _ x hx
  | handOn =>
      rcases requires_handOn.1 hx with hx | ⟨-, hx⟩
      · exact h i x hx
      · exact h _ x hx

/-- The size noted for a node never falls. -/
theorem Step.seenSize_le (hids : plan.IdsIdentify) (h : Consistent plan scopes p)
    (hstep : Step plan scopes p p') {n : Node} (hn : n ∈ plan.subnodes) :
    (p.seenSize[n.id]?).getD 0 ≤ (p'.seenSize[n.id]?).getD 0 := by
  rcases hstep.seen hids hn with hsame | ⟨hcount, -⟩
  · rw [hsame]
  · rw [hcount]
    cases hk : p.seenSize[n.id]? with
    | none => exact Nat.zero_le _
    | some k => exact h.le_count hn hk

theorem Run.seenSize_le (hids : plan.IdsIdentify) (h : Consistent plan scopes p)
    (hrun : Run plan scopes p p') {n : Node} (hn : n ∈ plan.subnodes) :
    (p.seenSize[n.id]?).getD 0 ≤ (p'.seenSize[n.id]?).getD 0 := by
  have hboth : Consistent plan scopes p' ∧
      (p.seenSize[n.id]?).getD 0 ≤ (p'.seenSize[n.id]?).getD 0 := by
    refine Run.preserves (P := fun q => Consistent plan scopes q ∧
      (p.seenSize[n.id]?).getD 0 ≤ (q.seenSize[n.id]?).getD 0) ?_ hrun ⟨h, Nat.le_refl _⟩
    rintro q q' hstep ⟨hq, hle⟩
    exact ⟨hstep.consistent hids hq, Nat.le_trans hle (hstep.seenSize_le hids hq hn)⟩
  exact hboth.2

theorem Run.effort_le (hids : plan.IdsIdentify) (h : Consistent plan scopes p)
    (hrun : Run plan scopes p p') : p.effort plan ≤ p'.effort plan := by
  refine List.sum_le_sum ?_
  intro n hn
  exact hrun.seenSize_le hids h hn

/-- Looking at a CTE whose set has grown is an effort. -/
theorem effort_lt_enterCte (hids : plan.IdsIdentify) (h : Consistent plan scopes p) {c : Cte Node}
    (hc : .cte c ∈ plan.subnodes) (hstale : p.isStale c.id = true) :
    p.effort plan < (p.enterCte c).effort plan := by
  have hstep : Step plan scopes p (p.enterCte c) := .enter hc
  have hle := hstep.seenSize_le hids h hc
  have hmarked : (p.enterCte c).seenSize[(Node.cte c).id]? = some (p.count c.id) := by
    rw [seenSize_enterCte]
    exact if_pos rfl
  refine List.sum_lt_sum _ _ (fun n hn => hstep.seenSize_le hids h hn) ⟨.cte c, hc, ?_⟩
  rw [hmarked, Option.getD_some] at hle ⊢
  exact Nat.lt_of_le_of_ne hle (isStale_iff.1 hstale)

/-- The effort is bounded by the number of nodes and the number of names. -/
theorem effort_le_mul (h : Consistent plan scopes p) (hnames : NamesOfPlan plan p) :
    p.effort plan ≤ plan.subnodes.length * plan.planNames.length := by
  have hle : ∀ k ∈ plan.subnodes.map fun n => (p.seenSize[n.id]?).getD 0,
      k ≤ plan.planNames.length := by
    intro k hk
    rcases List.mem_map.1 hk with ⟨n, hn, rfl⟩
    cases hseen : p.seenSize[n.id]? with
    | none => exact Nat.zero_le _
    | some k =>
        refine Nat.le_trans (h.le_count hn hseen) (size_le_of_subset ?_)
        intro x hx
        exact hnames _ x hx
  have hsum := List.sum_le_card_nsmul _ _ hle
  rwa [List.length_map, smul_eq_mul] at hsum

/-! ## Rounds -/

/-- What holds in every state of the propagation. -/
structure Invariant (plan : Node) (scopes : Scopes) (p : Propagation) : Prop where
  consistent : Consistent plan scopes p
  refersTo : RefersTo plan p
  namesOfPlan : NamesOfPlan plan p

theorem Run.invariant (hids : plan.IdsIdentify) (hscopes : scopes.OfPlan plan)
    (hrun : Run plan scopes p p') (h : Invariant plan scopes p) : Invariant plan scopes p' := by
  refine Run.preserves ?_ hrun h
  intro q q' hstep hq
  exact ⟨hstep.consistent hids hq.consistent, hstep.refersTo hscopes hq.refersTo,
    hstep.namesOfPlan hscopes hq.namesOfPlan⟩

theorem mem_staleCtes {c : Cte Node} : c ∈ p.staleCtes ↔
    (∃ i : NodeId, p.referenced[i]? = some c) ∧ p.isStale c.id = true := by
  rw [staleCtes, List.mem_filter, List.mem_map]
  constructor
  · rintro ⟨⟨entry, hentry, rfl⟩, hstale⟩
    exact ⟨⟨entry.1, Std.TreeMap.mem_toList_iff_getElem?_eq_some.1 hentry⟩, hstale⟩
  · rintro ⟨⟨i, hi⟩, hstale⟩
    exact ⟨⟨(i, c), Std.TreeMap.mem_toList_iff_getElem?_eq_some.2 hi, rfl⟩, hstale⟩

/-- A set that is not empty and has not grown has been looked at. -/
theorem isSettled_of_not_isStale {i : NodeId} {x : String} (hx : p.Requires i x)
    (h : p.isStale i ≠ true) : p.isSettled i = true := by
  have hpos : 0 < p.count i := by
    rw [count, ← Std.TreeSet.length_toList]
    exact List.length_pos_of_mem (Std.TreeSet.mem_toList.2 hx)
  rw [ne_eq, isStale_iff, not_not] at h
  rw [isSettled, beq_iff_eq]
  cases hk : p.seenSize[i]? with
  | none =>
      rw [hk, Option.getD_none] at h
      omega
  | some k =>
      rw [hk, Option.getD_some] at h
      rw [h]

/-- The size noted for a CTE whose set has grown is smaller than its set. -/
theorem Invariant.seenSize_lt_of_stale (h : Invariant plan scopes p) {c : Cte Node}
    (hc : c ∈ p.staleCtes) : (p.seenSize[c.id]?).getD 0 < p.count c.id := by
  rcases mem_staleCtes.1 hc with ⟨⟨i, hi⟩, hstale⟩
  refine Nat.lt_of_le_of_ne ?_ (isStale_iff.1 hstale)
  cases hk : p.seenSize[c.id]? with
  | none => exact Nat.zero_le _
  | some k => exact h.consistent.le_count (h.refersTo i c hi).2 hk

/-- A CTE whose set has grown is a CTE of the plan of which something is required. -/
theorem Invariant.fed_of_stale (h : Invariant plan scopes p) {c : Cte Node}
    (hc : c ∈ p.staleCtes) : .cte c ∈ plan.subnodes ∧ p.Fed (.cte c) := by
  rcases mem_staleCtes.1 hc with ⟨⟨i, hi⟩, -⟩
  refine ⟨(h.refersTo i c hi).2, fun _ => ?_⟩
  have hpos : 0 < p.count c.id := Nat.lt_of_le_of_lt (Nat.zero_le _) (h.seenSize_lt_of_stale hc)
  rw [count, ← Std.TreeSet.length_toList] at hpos
  rcases List.exists_mem_of_length_pos hpos with ⟨x, hx⟩
  exact ⟨x, Std.TreeSet.mem_toList.1 hx⟩

theorem propagateCtes_cons_eq_ok {c : Cte Node} {cs : List (Cte Node)} :
    propagateCtes scopes (c :: cs) p = .ok p' ↔
      ∃ p₁, c.body.propagate scopes (p.enterCte c) = .ok p₁ ∧
        propagateCtes scopes cs p₁ = .ok p' := by
  rw [propagateCtes, bind_eq_ok]

/-- Looking at CTEs is a visit of them. -/
theorem visit_propagateCtes (hids : plan.IdsIdentify) (hscopes : scopes.OfPlan plan)
    {cs : List (Cte Node)} (hcs : ∀ c ∈ cs, .cte c ∈ plan.subnodes ∧ p.Fed (.cte c))
    (h : propagateCtes scopes cs p = .ok p') : Visit plan scopes (cs.map .cte) p p' := by
  induction cs generalizing p with
  | nil =>
      have hp : p = p' := Except.ok.inj h
      subst hp
      exact .nil
  | cons c cs ih =>
      rcases propagateCtes_cons_eq_ok.1 h with ⟨p₁, hc, hrest⟩
      have hfirst : (Node.cte c).propagate scopes p = .ok p₁ := hc
      rcases hcs c List.mem_cons_self with ⟨hplan, hfed⟩
      have hvisit := Node.visit_propagate hids hscopes _ hplan hfed hfirst
      refine hvisit.append (ih ?_ hrest)
      intro d hd
      rcases hcs d (List.mem_cons_of_mem _ hd) with ⟨hplan, hfed⟩
      exact ⟨hplan, hfed.mono fun _ _ => Run.grows hvisit.run⟩

/-- A round in which some CTE is looked at again is an effort. -/
theorem effort_lt_of_propagateCtes (hids : plan.IdsIdentify) (hscopes : scopes.OfPlan plan)
    (h : Consistent plan scopes p) {c : Cte Node} {cs : List (Cte Node)}
    (hcs : ∀ d ∈ c :: cs, .cte d ∈ plan.subnodes ∧ p.Fed (.cte d))
    (hstale : p.isStale c.id = true) (hp' : propagateCtes scopes (c :: cs) p = .ok p') :
    p.effort plan < p'.effort plan := by
  rcases propagateCtes_cons_eq_ok.1 hp' with ⟨p₁, hbody, hrest⟩
  rcases hcs c List.mem_cons_self with ⟨hc, hfed⟩
  have henter : Step plan scopes p (p.enterCte c) := .enter hc
  have hmem := Node.body_mem_subnodes hc
  have hfirst := (Node.visit_propagate hids hscopes _ hmem hfed.enterCte hbody).run
  have hothers : Run plan scopes p₁ p' := by
    refine (visit_propagateCtes hids hscopes ?_ hrest).run
    intro d hd
    rcases hcs d (List.mem_cons_of_mem _ hd) with ⟨hplan, hfed⟩
    exact ⟨hplan, hfed.mono fun _ _ hx => Run.grows (.head henter hfirst) hx⟩
  -- entering the stale CTE is the effort; what follows can only add to it
  exact Nat.lt_of_lt_of_le (effort_lt_enterCte hids h hc hstale)
    (Run.effort_le hids (henter.consistent hids h) (hfirst.trans hothers))

/-- A visit is still one of fewer nodes. -/
theorem Visit.forget {ns : List Node} (h : Visit plan scopes ns p p') :
    Visit plan scopes [] p p' where
  run := h.run
  owes x hx howes := ⟨(h.owes x hx howes).1, List.not_mem_nil⟩
  unmet := h.unmet

/-- **The rounds end because nothing is left to look at**, if there are enough of them. -/
theorem visit_settle (hids : plan.IdsIdentify) (hscopes : scopes.OfPlan plan) {rounds : Rounds}
    (h : Invariant plan scopes p) (hp' : settle scopes rounds p = .ok p') :
    Visit plan scopes [] p p' ∧
      (plan.subnodes.length * plan.planNames.length < p.effort plan + rounds.count →
        p'.staleCtes = []) := by
  induction rounds generalizing p with
  | «over» =>
      have hp : p = p' := Except.ok.inj hp'
      subst hp
      refine ⟨.nil, fun hlt => ?_⟩
      exact absurd (effort_le_mul h.consistent h.namesOfPlan) (Nat.not_le.2 hlt)
  | next rest ih =>
      rw [settle] at hp'
      cases hcs : p.staleCtes with
      | nil =>
          rw [hcs] at hp'
          have hp : p = p' := Except.ok.inj hp'
          subst hp
          exact ⟨.nil, fun _ => hcs⟩
      | cons c cs =>
          rw [hcs] at hp'
          rcases bind_eq_ok.1 hp' with ⟨p₁, hround, hp'⟩
          have hmem : ∀ d ∈ c :: cs, .cte d ∈ plan.subnodes ∧ p.Fed (.cte d) := by
            intro d hd
            rw [← hcs] at hd
            exact h.fed_of_stale hd
          have hstale : p.isStale c.id = true := by
            refine (mem_staleCtes.1 ?_).2
            rw [hcs]
            exact List.mem_cons_self
          have hvisit := (visit_propagateCtes hids hscopes hmem hround).forget
          have heffort := effort_lt_of_propagateCtes hids hscopes h.consistent hmem hstale hround
          have hrest := ih () (Run.invariant hids hscopes hvisit.run h) hp'
          refine ⟨hvisit.append hrest.1, fun hlt => hrest.2 ?_⟩
          rw [Rounds.count] at hlt
          omega

theorem exists_propagateCtes
    (hscopes : ∀ s, .select s ∈ plan.subnodes → ∃ scope, scopes[s.id]? = some scope)
    {cs : List (Cte Node)} (hcs : ∀ c ∈ cs, .cte c ∈ plan.subnodes) (p : Propagation) :
    ∃ p', propagateCtes scopes cs p = .ok p' := by
  induction cs generalizing p with
  | nil => exact ⟨p, rfl⟩
  | cons c cs ih =>
      have hc := hcs c List.mem_cons_self
      rcases Node.exists_propagate hscopes (.cte c) hc p with ⟨p₁, hp₁⟩
      rcases ih (fun d hd => hcs d (List.mem_cons_of_mem _ hd)) p₁ with ⟨p', hp'⟩
      exact ⟨p', propagateCtes_cons_eq_ok.2 ⟨p₁, hp₁, hp'⟩⟩

/-- The rounds go through where every statement has a scope. -/
theorem exists_settle (hids : plan.IdsIdentify) (hscopes : scopes.OfPlan plan)
    (hall : ∀ s, .select s ∈ plan.subnodes → ∃ scope, scopes[s.id]? = some scope)
    (rounds : Rounds) (h : Invariant plan scopes p) : ∃ p', settle scopes rounds p = .ok p' := by
  induction rounds generalizing p with
  | «over» => exact ⟨p, rfl⟩
  | next rest ih =>
      rw [settle]
      cases hcs : p.staleCtes with
      | nil => exact ⟨p, rfl⟩
      | cons c cs =>
          have hmem : ∀ d ∈ c :: cs, .cte d ∈ plan.subnodes ∧ p.Fed (.cte d) := by
            intro d hd
            rw [← hcs] at hd
            exact h.fed_of_stale hd
          rcases exists_propagateCtes hall (fun d hd => (hmem d hd).1) p with ⟨p₁, hp₁⟩
          have hrun := (visit_propagateCtes hids hscopes hmem hp₁).run
          rcases ih () (Run.invariant hids hscopes hrun h) with ⟨p', hp'⟩
          exact ⟨p', bind_eq_ok.2 ⟨p₁, hp₁, hp'⟩⟩

end Propagation

/-! ## The number of rounds -/

namespace Node

theorem count_roundsOfJoins {js : List (Join Node)}
    (hjs : ∀ j ∈ js, ∀ others, (j.source.rounds others).count =
      j.source.subnodes.length + j.source.planNames.length + (others ()).count)
    (others : Unit → Rounds) :
    (roundsOfJoins js others).count =
      ((js.map Join.source).flatMap subnodes).length +
        (((js.map Join.source).flatMap subnodes).flatMap ownNames).length + (others ()).count := by
  induction js with
  | nil => simp [roundsOfJoins]
  | cons j js ih =>
      rw [roundsOfJoins, hjs j List.mem_cons_self, ih fun k hk => hjs k (List.mem_cons_of_mem _ hk)]
      simp only [List.map_cons, List.flatMap_cons, List.flatMap_append, List.length_append,
        planNames]
      omega

theorem count_roundsOfCtes {cs : List (Cte Node)}
    (hcs : ∀ c ∈ cs, ∀ others, ((Node.cte c).rounds others).count =
      (Node.cte c).subnodes.length + (Node.cte c).planNames.length + (others ()).count)
    (others : Unit → Rounds) :
    (roundsOfCtes cs others).count =
      ((cs.map Node.cte).flatMap subnodes).length +
        (((cs.map Node.cte).flatMap subnodes).flatMap ownNames).length + (others ()).count := by
  induction cs with
  | nil => simp [roundsOfCtes]
  | cons c cs ih =>
      have hfirst := hcs c List.mem_cons_self fun _ => roundsOfCtes cs others
      rw [rounds] at hfirst
      rw [roundsOfCtes, hfirst, ih fun d hd => hcs d (List.mem_cons_of_mem _ hd)]
      simp only [List.map_cons, List.flatMap_cons, List.flatMap_append, List.length_append,
        planNames]
      omega

/-- There is a round for every node and for every name. -/
theorem count_rounds (n : Node) (others : Unit → Rounds) :
    (n.rounds others).count = n.subnodes.length + n.planNames.length + (others ()).count := by
  induction n using induct_parents generalizing others with
  | h n ih =>
      rw [planNames, subnodes_eq]
      cases n with
      | table | text =>
          rw [rounds, Rounds.count]
          simp only [parents, List.flatMap_cons, List.flatMap_nil, List.append_nil,
            List.length_cons, ownNames, List.length_nil]
          omega
      | cte c =>
          rw [rounds, Rounds.count, ih c.body (by simp [parents])]
          simp only [parents, planNames, List.flatMap_cons, List.flatMap_nil, List.append_nil,
            List.length_cons, List.length_append, ownNames, List.length_nil]
          omega
      | createTable id t query =>
          rw [rounds, Rounds.count, ih query (by simp [parents])]
          simp only [parents, planNames, List.flatMap_cons, List.flatMap_nil, List.append_nil,
            List.length_cons, List.length_append, ownNames, List.length_nil]
          omega
      | select s =>
          have hjoin : ∀ j ∈ s.joins, j.source ∈ (Node.select s).parents := by
            intro j hj
            exact List.mem_cons_of_mem _ (List.mem_append_left _ (List.mem_map_of_mem hj))
          have hcte : ∀ c ∈ s.ctes, .cte c ∈ (Node.select s).parents := by
            intro c hc
            exact List.mem_cons_of_mem _ (List.mem_append_right _ (List.mem_map_of_mem hc))
          rw [rounds, Rounds.count, Rounds.count_atLeast, ih s.source (by simp [parents]),
            count_roundsOfJoins fun j hj => ih j.source (hjoin j hj),
            count_roundsOfCtes fun c hc => ih (.cte c) (hcte c hc)]
          simp only [parents, planNames, List.flatMap_cons, List.flatMap_append, List.length_cons,
            List.length_append, ownNames]
          omega

end Node

theorem count_propagationRounds (plan root : Node) :
    plan.subnodes.length * plan.planNames.length < (propagationRounds plan root).count := by
  have hall : (plan.rounds fun _ => root.rounds fun _ => .over).count =
      plan.subnodes.length + plan.planNames.length +
        (root.subnodes.length + root.planNames.length) := by
    rw [Node.count_rounds, Node.count_rounds]
    rfl
  have hnodes : plan.subnodes.length ≤ (plan.rounds fun _ => root.rounds fun _ => .over).count := by
    omega
  have hnames : plan.planNames.length + 1 ≤
      (plan.rounds fun _ => root.rounds fun _ => .over).count + 1 := by
    omega
  have hpos : 0 < plan.subnodes.length :=
    List.length_pos_of_mem (Node.mem_subnodes_self plan)
  rw [propagationRounds, Rounds.count_forEach]
  calc plan.subnodes.length * plan.planNames.length
      < plan.subnodes.length * (plan.planNames.length + 1) :=
        Nat.mul_lt_mul_of_pos_left (Nat.lt_succ_self _) hpos
    _ ≤ _ := Nat.mul_le_mul hnodes hnames

/-! ## The state in the end -/

namespace Propagation

variable {plan root : Node} {p : Propagation}

/-- The state in which the propagation starts. -/
def start (root : Node) : Propagation :=
  ({} : Propagation).requireAll root.id (root.exposedNames ∅)

/-- What holds when all of a plan has been looked at: nothing is left to be done. -/
structure Finished (plan root : Node) (p : Propagation) : Prop where
  run : Run plan (Scopes.ofPlan plan) (start root) p
  consistent : Consistent plan (Scopes.ofPlan plan) p
  refersTo : RefersTo plan p
  paid : ∀ x ∈ plan.subnodes, ¬ p.Owes x
  met : ∀ s, .select s ∈ plan.subnodes → ¬ Unmet (Scopes.ofPlan plan) p s
  drained : p.staleCtes = []

theorem not_requires_empty {i : NodeId} {x : String} : ¬ ({} : Propagation).Requires i x := by
  intro h
  have hnames : ({} : Propagation).required.names i = ∅ := rfl
  rw [Requires, hnames] at h
  simp at h

theorem requires_start {i : NodeId} {x : String} :
    (start root).Requires i x ↔ i = root.id ∧ x ∈ root.exposedNames ∅ := by
  rw [start, requires_requireAll]
  simp only [not_requires_empty, false_or]

theorem fed_start : (start root).Fed root := by
  intro hshows
  rcases List.exists_mem_of_ne_nil _ hshows with ⟨x, hx⟩
  exact ⟨x, requires_start.2 ⟨rfl, hx⟩⟩

theorem invariant_start (hroot : root ∈ plan.subnodes) :
    Invariant plan (Scopes.ofPlan plan) (start root) where
  consistent n _ k hk := by simp [start] at hk
  refersTo i c hc := by simp [start] at hc
  namesOfPlan i x hx :=
    Node.mem_planNames_of_exposedNames Scope.ofPlan_empty hroot (requires_start.1 hx).2

/-- At the start only the root has to be looked at. -/
theorem eq_root_of_owes_start (hids : plan.IdsIdentify) (hroot : root ∈ plan.subnodes) {x : Node}
    (hx : x ∈ plan.subnodes) (h : (start root).Owes x) : x = root := by
  by_contra hne
  have hid : x.id ≠ root.id := by
    intro hid
    exact hne (hids x hx _ hroot hid)
  have howes : ({} : Propagation).Owes x := extends_requireAll.owes hid h
  cases x with
  | table | text => exact howes
  | select s => simp [Owes, Requirements.contains] at howes
  | cte c =>
      rcases howes with ⟨-, y, hy, -⟩
      exact not_requires_empty hy
  | createTable id t query =>
      rcases howes with ⟨y, hy, -⟩
      exact not_requires_empty hy

theorem not_unmet_start {s : Statement} : ¬ Unmet (Scopes.ofPlan plan) (start root) s := by
  rintro ⟨hseen, -⟩
  simp [start] at hseen

/-- The first visit, and what holds when it is over. -/
theorem visit_start (hids : plan.IdsIdentify) (hroot : root ∈ plan.subnodes)
    (h : root.propagate (Scopes.ofPlan plan) (start root) = .ok p) :
    Visit plan (Scopes.ofPlan plan) [root] (start root) p ∧
      Invariant plan (Scopes.ofPlan plan) p := by
  have hscopes : (Scopes.ofPlan plan).OfPlan plan := Scopes.ofPlan_ofPlan
  have hvisit := Node.visit_propagate hids hscopes root hroot fed_start h
  exact ⟨hvisit, Run.invariant hids hscopes hvisit.run (invariant_start hroot)⟩

/-- **The propagation settles.** -/
theorem finished_ofPlan (hids : plan.IdsIdentify) (hroot : root ∈ plan.subnodes)
    (h : Propagation.ofPlan plan root (root.exposedNames ∅) = .ok p) : Finished plan root p := by
  have hscopes : (Scopes.ofPlan plan).OfPlan plan := Scopes.ofPlan_ofPlan
  rcases bind_eq_ok.1 h with ⟨p₁, hp₁, hp⟩
  rcases visit_start hids hroot hp₁ with ⟨hvisit, hinv⟩
  rcases visit_settle hids hscopes hinv hp with ⟨hsettle, hdrained⟩
  have hrun : Run plan (Scopes.ofPlan plan) (start root) p := hvisit.run.trans hsettle.run
  have hinv' := Run.invariant hids hscopes hrun (invariant_start hroot)
  refine ⟨hrun, hinv'.consistent, hinv'.refersTo, ?_, ?_, hdrained ?_⟩
  · intro x hx howes
    rcases hvisit.owes x hx (hsettle.owes x hx howes).1 with ⟨howes, hne⟩
    exact hne (List.mem_singleton.2 (eq_root_of_owes_start hids hroot hx howes))
  · intro s hs hunmet
    exact not_unmet_start (hvisit.unmet s hs (hsettle.unmet s hs hunmet))
  · exact Nat.lt_of_lt_of_le (count_propagationRounds plan root) (Nat.le_add_left _ _)

/-- The propagation goes through. -/
theorem exists_ofPlan (hids : plan.IdsIdentify) (hroot : root ∈ plan.subnodes) :
    ∃ p, Propagation.ofPlan plan root (root.exposedNames ∅) = .ok p := by
  have hscopes : (Scopes.ofPlan plan).OfPlan plan := Scopes.ofPlan_ofPlan
  have hall : ∀ s, .select s ∈ plan.subnodes → ∃ scope, (Scopes.ofPlan plan)[s.id]? = some scope :=
    fun s hs => Scopes.exists_scope hids hs
  rcases Node.exists_propagate hall root hroot (start root) with ⟨p₁, hp₁⟩
  rcases visit_start hids hroot hp₁ with ⟨-, hinv⟩
  rcases exists_settle hids hscopes hall (propagationRounds plan root) hinv with ⟨p, hp⟩
  exact ⟨p, bind_eq_ok.2 ⟨p₁, hp₁, hp⟩⟩

namespace Finished

variable (h : Finished plan root p)

include h

theorem requires_shown {x : String} (hx : x ∈ root.exposedNames ∅) : p.Requires root.id x :=
  Run.grows h.run (requires_start.2 ⟨rfl, hx⟩)

/-- Every statement with an entry has been looked at with its whole set. -/
theorem isSettled {s : Statement} (hs : .select s ∈ plan.subnodes)
    (hentry : p.required.contains s.id = true) : p.isSettled s.id = true := by
  by_contra hno
  exact h.paid _ hs ⟨hentry, Bool.eq_false_iff.2 hno⟩

/-- What is required of a CTE is required of its body. -/
theorem requires_body (hids : plan.IdsIdentify) {c : Cte Node} (hc : .cte c ∈ plan.subnodes)
    {x : String} (hx : p.Requires c.id x) : p.Requires c.body.id x := by
  by_cases href : c.id ∈ p.referenced
  · have hfound := Std.TreeMap.getElem?_eq_some_getElem href
    rcases h.refersTo _ _ hfound with ⟨hid, hmem⟩
    have hsame : Node.cte p.referenced[c.id] = .cte c := hids _ hmem _ hc hid
    injection hsame with hsame
    rw [hsame] at hfound
    have hfresh : p.isStale c.id ≠ true := by
      intro hstale
      have hmem := mem_staleCtes.2 ⟨⟨c.id, hfound⟩, hstale⟩
      rw [h.drained] at hmem
      exact absurd hmem List.not_mem_nil
    have hsettled : p.isSettled (Node.cte c).id = true := isSettled_of_not_isStale hx hfresh
    rcases h.consistent.exists_serves hc hsettled with ⟨set, hset, hserves⟩
    exact hserves x ((hset x).2 hx)
  · by_contra hno
    exact h.paid _ hc ⟨href, x, hx, hno⟩

/-- What is required of the creation of a table is required of its query. -/
theorem requires_query {id : NodeId} {t : TableName} {query : Node}
    (hn : .createTable id t query ∈ plan.subnodes) {x : String} (hx : p.Requires id x) :
    p.Requires query.id x := by
  by_contra hno
  exact h.paid _ hn ⟨x, hx, hno⟩

end Finished

end Propagation

namespace Requirements

variable {plan root : Node}

/-- The requirements are the sets in the end of the propagation, if the columns at the root are
known. -/
theorem ofPlan_eq : Requirements.ofPlan plan root =
    if (root.exposedColumns? ∅).isSome then
      (Propagation.ofPlan plan root (root.exposedNames ∅)).map fun p => some p.required
    else .ok none := by
  rw [Requirements.ofPlan, Node.exposedNames]
  cases root.exposedColumns? ∅ with
  | none => rfl
  | some columns => rfl

/-- The requirements of a plan come from a propagation, and the columns at the root are known. -/
theorem exists_propagation {required : Requirements}
    (h : Requirements.ofPlan plan root = .ok (some required)) :
    (root.exposedColumns? ∅).isSome = true ∧
      ∃ p, Propagation.ofPlan plan root (root.exposedNames ∅) = .ok p ∧ p.required = required := by
  rw [ofPlan_eq] at h
  split at h
  case isFalse => cases h
  case isTrue hknown =>
    cases hp : Propagation.ofPlan plan root (root.exposedNames ∅) with
    | error e =>
        rw [hp] at h
        cases h
    | ok p =>
        rw [hp] at h
        cases h
        exact ⟨hknown, p, rfl, rfl⟩

/-- The requirements of a plan are those of a propagation that has settled. -/
theorem exists_finished {required : Requirements} (hids : plan.IdsIdentify)
    (hroot : root ∈ plan.subnodes) (h : Requirements.ofPlan plan root = .ok (some required)) :
    ∃ p, p.required = required ∧ Propagation.Finished plan root p := by
  rcases exists_propagation h with ⟨-, p, hp, hrequired⟩
  exact ⟨p, hrequired, Propagation.finished_ofPlan hids hroot hp⟩

/-- There are requirements if the columns at the root are known. -/
theorem exists_of_isSome (hids : plan.IdsIdentify) (hroot : root ∈ plan.subnodes)
    (hknown : (root.exposedColumns? ∅).isSome = true) :
    ∃ required, Requirements.ofPlan plan root = .ok (some required) := by
  rcases Propagation.exists_ofPlan hids hroot with ⟨p, hp⟩
  rw [ofPlan_eq, if_pos hknown, hp]
  exact ⟨_, rfl⟩

/-- The requirements of a plan can always be worked out. -/
theorem exists_ofPlan (hids : plan.IdsIdentify) (hroot : root ∈ plan.subnodes) :
    ∃ required, Requirements.ofPlan plan root = .ok required := by
  rcases Propagation.exists_ofPlan hids hroot with ⟨p, hp⟩
  rw [ofPlan_eq, hp]
  split
  · exact ⟨_, rfl⟩
  · exact ⟨_, rfl⟩

end Requirements

end QueryPlan
