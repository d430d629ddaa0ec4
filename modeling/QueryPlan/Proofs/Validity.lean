import QueryPlan.Proofs.Passes

/-!
# Optimised plans are well-formed

`Node.validate` looks for the first node that breaks its rule.  The rules are restated here without
the order in which they are checked (`Select.WellFormed`, `Node.KeepsRule`), and every pass is shown
to keep them.

* Pruning leaves out columns and CTEs, never all columns, and names nothing anew.
* A merged statement has the sources of its child, and the CTEs of both statements, which have no
  name in common.
* A source that is replaced takes a name that no other source of the statement has.

`optimize_validates` puts this together for all passes.
-/

namespace QueryPlan

/-! ## The rules -/

theorem firstRepeat?_eq_none_iff {xs : List String} : ∀ {seen : List String},
    firstRepeat? seen xs = none ↔ xs.Nodup ∧ ∀ x ∈ xs, x ∉ seen := by
  induction xs with
  | nil => simp [firstRepeat?]
  | cons x xs ih =>
      intro seen
      rw [firstRepeat?, List.nodup_cons]
      by_cases hx : x ∈ seen
      · simp [hx]
      · rw [if_neg hx, ih]
        simp only [List.mem_cons, not_or, forall_eq_or_imp]
        constructor
        · rintro ⟨hnodup, hrest⟩
          exact ⟨⟨fun hmem => (hrest x hmem).1 rfl, hnodup⟩, hx, fun y hy => (hrest y hy).2⟩
        · rintro ⟨⟨hnew, hnodup⟩, -, hrest⟩
          exact ⟨hnodup, fun y hy => ⟨fun heq => hnew (heq ▸ hy), hrest y hy⟩⟩

/-- Source names are checked like column names, except that they must not be empty. -/
theorem sourceFault?_eq_none_iff {node : NodeId} {xs : List String} : ∀ {seen : List String},
    sourceFault? node seen xs = none ↔ "" ∉ xs ∧ firstRepeat? seen xs = none := by
  induction xs with
  | nil => simp [sourceFault?, firstRepeat?]
  | cons x xs ih =>
      intro seen
      rw [sourceFault?, firstRepeat?]
      by_cases hempty : x.isEmpty = true
      · simp [String.isEmpty_iff.1 hempty]
      · have hne : "" ≠ x := fun h => hempty (by simp [← h])
        by_cases hx : x ∈ seen
        · simp [hempty, hx]
        · simp [hempty, hx, ih, hne]

/-- The rule of a statement. -/
structure Select.WellFormed {σ : Type} (s : Select σ) : Prop where
  columns : s.columns ≠ []
  columnNames : s.columnNames.Nodup
  named : "" ∉ s.sourceNames
  sourceNames : s.sourceNames.Nodup
  cteNames : (s.ctes.map Cte.name).Nodup

theorem Select.fault?_eq_none_iff {σ : Type} {s : Select σ} : s.fault? = none ↔ s.WellFormed := by
  unfold fault?
  by_cases hcolumns : s.columns = []
  · simp only [hcolumns, List.isEmpty_nil, if_true, reduceCtorEq, false_iff]
    exact fun h => h.columns hcolumns
  · rw [if_neg (by simpa using hcolumns)]
    simp only [Option.orElse_eq_none, Option.map_eq_none_iff, firstRepeat?_eq_none_iff,
      sourceFault?_eq_none_iff, List.not_mem_nil, not_false_eq_true, implies_true, and_true]
    constructor
    · rintro ⟨hnames, ⟨hnamed, hsources⟩, hctes⟩
      exact ⟨hcolumns, hnames, hnamed, hsources, hctes⟩
    · rintro ⟨-, hnames, hnamed, hsources, hctes⟩
      exact ⟨hnames, ⟨hnamed, hsources⟩, hctes⟩

namespace Node

/-- The rule of a node: a table has a name, a statement is well-formed, and a CTE or a table is made
from a statement. -/
def KeepsRule : Node → Prop
  | .table _ t => t.name ≠ ""
  | .text .. => True
  | .select s => s.WellFormed
  | .cte c => c.body.isSelect = true
  | .createTable _ _ query => query.isSelect = true

theorem localFault?_eq_none_iff {n : Node} : n.localFault? = none ↔ n.KeepsRule := by
  cases n with
  | table id t => simp [localFault?, KeepsRule, String.isEmpty_iff]
  | text => simp [localFault?, KeepsRule]
  | select s => exact Select.fault?_eq_none_iff
  | cte c => simp [localFault?, KeepsRule]
  | createTable id t query => simp [localFault?, KeepsRule]

/-- A plan is accepted exactly if every node keeps its rule. -/
theorem validate_eq_ok_iff {n : Node} (hids : n.IdsIdentify) :
    n.validate = .ok () ↔ n.Everywhere KeepsRule := by
  constructor
  · intro h m hm
    exact localFault?_eq_none_iff.1 (localFault?_of_validate hids h hm)
  · intro h
    have hnone : n.reachable.findSome? localFault? = none := by
      refine List.findSome?_eq_none_iff.2 ?_
      intro m hm
      exact localFault?_eq_none_iff.2 (h m ((mem_reachable_iff hids).1 hm))
    rw [validate, hnone]

end Node

/-! ## Steps -/

namespace Select

variable {s child merged : Statement}

/-- A statement that puts out what the parent does, over the sources of the child. -/
theorem wellFormed_of_child (hs : s.WellFormed) (hchild : child.WellFormed)
    (hnames : merged.columnNames = s.columnNames)
    (hsources : merged.source = child.source ∧ merged.sourceName = child.sourceName ∧
      merged.joins = child.joins) (hapart : s.sharesCteName child = false)
    (hctes : merged.ctes = s.ctes ++ child.ctes) : merged.WellFormed := by
  have hsame : merged.sourceNames = child.sourceNames := by
    rw [Select.sourceNames, Select.sourceNames, hsources.2.1, hsources.2.2]
  refine ⟨?_, hnames ▸ hs.columnNames, hsame ▸ hchild.named, hsame ▸ hchild.sourceNames, ?_⟩
  · intro hnil
    have hnone : s.columnNames = [] := by rw [← hnames, Select.columnNames, hnil, List.map_nil]
    exact hs.columns (List.map_eq_nil_iff.1 hnone)
  · rw [hctes, List.map_append]
    refine List.Nodup.append hs.cteNames hchild.cteNames ?_
    intro x hx hx'
    rcases List.mem_map.1 hx' with ⟨c, hc, rfl⟩
    have hshares : s.sharesCteName child = true :=
      List.any_eq_true.2 ⟨c, hc, by simpa using hx⟩
    rw [hapart] at hshares
    cases hshares

theorem Replaces.wellFormed {place : Nat} {name : String} (h : s.Replaces place name child merged)
    (hs : s.WellFormed) (hchild : child.WellFormed) : merged.WellFormed := by
  rcases h.sources_split with ⟨before, after, rfl, hsources, hmerged⟩
  have hnames : merged.columnNames = s.columnNames := MergeStep.columnNames (.replace h)
  have hbefore := hs.sourceNames
  have hfree := h.name_free
  have hnamed := hs.named
  rw [sourceNames_eq_map, hsources, List.map_append, List.map_cons] at hbefore hfree hnamed
  rw [← List.length_map Prod.fst, eraseIdx_split] at hfree
  -- the names of the other sources do not change
  have hothers : (before.map Prod.fst ++ after.map Prod.fst).Nodup :=
    hbefore.sublist ((List.sublist_cons_self _ _).append_left _)
  refine ⟨?_, hnames ▸ hs.columnNames, ?_, ?_, h.ctes ▸ hs.cteNames⟩
  · intro hnil
    have hnone : s.columnNames = [] := by rw [← hnames, Select.columnNames, hnil, List.map_nil]
    exact hs.columns (List.map_eq_nil_iff.1 hnone)
  · rw [sourceNames_eq_map, hmerged, List.map_append, List.map_cons]
    have hne : "" ≠ child.sourceName := fun heq => hchild.named (by simp [sourceNames, heq])
    simp only [List.mem_append, List.mem_cons, not_or] at hnamed ⊢
    exact ⟨hnamed.1, hne, hnamed.2.2⟩
  · rw [sourceNames_eq_map, hmerged, List.map_append, List.map_cons]
    exact List.nodup_middle.2 (List.nodup_cons.2 ⟨hfree, hothers⟩)

theorem wellFormed_dropQualifiers (hs : s.WellFormed) : s.dropQualifiers.WellFormed := by
  refine ⟨?_, columnNames_dropQualifiers s ▸ hs.columnNames, ?_, ?_, ?_⟩
  all_goals unfold dropQualifiers; split
  · simpa using hs.columns
  · exact hs.columns
  · exact hs.named
  · exact hs.named
  · exact hs.sourceNames
  · exact hs.sourceNames
  · exact hs.cteNames
  · exact hs.cteNames

end Select

/-- **A step keeps the rule.** -/
theorem RewriteStep.wellFormed {s merged : Statement} (hstep : RewriteStep s merged)
    (h : (Node.select s).Everywhere Node.KeepsRule) : merged.WellFormed := by
  have hs : s.WellFormed := h.self
  have hbelow : ∀ child, .select child ∈ (Node.select s).parents → child.WellFormed :=
    fun child hchild => h _ (Node.mem_subnodes_of_mem_parents hchild)
  have hnames := hstep.columnNames
  cases hstep with
  | drop => exact Select.wellFormed_dropQualifiers hs
  | merge hstep =>
      cases hstep with
      | project hsource hproject =>
          exact Select.wellFormed_of_child hs (hbelow _ (Select.child_mem_parents hsource)) hnames
            hproject.sources hproject.ctes_apart hproject.ctes
      | inline _ hsource hinline =>
          exact Select.wellFormed_of_child hs (hbelow _ (Select.child_mem_parents hsource)) hnames
            hinline.sources hinline.ctes_apart hinline.ctes
      | replace hreplace =>
          exact hreplace.wellFormed hs (hbelow _ hreplace.child_mem_parents)

/-! ## Building -/

namespace Rebuilder

variable {r : Rebuilder} {plan : Node} {done : Std.TreeMap NodeId Node}

theorem Forms.isSelect_eq {n n' : Node} (h : r.Forms done n n') : n'.isSelect = n.isSelect := by
  cases n with
  | table | text => rw [show n' = _ from h]
  | select s =>
      rcases h.exists_prepares with ⟨s₀, -, rfl⟩
      rfl
  | cte c =>
      rcases h with ⟨id, body, -, rfl⟩
      rfl
  | createTable id t query =>
      rcases h with ⟨id', query', -, rfl⟩
      rfl

/-- A CTE keeps its name. -/
theorem Sound.name_eq_of_formsCte (hsound : r.Sound plan done) {c c' : Cte Node}
    (hc : .cte c ∈ plan.subnodes) (h : FormsCte done c c') : c'.name = c.name := by
  rcases hsound (.cte c) hc _ h with ⟨id, body, -, heq⟩
  cases heq
  rfl

theorem Prepares.sourceNames_eq {s s₀ : Statement} (h : r.Prepares done s s₀) :
    s₀.sourceNames = s.sourceNames := by
  have hjoins : s₀.joins.map Join.sourceName = s.joins.map Join.sourceName := by
    refine map_eq_of_forall₂ h.joins ?_
    rintro j - j' ⟨source, -, rfl⟩
    rfl
  have hname : s₀.sourceName = s.sourceName := by rw [h.clauses]
  rw [Select.sourceNames, Select.sourceNames, hjoins, hname]

/-- A prepared statement keeps the rule if it has some of the columns of the given one. -/
theorem Prepares.wellFormed {s s₀ : Statement} (h : r.Prepares done s s₀)
    (hsound : r.Sound plan done) (hs : .select s ∈ plan.subnodes) (hrule : s.WellFormed)
    (hcolumns : s₀.columns ≠ []) (hsub : s₀.columns.Sublist s.columns) : s₀.WellFormed := by
  have hctes : s₀.ctes.map Cte.name = (s.ctes.filter r.keeps).map Cte.name := by
    refine map_eq_of_forall₂ h.ctes ?_
    intro c hc c' hforms
    have hmem : .cte c ∈ (Node.select s).parents := by
      simp [Node.parents, (List.mem_filter.1 hc).1]
    exact hsound.name_eq_of_formsCte (Node.mem_subnodes_of_parent hmem hs) hforms
  refine ⟨hcolumns, hrule.columnNames.sublist (hsub.map _), ?_, ?_, ?_⟩
  · exact h.sourceNames_eq ▸ hrule.named
  · exact h.sourceNames_eq ▸ hrule.sourceNames
  · rw [hctes]
    exact hrule.cteNames.sublist (List.filter_sublist.map _)

/-- What is built for a node other than a statement keeps the rule of that node. -/
theorem Sound.keepsRule (hsound : r.Sound plan done) {n n' : Node} (hn : n ∈ plan.subnodes)
    (hselect : n.isSelect = false) (hrule : n.KeepsRule) (h : r.Forms done n n') :
    n'.KeepsRule := by
  cases n with
  | table | text => rwa [show n' = _ from h]
  | select s => cases hselect
  | cte c =>
      rcases h with ⟨id, body, hbody, rfl⟩
      have hforms := hsound c.body (Node.body_mem_subnodes hn) body hbody
      exact hforms.isSelect_eq.trans hrule
  | createTable id t query =>
      rcases h with ⟨id', query', hquery, rfl⟩
      have hforms := hsound query (Node.query_mem_subnodes hn) query' hquery
      exact hforms.isSelect_eq.trans hrule

/-- Passes that rewrite keep the rules. -/
theorem Rewrites.keepsRule (hrewrites : r.Rewrites) (hplan : plan.Everywhere Node.KeepsRule)
    (hsound : r.Sound plan done) : r.Keeps Node.KeepsRule plan done where
  other n hn hselect n' hforms := hsound.keepsRule hn hselect (hplan n hn) hforms
  prepared s hs s₀ h := by
    have hrule : s.WellFormed := hplan _ hs
    have hsame := hrewrites.columns_eq h
    exact h.wellFormed hsound hs hrule (hsame ▸ hrule.columns) (hsame ▸ List.Sublist.refl _)
  finished := hrewrites.finished RewriteStep.wellFormed

end Rebuilder

/-- Pruning keeps the rules: it leaves a column in every statement. -/
theorem Pruning.keepsRule {required : Requirements} {plan : Node}
    {done : Std.TreeMap NodeId Node} (hplan : plan.Everywhere Node.KeepsRule)
    (hsound : (Pruning.rebuilder required).Sound plan done) :
    (Pruning.rebuilder required).Keeps Node.KeepsRule plan done where
  other n hn hselect n' hforms := hsound.keepsRule hn hselect (hplan n hn) hforms
  prepared s hs s₀ h := by
    rcases Pruning.columns_eq_ok_iff.1 h.columns with ⟨-, hkept, hcolumns⟩
    refine h.wellFormed hsound hs (hplan _ hs) (hcolumns ▸ hkept) ?_
    rw [hcolumns]
    exact List.filter_sublist
  finished s₀ h := h.self

/-- **Optimised plans are well-formed**: a plan that is accepted, and whose identities tell its nodes
apart, is optimised to a plan that is accepted.  The first free identity must be free. -/
theorem optimize_validates {c : Config} {plan plan' : Plan} {next next' : NodeId}
    (hids : plan.root.IdsIdentify) (hnext : plan.root.IdsBelow next)
    (hvalid : plan.root.validate = .ok ()) (h : optimize c plan next = .ok (plan', next')) :
    plan'.root.validate = .ok () ∧ plan'.root.Everywhere Node.KeepsRule := by
  have hsane : plan.root.Sane Node.KeepsRule next :=
    ⟨hids, hnext, (Node.validate_eq_ok_iff hids).1 hvalid⟩
  have hsane' : plan'.root.Sane Node.KeepsRule next' := by
    refine optimize_sane ?_ ?_ hsane h
    · intro n required done _ hn _ hsound
      exact Pruning.keepsRule hn hsound
    · intro r n done hrewrites hn hsound
      exact hrewrites.keepsRule hn hsound
  exact ⟨(Node.validate_eq_ok_iff hsane'.ids).2 hsane'.everywhere, hsane'.everywhere⟩

/-- Both sources are replaced and take new names, and the CTE that one of them names stays. -/
theorem optimize_validates_joinedProjections :
    (Node.select .joinedProjections).validate = .ok () ∧
      ∃ plan' next', optimize {} ⟨⟨0⟩, .select .joinedProjections⟩ 9 = .ok (plan', next') ∧
        plan'.root.select?.map Select.sourceNames = some ["c", "e"] ∧
        plan'.root.validate = .ok () ∧ plan'.root.Everywhere Node.KeepsRule := by
  have hvalid : (Node.select .joinedProjections).validate = .ok () := rfl
  have hruns : (optimize {} ⟨⟨0⟩, .select .joinedProjections⟩ 9).toOption.bind
      (fun out => out.1.root.select?.map Select.sourceNames) = some ["c", "e"] := by
    decide +kernel
  rcases exists_ok_of_toOption_bind hruns with ⟨⟨plan', next'⟩, hout, hnames⟩
  exact ⟨hvalid, plan', next', hout, hnames,
    optimize_validates idsIdentify_joinedProjections idsBelow_joinedProjections hvalid hout⟩

end QueryPlan
