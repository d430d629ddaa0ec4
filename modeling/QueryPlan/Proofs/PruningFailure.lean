import QueryPlan.Proofs.Validity
import QueryPlan.Proofs.WellScoped

/-!
# When pruning fails

Pruning refuses a statement that would keep no column.  In a plan that is accepted and well-scoped
this is the only error, and it can happen: a name without a source is required of every source of a
statement, also of one that shows no such column, and a source of which something is required is not
asked for its first column any more.  So a statement that reads a source for its rows only, and
sorts by one of its own output names, leaves nothing of the source.

* `Propagation.Finished.fed_of_reaches` — something is required of every node that pruning looks at.
* `prune_ok_iff_columns_left` — pruning goes through exactly when some of it is a column, at every
  statement; and if not, then a name without a source is to blame.
-/

namespace QueryPlan

/-! ## Accepted plans -/

namespace Node

theorem exists_eq_select {n : Node} (h : n.isSelect = true) : ∃ s, n = .select s := by
  cases n with
  | select s => exact ⟨s, rfl⟩
  | table | text | cte | createTable => cases h

variable {plan : Node} (hids : plan.IdsIdentify) (hvalid : plan.validate = .ok ())

include hids hvalid

theorem wellFormed_of_validate {s : Statement} (hs : .select s ∈ plan.subnodes) : s.WellFormed :=
  (validate_eq_ok_iff hids).1 hvalid _ hs

/-- The body of a CTE is a statement. -/
theorem exists_body_of_validate {c : Cte Node} (hc : .cte c ∈ plan.subnodes) :
    ∃ u, c.body = .select u ∧ .select u ∈ plan.subnodes := by
  have hrule : c.body.isSelect = true := (validate_eq_ok_iff hids).1 hvalid _ hc
  rcases exists_eq_select hrule with ⟨u, hbody⟩
  exact ⟨u, hbody, hbody ▸ body_mem_subnodes hc⟩

/-- A node of an accepted plan shows columns, unless it is a table or a query given as text. -/
theorem exposedNames_ne_nil_of_validate {n : Node} (hn : n ∈ plan.subnodes)
    (hreads : n.parents ≠ []) : n.exposedNames ∅ ≠ [] := by
  have hwraps : ∃ s, .select s ∈ plan.subnodes ∧ n.unwrapped = .select s := by
    cases n with
    | table | text => exact absurd rfl hreads
    | select s => exact ⟨s, hn, rfl⟩
    | cte c =>
        rcases exists_body_of_validate hids hvalid hn with ⟨u, hbody, hu⟩
        exact ⟨u, hu, by rw [unwrapped, hbody]; rfl⟩
    | createTable id t query =>
        have hrule : query.isSelect = true := (validate_eq_ok_iff hids).1 hvalid _ hn
        rcases exists_eq_select hrule with ⟨u, rfl⟩
        exact ⟨u, query_mem_subnodes hn, rfl⟩
  rcases hwraps with ⟨s, hs, hunwrapped⟩
  rw [exposedNames_of_unwrapped hunwrapped, Select.columnNames, ne_eq, List.map_eq_nil_iff]
  exact (wellFormed_of_validate hids hvalid hs).columns

end Node

/-! ## What pruning looks at -/

namespace Propagation.Finished

variable {plan root : Node} {p : Propagation} (h : Finished plan root p) (hids : plan.IdsIdentify)
  (hvalid : plan.validate = .ok ())

include h hids hvalid

omit hids hvalid in
/-- A statement with an entry has been looked at, so its sources are supplied. -/
theorem supplied_of_mem_sourceNodes {s : Statement} (hs : .select s ∈ plan.subnodes)
    (hentry : p.required.contains s.id = true) {scope : Scope}
    (hscope : (Scopes.ofPlan plan)[s.id]? = some scope) {source : Node}
    (hsource : source ∈ s.sourceNodes) : p.Supplied scope source := by
  have hsettled := h.isSettled hs hentry
  have hseen : s.id ∈ p.seenSize := by
    rw [Propagation.isSettled, beq_iff_eq] at hsettled
    rw [Std.TreeMap.mem_iff_isSome_getElem?, hsettled]
    rfl
  by_contra hno
  exact h.met s hs ⟨hseen, scope, hscope, source, hsource, hno⟩

/-- What a statement reads is fed if the statement is. -/
theorem fed_of_mem_sourceNodes {s : Statement} (hs : .select s ∈ plan.subnodes)
    (hfed : p.Fed (.select s)) {source : Node} (hsource : source ∈ s.sourceNodes) :
    p.Fed source := by
  rcases hfed (Node.exposedNames_ne_nil_of_validate hids hvalid hs (by simp [Node.parents])) with
    ⟨x, hx⟩
  rcases Scopes.exists_scope hids hs with ⟨scope, hscope⟩
  have hentry := Requirements.contains_of_mem_names hx
  exact (h.supplied_of_mem_sourceNodes hs hentry hscope hsource).fed

theorem fed_of_mem_reads {n m : Node} (hn : n ∈ plan.subnodes) (hfed : p.Fed n)
    (hm : m ∈ (Pruning.rebuilder p.required).reads n) : p.Fed m := by
  cases n with
  | table | text => simp [Rebuilder.reads, Node.parents] at hm
  | select s =>
      rcases Rebuilder.mem_reads_select.1 hm with hsource | ⟨c, -, hkept, rfl⟩
      · exact h.fed_of_mem_sourceNodes hids hvalid hn hfed hsource
      · intro _
        exact Requirements.requires_iff.1 hkept
  | cte c =>
      have hbody : m = c.body := by simpa [Rebuilder.reads, Node.parents] using hm
      subst hbody
      have hshows := Node.exposedNames_ne_nil_of_validate hids hvalid hn (by simp [Node.parents])
      rcases hfed hshows with ⟨x, hx⟩
      intro _
      exact ⟨x, h.requires_body hids hn hx⟩
  | createTable id t query =>
      have hquery : m = query := by simpa [Rebuilder.reads, Node.parents] using hm
      subst hquery
      have hshows := Node.exposedNames_ne_nil_of_validate hids hvalid hn (by simp [Node.parents])
      rcases hfed hshows with ⟨x, hx⟩
      intro _
      exact ⟨x, h.requires_query hn hx⟩

/-- Something is required of every node that pruning looks at, if it shows columns. -/
theorem fed_of_reaches {n l : Node} (hn : n ∈ plan.subnodes) (hfed : p.Fed n)
    (hl : (Pruning.rebuilder p.required).Reaches n l) : p.Fed l :=
  hl.passes_on (fun _ hk hfed _ hm => h.fed_of_mem_reads hids hvalid hk hfed hm) hn hfed

/-- A statement that pruning looks at has an entry. -/
theorem exists_requires_of_reaches {n : Node} {s : Statement} (hn : n ∈ plan.subnodes)
    (hfed : p.Fed n) (hs : (Pruning.rebuilder p.required).Reaches n (.select s)) :
    ∃ x, p.Requires s.id x := by
  have hmem := Node.mem_subnodes_trans hs.mem_subnodes hn
  exact h.fed_of_reaches hids hvalid hn hfed hs
    (Node.exposedNames_ne_nil_of_validate hids hvalid hmem (by simp [Node.parents]))

omit hids hvalid in
/-- The grouping keys are required, so what a statement keeps are its required columns. -/
theorem kept_eq_filter {s : Statement} (hs : .select s ∈ plan.subnodes)
    (hentry : p.required.contains s.id = true) :
    Pruning.kept (p.required.names s.id) s =
      s.columns.filter fun c => (p.required.names s.id).contains c.name := by
  rcases h.consistent.exists_serves hs (h.isSettled hs hentry) with ⟨set, hset, hserves⟩
  refine List.filter_congr ?_
  intro c _
  rw [Bool.eq_iff_iff, Bool.or_eq_true, Std.TreeSet.contains_iff_mem, List.contains_iff_mem]
  refine ⟨?_, .inl⟩
  rintro (hname | hgroup)
  · exact hname
  · exact (hset c.name).1 (hserves.1 _ (Select.mem_forcedNames.2 (.inl hgroup)))

omit hids hvalid in
theorem kept_ne_nil_iff {s : Statement} (hs : .select s ∈ plan.subnodes)
    (hentry : p.required.contains s.id = true) :
    Pruning.kept (p.required.names s.id) s ≠ [] ↔
      ∃ c ∈ s.columns, c.name ∈ p.required.names s.id := by
  rw [h.kept_eq_filter hs hentry, ne_eq, List.filter_eq_nil_iff]
  simp only [Std.TreeSet.contains_iff_mem, not_forall, not_not, exists_prop]

end Propagation.Finished

/-! ## Success and failure -/

namespace Node

variable {n : Node} {next : NodeId} {required : Requirements}

theorem prune_of_none (h : Requirements.ofPlan n n = .ok none) : n.prune next = .ok (n, next) := by
  rw [prune, h]
  rfl

theorem prune_of_some (h : Requirements.ofPlan n n = .ok (some required)) :
    n.prune next = n.pruneWith required next := by
  rw [prune, h]
  rfl

end Node

namespace Propagation.Finished

variable {n : Node} {next : NodeId} {p : Propagation} (h : Finished n n p) (hids : n.IdsIdentify)
  (hvalid : n.validate = .ok ())

include h

theorem fed_root : p.Fed n := by
  intro hshows
  rcases List.exists_mem_of_ne_nil _ hshows with ⟨x, hx⟩
  exact ⟨x, h.requires_shown hx⟩

include hids hvalid

theorem contains_of_reaches {s : Statement}
    (hs : (Pruning.rebuilder p.required).Reaches n (.select s)) :
    p.required.contains s.id = true := by
  rcases h.exists_requires_of_reaches hids hvalid (Node.mem_subnodes_self n) h.fed_root hs with
    ⟨x, hx⟩
  exact Requirements.contains_of_mem_names hx

/-- Pruning goes through exactly when every statement it looks at puts out a required column. -/
theorem exists_pruneWith_iff_columns_left :
    (∃ out, n.pruneWith p.required next = .ok out) ↔
      ∀ s, (Pruning.rebuilder p.required).Reaches n (.select s) →
        ∃ c ∈ s.columns, c.name ∈ p.required.names s.id := by
  rw [Node.exists_pruneWith_iff hids]
  constructor
  · intro hall s hs
    have hentry := h.contains_of_reaches hids hvalid hs
    exact (h.kept_ne_nil_iff hs.mem_subnodes hentry).1 (hall s hs).2
  · intro hall s hs
    have hentry := h.contains_of_reaches hids hvalid hs
    exact ⟨hentry, (h.kept_ne_nil_iff hs.mem_subnodes hentry).2 (hall s hs)⟩

/-- Where pruning fails, a name without a source is required of a statement that has no column of
those required. -/
theorem byName_of_pruneWith_eq_error (hscoped : n.WellScoped) {e : Error}
    (he : n.pruneWith p.required next = .error e) :
    ∃ s, (Pruning.rebuilder p.required).Reaches n (.select s) ∧
      (∀ c ∈ s.columns, c.name ∉ p.required.names s.id) ∧
      e = Pruning.defect p.required s ("every select column was pruned; columns " ++
        quotedList s.columnNames ++ ", required " ++
        quotedSet (p.required.names s.id).toList) ∧
      p.required.ByName n (.select s) := by
  have hroot := Node.mem_subnodes_self n
  rcases Node.pruneWith_eq_error he with ⟨s, hs, hcolumns⟩
  have hentry := h.contains_of_reaches hids hvalid hs
  rcases Pruning.columns_eq_error hentry hcolumns with ⟨hkept, herror⟩
  have hnone : ∀ c ∈ s.columns, c.name ∉ p.required.names s.id := by
    intro c hc hname
    exact (h.kept_ne_nil_iff hs.mem_subnodes hentry).2 ⟨c, hc, hname⟩ hkept
  refine ⟨s, hs, hnone, herror, ?_⟩
  have hshows : (Node.select s).exposedNames ∅ ≠ [] :=
    Node.exposedNames_ne_nil_of_validate hids hvalid hs.mem_subnodes (by simp [Node.parents])
  have hsome := h.exists_requires_of_reaches hids hvalid hroot h.fed_root hs
  rcases h.allFounded hids hroot hscoped _ hs.mem_subnodes hshows hsome with
    ⟨x, hshown, hx⟩ | hbyName
  · rcases List.mem_map.1 hshown with ⟨c, hc, rfl⟩
    exact absurd hx (hnone c hc)
  · exact hbyName

end Propagation.Finished

/-- **When pruning fails.**  In an accepted and well-scoped plan, pruning goes through exactly when
every statement that it looks at puts out a column that is required of it.  Otherwise it fails at a
statement that puts out nothing of what is required of it, and some of that is a name without a
source that a statement reading it needs.  So a plan without such names can be pruned. -/
theorem prune_ok_iff_columns_left {n : Node} (next : NodeId) (hids : n.IdsIdentify)
    (hvalid : n.validate = .ok ()) (hscoped : n.WellScoped) :
    ∃ found, Requirements.ofPlan n n = .ok found ∧
      ((∃ out, n.prune next = .ok out) ↔
        ∀ required, found = some required → ∀ s,
          (Pruning.rebuilder required).Reaches n (.select s) →
            ∃ c ∈ s.columns, c.name ∈ required.names s.id) ∧
      (∀ e, n.prune next = .error e → ∃ required s, found = some required ∧
        (Pruning.rebuilder required).Reaches n (.select s) ∧
        (∀ c ∈ s.columns, c.name ∉ required.names s.id) ∧
        e = Pruning.defect required s ("every select column was pruned; columns " ++
          quotedList s.columnNames ++ ", required " ++ quotedSet (required.names s.id).toList) ∧
        required.ByName n (.select s)) ∧
      ((∀ s, .select s ∈ n.subnodes → ∀ x, ¬ (Expr.lineages s.exprs).Mentions x) →
        ∃ out, n.prune next = .ok out) := by
  have hroot := Node.mem_subnodes_self n
  rcases Requirements.exists_ofPlan hids hroot with ⟨found, hfound⟩
  refine ⟨found, hfound, ?_⟩
  cases found with
  | none =>
      rw [Node.prune_of_none hfound]
      refine ⟨⟨?_, fun _ => ⟨_, rfl⟩⟩, ?_, fun _ => ⟨_, rfl⟩⟩
      · intro _ required hnone
        cases hnone
      · intro e he
        cases he
  | some required =>
      rw [Node.prune_of_some hfound]
      rcases Requirements.exists_finished hids hroot hfound with ⟨p, rfl, hp⟩
      refine ⟨?_, ?_, ?_⟩
      · rw [hp.exists_pruneWith_iff_columns_left hids hvalid]
        constructor
        · intro hall required hsome
          cases hsome
          exact hall
        · intro hall
          exact hall p.required rfl
      · intro e he
        rcases hp.byName_of_pruneWith_eq_error hids hvalid hscoped he with ⟨s, hs⟩
        exact ⟨p.required, s, rfl, hs⟩
      · intro hqualified
        cases hout : n.pruneWith p.required next with
        | ok out => exact ⟨out, rfl⟩
        | error e =>
            rcases hp.byName_of_pruneWith_eq_error hids hvalid hscoped hout with
              ⟨s, -, -, -, reader, scope, x, hreader, -, -, hmentions, -⟩
            have hown := hmentions.mono (Select.requiredExprs_subset _)
            exact absurd hown (hqualified reader hreader x)

/-- `SELECT b.x AS x FROM t b`. -/
def Select.oneOfTable : Statement :=
  .plain 2 [⟨.column ⟨"b", "x"⟩ true, "x"⟩] (.table 1 ⟨none, "t"⟩) "b"

/-- `SELECT COUNT(*) AS n FROM (SELECT b.x AS x FROM t b) a ORDER BY n`. -/
def Select.countSortedByName : Statement :=
  { Select.plain 3 [⟨.aggregate .count [], "n"⟩] (.select .oneOfTable) "a" with
    orderBy := [⟨.name "n", false⟩] }

theorem wellScoped_countSortedByName : (Node.select .countSortedByName).WellScoped := by
  intro s hs scope hscope
  have hcases : s = .countSortedByName ∨ s = .oneOfTable := by
    simpa [Node.subnodes, Node.subnodesOfJoins, Node.subnodesOfCtes, Select.countSortedByName,
      Select.oneOfTable, Select.plain] using hs
  rcases hcases with rfl | rfl
  · refine ⟨?_, ?_, ?_⟩
    · intro r hr
      cases hr
    · rintro x (hx | hx)
      · cases hx
      · cases hx
    · rintro x (hx | hx)
      · exact .inl hx
      · cases hx
  · have hempty : (Scopes.ofPlan (.select .countSortedByName))[Select.oneOfTable.id]? = some ∅ :=
      rfl
    rw [hempty] at hscope
    cases hscope
    refine ⟨?_, ?_, ?_⟩
    · intro r hr
      rw [List.mem_singleton.1 hr]
      refine ⟨.table 1 ⟨none, "t"⟩, rfl, ?_⟩
      intro columns hcolumns
      cases hcolumns
    · rintro x (hx | hx)
      · cases hx
      · cases hx
    · rintro x (hx | hx)
      · cases hx
      · cases hx

/-- **A plan that cannot be pruned.**  The outer statement needs no column of the inner one, but `n`
is required of it. -/
theorem not_pruned_countSortedByName :
    (Node.select .countSortedByName).IdsIdentify ∧
    (Node.select .countSortedByName).validate = .ok () ∧
    (Node.select .countSortedByName).WellScoped ∧
    ∃ required, Requirements.ofPlan (.select .countSortedByName) (.select .countSortedByName) =
        .ok (some required) ∧
      (required.names Select.oneOfTable.id).toList = ["n"] ∧
      ¬ ∃ out, (Node.select .countSortedByName).prune 10 = .ok out := by
  have hids : (Node.select .countSortedByName).IdsIdentify := Node.idsIdentify_of_nodup (by decide)
  refine ⟨hids, rfl, wellScoped_countSortedByName, _, rfl, rfl, ?_⟩
  rcases prune_ok_iff_columns_left 10 hids rfl wellScoped_countSortedByName with
    ⟨found, hfound, hiff, -⟩
  cases hfound
  rw [hiff]
  intro hall
  have hreaches : ∀ r : Rebuilder, r.Reaches (.select .countSortedByName) (.select .oneOfTable) :=
    fun r => .step List.mem_cons_self (.refl _)
  rcases hall _ rfl .oneOfTable (hreaches _) with ⟨c, hc, hname⟩
  rw [List.mem_singleton.1 hc] at hname
  exact absurd hname (by decide)

end QueryPlan
