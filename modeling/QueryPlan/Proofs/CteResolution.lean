import QueryPlan.Proofs.PrunedForm
import QueryPlan.Proofs.PruningFailure
import QueryPlan.Proofs.References
import QueryPlan.Proofs.ScopePaths

/-!
# Names of CTEs after pruning

Pruning drops CTEs, so a name could come to stand for an outer definition that it did not stand for
before.  This does not happen to a name that is read: a CTE that a source names is required
(`requires_of_namedCte?`) and therefore kept.

The scopes of the pruned plan are followed along its paths.  A path of the pruned plan comes from a
path of the given one (`exists_above_of_above`), and at each statement on it the CTEs that are kept
hide what they did before (`KeepsScope.enter`).  If the statement is reached by this path only then
its scope is the one along the path, in both plans (`prune_keeps_resolution`).  Otherwise the two
plans may record the scopes of different paths.
-/

namespace QueryPlan

open Rebuilder Node

namespace Pruning

variable {required : Requirements} {plan : Node} {done : Std.TreeMap NodeId Node}

/-- What the names of a scope stand for after pruning: a name without a CTE has none, and a name of a
CTE that is kept stands for what has been built for the CTE.  A name of a CTE that is dropped may
stand for an outer one. -/
structure KeepsScope (required : Requirements) (done : Std.TreeMap NodeId Node)
    (scope scope' : Scope) : Prop where
  unnamed : ∀ {name : String}, scope[name]? = none → scope'[name]? = none
  named : ∀ {name : String} {c : Cte Node}, scope[name]? = some c →
    required.requires c.id = true → ∃ c', scope'[name]? = some c' ∧ done[c.id]? = some (.cte c')

theorem keepsScope_empty : KeepsScope required done ∅ ∅ where
  unnamed _ := Std.TreeMap.getElem?_emptyc
  named h := by simp at h

/-- **Shadowing.**  A statement that is built hides the same outer definitions as before, those of
CTEs that are dropped apart. -/
theorem KeepsScope.enter {scope scope' : Scope} (h : KeepsScope required done scope scope')
    (hsound : (rebuilder required).Sound plan done) {s s₀ : Statement}
    (hs : .select s ∈ plan.subnodes) (hprepares : (rebuilder required).Prepares done s s₀)
    (hnames : (s.ctes.map Cte.name).Nodup) :
    KeepsScope required done (scope.enter (.ofCtes s.ctes)) (scope'.enter (.ofCtes s₀.ctes)) := by
  have hname : ∀ c ∈ s.ctes, ∀ c', FormsCte done c c' → c'.name = c.name := by
    intro c hc c' hforms
    have hmem : .cte c ∈ (Node.select s).parents := by simp [Node.parents, hc]
    exact hsound.name_eq_of_formsCte (Node.mem_subnodes_of_parent hmem hs) hforms
  have hnames₀ : (s₀.ctes.map Cte.name).Nodup := by
    have hsame : s₀.ctes.map Cte.name = (s.ctes.filter (rebuilder required).keeps).map Cte.name :=
      map_eq_of_forall₂ hprepares.ctes fun c hc => hname c (List.mem_of_mem_filter hc)
    rw [hsame]
    exact hnames.sublist (List.filter_sublist.map _)
  -- a name that the statement does not define is not defined by what is built for it
  have houter : ∀ {name : String}, (Scope.ofCtes s.ctes)[name]? = none →
      (Scope.ofCtes s₀.ctes)[name]? = none := by
    intro name hnone
    refine Scope.getElem?_ofCtes_eq_none ?_
    intro c' hc' heq
    rcases exists_left_of_forall₂ hprepares.ctes c' hc' with ⟨c, hc, hforms⟩
    have hmem := List.mem_of_mem_filter hc
    have hfound := Scope.getElem?_ofCtes_of_mem hnames hmem
    rw [← hname c hmem c' hforms, heq, hnone] at hfound
    cases hfound
  refine ⟨?_, ?_⟩
  · intro name hnone
    rw [Scope.getElem?_enter, Option.or_eq_none_iff] at hnone ⊢
    exact ⟨houter hnone.1, h.unnamed hnone.2⟩
  · intro name c hfound hkept
    rw [Scope.getElem?_enter, Option.or_eq_some_iff] at hfound
    rw [Scope.getElem?_enter]
    rcases hfound with hown | ⟨hnone, hscope⟩
    · rcases Scope.getElem?_foldl_insert s.ctes ∅ hown with hempty | ⟨d, hd, hdname, rfl⟩
      · simp at hempty
      · rcases exists_right_of_forall₂ hprepares.ctes d (List.mem_filter.2 ⟨hd, hkept⟩) with
          ⟨c', hc', hforms⟩
        have hfound' := Scope.getElem?_ofCtes_of_mem hnames₀ hc'
        rw [hname d hd c' hforms, hdname] at hfound'
        exact ⟨c', by rw [hfound', Option.some_or], hforms⟩
    · rcases h.named hscope hkept with ⟨c', hfound', hdone⟩
      exact ⟨c', by rw [houter hnone, Option.none_or, hfound'], hdone⟩

theorem exists_statement_of_forms {n : Node} {s' : Statement}
    (h : (rebuilder required).Forms done n (.select s')) :
    ∃ s, n = .select s ∧ (rebuilder required).Prepares done s s' := by
  rcases h.exists_prepares_of_select with ⟨s, s₀, hn, hprepares, rfl⟩
  exact ⟨s, hn, hprepares⟩

/-- What reads nothing is only kept, and built for nothing else. -/
theorem eq_of_forms_of_parents_eq_nil {n n' : Node} (h : (rebuilder required).Forms done n n')
    (hleaf : n'.parents = []) : n = n' := by
  cases n with
  | table | text => exact (show n' = _ from h).symm
  | select s => rcases h.exists_prepares with ⟨_, -, rfl⟩; cases hleaf
  | cte c => rcases h with ⟨_, _, -, rfl⟩; cases hleaf
  | createTable j u query => rcases h with ⟨_, _, -, rfl⟩; cases hleaf

/-- What a node reads that has been built was built for a node that the given one reads. -/
theorem exists_read_of_forms {n n' m' : Node} (h : (rebuilder required).Forms done n n')
    (hm' : m' ∈ n'.parents) :
    ∃ m ∈ (rebuilder required).reads n, done[m.id]? = some m' := by
  cases n with
  | table | text =>
      cases h
      simp [Node.parents] at hm'
  | select s =>
      rcases h.exists_prepares with ⟨s₀, hprepares, rfl⟩
      exact exists_left_of_forall₂ hprepares.reads_match m' hm'
  | cte c =>
      rcases h with ⟨id, body, hbody, rfl⟩
      obtain rfl : m' = body := by simpa [Node.parents] using hm'
      exact ⟨c.body, by simp [reads, Node.parents], hbody⟩
  | createTable i t query =>
      rcases h with ⟨id, query', hquery, rfl⟩
      obtain rfl : m' = query' := by simpa [Node.parents] using hm'
      exact ⟨query, by simp [reads, Node.parents], hquery⟩

/-- The scope of what a node reads is kept where the scope of the node is. -/
theorem KeepsScope.inside {scope scope' : Scope} (h : KeepsScope required done scope scope')
    (hsound : (rebuilder required).Sound plan done) {n n' : Node} (hn : n ∈ plan.subnodes)
    (hdone : done[n.id]? = some n')
    (hnames : ∀ s, .select s ∈ plan.subnodes → (s.ctes.map Cte.name).Nodup) :
    KeepsScope required done (scope.inside n) (scope'.inside n') := by
  have hforms := hsound n hn n' hdone
  cases n with
  | table | text =>
      cases hforms
      exact h
  | cte c =>
      rcases hforms with ⟨_, _, -, rfl⟩
      exact h
  | createTable i t query =>
      rcases hforms with ⟨_, _, -, rfl⟩
      exact h
  | select s =>
      rcases hforms.exists_prepares with ⟨s₀, hprepares, rfl⟩
      exact h.enter hsound hn hprepares (hnames s hn)

/-- **Paths of the pruned plan** come from paths of the given one that pruning follows, with the scope
kept. -/
theorem exists_above_of_above {q : Node} (hsound : (rebuilder required).Sound plan done)
    (hroot : done[plan.id]? = some q)
    (hnames : ∀ s, .select s ∈ plan.subnodes → (s.ctes.map Cte.name).Nodup)
    {above' : List Node} {n' : Node} (h : q.Above above' n') :
    ∃ above n, plan.Above above n ∧ (rebuilder required).Reaches plan n ∧
      done[n.id]? = some n' ∧ KeepsScope required done (.along above) (.along above') := by
  induction h with
  | root => exact ⟨[], plan, .root, .refl plan, hroot, keepsScope_empty⟩
  | step _ hm' ih =>
      rcases ih with ⟨above, n, habove, hreach, hdone, hscope⟩
      have hn := habove.mem_subnodes
      rcases exists_read_of_forms (hsound n hn _ hdone) hm' with ⟨m, hm, hmdone⟩
      exact ⟨n :: above, m, habove.step (mem_parents_of_mem_reads hm),
        hreach.trans (.step hm (.refl m)), hmdone, hscope.inside hsound hn hdone hnames⟩

theorem KeepsScope.namedCte?_eq_none {scope scope' : Scope}
    (h : KeepsScope required done scope scope') {n : Node} (hn : n.namedCte? scope = none) :
    n.namedCte? scope' = none := by
  unfold Node.namedCte? at hn ⊢
  split
  case h_1 => exact h.unnamed hn
  case h_2 => rfl

theorem KeepsScope.exists_namedCte? {scope scope' : Scope}
    (h : KeepsScope required done scope scope') {n : Node} {c : Cte Node}
    (hn : n.namedCte? scope = some c) (hkept : required.requires c.id = true) :
    ∃ c', n.namedCte? scope' = some c' ∧ done[c.id]? = some (.cte c') := by
  unfold Node.namedCte? at hn ⊢
  split at hn
  case h_1 => exact h.named hn hkept
  case h_2 => cases hn

/-- How a statement and what has been built for it read CTEs by name.  Both have the same bare tables
as sources, under the same names.  Such a table stands for a CTE if it did before, and then for what
has been built for that CTE, which shows the columns that are read of the source if it did before. -/
structure ReadsAlike (done : Std.TreeMap NodeId Node) (scope scope' : Scope) (s s' : Statement) :
    Prop where
  tables : ∀ name i t, (name, .table i t) ∈ s'.sources ↔ (name, .table i t) ∈ s.sources
  ctes : ∀ name i t, (name, .table i t) ∈ s'.sources →
    Option.Rel (fun c c' => done[c.id]? = some (.cte c') ∧
        ∀ r ∈ s'.columnRefs, r.table = name → r.column ∈ (Node.cte c).exposedNames scope →
          r.column ∈ (Node.cte c').exposedNames scope')
      ((Node.table i t).namedCte? scope) ((Node.table i t).namedCte? scope')

/-- A statement and what has been built for it read CTEs alike, in the scopes that are recorded for
them in the two plans. -/
def ResolvesAlike (plan q : Node) (done : Std.TreeMap NodeId Node) (s s' : Statement) : Prop :=
  ∃ scope scope', (Scopes.ofPlan plan)[s.id]? = some scope ∧
    (Scopes.ofPlan q)[s'.id]? = some scope' ∧ ReadsAlike done scope scope' s s'

theorem mem_sources_iff (hsound : (rebuilder required).Sound plan done) {s s₀ : Statement}
    (hs : .select s ∈ plan.subnodes) (h : (rebuilder required).Prepares done s s₀) (name : String)
    (i : NodeId) (t : TableName) :
    (name, .table i t) ∈ s₀.sources ↔ (name, .table i t) ∈ s.sources := by
  constructor
  · intro hmem
    rcases exists_left_of_forall₂ h.sources_match _ hmem with ⟨⟨name', source⟩, hsource, rfl, hdone⟩
    have hplan := Select.mem_subnodes_of_mem_sourceNodes hs (List.mem_map_of_mem hsource)
    rwa [eq_of_forms_of_parents_eq_nil (hsound source hplan _ hdone) rfl] at hsource
  · intro hmem
    rcases exists_right_of_forall₂ h.sources_match _ hmem with
      ⟨⟨name', source'⟩, hsource', rfl, hdone⟩
    have hplan := Select.mem_subnodes_of_mem_sourceNodes hs (List.mem_map_of_mem hmem)
    have hkept : source' = .table i t := hsound (.table i t) hplan _ hdone
    rwa [hkept] at hsource'

end Pruning

/-! ## Accepted plans -/

namespace Node

variable {plan : Node} (hids : plan.IdsIdentify) (hvalid : plan.validate = .ok ())

include hids hvalid

/-- If there is a statement in a plan, then the columns at its root are known. -/
theorem isSome_exposedColumns?_of_select {s : Statement} (hs : .select s ∈ plan.subnodes) :
    (plan.exposedColumns? ∅).isSome = true := by
  have hreads : plan.parents ≠ [] := by
    intro hnil
    rcases mem_subnodes_iff.1 hs with rfl | ⟨m, hm, -⟩
    · simp [parents] at hnil
    · rw [hnil] at hm
      cases hm
  have hshows := exposedNames_ne_nil_of_validate hids hvalid (mem_subnodes_self plan) hreads
  by_contra hnone
  rw [Bool.not_eq_true, Option.isSome_eq_false_iff, Option.isNone_iff_eq_none] at hnone
  rw [exposedNames, hnone] at hshows
  exact hshows rfl

end Node

namespace Propagation.Finished

variable {plan : Node} {p : Propagation} (h : Finished plan plan p) (hids : plan.IdsIdentify)
  (hvalid : plan.validate = .ok ())

include h hids hvalid

/-- **A CTE that is read is not dropped.** -/
theorem requires_of_namedCte? {s : Statement} (hs : .select s ∈ plan.subnodes)
    (hentry : p.required.contains s.id = true) {scope : Scope}
    (hscope : (Scopes.ofPlan plan)[s.id]? = some scope) {source : Node}
    (hsource : source ∈ s.sourceNodes) {c : Cte Node} (hc : source.namedCte? scope = some c) :
    p.required.requires c.id = true := by
  have hplan : .cte c ∈ plan.subnodes :=
    Node.mem_subnodes_of_namedCte? (Scopes.ofPlan_ofPlan _ _ hscope) hc
  rcases Node.exists_body_of_validate hids hvalid hplan with ⟨u, hbody, hu⟩
  have hshown : source.exposedColumns? scope = some u.columns :=
    Node.exposedColumns?_of_namedCte? hc (by rw [hbody]; rfl)
  rcases h.supplied_of_mem_sourceNodes hs hentry hscope hsource with hnone | hsome
  · have hcolumns := (Node.wellFormed_of_validate hids hvalid hu).columns
    rw [Node.exposedNames, hshown, Option.getD_some, List.map_eq_nil_iff] at hnone
    exact absurd hnone hcolumns
  · have htarget : Propagation.target scope source = c.id := by
      rw [Propagation.target, hc]
      rfl
    rw [htarget] at hsome
    exact Requirements.requires_iff.2 hsome

/-- A CTE shows, after pruning, what it showed and what is required of it. -/
theorem mem_exposedNames_of_requires {done : Std.TreeMap NodeId Node}
    (hsound : (Pruning.rebuilder p.required).Sound plan done) {c c' : Cte Node}
    (hc : .cte c ∈ plan.subnodes) (hdone : done[c.id]? = some (.cte c')) {scope scope' : Scope}
    {x : String} (hshown : x ∈ (Node.cte c).exposedNames scope) (hx : p.Requires c.id x) :
    x ∈ (Node.cte c').exposedNames scope' := by
  rcases Node.exists_body_of_validate hids hvalid hc with ⟨u, hbody, hu⟩
  have hwraps : (Node.cte c).unwrapped = .select u := by rw [Node.unwrapped, hbody]; rfl
  rcases hsound (.cte c) hc _ hdone with ⟨i, body, hbuilt, heq⟩
  cases heq
  rw [hbody] at hbuilt
  rcases (hsound (.select u) hu _ hbuilt).exists_prepares with ⟨u', hprepares, rfl⟩
  rcases Pruning.columns_eq_ok_iff.1 hprepares.columns with ⟨-, -, hcolumns⟩
  rw [Node.exposedNames_of_unwrapped hwraps] at hshown
  rcases List.mem_map.1 hshown with ⟨d, hd, rfl⟩
  have hrequires : p.Requires u.id d.name := h.requires_unwrapped hids _ hc u hwraps hx
  have hkept : d ∈ u'.columns := hcolumns ▸ Pruning.mem_kept.2 ⟨hd, .inl hrequires⟩
  rw [Node.exposedNames_of_unwrapped (s := u') rfl]
  exact List.mem_map_of_mem hkept

/-- **Names of CTEs are understood alike** at a statement and at what is built for it, if the scope is
kept. -/
theorem readsAlike {done : Std.TreeMap NodeId Node}
    (hsound : (Pruning.rebuilder p.required).Sound plan done) {s s₀ : Statement}
    (hs : .select s ∈ plan.subnodes) (hprepares : (Pruning.rebuilder p.required).Prepares done s s₀)
    {scope scope' : Scope} (hscope : (Scopes.ofPlan plan)[s.id]? = some scope)
    (hkeeps : Pruning.KeepsScope p.required done scope scope') :
    Pruning.ReadsAlike done scope scope' s s₀ := by
  have hentry := (Pruning.columns_eq_ok_iff.1 hprepares.columns).1
  have hsources := Pruning.mem_sources_iff hsound hs hprepares
  refine ⟨hsources, ?_⟩
  intro name i t hmem
  have hsource := (hsources name i t).1 hmem
  have hnode : .table i t ∈ s.sourceNodes := List.mem_map_of_mem hsource
  cases hcte : (Node.table i t).namedCte? scope with
  | none =>
      rw [hkeeps.namedCte?_eq_none hcte]
      exact .none
  | some c =>
      have hkept := h.requires_of_namedCte? hids hvalid hs hentry hscope hnode hcte
      have hplan : .cte c ∈ plan.subnodes :=
        Node.mem_subnodes_of_namedCte? (Scopes.ofPlan_ofPlan _ _ hscope) hcte
      rcases hkeeps.exists_namedCte? hcte hkept with ⟨c', hcte', hdone⟩
      rw [hcte']
      refine .some ⟨hdone, ?_⟩
      intro r hr htable hshown
      refine h.mem_exposedNames_of_requires hids hvalid hsound hplan hdone hshown ?_
      -- what is read of the source is required of it, and of the CTE that it stands for
      rcases h.consistent.exists_serves hs (h.isSettled hs hentry) with ⟨set, hset, hserves⟩
      rcases Requirements.closedAt_of_serves hset hserves with ⟨own, hown, hclosed⟩
      rw [hscope] at hown
      cases hown
      rcases List.mem_flatMap.1 hr with ⟨e, he, hre⟩
      rcases Expr.mem_lineage_columns.1 hre with ⟨q, hq⟩
      have hneeds := Pruning.needs_of_mem_exprs hprepares hclosed he
      have hfound : s.source? r.table = some (.table i t) := by
        have hnames : (s.sources.map Prod.fst).Nodup := by
          rw [← Select.sourceNames_eq_map]
          exact (Node.wellFormed_of_validate hids hvalid hs).sourceNames
        rw [htable]
        exact lookup_eq_some_of_mem hnames hsource
      exact (hclosed.columns e hneeds r q hq _ hfound).2 c hcte

end Propagation.Finished

/-! ## The pruned plan -/

/-- **Pruning keeps what the names of CTEs stand for.**  In an accepted plan, every statement of which
is reached by one path only, the names of CTEs are understood at every statement of the pruned plan
as they were at the statement for which it has been built, and no CTE is dropped that is still
read. -/
theorem prune_keeps_resolution {plan q : Node} {next last : NodeId} (hids : plan.IdsIdentify)
    (hbelow : plan.IdsBelow next) (hvalid : plan.validate = .ok ()) (hsingle : plan.SinglePaths)
    (h : plan.prune next = .ok (q, last)) {s' : Statement} (hs' : .select s' ∈ q.subnodes) :
    ∃ required b, Requirements.ofPlan plan plan = .ok (some required) ∧
      (plan.rebuild (Pruning.rebuilder required)).run { next } = .ok (q, b) ∧
      ∃ s, .select s ∈ plan.subnodes ∧
        (∀ m ∈ plan.subnodes, b.done[m.id]? = some (.select s') ↔ m = .select s) ∧
        Pruning.ResolvesAlike plan q b.done s s' := by
  rcases prune_eq_ok_iff.1 h with ⟨hnone, rfl, -⟩ | ⟨required, b, hrequired, hrun, hlast⟩
  · -- a plan with a statement shows columns, so it is not left alone
    have hknown := isSome_exposedColumns?_of_select hids hvalid hs'
    rcases Requirements.exists_of_isSome hids (mem_subnodes_self q) hknown with ⟨required, hrequired⟩
    rw [hnone] at hrequired
    cases hrequired
  · refine ⟨required, b, hrequired, hrun, ?_⟩
    have hlocal : (Pruning.rebuilder required).IsLocal := isLocal_of_finish_eq_id rfl
    rcases sound_of_run hids hrun with ⟨hsound, hroot⟩
    rcases Requirements.exists_finished hids (mem_subnodes_self plan) hrequired with ⟨p, rfl, hp⟩
    have hids' := (rebuilt_identifies hids hbelow hlocal (rebuilt_eq_ok_iff.2 ⟨b, hrun, hlast⟩)).1
    have hapart := rebuild_preserves (Build.steady_apart hbelow) hlocal plan
      (mem_subnodes_self plan) hrun Build.apart_start
    have hnames : ∀ s, .select s ∈ plan.subnodes → (s.ctes.map Cte.name).Nodup :=
      fun s hs => (wellFormed_of_validate hids hvalid hs).cteNames
    -- the path that is recorded for the new statement comes from the one path to the old one
    rcases Scopes.exists_above hids' hs' with ⟨above', hpath', hscope'⟩
    rcases Pruning.exists_above_of_above hsound hroot hnames hpath' with
      ⟨above, n, hpath, -, hdone, hkeeps⟩
    have hn := hpath.mem_subnodes
    rcases Pruning.exists_statement_of_forms (hsound n hn _ hdone) with ⟨s, rfl, hprepares⟩
    have hscope := Scopes.getElem?_ofPlan_of_above hids hsingle hpath
    have hown := hkeeps.inside hsound hn hdone hnames
    refine ⟨s, hn, ?_, _, _, hscope, hscope', hp.readsAlike hids hvalid hsound hn hprepares hscope
      hown⟩
    intro m hm
    constructor
    · intro hmdone
      exact hids m hm _ hn (hapart.apart hmdone hdone rfl)
    · rintro rfl
      exact hdone

/-- `WITH r AS (SELECT t.x AS x, t.y AS y FROM t t), u AS (SELECT t.x AS x FROM t t)
SELECT a.n AS n, d.y AS y
FROM (WITH r AS (SELECT s.x AS x, s.z AS z FROM s s) SELECT COUNT(*) AS n FROM r b) a
CROSS JOIN r d`. -/
def Select.shadowedCte : Statement :=
  { Select.plain 12 [⟨.column ⟨"a", "n"⟩ true, "n"⟩, ⟨.column ⟨"d", "y"⟩ true, "y"⟩]
      (.select
        { Select.plain 10 [⟨.aggregate .count [], "n"⟩] (.table 9 ⟨none, "r"⟩) "b" with
          ctes := [⟨8, "r", .select (.plain 7 [⟨.column ⟨"s", "x"⟩ true, "x"⟩,
            ⟨.column ⟨"s", "z"⟩ true, "z"⟩] (.table 6 ⟨none, "s"⟩) "s")⟩] }) "a" with
    ctes := [⟨2, "r", .select (.plain 1 [⟨.column ⟨"t", "x"⟩ true, "x"⟩,
        ⟨.column ⟨"t", "y"⟩ true, "y"⟩] (.table 0 ⟨none, "t"⟩) "t")⟩,
      ⟨5, "u", .select (.plain 4 [⟨.column ⟨"t", "x"⟩ true, "x"⟩] (.table 3 ⟨none, "t"⟩) "t")⟩]
    joins := [⟨.table 11 ⟨none, "r"⟩, "d", .cross, none⟩] }

/-- Both definitions of `r` are kept, each with one column, and `u` is dropped. -/
theorem prune_keeps_resolution_shadowedCte :
    ∃ q last, (Node.select .shadowedCte).prune 13 = .ok (q, last) ∧
      q.shownColumns = [["n", "y"], ["n"], ["x"], ["y"]] ∧
      ∀ s', .select s' ∈ q.subnodes → ∃ required b s,
        ((Node.select .shadowedCte).rebuild (Pruning.rebuilder required)).run { next := 13 } =
          .ok (q, b) ∧
        b.done[s.id]? = some (.select s') ∧
        Pruning.ResolvesAlike (.select .shadowedCte) q b.done s s' := by
  have hnodup : ((Node.select .shadowedCte).subnodes.map Node.id).Nodup := by decide
  have hids := idsIdentify_of_nodup hnodup
  have hsingle := singlePaths_of_nodup hnodup.of_map
  have hbelow : (Node.select .shadowedCte).IdsBelow 13 := by
    unfold IdsBelow
    decide
  have hruns : ((Node.select .shadowedCte).prune 13).toOption.map (·.1.shownColumns) =
      some [["n", "y"], ["n"], ["x"], ["y"]] := by
    decide +kernel
  rcases exists_ok_of_toOption_map hruns with ⟨⟨q, last⟩, hout, hcolumns⟩
  refine ⟨q, last, hout, hcolumns, ?_⟩
  intro s' hs'
  rcases prune_keeps_resolution hids hbelow rfl hsingle hout hs' with
    ⟨required, b, -, hrun, s, hs, hbuilt, hresolves⟩
  exact ⟨required, b, s, hrun, (hbuilt _ hs).2 rfl, hresolves⟩

end QueryPlan
