import QueryPlan.Proofs.CteResolution
import QueryPlan.Proofs.LexicalScopes
import QueryPlan.Proofs.Likeness

/-!
# The CTEs that a text may read

A query that is given as text may read any CTE in scope, and it cannot be seen which columns it
reads.  So a statement with a text below it, at whatever depth, requires all columns of all its CTEs
(`requires_of_leadsToText`), and they reach the statements in these CTEs when the propagation
settles.  Hence pruning keeps the CTEs with all their columns (`Intact`).

It follows that pruning turns back nowhere on the way to a text (`exists_above_of_leadsToText`), and
that a text has the same names in scope as before, each of them for a CTE that is intact.
-/

namespace QueryPlan

open Rebuilder Node

namespace Node

/-- Some text lies below a node. -/
def LeadsToText (n : Node) : Prop :=
  ∃ t ∈ n.subnodes, t.isText = true

theorem exists_eq_text {n : Node} (h : n.isText = true) : ∃ i sql, n = .text i sql := by
  cases n with
  | text i sql => exact ⟨i, sql, rfl⟩
  | table | select | cte | createTable => cases h

theorem LeadsToText.of_mem_subnodes {n m : Node} (h : m.LeadsToText) (hm : m ∈ n.subnodes) :
    n.LeadsToText := by
  rcases h with ⟨t, ht, htext⟩
  exact ⟨t, mem_subnodes_trans ht hm, htext⟩

/-- The nodes on a path are reached by its parts and lie above its end. -/
theorem Above.of_mem {plan n m : Node} {above : List Node} (h : plan.Above above n)
    (hm : m ∈ above) : (∃ above₁, plan.Above above₁ m) ∧ n ∈ m.subnodes := by
  induction h with
  | root => cases hm
  | step hpath hparent ih =>
      rcases List.mem_cons.1 hm with rfl | hm
      · exact ⟨⟨_, hpath⟩, mem_subnodes_of_mem_parents hparent⟩
      · exact ⟨(ih hm).1, mem_subnodes_of_parent hparent (ih hm).2⟩

end Node

/-- The definitions along a path are CTEs of the statements on it. -/
theorem Scope.exists_select_of_along {above : List Node} {name : String} {c : Cte Node}
    (h : (Scope.along above)[name]? = some c) :
    ∃ s, .select s ∈ above ∧ c ∈ s.ctes ∧ c.name = name := by
  rw [getElem?_along, List.findSome?_eq_some_iff] at h
  rcases h with ⟨_, n, _, rfl, hdefined, -⟩
  cases n with
  | table | text | cte | createTable => cases hdefined
  | select s =>
      have hmem := List.mem_filter.1 (List.mem_of_getLast? hdefined)
      exact ⟨s, by simp, hmem.1, beq_iff_eq.1 hmem.2⟩

theorem Select.cte_mem_subnodes {plan : Node} {s : Statement} (hs : .select s ∈ plan.subnodes)
    {c : Cte Node} (hc : c ∈ s.ctes) : .cte c ∈ plan.subnodes := by
  refine Node.mem_subnodes_of_parent ?_ hs
  rw [parents_select]
  exact List.mem_append_right _ (List.mem_map_of_mem hc)

/-- A statement asks for all columns of its CTEs if a text lies below it. -/
theorem Select.ofCte_mem_asks_of_leadsToText {s : Statement} (hids : (Node.select s).IdsIdentify)
    (htext : (Node.select s).LeadsToText) {c : Cte Node} (hc : c ∈ s.ctes) (scope : Scope)
    (lineage : Lineage) : .ofCte c (c.body.exposedNames scope) ∈ s.asks scope lineage := by
  have hcondition : (!s.ctes.isEmpty && s.hasTextBelow) = true := by
    rw [(hasTextBelow_iff hids).2 htext, Bool.and_true, Bool.not_eq_true']
    exact List.isEmpty_eq_false_iff.2 (List.ne_nil_of_mem hc)
  have hask : .ofCte c (c.body.exposedNames scope) ∈ s.cteAsks scope := by
    rw [cteAsks, if_pos hcondition]
    exact List.mem_map_of_mem hc
  exact List.mem_append_left _ (List.mem_append_left _ (List.mem_append_left _ hask))

/-! ## CTEs above a text -/

/-- What has been built for a CTE has its name and all its columns. -/
structure Pruning.Intact (done : Std.TreeMap NodeId Node) (c c' : Cte Node) : Prop where
  built : done[c.id]? = some (.cte c')
  name : c'.name = c.name
  columns : ∃ u u', c.body = .select u ∧ c'.body = .select u' ∧ u'.columns = u.columns

/-- Two scopes have the same names, and the CTEs of the first one are intact in the second. -/
def Pruning.IntactScope (done : Std.TreeMap NodeId Node) (scope scope' : Scope) : Prop :=
  ∀ name : String, Option.Rel (Intact done) scope[name]? scope'[name]?

namespace Propagation.Finished

variable {plan root : Node} {p : Propagation} (h : Finished plan root p) (hids : plan.IdsIdentify)
  (hvalid : plan.validate = .ok ()) {s : Statement} (hs : .select s ∈ plan.subnodes)
  (hentry : p.required.contains s.id = true) (htext : (Node.select s).LeadsToText)

include h hids hs hentry htext

/-- **All columns of a CTE above a text are required.** -/
theorem requires_of_leadsToText {c : Cte Node} (hc : c ∈ s.ctes) {u : Statement}
    (hbody : c.body = .select u) {x : String} (hx : x ∈ u.columnNames) : p.Requires c.id x := by
  rcases h.consistent.exists_serves hs (h.isSettled hs hentry) with ⟨set, -, -, scope, -, hasks⟩
  refine hasks _ (Select.ofCte_mem_asks_of_leadsToText (hids.below hs) htext hc scope _) _ _ ?_
  refine ⟨rfl, ?_⟩
  rwa [hbody, Node.exposedNames_of_unwrapped rfl]

include hvalid

theorem requires_cte_of_leadsToText {c : Cte Node} (hc : c ∈ s.ctes) :
    p.required.requires c.id = true := by
  have hplan := Select.cte_mem_subnodes hs hc
  rcases Node.exists_body_of_validate hids hvalid hplan with ⟨u, hbody, hu⟩
  have hcolumns := (Node.wellFormed_of_validate hids hvalid hu).columns
  rcases List.exists_mem_of_ne_nil _ hcolumns with ⟨column, hcolumn⟩
  have hrequires :=
    h.requires_of_leadsToText hids hs hentry htext hc hbody (List.mem_map_of_mem hcolumn)
  exact Requirements.requires_iff.2 ⟨column.name, hrequires⟩

/-- A CTE above a text is built as it was. -/
theorem intact_of_leadsToText {done : Std.TreeMap NodeId Node}
    (hsound : (Pruning.rebuilder p.required).Sound plan done) {c c' : Cte Node} (hc : c ∈ s.ctes)
    (hdone : done[c.id]? = some (.cte c')) : Pruning.Intact done c c' := by
  have hplan := Select.cte_mem_subnodes hs hc
  rcases Node.exists_body_of_validate hids hvalid hplan with ⟨u, hbody, hu⟩
  rcases hsound (.cte c) hplan _ hdone with ⟨i, body, hbuilt, heq⟩
  cases heq
  refine ⟨hdone, rfl, u, ?_⟩
  rw [hbody] at hbuilt
  rcases (hsound (.select u) hu _ hbuilt).exists_prepares with ⟨u', hprepares, rfl⟩
  refine ⟨u', hbody, rfl, ?_⟩
  rw [(Pruning.columns_eq_ok_iff.1 hprepares.columns).2.2, Pruning.kept, List.filter_eq_self]
  intro column hcolumn
  have hrequires :=
    h.requires_of_leadsToText hids hs hentry htext hc hbody (List.mem_map_of_mem hcolumn)
  have hown : p.Requires (Node.select u).id column.name :=
    hbody ▸ h.requires_body hids hplan hrequires
  exact Bool.or_eq_true_iff.2 (.inl (Std.TreeSet.contains_iff_mem.2 hown))

/-- A statement above a text keeps all its CTEs, and they are intact. -/
theorem forall₂_intact_of_leadsToText {done : Std.TreeMap NodeId Node}
    (hsound : (Pruning.rebuilder p.required).Sound plan done) {s₀ : Statement}
    (hprepares : (Pruning.rebuilder p.required).Prepares done s s₀) :
    List.Forall₂ (Pruning.Intact done) s.ctes s₀.ctes := by
  have hall : s.ctes.filter (Pruning.rebuilder p.required).keeps = s.ctes :=
    List.filter_eq_self.2 fun c hc => h.requires_cte_of_leadsToText hids hvalid hs hentry htext hc
  have hbuilt := hprepares.ctes
  rw [hall] at hbuilt
  have hmem := (List.forall₂_and_left _ _).2 ⟨fun c (hc : c ∈ s.ctes) => hc, hbuilt⟩
  refine hmem.imp ?_
  rintro c c' ⟨hc, hdone⟩
  exact h.intact_of_leadsToText hids hvalid hs hentry htext hsound hc hdone

end Propagation.Finished

/-! ## Paths to a text -/

namespace Propagation.Finished

variable {plan q : Node} {p : Propagation} {done : Std.TreeMap NodeId Node}
  (h : Finished plan plan p) (hids : plan.IdsIdentify) (hvalid : plan.validate = .ok ())
  (hsound : (Pruning.rebuilder p.required).Sound plan done) (hroot : done[plan.id]? = some q)

include h hids hvalid hsound

/-- Pruning goes on from a node to everything that leads to a text. -/
theorem exists_built_of_leadsToText {n n' m : Node} (hn : n ∈ plan.subnodes)
    (hdone : done[n.id]? = some n') (hm : m ∈ n.parents) (htext : m.LeadsToText) :
    ∃ m' ∈ n'.parents, done[m.id]? = some m' := by
  have hforms := hsound n hn n' hdone
  cases n with
  | table | text => simp [Node.parents] at hm
  | cte c =>
      rcases hforms with ⟨_, body, hbody, rfl⟩
      obtain rfl : m = c.body := by simpa [Node.parents] using hm
      exact ⟨body, by simp [Node.parents], hbody⟩
  | createTable i t query =>
      rcases hforms with ⟨_, query', hquery, rfl⟩
      obtain rfl : m = query := by simpa [Node.parents] using hm
      exact ⟨query', by simp [Node.parents], hquery⟩
  | select s =>
      rcases hforms.exists_prepares with ⟨s₀, hprepares, rfl⟩
      have hentry := (Pruning.columns_eq_ok_iff.1 hprepares.columns).1
      have hstatement := htext.of_mem_subnodes (mem_subnodes_of_mem_parents hm)
      refine exists_right_of_forall₂ hprepares.reads_match m (mem_reads_select.2 ?_)
      rw [Select.parents_select, List.mem_append] at hm
      rcases hm with hsource | hcte
      · exact .inl hsource
      · rcases List.mem_map.1 hcte with ⟨c, hc, rfl⟩
        have hkept := h.requires_cte_of_leadsToText hids hvalid hn hentry hstatement hc
        exact .inr ⟨c, hc, hkept, rfl⟩

include hroot

/-- **Pruning follows every path to a text**, and keeps the scope along it. -/
theorem exists_above_of_leadsToText {above : List Node} {n : Node} (hpath : plan.Above above n)
    (htext : n.LeadsToText) :
    ∃ above' n', q.Above above' n' ∧ done[n.id]? = some n' ∧
      Pruning.KeepsScope p.required done (.along above) (.along above') := by
  induction hpath with
  | root => exact ⟨[], q, .root, hroot, Pruning.keepsScope_empty⟩
  | step hpath hm ih =>
      rcases ih (htext.of_mem_subnodes (mem_subnodes_of_mem_parents hm)) with
        ⟨above', n', hpath', hdone, hkeeps⟩
      have hn := hpath.mem_subnodes
      rcases h.exists_built_of_leadsToText hids hvalid hsound hn hdone hm htext with
        ⟨m', hm', hmdone⟩
      have hnames : ∀ s, .select s ∈ plan.subnodes → (s.ctes.map Cte.name).Nodup :=
        fun s hs => (wellFormed_of_validate hids hvalid hs).cteNames
      exact ⟨n' :: above', m', hpath'.step hm', hmdone, hkeeps.inside hsound hn hdone hnames⟩

/-- Along a path to a text, every name stands for a CTE that is intact. -/
theorem intactScope_along {above : List Node} {t : Node} (hpath : plan.Above above t)
    (htext : t.isText = true) {scope' : Scope}
    (hkeeps : Pruning.KeepsScope p.required done (.along above) scope') :
    Pruning.IntactScope done (.along above) scope' := by
  intro name
  cases hfound : (Scope.along above)[name]? with
  | none =>
      rw [hkeeps.unnamed hfound]
      exact .none
  | some c =>
      rcases Scope.exists_select_of_along hfound with ⟨s, hs, hc, -⟩
      rcases hpath.of_mem hs with ⟨⟨above₁, hpath₁⟩, hbelow⟩
      have hleads : (Node.select s).LeadsToText := ⟨t, hbelow, htext⟩
      -- the statement that defines the name has been built, so it has an entry
      rcases h.exists_above_of_leadsToText hids hvalid hsound hroot hpath₁ hleads with
        ⟨-, s', -, hdone, -⟩
      have hplan := hpath₁.mem_subnodes
      rcases (hsound _ hplan _ hdone).exists_prepares with ⟨s₀, hprepares, -⟩
      have hentry := (Pruning.columns_eq_ok_iff.1 hprepares.columns).1
      have hkept := h.requires_cte_of_leadsToText hids hvalid hplan hentry hleads hc
      rcases hkeeps.named hfound hkept with ⟨c', hfound', hbuilt⟩
      rw [hfound']
      exact .some (h.intact_of_leadsToText hids hvalid hplan hentry hleads hsound hc hbuilt)

/-- A path to a text in the pruned plan comes from one in the given plan. -/
theorem exists_given_path {above' : List Node} {t : Node} (htext : t.isText = true)
    (hpath' : q.Above above' t) :
    ∃ above, plan.Above above t ∧ Pruning.IntactScope done (.along above) (.along above') := by
  have hnames : ∀ s, .select s ∈ plan.subnodes → (s.ctes.map Cte.name).Nodup :=
    fun s hs => (wellFormed_of_validate hids hvalid hs).cteNames
  rcases Pruning.exists_above_of_above hsound hroot hnames hpath' with
    ⟨above, n, hpath, -, hdone, hkeeps⟩
  rcases exists_eq_text htext with ⟨i, sql, rfl⟩
  have hforms := hsound n hpath.mem_subnodes _ hdone
  obtain rfl := Pruning.eq_of_forms_of_parents_eq_nil hforms rfl
  exact ⟨above, hpath, h.intactScope_along hids hvalid hsound hroot hpath htext hkeeps⟩

/-- A path to a text in the given plan has become one in the pruned plan. -/
theorem exists_pruned_path {above : List Node} {t : Node} (htext : t.isText = true)
    (hpath : plan.Above above t) :
    ∃ above', q.Above above' t ∧ Pruning.IntactScope done (.along above) (.along above') := by
  rcases h.exists_above_of_leadsToText hids hvalid hsound hroot hpath
    ⟨t, mem_subnodes_self t, htext⟩ with ⟨above', t', hpath', hdone, hkeeps⟩
  rcases exists_eq_text htext with ⟨i, sql, rfl⟩
  obtain rfl : t' = .text i sql := hsound _ hpath.mem_subnodes _ hdone
  exact ⟨above', hpath', h.intactScope_along hids hvalid hsound hroot hpath htext hkeeps⟩

end Propagation.Finished

/-! ## The pruned plan -/

/-- A plan that is accepted and left alone has no statement. -/
theorem Node.not_mem_subnodes_of_ofPlan_eq_none {plan : Node} (hids : plan.IdsIdentify)
    (hvalid : plan.validate = .ok ()) (hnone : Requirements.ofPlan plan plan = .ok none)
    (s : Statement) : .select s ∉ plan.subnodes := by
  intro hs
  have hknown := isSome_exposedColumns?_of_select hids hvalid hs
  rcases Requirements.exists_of_isSome hids (mem_subnodes_self plan) hknown with
    ⟨required, hrequired⟩
  rw [hnone] at hrequired
  cases hrequired

/-- Where there is no statement, nothing is in scope. -/
theorem Pruning.intactScope_of_no_select {plan : Node} (hempty : ∀ s, .select s ∉ plan.subnodes)
    {above : List Node} {t : Node} (hpath : plan.Above above t) (done : Std.TreeMap NodeId Node) :
    IntactScope done (.along above) (.along above) := by
  intro name
  cases hfound : (Scope.along above)[name]? with
  | none => exact .none
  | some c =>
      rcases Scope.exists_select_of_along hfound with ⟨s, hs, -⟩
      rcases hpath.of_mem hs with ⟨⟨_, hpath₁⟩, -⟩
      exact absurd hpath₁.mem_subnodes (hempty s)

/-- **Texts see intact CTEs.**  In an accepted plan that can be pruned, a statement of the pruned plan
has the CTEs of the statement for which it has been built, if a text lies below that one, and each
of them has all its columns.  So for every path to a text, in the pruned plan and in the given one,
there is a path to it in the other along which the same names are in scope, for CTEs that are
intact. -/
theorem prune_keeps_ctes_above_text {plan q : Node} {next last : NodeId} (hids : plan.IdsIdentify)
    (hbelow : plan.IdsBelow next) (hvalid : plan.validate = .ok ())
    (h : plan.prune next = .ok (q, last)) :
    ∃ done : Std.TreeMap NodeId Node,
      (∀ required, Requirements.ofPlan plan plan = .ok (some required) →
        ∃ b, (plan.rebuild (Pruning.rebuilder required)).run { next } = .ok (q, b) ∧
          b.done = done) ∧
      (∀ s', .select s' ∈ q.subnodes → ∃ s, .select s ∈ plan.subnodes ∧
        (∀ m ∈ plan.subnodes, done[m.id]? = some (.select s') ↔ m = .select s) ∧
        ((Node.select s).LeadsToText →
          s'.ctes.map Cte.name = s.ctes.map Cte.name ∧
          List.Forall₂ (Pruning.Intact done) s.ctes s'.ctes)) ∧
      (∀ above' t, t.isText = true → q.Above above' t → ∃ above, plan.Above above t ∧
        Pruning.IntactScope done (.along above) (.along above')) ∧
      (∀ above t, t.isText = true → plan.Above above t → ∃ above', q.Above above' t ∧
        Pruning.IntactScope done (.along above) (.along above')) := by
  rcases prune_eq_ok_iff.1 h with ⟨hnone, rfl, -⟩ | ⟨required, b, hrequired, hrun, -⟩
  · have hempty := not_mem_subnodes_of_ofPlan_eq_none hids hvalid hnone
    refine ⟨∅, ?_, ?_, ?_, ?_⟩
    · intro required hrequired
      rw [hnone] at hrequired
      cases hrequired
    · intro s' hs'
      exact absurd hs' (hempty s')
    · intro above' t _ hpath
      exact ⟨above', hpath, Pruning.intactScope_of_no_select hempty hpath ∅⟩
    · intro above t _ hpath
      exact ⟨above, hpath, Pruning.intactScope_of_no_select hempty hpath ∅⟩
  · have hlocal : (Pruning.rebuilder required).IsLocal := isLocal_of_finish_eq_id rfl
    rcases sound_of_run hids hrun with ⟨hsound, hroot⟩
    have hapart := rebuild_preserves (Build.steady_apart hbelow) hlocal plan
      (mem_subnodes_self plan) hrun Build.apart_start
    rcases Requirements.exists_finished hids (mem_subnodes_self plan) hrequired with ⟨p, rfl, hp⟩
    refine ⟨b.done, ?_, ?_, ?_, ?_⟩
    · intro required hsame
      rw [hrequired] at hsame
      cases hsame
      exact ⟨b, hrun, rfl⟩
    · intro s' hs'
      rcases exists_pruned_from hids hrun hs' with ⟨s, hs, hdone⟩
      refine ⟨s, hs, ?_, ?_⟩
      · intro m hm
        constructor
        · intro hmdone
          exact hids m hm _ hs (hapart.apart hmdone hdone rfl)
        · rintro rfl
          exact hdone
      · intro htext
        rcases (hsound _ hs _ hdone).exists_prepares with ⟨s₀, hprepares, heq⟩
        cases heq
        have hentry := (Pruning.columns_eq_ok_iff.1 hprepares.columns).1
        have hintact :=
          hp.forall₂_intact_of_leadsToText hids hvalid hs hentry htext hsound hprepares
        exact ⟨map_eq_of_forall₂ hintact fun c _ c' hc => hc.name, hintact⟩
    · intro above' t htext hpath'
      exact hp.exists_given_path hids hvalid hsound hroot htext hpath'
    · intro above t htext hpath
      exact hp.exists_pruned_path hids hvalid hsound hroot htext hpath

/-- `WITH a AS (SELECT t.x AS x, t.y AS y FROM t t),
b AS (SELECT u.z AS z FROM (SELECT a.x AS z FROM a) u) SELECT v.x AS x FROM t v`, the query in `b`
being given as text. -/
def Select.textInUnreadCte : Statement :=
  { Select.plain 7 [⟨.column ⟨"v", "x"⟩ true, "x"⟩] (.table 6 ⟨none, "t"⟩) "v" with
    ctes := [⟨2, "a", .select (.plain 1 [⟨.column ⟨"t", "x"⟩ true, "x"⟩,
        ⟨.column ⟨"t", "y"⟩ true, "y"⟩] (.table 0 ⟨none, "t"⟩) "t")⟩,
      ⟨5, "b", .select (.plain 4 [⟨.column ⟨"u", "z"⟩ true, "z"⟩]
        (.text 3 "SELECT a.x AS z FROM a") "u")⟩] }

/-- No statement reads `a` or `b`, and both are kept with all their columns. -/
theorem prune_keeps_ctes_textInUnreadCte :
    ∃ q last, (Node.select .textInUnreadCte).prune 8 = .ok (q, last) ∧
      q.shownColumns = [["x"], ["x", "y"], ["z"]] ∧
      ∃ done above above', (Node.select .textInUnreadCte).Above above
          (.text 3 "SELECT a.x AS z FROM a") ∧
        (Scope.along above).toList.map Prod.fst = ["a", "b"] ∧
        q.Above above' (.text 3 "SELECT a.x AS z FROM a") ∧
        Pruning.IntactScope done (.along above) (.along above') := by
  have hids : (Node.select .textInUnreadCte).IdsIdentify := idsIdentify_of_nodup (by decide)
  have hbelow : (Node.select .textInUnreadCte).IdsBelow 8 := by
    unfold IdsBelow
    decide
  have hruns : ((Node.select .textInUnreadCte).prune 8).toOption.map (·.1.shownColumns) =
      some [["x"], ["x", "y"], ["z"]] := by
    decide +kernel
  rcases exists_ok_of_toOption_map hruns with ⟨⟨q, last⟩, hout, hcolumns⟩
  refine ⟨q, last, hout, hcolumns, ?_⟩
  have hroot : (Node.select .textInUnreadCte).Above [] (.select .textInUnreadCte) := .root
  have hcte := hroot.step (List.mem_cons_of_mem _ (List.mem_cons_of_mem _ List.mem_cons_self))
  have htext := (hcte.step List.mem_cons_self).step List.mem_cons_self
  rcases prune_keeps_ctes_above_text hids hbelow rfl hout with ⟨done, -, -, -, hpaths⟩
  rcases hpaths _ _ rfl htext with ⟨above', hpath', hintact⟩
  exact ⟨done, _, above', htext, rfl, hpath', hintact⟩

end QueryPlan
