import QueryPlan.Proofs.FixedPoint
import QueryPlan.Proofs.Qualifiers

/-!
# Optimising twice

What comes out of the optimiser is a fixed point of every pass but the first: where merging has been
exhausted no rule applies, and dropping qualifiers, which comes after it, neither makes a merge
possible nor leaves anything to drop.  So whether a second run changes the plan is decided by pruning
alone (`optimize_again_iff`).

Pruning looks at a plan before it is merged.  Where a statement between two others is merged away,
the columns that were kept for it stay, and a second run may find that nothing requires them.
-/

namespace QueryPlan

/-! ## Where inlining applies -/

namespace Select

theorem isSome_replaceSource?_iff {s : Statement} {place : Nat} :
    (s.replaceSource? place).isSome = true ↔ ∃ name child,
      s.sources[place]? = some (name, .select child) ∧ s.allowsSourceAt place name child = true := by
  unfold replaceSource?
  cases s.sources[place]? with
  | none => simp
  | some p =>
      obtain ⟨name, source⟩ := p
      cases source with
      | select child =>
          by_cases hallow : s.allowsSourceAt place name child <;> simp [Node.select?, hallow]
      | table | text | cte | createTable => simp [Node.select?]

theorem isSome_replaceSources?_iff {s : Statement} : ∀ {places : List Nat},
    (replaceSources? places s).isSome = true ↔
      ∃ place ∈ places, (s.replaceSource? place).isSome = true
  | [] => by simp [replaceSources?]
  | place :: places => by
      rw [replaceSources?, List.exists_mem_cons_iff, ← isSome_replaceSources?_iff]
      cases s.replaceSource? place with
      | none => simp
      | some merged => simp

theorem isSome_joinSources?_iff {s : Statement} :
    s.joinSources?.isSome = true ↔ s.isTransparent = true ∧ ∃ place name child,
      s.sources[place]? = some (name, .select child) ∧ s.allowsSourceAt place name child = true := by
  unfold joinSources?
  split
  case isTrue htransparent =>
    rw [isSome_replaceSources?_iff]
    simp only [isSome_replaceSource?_iff, htransparent, true_and, List.mem_range]
    refine ⟨fun ⟨place, _, h⟩ => ⟨place, h⟩, ?_⟩
    rintro ⟨place, name, child, hsource, hallow⟩
    refine ⟨place, ?_, name, child, hsource, hallow⟩
    have hlt := (List.getElem?_eq_some_iff.1 hsource).1
    simpa [sources] using hlt
  case isFalse htransparent => simp [htransparent]

theorem isSome_inlining?_iff {s : Statement} :
    s.inlining?.isSome = true ↔
      ∃ child, s.source = .select child ∧ (s.inlineInto? child).isSome = true := by
  unfold inlining?
  cases s.source with
  | select child => simp [Node.select?]
  | table | text | cte | createTable => simp [Node.select?]

section Clauses

variable {σ τ : Type} {parent child : Select σ} {parent₀ child₀ : Select τ}
  (hparent : parent₀.forget (fun _ => ()) = parent.forget fun _ => ())
  (hchild : child₀.forget (fun _ => ()) = child.forget fun _ => ())

include hparent hchild

/-- If statements with the same clauses can be merged after qualifiers have been dropped, so can
qualified statements. -/
theorem isSome_inlineInto?_of_clauses (hqualified : parent.IsQualified)
    (hqualified' : child.IsQualified)
    (h : (parent₀.dropQualifiers.inlineInto? child₀.dropQualifiers).isSome = true) :
    (parent.inlineInto? child).isSome = true := by
  rw [← Option.isSome_map (f := forget fun _ => ()), ← inlineInto?_forget, ← dropQualifiers_forget,
    ← dropQualifiers_forget, hparent, hchild] at h
  have hmerged := isSome_inlineInto?_of_dropQualifiers (hqualified.forget _) (hqualified'.forget _) h
  rwa [inlineInto?_forget, Option.isSome_map] at hmerged

theorem allowsSourceAt_of_clauses (place : Nat) (name : String) :
    parent₀.allowsSourceAt place name child₀.dropQualifiers =
      parent.allowsSourceAt place name child := by
  rw [← allowsSourceAt_forget fun _ => (), ← dropQualifiers_forget, hparent, hchild,
    allowsSourceAt_dropQualifiers, allowsSourceAt_forget]

end Clauses

end Select

/-! ## Dropping qualifiers after merging -/

namespace Rebuilder

variable {plan : Node} {done : Std.TreeMap NodeId Node}

/-- The statement that a source without qualifiers was built for. -/
theorem exists_source_of_dropQualifiers
    (hsound : Rebuilder.Sound { finish := Select.dropQualifiers } plan done) {source : Node}
    (hsource : source ∈ plan.subnodes) {child' : Statement}
    (hdone : done[source.id]? = some (.select child')) :
    ∃ child child₀ : Statement, source = .select child ∧ child' = child₀.dropQualifiers ∧
      child₀.forget (fun _ => ()) = child.forget fun _ => () := by
  rcases (hsound source hsource _ hdone).exists_prepares_of_select with
    ⟨child, child₀, rfl, hprepares, heq⟩
  exact ⟨child, child₀, rfl, heq,
    rewrites_dropQualifiers.clauses_prepared hsound hsource hprepares⟩

/-- Dropping qualifiers leaves none to drop. -/
theorem fixes_of_dropQualifiers
    (hsound : Rebuilder.Sound { finish := Select.dropQualifiers } plan done) {out : Node}
    (hdone : done[plan.id]? = some out) :
    Rebuilder.Fixes { finish := Select.dropQualifiers } out := by
  intro s' hs'
  rcases rewrites_dropQualifiers.exists_finished hsound hdone hs' with ⟨s, s₀, -, -, rfl, -⟩
  exact congrArg (Select.forget Node.eraseIds) s₀.dropQualifiers_dropQualifiers

/-- **Dropping qualifiers does not make a merge possible**, whatever has become of the sources. -/
theorem isSome_inlining_of_dropQualifiers
    (hsound : Rebuilder.Sound { finish := Select.dropQualifiers } plan done)
    (hqualified : plan.Everywhere Node.IsQualified) {s s₀ : Statement}
    (hs : .select s ∈ plan.subnodes)
    (hprepares : Rebuilder.Prepares { finish := Select.dropQualifiers } done s s₀)
    (h : (MergeRule.inlining s₀.dropQualifiers).isSome = true) :
    (MergeRule.inlining s).isSome = true := by
  have hclauses := rewrites_dropQualifiers.clauses_prepared hsound hs hprepares
  have hjoins : s₀.joins.isEmpty = s.joins.isEmpty := by
    have hmap := congrArg (fun t => t.joins.isEmpty) hclauses
    simpa only [Select.forget, List.isEmpty_map] using hmap
  unfold MergeRule.inlining at h ⊢
  rw [Select.joins_dropQualifiers, hjoins] at h
  split at h
  case isTrue hempty =>
    rw [if_pos hempty, Select.isSome_inlining?_iff]
    rcases Select.isSome_inlining?_iff.1 h with ⟨child', hsource', hinto⟩
    rw [Select.source_dropQualifiers] at hsource'
    have hsource : s.source ∈ plan.subnodes :=
      Node.mem_subnodes_of_parent (by simp [Node.parents]) hs
    rcases exists_source_of_dropQualifiers hsound hsource (hsource' ▸ hprepares.source) with
      ⟨child, child₀, hchild, rfl, hclauses'⟩
    have hparent : s.IsQualified := hqualified (.select s) hs
    have hbelow : child.IsQualified := by
      rw [hchild] at hsource
      exact hqualified (.select child) hsource
    exact ⟨child, hchild,
      Select.isSome_inlineInto?_of_clauses hclauses hclauses' hparent hbelow hinto⟩
  case isFalse hnonempty =>
    have hsame : s₀.dropQualifiers = s₀ := if_neg (by rwa [hjoins])
    rw [if_neg hnonempty, Select.isSome_joinSources?_iff]
    rw [hsame, Select.isSome_joinSources?_iff] at h
    rcases h with ⟨htransparent, place, name, child', hsource', hallow⟩
    rcases exists_getElem?_of_forall₂ hprepares.sources_match hsource' with
      ⟨⟨name', source⟩, hplace, rfl, hdone⟩
    have hsource : source ∈ plan.subnodes := Select.mem_subnodes_of_mem_sourceNodes hs
      (List.mem_map_of_mem (List.mem_of_getElem? hplace))
    rcases exists_source_of_dropQualifiers hsound hsource hdone with
      ⟨child, child₀, rfl, rfl, hclauses'⟩
    rw [Select.allowsSourceAt_of_clauses hclauses hclauses'] at hallow
    refine ⟨?_, place, _, child, hplace, hallow⟩
    rwa [← Select.isTransparent_forget fun _ => (), ← hclauses, Select.isTransparent_forget]

end Rebuilder

/-! ## A second run -/

/-- A pass that only rewrites, and leaves every statement of a plan as it is. -/
def Pass.Leaves (pass : Pass) (n : Node) : Prop :=
  ∃ r : Rebuilder, r.Rewrites ∧ r.IsNatural ∧ r.Fixes n ∧ ∀ m, pass.run m = m.rebuilt r

theorem Pass.leaves_of_eq_none {rule : MergeRule} (hstepwise : rule.Stepwise)
    (hnatural : rule.IsNatural) {n : Node} (hnone : ∀ s, .select s ∈ n.subnodes → rule s = none)
    {rounds : Nat} {pass : Pass} (hrun : pass.run = Node.merge rule rounds) : pass.Leaves n :=
  ⟨rule.rebuilder rounds, Rebuilder.rewrites_of_stepwise hstepwise rounds,
    hnatural.rebuilder rounds, MergeRule.fixes_of_eq_none hnone rounds, fun m => congrFun hrun m⟩

namespace Node

variable {n n₁ n₂ : Node} {next next₁ next₂ : NodeId}

/-- Merging exhausts a rule after pruning too. -/
theorem eq_none_of_prune_merge {rule : MergeRule} (hstepwise : rule.Stepwise)
    (hids : n.IdsIdentify) (hnext : n.IdsBelow next) {rounds : Nat}
    (hrounds : n.selectCount ≤ rounds) (hprune : n.prune next = .ok (n₁, next₁))
    (hmerge : n₁.merge rule rounds next₁ = .ok (n₂, next₂)) :
    ∀ s, .select s ∈ n₂.subnodes → rule s = none := by
  have hids₁ := (prune_identifies hids hnext hprune).1
  have hcount : n₁.selectCount ≤ n.selectCount := by
    rw [selectCount_eq_weight, selectCount_eq_weight]
    exact weight_le_of_prune hids hprune _
  rcases merge_exhausts hstepwise hids₁ (Nat.le_trans hcount hrounds) next₁ with
    ⟨_, _, hout, hnone⟩
  rw [hmerge] at hout
  cases hout
  exact hnone

/-- What comes out of pruning and merging is left as it is by a second round of merging. -/
theorem leaves_of_prune_merge {rule : MergeRule} (hstepwise : rule.Stepwise)
    (hnatural : rule.IsNatural) (hids : n.IdsIdentify) (hnext : n.IdsBelow next) {rounds : Nat}
    (hrounds : n.selectCount ≤ rounds) {pass : Pass} (hrun : pass.run = Node.merge rule rounds)
    {id : PlanId} (h : runPasses id [.prune, pass] n next = .ok (n₂, next₂)) :
    pass.Leaves n₂ := by
  rcases runPasses_cons_eq_ok_iff.1 h with ⟨n₁, next₁, hprune, hrest⟩
  rcases runPasses_cons_eq_ok_iff.1 hrest with ⟨_, _, hmerge, hend⟩
  cases hend
  rw [hrun] at hmerge
  exact Pass.leaves_of_eq_none hstepwise hnatural
    (eq_none_of_prune_merge hstepwise hids hnext hrounds hprune hmerge) hrun

/-- What has been merged and stripped of qualifiers is left as it is by both passes. -/
theorem leaves_of_dropQualifiers (hids : n.IdsIdentify) (hqualified : n.Everywhere IsQualified)
    (hnone : ∀ s, .select s ∈ n.subnodes → MergeRule.inlining s = none)
    (h : n.dropQualifiers next = .ok (n₁, next₁)) (rounds : Nat) :
    (Pass.mergeInlining rounds).Leaves n₁ ∧ Pass.dropQualifiers.Leaves n₁ := by
  have hrewrites := Rebuilder.rewrites_dropQualifiers
  rcases rebuilt_eq_ok_iff.1 h with ⟨b, hrun, -⟩
  rcases sound_of_run hids hrun with ⟨hsound, hdone⟩
  constructor
  · refine Pass.leaves_of_eq_none MergeRule.stepwise_inlining MergeRule.isNatural_inlining ?_ rfl
    intro s' hs'
    rcases hrewrites.exists_finished hsound hdone hs' with ⟨s, s₀, hs, hprepares, rfl, -⟩
    refine Option.not_isSome_iff_eq_none.1 ?_
    intro hsome
    have happlies := Rebuilder.isSome_inlining_of_dropQualifiers hsound hqualified hs hprepares hsome
    rw [hnone s hs] at happlies
    cases happlies
  · exact ⟨_, hrewrites, fun s => s.dropQualifiers_forget eraseIds,
      Rebuilder.fixes_of_dropQualifiers hsound hdone, fun _ => rfl⟩

end Node

/-- **What comes out of the optimiser is left as it is** by every pass but pruning. -/
theorem leaves_of_optimize {c : Config} {plan q : Plan} {next next' : NodeId}
    (hids : plan.root.IdsIdentify) (hnext : plan.root.IdsBelow next)
    (hqualified : plan.root.Everywhere Node.IsQualified)
    (hlevel : c.level = .o2 ∨ c.level = .o3 ∨ c.level = .o4)
    (hrounds : plan.root.selectCount ≤ c.maxRounds) (h : optimize c plan next = .ok (q, next')) :
    ∃ rest, c.passes = .prune :: rest ∧ ∀ pass ∈ rest, pass.Leaves q.root := by
  have hruns := (runPasses_of_optimize h).1
  rcases hlevel with hlevel | hlevel | hlevel
  · rw [Config.passes, hlevel] at hruns
    refine ⟨_, by rw [Config.passes, hlevel], List.forall_mem_singleton.2 ?_⟩
    exact Node.leaves_of_prune_merge MergeRule.stepwise_projection
      MergeRule.isNatural_projection hids hnext hrounds rfl hruns
  · rw [Config.passes, hlevel] at hruns
    refine ⟨_, by rw [Config.passes, hlevel], List.forall_mem_singleton.2 ?_⟩
    exact Node.leaves_of_prune_merge MergeRule.stepwise_inlining
      MergeRule.isNatural_inlining hids hnext hrounds rfl hruns
  · rw [Config.passes, hlevel, runPasses_cons_eq_ok_iff] at hruns
    rcases hruns with ⟨n₁, next₁, hprune, hruns⟩
    rcases runPasses_cons_eq_ok_iff.1 hruns with ⟨n₂, next₂, hmerge, hruns⟩
    rcases runPasses_cons_eq_ok_iff.1 hruns with ⟨n₃, next₃, hdrop, hend⟩
    cases hend
    have hnone := Node.eq_none_of_prune_merge MergeRule.stepwise_inlining hids hnext hrounds hprune
      hmerge
    have hpruned : n₁.Sane Node.IsQualified next₁ :=
      Node.prune_sane ⟨hids, hnext, hqualified⟩
        (fun _ _ _ _ => Pruning.keepsQualified hqualified) hprune
    have hmerged : n₂.Sane Node.IsQualified next₂ :=
      Node.rebuilt_sane hpruned
        (Rebuilder.rewrites_of_stepwise MergeRule.stepwise_inlining c.maxRounds).isLocal
        (fun _ _ => Rebuilder.keepsQualified_of_stepwise MergeRule.stepwise_inlining c.maxRounds
          hpruned.everywhere) hmerge
    refine ⟨_, by rw [Config.passes, hlevel], ?_⟩
    have hleaves := Node.leaves_of_dropQualifiers hmerged.ids hmerged.everywhere hnone hdrop
      c.maxRounds
    simpa using hleaves

/-- What the passes after pruning leave of a pruned plan: it is no heavier, and it is the given plan
if pruning has dropped nothing. -/
structure Node.Rewritten (plan pruned n : Node) (next : NodeId) : Prop where
  ids : n.IdsIdentify
  below : n.IdsBelow next
  weight_le : ∀ w, n.weight w ≤ pruned.weight w
  same : pruned.eraseIds = plan.eraseIds → n.eraseIds = plan.eraseIds

/-- One more pass. -/
theorem Node.Rewritten.pass {plan pruned n n' : Node} {next next' : NodeId}
    (hn : plan.Rewritten pruned n next) {pass : Pass} (hleaves : pass.Leaves plan)
    (h : pass.run n next = .ok (n', next')) : plan.Rewritten pruned n' next' := by
  rcases hleaves with ⟨r, hrewrites, hnatural, hfixes, hrun⟩
  rw [hrun n] at h
  rcases Node.rebuilt_identifies hn.ids hn.below hrewrites.isLocal h with ⟨hids, hbelow⟩
  refine ⟨hids, hbelow, ?_, ?_⟩
  · intro w
    exact Nat.le_trans (Node.weight_le_of_rebuilt hrewrites hn.ids h w) (hn.weight_le w)
  · intro hpruned
    have hsame := hn.same hpruned
    have hfixes' := hfixes.of_eraseIds_eq hnatural hsame
    exact (Node.eraseIds_of_rebuilt hrewrites hnatural hn.ids hfixes' h).trans hsame

/-- **Optimising twice.**  On a plan all of whose columns are qualified, at a level that merges and
with as many rounds as there are statements, a second run gives the plan of the first, up to
identities, exactly if pruning alone finds nothing to drop in it; and then both are written the same.
The first free identity must be free. -/
theorem optimize_again_iff {c : Config} {plan q r : Plan} {next next' again last : NodeId}
    (hids : plan.root.IdsIdentify) (hnext : plan.root.IdsBelow next)
    (hqualified : plan.root.Everywhere Node.IsQualified)
    (hlevel : c.level = .o2 ∨ c.level = .o3 ∨ c.level = .o4)
    (hrounds : plan.root.selectCount ≤ c.maxRounds)
    (h : optimize c plan next = .ok (q, next')) (hagain : q.root.IdsBelow again)
    (h' : optimize c q again = .ok (r, last)) :
    ∃ pruned k, q.root.prune again = .ok (pruned, k) ∧
      (r.root.eraseIds = q.root.eraseIds ↔ pruned.eraseIds = q.root.eraseIds) ∧
      (pruned.eraseIds = q.root.eraseIds → r.root.serialize = q.root.serialize) := by
  have hids' := (optimize_identifies hids hnext h).1
  rcases leaves_of_optimize hids hnext hqualified hlevel hrounds h with ⟨rest, hpasses, hleaves⟩
  have hruns := (runPasses_of_optimize h').1
  rw [hpasses, runPasses_cons_eq_ok_iff] at hruns
  rcases hruns with ⟨pruned, k, hprune, hruns⟩
  have hrewritten : q.root.Rewritten pruned r.root last := by
    rcases Node.prune_identifies hids' hagain hprune with ⟨hids₁, hbelow₁⟩
    refine runPasses_keeps ?_ hruns ⟨hids₁, hbelow₁, fun _ => Nat.le_refl _, id⟩
    intro pass hpass n next n' next' hrun hn
    exact hn.pass (hleaves pass hpass) hrun
  refine ⟨pruned, k, hprune, ⟨?_, hrewritten.same⟩, ?_⟩
  · -- a plan that weighs what it did has lost nothing on the way
    intro hsame
    refine Node.eraseIds_eq_of_prune (w := { column := 1, cte := 1 }) hids' hprune Nat.one_pos
      Nat.one_pos (Nat.le_antisymm (Node.weight_le_of_prune hids' hprune _) ?_)
    rw [← Node.weight_eraseIds q.root, ← hsame, Node.weight_eraseIds]
    exact hrewritten.weight_le _
  · intro hpruned
    exact Node.serialize_eq_of_eraseIds_eq (hrewritten.same hpruned)

/-- `SELECT t.w AS w, SUM(t.x) AS x FROM t t GROUP BY t.w`. -/
def Select.totalsByKey : Statement :=
  { Select.plain 2 [⟨.column ⟨"t", "w"⟩ true, "w"⟩,
      ⟨.aggregate .sum [.column ⟨"t", "x"⟩ true], "x"⟩] (.table 1 ⟨none, "t"⟩) "t" with
    groupBy := [⟨.column ⟨"t", "w"⟩ true, "w"⟩] }

/-- `SELECT COUNT(*) AS n FROM (SELECT s.x AS x FROM totalsByKey s) a`. -/
def Select.countOfTotals : Statement :=
  .plain 4 [⟨.aggregate .count [], "n"⟩]
    (.select (.plain 3 [⟨.column ⟨"s", "x"⟩ true, "x"⟩] (.select .totalsByKey) "s")) "a"

/-- The sums are kept for a statement that is merged away, and only the second run drops them. -/
theorem optimize_again_countOfTotals :
    (Node.select .countOfTotals).validate = .ok () ∧
      (Node.select .countOfTotals).selectCount = 3 ∧
      ∃ q next' r last,
        optimize { level := .o3 } ⟨⟨0⟩, .select .countOfTotals⟩ 5 = .ok (q, next') ∧
        q.root.shownColumns = [["n"], ["w", "x"]] ∧
        optimize { level := .o3 } q next' = .ok (r, last) ∧
        r.root.shownColumns = [["n"], ["w"]] ∧
        ∃ pruned k, q.root.prune next' = .ok (pruned, k) ∧
          (r.root.eraseIds = q.root.eraseIds ↔ pruned.eraseIds = q.root.eraseIds) ∧
          (pruned.eraseIds = q.root.eraseIds → r.root.serialize = q.root.serialize) := by
  have hvalid : (Node.select .countOfTotals).validate = .ok () := by decide +kernel
  have hcount : (Node.select .countOfTotals).selectCount = 3 := rfl
  have hids : (Node.select .countOfTotals).IdsIdentify := Node.idsIdentify_of_nodup (by decide)
  have hbelow : (Node.select .countOfTotals).IdsBelow 5 := by
    unfold Node.IdsBelow
    decide
  have hqualified : (Node.select .countOfTotals).Everywhere Node.IsQualified := by
    unfold Node.Everywhere
    decide
  have hruns : (optimize { level := .o3 } ⟨⟨0⟩, .select .countOfTotals⟩ 5).toOption.bind (fun out =>
      (optimize { level := .o3 } out.1 out.2).toOption.map fun out' =>
        (out.1.root.shownColumns, out'.1.root.shownColumns)) =
      some ([["n"], ["w", "x"]], [["n"], ["w"]]) := by
    decide +kernel
  rcases exists_ok_of_toOption_bind hruns with ⟨⟨q, next'⟩, hfirst, hrest⟩
  rcases exists_ok_of_toOption_map hrest with ⟨⟨r, last⟩, hsecond, hcolumns⟩
  rcases Prod.mk.inj hcolumns with ⟨hcolumns₁, hcolumns₂⟩
  have hagain := (optimize_identifies hids hbelow hfirst).2
  exact ⟨hvalid, hcount, q, next', r, last, hfirst, hcolumns₁, hsecond, hcolumns₂,
    optimize_again_iff hids hbelow hqualified (.inr (.inl rfl)) (by rw [hcount]; decide) hfirst
      hagain hsecond⟩

end QueryPlan
