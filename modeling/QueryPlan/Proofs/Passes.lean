import QueryPlan.Pipeline
import QueryPlan.Proofs.Identities
import QueryPlan.Proofs.Pruning
import QueryPlan.Proofs.RewriteSteps
import QueryPlan.Proofs.Visits

/-!
# What holds everywhere, pass after pass

The optimiser runs passes one after the other, and each rebuilds a plan.  For a property of nodes to
hold everywhere in the plan that comes out it is enough to look at one node of one pass
(`Rebuilder.Keeps`): a table, text, CTE or table creation that is built; a statement whose sources
have been built; and what a pass makes of such a statement in the end.

Identities have to be carried along (`Node.Sane`), since a pass knows the nodes of the plan that the
pass before has built by their identities only.

* `rebuilt_sane` — one pass.
* `optimize_sane` — the whole optimiser: pruning, and then passes that take the steps of
  `RewriteStep`.
-/

namespace QueryPlan

/-- Identities tell the nodes of a plan apart and are smaller than the first free one, and a property
holds everywhere in the plan. -/
structure Node.Sane (L : Node → Prop) (n : Node) (next : NodeId) : Prop where
  ids : n.IdsIdentify
  below : n.IdsBelow next
  everywhere : n.Everywhere L

/-! ## One pass -/

namespace Rebuilder

variable {r : Rebuilder} {L : Node → Prop} {plan : Node} {done : Std.TreeMap NodeId Node}

/-- A pass keeps a property, given what it has built for the nodes of a plan. -/
structure Keeps (r : Rebuilder) (L : Node → Prop) (plan : Node)
    (done : Std.TreeMap NodeId Node) : Prop where
  other : ∀ n ∈ plan.subnodes, n.isSelect = false → ∀ n', r.Forms done n n' → L n'
  prepared : ∀ s, .select s ∈ plan.subnodes → ∀ s₀, r.Prepares done s s₀ → L (.select s₀)
  finished : ∀ s₀, (Node.select s₀).Everywhere L → L (.select (r.finish s₀))

/-- A prepared statement has the property, and so has everything below it. -/
theorem Keeps.everywhere_prepared (hkeeps : r.Keeps L plan done) {s s₀ : Statement}
    (hs : .select s ∈ plan.subnodes) (hprepares : r.Prepares done s s₀)
    (hread : ∀ m ∈ r.reads (.select s), ∀ m', done[m.id]? = some m' → m'.Everywhere L) :
    (Node.select s₀).Everywhere L := by
  intro l hl
  rcases Node.mem_subnodes_iff.1 hl with rfl | ⟨m', hm', hbelow⟩
  · exact hkeeps.prepared s hs s₀ hprepares
  · rcases exists_left_of_forall₂ hprepares.reads_match m' hm' with ⟨m, hm, hdone⟩
    exact hread m hm m' hdone l hbelow

theorem Keeps.everywhere (hkeeps : r.Keeps L plan done) (hsound : r.Sound plan done)
    (hlocal : r.IsLocal) {n' : Node} (hdone : done[plan.id]? = some n') : n'.Everywhere L := by
  refine hsound.everywhere hlocal ?_ plan (Node.mem_subnodes_self plan) n' hdone
  intro n hn n' hforms hread
  cases n with
  | select s =>
      rcases hforms.exists_prepares with ⟨s₀, hprepares, rfl⟩
      exact hkeeps.finished s₀ (hkeeps.everywhere_prepared hn hprepares hread)
  | table | text | cte | createTable => exact hkeeps.other _ hn rfl n' hforms

/-- What a series of steps makes of a statement has a property that every step keeps. -/
theorem Rewrites.finished (hrewrites : r.Rewrites)
    (hstep : ∀ {s merged : Statement}, RewriteStep s merged → (Node.select s).Everywhere L →
      L (.select merged)) (s₀ : Statement) (h : (Node.select s₀).Everywhere L) :
    L (.select (r.finish s₀)) :=
  (Select.everywhere_of_series RewriteStep.readsBelow hstep (hrewrites.steps s₀) h).self

end Rebuilder

namespace Node

variable {r : Rebuilder} {L : Node → Prop} {n n' : Node} {next next' : NodeId}

/-- **One pass.**  A plan stays sane if the pass keeps the property. -/
theorem rebuilt_sane (hn : n.Sane L next) (hlocal : r.IsLocal)
    (hkeeps : ∀ done, r.Sound n done → r.Keeps L n done)
    (h : n.rebuilt r next = .ok (n', next')) : n'.Sane L next' := by
  rcases rebuilt_identifies hn.ids hn.below hlocal h with ⟨hids, hbelow⟩
  rcases rebuilt_eq_ok_iff.1 h with ⟨b, hrun, -⟩
  rcases sound_of_run hn.ids hrun with ⟨hsound, hdone⟩
  exact ⟨hids, hbelow, (hkeeps b.done hsound).everywhere hsound hlocal hdone⟩

theorem prune_sane (hn : n.Sane L next)
    (hkeeps : ∀ required done, Requirements.ofPlan n n = .ok (some required) →
      (Pruning.rebuilder required).Sound n done → (Pruning.rebuilder required).Keeps L n done)
    (h : n.prune next = .ok (n', next')) : n'.Sane L next' := by
  rcases prune_eq_ok_iff.1 h with ⟨-, rfl, rfl⟩ | ⟨required, b, hplan, hrun, hnext⟩
  · exact hn
  · refine rebuilt_sane hn (Rebuilder.isLocal_of_finish_eq_id rfl) ?_
      (rebuilt_eq_ok_iff.2 ⟨b, hrun, hnext⟩)
    intro done hsound
    exact hkeeps required done hplan hsound

theorem prune_identifies (hids : n.IdsIdentify) (hbelow : n.IdsBelow next)
    (h : n.prune next = .ok (n', next')) : n'.IdsIdentify ∧ n'.IdsBelow next' := by
  have hsane : n'.Sane (fun _ => True) next' := by
    refine prune_sane ⟨hids, hbelow, fun _ _ => trivial⟩ ?_ h
    intro required done _ _
    exact ⟨fun _ _ _ _ _ => trivial, fun _ _ _ _ => trivial, fun _ _ => trivial⟩
  exact ⟨hsane.ids, hsane.below⟩

end Node

/-! ## All passes -/

/-- A result can be looked at where it is known to be there. -/
theorem exists_ok_of_toOption_bind {ε α β : Type} {x : Except ε α} {f : α → Option β} {b : β}
    (h : x.toOption.bind f = some b) : ∃ a, x = .ok a ∧ f a = some b := by
  cases x with
  | error e => cases h
  | ok a => exact ⟨a, rfl, h⟩

theorem exists_ok_of_toOption_map {ε α β : Type} {x : Except ε α} {f : α → β} {b : β}
    (h : x.toOption.map f = some b) : ∃ a, x = .ok a ∧ f a = b := by
  cases x with
  | error e => cases h
  | ok a => exact ⟨a, rfl, Option.some.inj h⟩

theorem inContext_eq_ok_iff {α : Type} {doing : String} {result : Except Error α} {a : α} :
    inContext doing result = .ok a ↔ result = .ok a := by
  cases result <;> simp [inContext, Except.mapError]

theorem runPasses_cons_eq_ok_iff {plan : PlanId} {pass : Pass} {passes : List Pass} {n n' : Node}
    {next next' : NodeId} :
    runPasses plan (pass :: passes) n next = .ok (n', next') ↔
      ∃ n₁ next₁, pass.run n next = .ok (n₁, next₁) ∧
        runPasses plan passes n₁ next₁ = .ok (n', next') := by
  rw [runPasses, bind_eq_ok]
  simp only [Prod.exists, inContext_eq_ok_iff]

/-- What every pass keeps holds in the end, if it does in the beginning. -/
theorem runPasses_keeps {Inv : Node → NodeId → Prop} {plan : PlanId} : ∀ {passes : List Pass}
    {n n' : Node} {next next' : NodeId},
    (∀ pass ∈ passes, ∀ n next n' next', pass.run n next = .ok (n', next') → Inv n next →
      Inv n' next') →
    runPasses plan passes n next = .ok (n', next') → Inv n next → Inv n' next'
  | [], n, n', next, next', _, h, hn => by
      rw [runPasses] at h
      cases h
      exact hn
  | pass :: passes, n, n', next, next', hpasses, h, hn => by
      rcases runPasses_cons_eq_ok_iff.1 h with ⟨n₁, next₁, hrun, hrest⟩
      have hn₁ := hpasses pass List.mem_cons_self n next n₁ next₁ hrun hn
      refine runPasses_keeps ?_ hrest hn₁
      intro later hlater
      exact hpasses later (List.mem_cons_of_mem _ hlater)

/-- An optimised plan has gone through the passes, and has the identity of the plan given. -/
theorem runPasses_of_optimize {c : Config} {plan plan' : Plan} {next next' : NodeId}
    (h : optimize c plan next = .ok (plan', next')) :
    runPasses plan.id c.passes plan.root next = .ok (plan'.root, next') ∧ plan'.id = plan.id := by
  unfold optimize at h
  rcases bind_eq_ok.1 h with ⟨_, -, hchecked⟩
  -- checking the plan decides whether the passes run, and not on what
  have hpasses : (runPasses plan.id c.passes plan.root next >>= fun run =>
      .ok (({ plan with root := run.1 } : Plan), run.2)) = .ok (plan', next') := by
    split at hchecked
    · rcases bind_eq_ok.1 hchecked with ⟨_, -, hpasses⟩
      exact hpasses
    · exact hchecked
  rcases bind_eq_ok.1 hpasses with ⟨⟨root, last⟩, hruns, hout⟩
  cases hout
  exact ⟨hruns, rfl⟩

/-- A pass of the optimiser prunes, or takes rewriting steps. -/
theorem Config.mem_passes {c : Config} {pass : Pass} (h : pass ∈ c.passes) :
    pass = .prune ∨ ∃ r : Rebuilder, r.Rewrites ∧ ∀ n, pass.run n = n.rebuilt r := by
  have hprojections : ∃ r : Rebuilder, r.Rewrites ∧
      ∀ n, (Pass.mergeProjections c.maxRounds).run n = n.rebuilt r :=
    ⟨_, Rebuilder.rewrites_of_stepwise MergeRule.stepwise_projection c.maxRounds, fun _ => rfl⟩
  have hinlining : ∃ r : Rebuilder, r.Rewrites ∧
      ∀ n, (Pass.mergeInlining c.maxRounds).run n = n.rebuilt r :=
    ⟨_, Rebuilder.rewrites_of_stepwise MergeRule.stepwise_inlining c.maxRounds, fun _ => rfl⟩
  have hdrop : ∃ r : Rebuilder, r.Rewrites ∧ ∀ n, Pass.dropQualifiers.run n = n.rebuilt r :=
    ⟨_, Rebuilder.rewrites_dropQualifiers, fun _ => rfl⟩
  unfold passes at h
  split at h
  all_goals simp only [List.mem_cons, List.not_mem_nil, or_false] at h
  · exact .inl h
  · rcases h with rfl | rfl
    · exact .inl rfl
    · exact .inr hprojections
  · rcases h with rfl | rfl
    · exact .inl rfl
    · exact .inr hinlining
  · rcases h with rfl | rfl | rfl
    · exact .inl rfl
    · exact .inr hinlining
    · exact .inr hdrop

/-- A pass of the optimiser keeps identities in order. -/
theorem Config.run_identifies {c : Config} {pass : Pass} (hpass : pass ∈ c.passes) {n n' : Node}
    {next next' : NodeId} (hids : n.IdsIdentify) (hbelow : n.IdsBelow next)
    (h : pass.run n next = .ok (n', next')) : n'.IdsIdentify ∧ n'.IdsBelow next' := by
  rcases mem_passes hpass with rfl | ⟨r, hrewrites, hrun⟩
  · exact Node.prune_identifies hids hbelow h
  · rw [hrun n] at h
    exact Node.rebuilt_identifies hids hbelow hrewrites.isLocal h

/-- **The whole optimiser.**  A plan stays sane if pruning keeps the property, passes that only
rewrite build statements that have it, and every step keeps it. -/
theorem optimize_sane {L : Node → Prop} {c : Config} {plan plan' : Plan} {next next' : NodeId}
    (hprune : ∀ n required done, n.IdsIdentify → n.Everywhere L →
      Requirements.ofPlan n n = .ok (some required) →
      (Pruning.rebuilder required).Sound n done → (Pruning.rebuilder required).Keeps L n done)
    (hrewrite : ∀ r n done, Rebuilder.Rewrites r → n.Everywhere L → r.Sound n done →
      r.Keeps L n done)
    (hplan : plan.root.Sane L next) (h : optimize c plan next = .ok (plan', next')) :
    plan'.root.Sane L next' := by
  refine runPasses_keeps ?_ (runPasses_of_optimize h).1 hplan
  intro pass hpass n next n' next' hrun hn
  rcases Config.mem_passes hpass with rfl | ⟨r, hrewrites, hpass⟩
  · refine Node.prune_sane hn ?_ hrun
    intro required done
    exact hprune n required done hn.ids hn.everywhere
  · rw [hpass n] at hrun
    refine Node.rebuilt_sane hn hrewrites.isLocal ?_ hrun
    intro done
    exact hrewrite r n done hrewrites hn.everywhere

theorem optimize_identifies {c : Config} {plan plan' : Plan} {next next' : NodeId}
    (hids : plan.root.IdsIdentify) (hbelow : plan.root.IdsBelow next)
    (h : optimize c plan next = .ok (plan', next')) :
    plan'.root.IdsIdentify ∧ plan'.root.IdsBelow next' := by
  have hsane : plan'.root.Sane (fun _ => True) next' := by
    refine optimize_sane ?_ ?_ ⟨hids, hbelow, fun _ _ => trivial⟩ h
    · intro n required done _ _ _ _
      exact ⟨fun _ _ _ _ _ => trivial, fun _ _ _ _ => trivial, fun _ _ => trivial⟩
    · intro r n done _ _ _
      exact ⟨fun _ _ _ _ _ => trivial, fun _ _ _ _ => trivial, fun _ _ => trivial⟩
  exact ⟨hsane.ids, hsane.below⟩

end QueryPlan
