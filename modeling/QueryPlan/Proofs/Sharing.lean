import QueryPlan.Proofs.FixedPoint
import QueryPlan.Proofs.Qualifiers
import QueryPlan.Proofs.Serialization

/-!
# Passes without their memory

A pass that rewrites one statement at a time remembers by identity what it has built.
`Node.reworked` is the same pass as plain recursion: it remembers nothing, and goes through a shared
node once for every place at which the node stands.

* `Rewrites.describes_reworked` — with the memory or without it, the same plan is built up to
  identities.
* `eraseIds_reworked_eraseIds` — plain recursion does not look at identities, and so not at sharing.
* `passes_see_structure` — hence plans with the same text give plans with the same text.
-/

namespace QueryPlan

namespace Select

/-- A statement is forgotten in the same way by functions that agree on what it reads. -/
theorem forget_congr {τ : Type} {f g : Node → τ} {s : Statement}
    (hsources : ∀ m ∈ s.sourceNodes, f m = g m) (hctes : ∀ c ∈ s.ctes, f c.body = g c.body) :
    s.forget f = s.forget g := by
  have hsource : f s.source = g s.source := hsources _ (by simp [sourceNodes, sources])
  have hjoins : s.joins.map (Join.forget f) = s.joins.map (Join.forget g) := by
    refine List.map_congr_left fun j hj => ?_
    have hmem : j.source ∈ s.sourceNodes := by
      simp only [sourceNodes, sources, List.map_cons, List.map_map]
      exact List.mem_cons_of_mem _ (List.mem_map_of_mem hj)
    rw [Join.forget, Join.forget, hsources _ hmem]
  have hbodies : s.ctes.map (Cte.forget f) = s.ctes.map (Cte.forget g) := by
    refine List.map_congr_left fun c hc => ?_
    rw [Cte.forget, Cte.forget, hctes c hc]
  simp only [forget, hsource, hjoins, hbodies]

theorem forget_forget {σ τ υ : Type} (f : σ → τ) (g : τ → υ) (s : Select σ) :
    (s.forget f).forget g = s.forget fun m => g (f m) := by
  simp [forget, Join.forget, Cte.forget, Function.comp_def]

end Select

namespace Node

/-! ## Plain recursion -/

mutual
/-- The plan whose statements are finished from below, each wherever it stands. -/
def reworked (finish : Statement → Statement) : Node → Node
  | .table id t => .table id t
  | .text id sql => .text id sql
  | .select s => .select (finish
      { s with
        source := s.source.reworked finish
        joins := reworkedJoins finish s.joins
        ctes := reworkedCtes finish s.ctes })
  | .cte c => .cte { c with body := c.body.reworked finish }
  | .createTable id t query => .createTable id t (query.reworked finish)

/-- `reworked` for the sources of joins. -/
def reworkedJoins (finish : Statement → Statement) : List (Join Node) → List (Join Node)
  | [] => []
  | j :: js => { j with source := j.source.reworked finish } :: reworkedJoins finish js

/-- `reworked` for CTEs. -/
def reworkedCtes (finish : Statement → Statement) : List (Cte Node) → List (Cte Node)
  | [] => []
  | c :: cs => { c with body := c.body.reworked finish } :: reworkedCtes finish cs
end

variable {finish : Statement → Statement}

theorem map_forget_reworkedJoins {τ : Type} (f : Node → τ) : ∀ js : List (Join Node),
    (reworkedJoins finish js).map (Join.forget f) =
      js.map (Join.forget fun m => f (m.reworked finish))
  | [] => rfl
  | j :: js => by
      rw [reworkedJoins, List.map_cons, List.map_cons, map_forget_reworkedJoins f js]
      rfl

theorem map_forget_reworkedCtes {τ : Type} (f : Node → τ) : ∀ cs : List (Cte Node),
    (reworkedCtes finish cs).map (Cte.forget f) =
      cs.map (Cte.forget fun m => f (m.reworked finish))
  | [] => rfl
  | c :: cs => by
      rw [reworkedCtes, List.map_cons, List.map_cons, map_forget_reworkedCtes f cs]
      rfl

/-- A statement over what its sources become. -/
theorem forget_reworked {τ : Type} (f : Node → τ) (s : Statement) :
    Select.forget f
        { s with
          source := s.source.reworked finish
          joins := reworkedJoins finish s.joins
          ctes := reworkedCtes finish s.ctes } =
      s.forget fun m => f (m.reworked finish) := by
  simp only [Select.forget, map_forget_reworkedJoins, map_forget_reworkedCtes]

end Node

namespace Rebuilder

variable {r : Rebuilder}

/-- Up to identities, a statement is finished over what its sources become. -/
theorem IsNatural.eraseIds_reworked_select (hnatural : r.IsNatural) (s : Statement) :
    ((Node.select s).reworked r.finish).eraseIds =
      .select (r.finish (s.forget fun m => (m.reworked r.finish).eraseIds)) := by
  rw [Node.reworked, Node.eraseIds_select, ← hnatural, Node.forget_reworked]

/-- **Plain recursion does not look at identities.** -/
theorem IsNatural.eraseIds_reworked_eraseIds (hnatural : r.IsNatural) (n : Node) :
    (n.eraseIds.reworked r.finish).eraseIds = (n.reworked r.finish).eraseIds := by
  induction n using Node.induct_below with
  | h n ih =>
      cases n with
      | table | text => rfl
      | cte c =>
          have hbody := ih c.body (by simp [Node.parents]) _ (Node.mem_subnodes_self _)
          simp only [Node.eraseIds, Node.reworked, hbody]
      | createTable id t query =>
          have hquery := ih query (by simp [Node.parents]) _ (Node.mem_subnodes_self _)
          simp only [Node.eraseIds, Node.reworked, hquery]
      | select s =>
          rw [Select.parents_select] at ih
          rw [Node.eraseIds_select, hnatural.eraseIds_reworked_select,
            hnatural.eraseIds_reworked_select, Select.forget_forget]
          congr 2
          refine Select.forget_congr ?_ ?_
          · intro m hm
            exact ih m (List.mem_append_left _ hm) m (Node.mem_subnodes_self m)
          · intro c hc
            exact ih (.cte c) (List.mem_append_right _ (List.mem_map_of_mem hc)) c.body
              (Node.mem_subnodes_of_mem_parents (by simp [Node.parents]))

/-- **The memory makes no difference**: plain recursion describes what the pass builds. -/
theorem Rewrites.describes_reworked (hrewrites : r.Rewrites) (hnatural : r.IsNatural)
    (plan : Node) : r.Describes plan fun n => (n.reworked r.finish).eraseIds where
  table _ _ := rfl
  text _ _ := rfl
  cte _ := rfl
  createTable _ _ _ := rfl
  select s columns _ hcolumns := by
    rw [hrewrites.columns, Except.ok.injEq] at hcolumns
    rw [← hcolumns, hrewrites.preparedOver_eq, hnatural.eraseIds_reworked_select]

/-- Rebuilding a plan goes through and gives, up to identities, what plain recursion makes of the
plan. -/
theorem Rewrites.exists_rebuilt_reworked (hrewrites : r.Rewrites) (hnatural : r.IsNatural)
    {n : Node} (hids : n.IdsIdentify) (next : NodeId) :
    ∃ n' next', n.rebuilt r next = .ok (n', next') ∧
      n'.eraseIds = (n.reworked r.finish).eraseIds := by
  rcases hrewrites.exists_rebuilt n next with ⟨n', next', hout⟩
  have hsame := Node.eraseIds_of_described hids hnatural
    (hrewrites.describes_reworked hnatural n) hout
  exact ⟨n', next', hout, hsame⟩

end Rebuilder

/-! ## The passes -/

/-- What the passes that rewrite one statement at a time make of a statement whose sources are
finished. -/
inductive Pass.Finishes (rounds : Nat) : Pass → (Statement → Statement) → Prop
  | projections : Finishes rounds (.mergeProjections rounds) (MergeRule.projection.exhaust rounds)
  | inlining : Finishes rounds (.mergeInlining rounds) (MergeRule.inlining.exhaust rounds)
  | qualifiers : Finishes rounds .dropQualifiers Select.dropQualifiers

theorem Pass.Finishes.exists_rebuilder {rounds : Nat} {pass : Pass} {finish : Statement → Statement}
    (h : pass.Finishes rounds finish) :
    ∃ r : Rebuilder, r.Rewrites ∧ r.IsNatural ∧ r.finish = finish ∧
      ∀ n next, pass.run n next = n.rebuilt r next := by
  cases h with
  | projections =>
      exact ⟨_, Rebuilder.rewrites_of_stepwise MergeRule.stepwise_projection rounds,
        MergeRule.isNatural_projection.rebuilder rounds, rfl, fun _ _ => rfl⟩
  | inlining =>
      exact ⟨_, Rebuilder.rewrites_of_stepwise MergeRule.stepwise_inlining rounds,
        MergeRule.isNatural_inlining.rebuilder rounds, rfl, fun _ _ => rfl⟩
  | qualifiers =>
      exact ⟨_, Rebuilder.rewrites_dropQualifiers, fun s => s.dropQualifiers_forget Node.eraseIds,
        rfl, fun _ _ => rfl⟩

/-- **Merging and dropping qualifiers see structure, not sharing.**  Of two plans with the same
text, whose nodes their identities tell apart, each of these passes makes plans with the same text,
whatever the identities are and whichever nodes are shared; it is the text of what plain recursion
makes of either. -/
theorem passes_see_structure {p q : Node} (hp : p.IdsIdentify) (hq : q.IdsIdentify)
    (hsame : p.serialize = q.serialize) {rounds : Nat} {pass : Pass}
    {finish : Statement → Statement} (hpass : pass.Finishes rounds finish) (next next' : NodeId) :
    ∃ p' last q' last', pass.run p next = .ok (p', last) ∧ pass.run q next' = .ok (q', last') ∧
      p'.serialize = q'.serialize ∧
      p'.serialize = (p.reworked finish).serialize ∧
      q'.serialize = (q.reworked finish).serialize := by
  rcases hpass.exists_rebuilder with ⟨r, hrewrites, hnatural, rfl, hrun⟩
  rcases hrewrites.exists_rebuilt_reworked hnatural hp next with ⟨p', last, hpout, hp'⟩
  rcases hrewrites.exists_rebuilt_reworked hnatural hq next' with ⟨q', last', hqout, hq'⟩
  have hplain : (p.reworked r.finish).eraseIds = (q.reworked r.finish).eraseIds := by
    rw [← hnatural.eraseIds_reworked_eraseIds p, Node.serialize_eq_iff.1 hsame,
      hnatural.eraseIds_reworked_eraseIds q]
  refine ⟨p', last, q', last', (hrun p next).trans hpout, (hrun q next').trans hqout, ?_, ?_, ?_⟩
  · exact Node.serialize_eq_of_eraseIds_eq (hp'.trans (hplain.trans hq'.symm))
  · exact Node.serialize_eq_of_eraseIds_eq hp'
  · exact Node.serialize_eq_of_eraseIds_eq hq'

/-- `r AS (SELECT b.x AS x FROM (SELECT t.u AS x FROM t t) b)`, under four identities from a given
one on. -/
def Cte.nested (id : NodeId) : Cte Node :=
  ⟨id + 3, "r", .select (.plain (id + 2) [⟨.column ⟨"b", "x"⟩ true, "x"⟩]
    (.select (.plain (id + 1) [⟨.column ⟨"t", "u"⟩ true, "x"⟩] (.table id ⟨none, "t"⟩) "t")) "b")⟩

/-- `WITH r SELECT a.x AS x, d.x AS y FROM r a CROSS JOIN r d`, where all of `r` is read at three
places. -/
def Select.readingNested (listed first second : NodeId) : Statement :=
  { Select.plain 12 [⟨.column ⟨"a", "x"⟩ true, "x"⟩, ⟨.column ⟨"d", "x"⟩ true, "y"⟩]
      (.cte (.nested first)) "a" with
    ctes := [.nested listed]
    joins := [⟨.cte (.nested second), "d", .cross, none⟩] }

theorem idsIdentify_readingNested : (Node.select (.readingNested 0 0 0)).IdsIdentify := by
  have hall : (Node.select (.readingNested 0 0 0)).subnodes =
      (.select (.readingNested 0 0 0) :: (Node.cte (.nested 0)).subnodes) ++
        ((Node.cte (.nested 0)).subnodes ++ (Node.cte (.nested 0)).subnodes) := rfl
  exact Node.idsIdentify_of_append hall (by simp) (by decide)

/-- One CTE at three places, and three CTEs. -/
theorem passes_see_structure_readingNested :
    (Node.select (.readingNested 0 0 0)).IdsIdentify ∧
      (Node.select (.readingNested 0 4 8)).IdsIdentify ∧
      ∀ pass finish, Pass.Finishes 2 pass finish →
        ∃ p' last q' last', pass.run (.select (.readingNested 0 0 0)) 13 = .ok (p', last) ∧
          pass.run (.select (.readingNested 0 4 8)) 13 = .ok (q', last') ∧
          p'.serialize = q'.serialize ∧
          p'.serialize = ((Node.select (.readingNested 0 0 0)).reworked finish).serialize ∧
          q'.serialize = ((Node.select (.readingNested 0 4 8)).reworked finish).serialize := by
  have hunshared : (Node.select (.readingNested 0 4 8)).IdsIdentify :=
    Node.idsIdentify_of_nodup (by decide)
  have hsame : (Node.select (.readingNested 0 0 0)).serialize =
      (Node.select (.readingNested 0 4 8)).serialize :=
    Node.serialize_eq_of_eraseIds_eq rfl
  refine ⟨idsIdentify_readingNested, hunshared, ?_⟩
  intro pass finish hpass
  exact passes_see_structure idsIdentify_readingNested hunshared hsame hpass 13 13

end QueryPlan
