import QueryPlan.Proofs.FreeNames
import QueryPlan.Proofs.MergeRules

/-!
# What merging does to the names of CTEs

A statement that is merged with its source takes over the CTEs of the source.  The rules see to it
that the two lists have no name in common, and this suffices for what lies below the source: there
the names of both lists were in scope before.  It does not suffice for what lies below the CTEs of
the statement itself.  They were out of the reach of the CTEs of the source and are now within it,
so a bare table in them that was a table, or a CTE further out, may come to stand for a CTE of the
source.

* `Select.Hoists` — what the two rules have in common: sources of the child, CTEs of both.
* `Select.placeBefore` — where a node of the merged statement was before.
* `hoisting_keeps_targets_iff` — no table comes to stand for anything else exactly if no name that
  is free in a CTE of the statement is defined by the source.
-/

namespace QueryPlan

namespace Select

/-- A statement that takes the place of a parent without joins and of the child that is its source:
it has the sources of the child, and the CTEs of both, which have no name in common. -/
structure Hoists (parent child merged : Statement) : Prop where
  source : parent.source = .select child
  no_joins : parent.joins = []
  apart : parent.sharesCteName child = false
  sources : merged.sourceNodes = child.sourceNodes
  ctes : merged.ctes = parent.ctes ++ child.ctes

theorem sourceNodes_congr {s s' : Statement} (hsource : s.source = s'.source)
    (hjoins : s.joins = s'.joins) : s.sourceNodes = s'.sourceNodes := by
  simp only [sourceNodes, sources, hsource, hjoins, List.map_cons]

/-- Both rules take over the CTEs of the child. -/
theorem exists_hoists {parent merged : Statement}
    (h : MergeRule.projection parent = some merged ∨
      parent.joins = [] ∧ MergeRule.inlining parent = some merged) :
    ∃ child, Hoists parent child merged := by
  rcases h with h | ⟨hjoins, h⟩
  · obtain ⟨child, hsource, hmerge⟩ := MergeRule.projection_eq_some h
    have hprojection := hmerge.is_projection
    simp only [isProjection, Bool.and_eq_true, List.isEmpty_iff] at hprojection
    obtain ⟨⟨⟨hjoins, -⟩, -⟩, -⟩ := hprojection
    exact ⟨child, hsource, hjoins, hmerge.ctes_apart,
      sourceNodes_congr hmerge.sources.1 hmerge.sources.2.2, hmerge.ctes⟩
  · obtain ⟨child, hsource, hmerge⟩ := MergeRule.inlining_eq_some hjoins h
    exact ⟨child, hsource, hjoins, hmerge.ctes_apart,
      sourceNodes_congr hmerge.sources.1 hmerge.sources.2.2, hmerge.ctes⟩

/-- Where a node of the merged statement was before: the statement itself was the child, a source or
a CTE of the child was below the child, and a CTE of the parent was below the parent. -/
def placeBefore (parent child : Statement) : List Nat → List Nat
  | [] => [0]
  | i :: place =>
    if i < child.sourceNodes.length then 0 :: i :: place
    else if i < child.sourceNodes.length + parent.ctes.length then
      (i - child.sourceNodes.length + 1) :: place
    else 0 :: (i - parent.ctes.length) :: place

section Places

variable {parent child : Statement} {i j : Nat} {place : List Nat}

theorem placeBefore_source (h : i < child.sourceNodes.length) :
    parent.placeBefore child (i :: place) = 0 :: i :: place := by
  rw [placeBefore, if_pos h]

theorem placeBefore_outerCte (h : j < parent.ctes.length) :
    parent.placeBefore child ((child.sourceNodes.length + j) :: place) = (j + 1) :: place := by
  rw [placeBefore, if_neg (by omega), if_pos (by omega), Nat.add_sub_cancel_left]

theorem placeBefore_innerCte :
    parent.placeBefore child ((child.sourceNodes.length + parent.ctes.length + j) :: place) =
      0 :: (child.sourceNodes.length + j) :: place := by
  have hback : child.sourceNodes.length + parent.ctes.length + j - parent.ctes.length =
      child.sourceNodes.length + j := by omega
  rw [placeBefore, if_neg (by omega), if_neg (by omega), hback]

/-- What is read below the merged statement comes from the child, or it is a CTE of the parent. -/
theorem index_cases (parent child : Statement) (i : Nat) :
    (i < child.sourceNodes.length ∨ child.sourceNodes.length + parent.ctes.length ≤ i) ∨
    ∃ j c, i = child.sourceNodes.length + j ∧ parent.ctes[j]? = some c := by
  by_cases hi : i < child.sourceNodes.length ∨ child.sourceNodes.length + parent.ctes.length ≤ i
  · exact .inl hi
  · have hj : i - child.sourceNodes.length < parent.ctes.length := by omega
    exact .inr ⟨i - child.sourceNodes.length, _, by omega, List.getElem?_eq_getElem hj⟩

end Places

namespace Hoists

variable {parent child merged : Statement} (h : Hoists parent child merged)

include h

theorem parents_merged : (Node.select merged).parents =
    child.sourceNodes ++ (parent.ctes.map Node.cte ++ child.ctes.map Node.cte) := by
  rw [parents_select, h.sources, h.ctes, List.map_append]

theorem parents_parent :
    (Node.select parent).parents = .select child :: parent.ctes.map Node.cte := by
  rw [Node.parents, h.source, h.no_joins, List.map_nil, List.nil_append]

/-! ## Places -/

section Places

variable {outer : Scope} {i j : Nat} {place : List Nat}

/-- Below the child the place is one step longer. -/
theorem scopedAt?_below_child : (Node.select parent).scopedAt? outer (0 :: place) =
    (Node.select child).scopedAt? (outer.inside (.select parent)) place := by
  rw [Node.scopedAt?_cons, h.parents_parent, List.getElem?_cons_zero, Option.bind_some]

/-- The sources of the merged statement and the last of its CTEs were below the child. -/
theorem scopedAt?_inner (hi : i < child.sourceNodes.length ∨
      child.sourceNodes.length + parent.ctes.length ≤ i) :
    (Node.select parent).scopedAt? outer (parent.placeBefore child (i :: place)) =
      (Node.select merged).parents[i]?.bind fun m =>
        m.scopedAt? ((outer.inside (.select parent)).inside (.select child)) place := by
  rw [h.parents_merged]
  rcases hi with hi | hi
  · rw [placeBefore_source hi, h.scopedAt?_below_child, Node.scopedAt?_cons, parents_select,
      List.getElem?_append_left hi, List.getElem?_append_left hi]
  · obtain ⟨j, rfl⟩ := Nat.exists_eq_add_of_le hi
    rw [placeBefore_innerCte, h.scopedAt?_below_child, Node.scopedAt?_cons, parents_select,
      Nat.add_assoc, List.getElem?_append_right (Nat.le_add_right _ _),
      List.getElem?_append_right (Nat.le_add_right _ _), Nat.add_sub_cancel_left,
      Nat.add_sub_cancel_left, List.getElem?_append_right (by simp), List.length_map,
      Nat.add_sub_cancel_left]

theorem getElem?_parents_outer {c : Cte Node} (hc : parent.ctes[j]? = some c) :
    (Node.select merged).parents[child.sourceNodes.length + j]? = some (.cte c) := by
  have hj := (List.getElem?_eq_some_iff.1 hc).1
  rw [h.parents_merged, List.getElem?_append_right (Nat.le_add_right _ _), Nat.add_sub_cancel_left,
    List.getElem?_append_left (by simpa using hj), List.getElem?_map, hc, Option.map_some]

/-- The first CTEs of the merged statement were below the parent. -/
theorem scopedAt?_outer {c : Cte Node} (hc : parent.ctes[j]? = some c) :
    (Node.select parent).scopedAt? outer
        (parent.placeBefore child ((child.sourceNodes.length + j) :: place)) =
      (Node.cte c).scopedAt? (outer.inside (.select parent)) place := by
  have hj := (List.getElem?_eq_some_iff.1 hc).1
  rw [placeBefore_outerCte hj, Node.scopedAt?_cons, h.parents_parent, List.getElem?_cons_succ,
    List.getElem?_map, hc, Option.map_some, Option.bind_some]

/-- **The nodes below the merged statement** are those that were below the parent and the child. -/
theorem nodeAt?_placeBefore (hplace : place ≠ []) : (Node.select merged).nodeAt? place =
    (Node.select parent).nodeAt? (parent.placeBefore child place) := by
  cases place with
  | nil => exact absurd rfl hplace
  | cons i place =>
      rw [← Node.map_snd_scopedAt? ∅, ← Node.map_snd_scopedAt? ∅, Node.scopedAt?_cons]
      rcases index_cases parent child i with hi | ⟨j, c, rfl, hc⟩
      · rw [h.scopedAt?_inner hi, Option.map_bind, Option.map_bind]
        simp only [Function.comp_def, Node.map_snd_scopedAt?]
      · rw [h.scopedAt?_outer hc, h.getElem?_parents_outer hc, Option.bind_some,
          Node.map_snd_scopedAt?, Node.map_snd_scopedAt?]

end Places

/-! ## Scopes -/

section Scopes

variable {x : String}

theorem definition?_merged : (Node.select merged).definition? x =
    ((Node.select child).definition? x).or ((Node.select parent).definition? x) := by
  rw [Node.definition?, Node.definition?, Node.definition?, h.ctes, List.filter_append,
    List.getLast?_append]

/-- The child defines no name that the parent defines. -/
theorem definition?_parent_eq_none {d : Cte Node}
    (hd : (Node.select child).definition? x = some d) :
    (Node.select parent).definition? x = none := by
  rw [Node.definition?, List.getLast?_eq_none_iff, List.filter_eq_nil_iff]
  intro c hc hname
  have hmem := List.mem_filter.1 (List.mem_of_getLast? hd)
  have hapart := h.apart
  rw [sharesCteName, List.any_eq_false] at hapart
  refine hapart d hmem.1 (List.contains_iff_mem.2 ?_)
  rw [beq_iff_eq.1 hmem.2, ← beq_iff_eq.1 hname]
  exact List.mem_map_of_mem hc

/-- Below the merged statement there are the names that were in scope below the child. -/
theorem getElem?_inside_merged (outer : Scope) (x : String) : (outer.inside (.select merged))[x]? =
    ((outer.inside (.select parent)).inside (.select child))[x]? := by
  rw [Scope.getElem?_inside, Scope.getElem?_inside, Scope.getElem?_inside, h.definition?_merged,
    Option.or_assoc]

/-- Compared with what was in scope below the parent, the names of the child come in. -/
theorem getElem?_inside_eq_iff (outer : Scope) (x : String) :
    (outer.inside (.select merged))[x]? = (outer.inside (.select parent))[x]? ↔
      ∀ d, (Node.select child).definition? x = some d → outer[x]? = some d := by
  rw [Scope.getElem?_inside, Scope.getElem?_inside, h.definition?_merged]
  cases hd : (Node.select child).definition? x with
  | none => simp
  | some d => simp [h.definition?_parent_eq_none hd, eq_comm]

end Scopes

/-! ## What the tables stand for -/

section Targets

variable {outer : Scope}

theorem targetAt?_inner {i : Nat} {place : List Nat} (hi : i < child.sourceNodes.length ∨
      child.sourceNodes.length + parent.ctes.length ≤ i) :
    (Node.select merged).targetAt? outer (i :: place) =
      (Node.select parent).targetAt? outer (parent.placeBefore child (i :: place)) := by
  rw [Node.targetAt?_cons, Node.targetAt?, h.scopedAt?_inner hi, Option.bind_assoc]
  refine Option.bind_congr ?_
  intro m _
  exact Node.targetAt?_congr fun x _ => h.getElem?_inside_merged outer x

theorem targetAt?_outer {j : Nat} {place : List Nat} {c : Cte Node}
    (hc : parent.ctes[j]? = some c) :
    (Node.select parent).targetAt? outer
        (parent.placeBefore child ((child.sourceNodes.length + j) :: place)) =
      (Node.cte c).targetAt? (outer.inside (.select parent)) place := by
  rw [Node.targetAt?, h.scopedAt?_outer hc, Node.targetAt?]

/-- Only below the CTEs of the parent can a table come to stand for something else. -/
theorem targetAt?_eq_iff : (∀ place, (Node.select merged).targetAt? outer place =
      (Node.select parent).targetAt? outer (parent.placeBefore child place)) ↔
    ∀ c ∈ parent.ctes, ∀ place,
      (Node.cte c).targetAt? (outer.inside (.select merged)) place =
        (Node.cte c).targetAt? (outer.inside (.select parent)) place := by
  constructor
  · intro hall c hc place
    obtain ⟨j, hj⟩ := List.getElem?_of_mem hc
    have hplace := hall ((child.sourceNodes.length + j) :: place)
    rwa [Node.targetAt?_cons, h.getElem?_parents_outer hj, Option.bind_some,
      h.targetAt?_outer hj] at hplace
  · intro hall place
    cases place with
    | nil =>
        rw [placeBefore, Node.targetAt?_cons, h.parents_parent]
        rfl
    | cons i place =>
        rcases index_cases parent child i with hi | ⟨j, c, rfl, hc⟩
        · exact h.targetAt?_inner hi
        · rw [Node.targetAt?_cons, h.getElem?_parents_outer hc, Option.bind_some,
            h.targetAt?_outer hc]
          exact hall c (List.mem_of_getElem? hc) place

end Targets

end Hoists

end Select

/-- **When hoisting captures a name.**  A statement is merged with the statement that is its source,
by either rule, and read below the nodes `above`.  What lies below the merged statement lay below the
two.  A bare table stands for the CTE, or for none, that it stood for before, unless it is below a
CTE of the outer statement.  There it does so as well exactly if no name that is free in such a CTE
is defined by the inner statement, other than by the CTE that it stands for anyway.  Where nothing
is shared these are the scopes that are recorded. -/
theorem hoisting_keeps_targets_iff {parent merged : Statement}
    (hmerge : MergeRule.projection parent = some merged ∨
      parent.joins = [] ∧ MergeRule.inlining parent = some merged)
    (above : List Node) :
    ∃ child, parent.source = .select child ∧
      (∀ place, place ≠ [] → (Node.select merged).nodeAt? place =
        (Node.select parent).nodeAt? (parent.placeBefore child place)) ∧
      (∀ i place, (i < child.sourceNodes.length ∨
          child.sourceNodes.length + parent.ctes.length ≤ i) →
        (Node.select merged).targetAt? (.along above) (i :: place) =
          (Node.select parent).targetAt? (.along above) (parent.placeBefore child (i :: place))) ∧
      ((∀ place, (Node.select merged).targetAt? (.along above) place =
          (Node.select parent).targetAt? (.along above) (parent.placeBefore child place)) ↔
        ∀ c ∈ parent.ctes, ∀ x, c.body.ReadsFree x → ∀ d,
          (Node.select child).definition? x = some d → (Scope.along above)[x]? = some d) ∧
      ∀ n ∈ [Node.select parent, Node.select merged], (n.subnodes.map Node.id).Nodup →
        ∀ place scope s, n.scopedAt? (.along above) place = some (scope, .select s) →
          (Scopes.record (.along above) n ∅)[s.id]? = some (scope.inside (.select s)) := by
  obtain ⟨child, h⟩ := Select.exists_hoists hmerge
  refine ⟨child, h.source, ?_, ?_, ?_, ?_⟩
  · intro place hplace
    exact h.nodeAt?_placeBefore hplace
  · intro i place hi
    exact h.targetAt?_inner hi
  · rw [h.targetAt?_eq_iff]
    simp only [Node.targetAt?_eq_iff, Node.readsFree_cte_iff, h.getElem?_inside_eq_iff]
  · intro n _ hnodup place scope s hs
    exact Scopes.getElem?_record_of_scopedAt? hnodup hs

/-- `WITH b AS (SELECT t.x AS x FROM t t) SELECT e.x AS x, d.x AS y FROM a e CROSS JOIN b d`. -/
def Select.definingB : Statement :=
  { Select.plain 8 [⟨.column ⟨"e", "x"⟩ true, "x"⟩, ⟨.column ⟨"d", "x"⟩ true, "y"⟩]
      (.table 6 ⟨none, "a"⟩) "e" with
    ctes := [⟨5, "b", .select (.plain 4 [⟨.column ⟨"t", "x"⟩ true, "x"⟩]
      (.table 3 ⟨none, "t"⟩) "t")⟩]
    joins := [⟨.table 7 ⟨none, "b"⟩, "d", .cross, none⟩] }

/-- `WITH a AS (SELECT b.x AS x FROM b b) SELECT c.x AS x, c.y AS y FROM (...) c`, with
`definingB` for the dots. -/
def Select.readingTableB : Statement :=
  { Select.plain 9 [⟨.column ⟨"c", "x"⟩ true, "x"⟩, ⟨.column ⟨"c", "y"⟩ true, "y"⟩]
      (.select .definingB) "c" with
    ctes := [⟨2, "a", .select (.plain 1 [⟨.column ⟨"b", "x"⟩ true, "x"⟩]
      (.table 0 ⟨none, "b"⟩) "b")⟩] }

/-- **A name that is captured.**  The table `b` in the CTE `a` of an accepted plan stands for no
CTE, and for the CTE of that name when either rule has merged the two statements. -/
theorem hoisting_captures_readingTableB :
    (Node.select .readingTableB).validate = .ok () ∧
    ((Node.select .readingTableB).subnodes.map Node.id).Nodup ∧
    (Node.select .readingTableB).targetAt? ∅ [1, 0, 0] = none ∧
    ∀ rule ∈ [MergeRule.projection, MergeRule.inlining], ∃ merged,
      rule .readingTableB = some merged ∧
      (Node.select merged).nodeAt? [2, 0, 0] = some (.table 0 ⟨none, "b"⟩) ∧
      ((Node.select merged).targetAt? ∅ [2, 0, 0]).map Cte.id = some 5 ∧
      ¬ ∀ place, (Node.select merged).targetAt? ∅ place = (Node.select .readingTableB).targetAt? ∅
        (Select.placeBefore .readingTableB .definingB place) := by
  refine ⟨rfl, by decide, rfl, ?_⟩
  have hfree : Node.ReadsFree "b" (.select (.plain 1 [⟨.column ⟨"b", "x"⟩ true, "x"⟩]
      (.table 0 ⟨none, "b"⟩) "b")) :=
    .step List.mem_cons_self rfl .table
  have hcaptured : ∀ merged : Statement, MergeRule.projection .readingTableB = some merged ∨
        Select.joins .readingTableB = [] ∧ MergeRule.inlining .readingTableB = some merged →
      ¬ ∀ place, (Node.select merged).targetAt? ∅ place = (Node.select .readingTableB).targetAt? ∅
        (Select.placeBefore .readingTableB .definingB place) := by
    intro merged hmerge hall
    obtain ⟨child, hsource, -, -, hkeeps, -⟩ := hoisting_keeps_targets_iff hmerge []
    cases hsource
    cases hkeeps.1 hall _ List.mem_cons_self "b" hfree _ rfl
  intro rule hrule
  rcases List.mem_pair.1 hrule with rfl | rfl
  · exact ⟨_, rfl, rfl, rfl, hcaptured _ (.inl rfl)⟩
  · exact ⟨_, rfl, rfl, rfl, hcaptured _ (.inr ⟨rfl, rfl⟩)⟩

end QueryPlan
