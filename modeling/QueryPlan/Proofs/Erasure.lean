import QueryPlan.Merge
import QueryPlan.Plan.Serial
import QueryPlan.Proofs.Lists
import QueryPlan.Proofs.Subnodes

/-!
# Plans up to identities

Two plans are the same up to identities if they are equal once all identities are forgotten
(`Node.eraseIds`).  Forgetting goes statement by statement: a statement keeps its clauses and is put
over other sources (`Select.forget`), so that a function that does not look into sources commutes
with it.

* `serialize_eq_of_eraseIds_eq` — the text of a plan says nothing about identities.
* `MergeRule.IsNatural` — a rule sees neither identities nor what lies below the statements that it
  merges.  This holds of both rules (`isNatural_projection`, `isNatural_inlining`).
-/

namespace QueryPlan

/-! ## Forgetting -/

section Forget

variable {σ τ : Type} (f : σ → τ)

/-- A join over another source. -/
def Join.forget (j : Join σ) : Join τ where
  source := f j.source
  sourceName := j.sourceName
  kind := j.kind
  condition := j.condition

/-- A CTE over another body, without its identity. -/
def Cte.forget (c : Cte σ) : Cte τ where
  id := 0
  name := c.name
  body := f c.body

/-- A statement over other sources, without its identity. -/
def Select.forget (s : Select σ) : Select τ where
  id := 0
  columns := s.columns
  source := f s.source
  sourceName := s.sourceName
  ctes := s.ctes.map (Cte.forget f)
  joins := s.joins.map (Join.forget f)
  groupBy := s.groupBy
  orderBy := s.orderBy
  filter := s.filter
  limit := s.limit
  distinct := s.distinct

end Forget

namespace Node

mutual
/-- A plan without identities. -/
def eraseIds : Node → Node
  | .table _ t => .table 0 t
  | .text _ sql => .text 0 sql
  | .select s => .select
      { s with
        id := 0
        source := s.source.eraseIds
        joins := eraseIdsOfJoins s.joins
        ctes := eraseIdsOfCtes s.ctes }
  | .cte c => .cte { c with id := 0, body := c.body.eraseIds }
  | .createTable _ t query => .createTable 0 t query.eraseIds

/-- `eraseIds` for the sources of joins. -/
def eraseIdsOfJoins : List (Join Node) → List (Join Node)
  | [] => []
  | j :: js => { j with source := j.source.eraseIds } :: eraseIdsOfJoins js

/-- `eraseIds` for CTEs. -/
def eraseIdsOfCtes : List (Cte Node) → List (Cte Node)
  | [] => []
  | c :: cs => { c with id := 0, body := c.body.eraseIds } :: eraseIdsOfCtes cs
end

theorem eraseIdsOfJoins_eq : ∀ js : List (Join Node),
    eraseIdsOfJoins js = js.map (Join.forget eraseIds)
  | [] => rfl
  | j :: js => by rw [eraseIdsOfJoins, eraseIdsOfJoins_eq js, List.map_cons, Join.forget]

theorem eraseIdsOfCtes_eq : ∀ cs : List (Cte Node),
    eraseIdsOfCtes cs = cs.map (Cte.forget eraseIds)
  | [] => rfl
  | c :: cs => by rw [eraseIdsOfCtes, eraseIdsOfCtes_eq cs, List.map_cons, Cte.forget]

theorem eraseIds_select (s : Statement) :
    (Node.select s).eraseIds = .select (s.forget eraseIds) := by
  rw [eraseIds, eraseIdsOfJoins_eq, eraseIdsOfCtes_eq, Select.forget]

theorem eraseIds_cte (c : Cte Node) : (Node.cte c).eraseIds = .cte (c.forget eraseIds) := by
  rw [eraseIds, Cte.forget]

/-- Without identities, a statement is still a statement and nothing else is. -/
theorem select?_eraseIds (n : Node) :
    n.eraseIds.select? = n.select?.map (Select.forget eraseIds) := by
  cases n with
  | select s => rw [eraseIds_select]; rfl
  | table | text | cte | createTable => rfl

theorem parents_eraseIds (n : Node) : n.eraseIds.parents = n.parents.map eraseIds := by
  cases n with
  | table | text => rfl
  | select s =>
      rw [eraseIds_select]
      simp [parents, Select.forget, Join.forget, eraseIds_cte, Function.comp_def]
  | cte | createTable => simp [eraseIds, parents]

/-- The nodes of a plan without identities are the nodes without identities. -/
theorem subnodes_eraseIds (n : Node) : n.eraseIds.subnodes = n.subnodes.map eraseIds := by
  induction n using induct_parents with
  | h n ih =>
      rw [subnodes_eq, parents_eraseIds, subnodes_eq n, List.map_cons, List.flatMap_map,
        List.map_flatMap]
      congr 1
      exact List.flatMap_congr ih

/-- The statements of plans that are the same up to identities are. -/
theorem exists_select_of_eraseIds_eq {m n : Node} (h : m.eraseIds = n.eraseIds) {s : Statement}
    (hs : .select s ∈ m.subnodes) :
    ∃ s', .select s' ∈ n.subnodes ∧ s'.forget eraseIds = s.forget eraseIds := by
  have hmem : (Node.select s).eraseIds ∈ n.subnodes.map eraseIds := by
    rw [← subnodes_eraseIds, ← h, subnodes_eraseIds]
    exact List.mem_map_of_mem hs
  rcases List.mem_map.1 hmem with ⟨l, hl, hsame⟩
  have hselect := congrArg select? hsame
  rw [select?_eraseIds, select?_eraseIds] at hselect
  rcases Option.map_eq_some_iff.1 hselect with ⟨s', hs', hforget⟩
  cases l with
  | select u =>
      cases hs'
      exact ⟨s', hl, hforget⟩
  | table | text | cte | createTable => cases hs'

/-! ## Serialised forms -/

theorem ctesToJson_eq : ∀ cs : List (Cte Node), ctesToJson cs = cs.map Cte.toJson
  | [] => rfl
  | c :: cs => by rw [ctesToJson, ctesToJson_eq cs, List.map_cons]

/-- The JSON form of a join, given that of its source. -/
def joinJson (source : Json) (j : Join Node) : Json :=
  .obj
    [("right_source", source), ("right_source_alias", .str j.sourceName),
      ("join_type", .str j.kind.tag), ("on_condition", .ofOption Expr.toJson j.condition)]

theorem joinsToJson_eq : ∀ js : List (Join Node),
    joinsToJson js = js.map fun j => joinJson j.source.toJson j
  | [] => rfl
  | j :: js => by rw [joinsToJson, joinsToJson_eq js, List.map_cons, joinJson]

/-- **The JSON form of a plan says nothing about identities.** -/
theorem toJson_eraseIds (n : Node) : n.eraseIds.toJson = n.toJson := by
  induction n using induct_below with
  | h n ih =>
      have hparent : ∀ m ∈ n.parents, m.eraseIds.toJson = m.toJson :=
        fun m hm => ih m hm m (mem_subnodes_self m)
      cases n with
      | table | text => rfl
      | select s =>
          have hjoins : joinsToJson (s.forget eraseIds).joins = joinsToJson s.joins := by
            rw [joinsToJson_eq, joinsToJson_eq, Select.forget, List.map_map]
            refine List.map_congr_left ?_
            intro j hj
            have hsource := hparent j.source (by simp [parents, List.mem_map_of_mem hj])
            simp only [Function.comp_apply, Join.forget, hsource]
            rfl
          have hctes : ctesToJson (s.forget eraseIds).ctes = ctesToJson s.ctes := by
            rw [ctesToJson_eq, ctesToJson_eq, Select.forget, List.map_map]
            refine List.map_congr_left ?_
            intro c hc
            have hbody := ih (.cte c) (by simp [parents, hc]) c.body
              (mem_subnodes_of_mem_parents (by simp [parents]))
            simp only [Function.comp_apply, Cte.toJson, Cte.forget, hbody]
          have hsource := hparent s.source (by simp [parents])
          rw [eraseIds_select, toJson, toJson, Select.toJson, Select.toJson, hjoins, hctes]
          simp only [Select.forget, hsource]
      | cte c =>
          rw [eraseIds_cte, toJson, toJson, Cte.toJson, Cte.toJson, Cte.forget,
            hparent c.body (by simp [parents])]
      | createTable id t query =>
          rw [eraseIds, toJson, toJson, hparent query (by simp [parents])]

theorem serialize_eq_of_eraseIds_eq {m n : Node} (h : m.eraseIds = n.eraseIds) :
    m.serialize = n.serialize := by
  rw [serialize, serialize, ← toJson_eraseIds m, h, toJson_eraseIds]

end Node

/-! ## Rules that do not see identities -/

namespace Select

variable {σ τ : Type} (f : σ → τ) (s parent child : Select σ)

theorem conditions_forget : (s.forget f).conditions = s.conditions := by
  rw [conditions, conditions, forget, List.filterMap_map]
  rfl

theorem exprs_forget : (s.forget f).exprs = s.exprs := by
  rw [exprs, exprs, conditions_forget]
  rfl

theorem columnRefs_forget : (s.forget f).columnRefs = s.columnRefs := by
  rw [columnRefs, columnRefs, exprs_forget]

theorem isTransparent_forget : (s.forget f).isTransparent = s.isTransparent := by
  rw [isTransparent, isTransparent, unorderedLineage, unorderedLineage, conditions_forget]
  rfl

theorem sourceNames_forget : (s.forget f).sourceNames = s.sourceNames := by
  rw [sourceNames, sourceNames, forget, List.map_map]
  rfl

theorem sharesCteName_forget :
    (parent.forget f).sharesCteName (child.forget f) = parent.sharesCteName child := by
  rw [sharesCteName, sharesCteName, forget, forget, List.any_map, List.map_map]
  rfl

theorem coveredBy_forget (name : String) (subst : Substitution) :
    (s.forget f).coveredBy name subst = s.coveredBy name subst := by
  rw [coveredBy, coveredBy, columnRefs_forget]

theorem isProjection_forget : (s.forget f).isProjection = s.isProjection := by
  rw [isProjection, isProjection, forget, List.isEmpty_map]

theorem isPlainProjection_forget : (s.forget f).isPlainProjection = s.isPlainProjection := by
  rw [isPlainProjection, isPlainProjection, forget, List.isEmpty_map, List.isEmpty_map]
  rfl

theorem allowsProjection_forget :
    (parent.forget f).allowsProjection (child.forget f) = parent.allowsProjection child := by
  rw [allowsProjection, allowsProjection, isProjection_forget, isTransparent_forget,
    isTransparent_forget, sharesCteName_forget]
  rfl

theorem projectOnto?_forget :
    (parent.forget f).projectOnto? (child.forget f) =
      (parent.projectOnto? child).map (forget f) := by
  unfold projectOnto?
  rw [allowsProjection_forget]
  split
  · have hshown : (parent.forget f).columns.mapM ((parent.forget f).shownColumn? (child.forget f)) =
        parent.columns.mapM (parent.shownColumn? child) := rfl
    rw [hshown]
    cases parent.columns.mapM (parent.shownColumn? child) with
    | none => rfl
    | some shown =>
        have hsurvives : (child.forget f).survives (shown.map NamedExpr.name) =
          child.survives (shown.map NamedExpr.name) := rfl
        have horder : (parent.forget f).projectedOrder? (child.forget f) =
          parent.projectedOrder? child := rfl
        simp only [Option.bind_eq_bind, Option.bind_some, hsurvives, horder]
        split
        · cases parent.projectedOrder? child with
          | none => rfl
          | some orderBy => simp [forget, List.map_append]
        · rfl
  · rfl

theorem allowsInlining_forget :
    (parent.forget f).allowsInlining (child.forget f) = parent.allowsInlining child := by
  rw [allowsInlining, allowsInlining, isTransparent_forget, isTransparent_forget,
    sharesCteName_forget, coveredBy_forget, columnRefs_forget]
  rfl

theorem inlineInto?_forget :
    (parent.forget f).inlineInto? (child.forget f) = (parent.inlineInto? child).map (forget f) := by
  unfold inlineInto?
  rw [allowsInlining_forget]
  split
  · have hsubst : columnSubstitution (parent.forget f).sourceName (child.forget f) =
        columnSubstitution parent.sourceName child := rfl
    have hcolumns : (parent.forget f).columns = parent.columns := rfl
    rw [hsubst, hcolumns]
    -- the order does not look at sources either, whichever statement it comes from
    by_cases hempty : parent.orderBy.isEmpty = true
    · have horder : ∀ columns, (child.forget f).inlinedChildOrder? columns =
          child.inlinedChildOrder? columns := fun _ => rfl
      have hempty' : (parent.forget f).orderBy.isEmpty = true := hempty
      simp only [hempty, hempty', if_true, horder]
      cases child.inlinedChildOrder? _ with
      | none => rfl
      | some orderBy => simp [forget, List.map_append]
    · have horder : ∀ subst columns, (parent.forget f).inlinedParentOrder? subst columns =
          parent.inlinedParentOrder? subst columns := fun _ _ => rfl
      have hempty' : ¬ (parent.forget f).orderBy.isEmpty = true := hempty
      simp only [hempty, hempty', horder]
      cases parent.inlinedParentOrder? _ _ with
      | none => rfl
      | some orderBy => simp [forget, List.map_append]
  · rfl

theorem sources_forget : (s.forget f).sources = s.sources.map fun p => (p.1, f p.2) := by
  rw [sources, sources, forget, List.map_cons, List.map_map, List.map_map]
  rfl

theorem nullFilled_forget (place : Nat) : (s.forget f).nullFilled place = s.nullFilled place := by
  cases place with
  | zero =>
      rw [nullFilled, nullFilled, forget, List.any_map]
      rfl
  | succ i =>
      rw [nullFilled, nullFilled, forget, List.getElem?_map]
      cases s.joins[i]? with
      | none => rfl
      | some j => rfl

theorem allowsSourceAt_forget (place : Nat) (name : String) :
    (s.forget f).allowsSourceAt place name (child.forget f) = s.allowsSourceAt place name child := by
  rw [allowsSourceAt, allowsSourceAt, isPlainProjection_forget, nullFilled_forget, namedElsewhere,
    namedElsewhere, sourceNames_forget, coveredBy_forget]
  rfl

theorem substitute_forget (subst : Substitution) :
    (s.forget f).substitute subst = (s.substitute subst).forget f := by
  rw [substitute, substitute, forget, forget, List.map_map, List.map_map]
  rfl

theorem setSource_forget (place : Nat) (source : σ) (name : String) :
    (s.forget f).setSource place (f source) name = (s.setSource place source name).forget f := by
  cases place with
  | zero => rfl
  | succ i =>
      rw [setSource, setSource, forget, forget]
      congr 1
      refine (map_modify ?_ i s.joins).symm
      intro j
      rfl

end Select

namespace Node

open Select

/-- Replacing a source does not look at identities. -/
theorem replaceSource?_eraseIds (s : Statement) (place : Nat) :
    (s.forget eraseIds).replaceSource? place =
      (s.replaceSource? place).map (Select.forget eraseIds) := by
  unfold Select.replaceSource?
  rw [sources_forget, List.getElem?_map]
  cases s.sources[place]? with
  | none => rfl
  | some p =>
      simp only [Option.map_some, Option.bind_eq_bind, Option.bind_some, select?_eraseIds]
      cases p.2.select? with
      | none => rfl
      | some child =>
          simp only [Option.map_some, Option.bind_some, allowsSourceAt_forget]
          split
          · have hsubst : columnSubstitution p.1 (child.forget eraseIds) =
                columnSubstitution p.1 child := rfl
            rw [hsubst, substitute_forget]
            exact congrArg some (setSource_forget eraseIds _ place child.source child.sourceName)
          · rfl

theorem replaceSources?_eraseIds : ∀ (places : List Nat) (s : Statement),
    Select.replaceSources? places (s.forget eraseIds) =
      (Select.replaceSources? places s).map (Select.forget eraseIds)
  | [], s => rfl
  | place :: places, s => by
      rw [Select.replaceSources?, Select.replaceSources?, replaceSource?_eraseIds]
      cases s.replaceSource? place with
      | none => exact replaceSources?_eraseIds places s
      | some s' =>
          simp only [Option.map_some, replaceSources?_eraseIds places s']
          cases Select.replaceSources? places s' with
          | none => rfl
          | some last => rfl

end Node

namespace MergeRule

/-- A rule commutes with forgetting identities. -/
def IsNatural (rule : MergeRule) : Prop :=
  ∀ s, rule (s.forget Node.eraseIds) = (rule s).map (Select.forget Node.eraseIds)

theorem isNatural_projection : projection.IsNatural := by
  intro s
  show (s.source.eraseIds.select?).bind _ = _
  rw [Node.select?_eraseIds, projection, Select.projection?]
  cases s.source.select? with
  | none => rfl
  | some child => exact Select.projectOnto?_forget Node.eraseIds s child

theorem isNatural_inlining : inlining.IsNatural := by
  intro s
  have hjoins : (s.forget Node.eraseIds).joins.isEmpty = s.joins.isEmpty := List.isEmpty_map
  unfold inlining
  rw [hjoins]
  split
  · show (s.source.eraseIds.select?).bind _ = _
    rw [Node.select?_eraseIds, Select.inlining?]
    cases s.source.select? with
    | none => rfl
    | some child => exact Select.inlineInto?_forget Node.eraseIds s child
  · have hlength : (s.forget Node.eraseIds).joins.length = s.joins.length := List.length_map _
    unfold Select.joinSources?
    rw [Select.isTransparent_forget, hlength]
    split
    · exact Node.replaceSources?_eraseIds _ s
    · rfl

end MergeRule

end QueryPlan
