import QueryPlan.Proofs.Identities
import QueryPlan.Proofs.InlinedRows
import QueryPlan.Proofs.ReplacedJoins

/-!
# Replacing the sources of a join keeps all values

`Select.joinSources?` replaces sources that are plain projections by the relations that they project,
one after the other.  The statement has as many joined rows as before, and at each of them the same
values (`values_of_joinSources`), unless there is a full outer join.

For one replacement, `Replaces.forall₂_joinedRows` relates the joined rows of both sides, and
`Replaces.valuesAt_eq` says that no expression of the statement can tell them apart.  What is assumed
of a statement for this still holds once a source has been replaced (`Replaces.joinsInScope`), which
lets the replacements follow each other.
-/

namespace QueryPlan

/-! ## One replacement -/

namespace Select

section Chain

variable {σ V : Type} {I : Interpretation V} {A : Across V}

/-- All sources of a statement as joins; that of `FROM` is joined to nothing. -/
def chain (s : Select σ) : List (Join σ) :=
  ⟨s.source, s.sourceName, .cross, none⟩ :: s.joins

theorem joinedRows_eq_foldl (rowsOf : σ → List (Row V)) (s : Select σ) :
    s.joinedRows I A rowsOf =
      s.chain.foldl (fun envs j => j.extend I A (rowsOf j.source) envs) [fun _ => []] := by
  rw [joinedRows, chain, List.foldl_cons]
  congr 1
  -- an absent condition accepts every row
  simp only [Join.extend, List.flatMap_singleton, Join.pairs]
  exact (List.filter_eq_self.2 fun _ _ => rfl).symm

theorem sources_eq_map_chain (s : Select σ) :
    s.sources = s.chain.map fun j => (j.sourceName, j.source) := rfl

theorem sourceNames_eq_map_chain (s : Select σ) :
    s.sourceNames = s.chain.map Join.sourceName := rfl

theorem chain_setSource (s : Select σ) (place : Nat) (source : σ) (sourceName : String) :
    (s.setSource place source sourceName).chain =
      s.chain.modify place fun j => { j with source, sourceName } := by
  cases place with
  | zero => rfl
  | succ i => rw [chain, chain, List.modify_succ_cons, setSource]

theorem chain_substitute (s : Select σ) (subst : Substitution) :
    (s.substitute subst).chain = s.chain.map fun j =>
      { j with condition := j.condition.map (Expr.substitute subst) } := rfl

end Chain

namespace Replaces

variable {s child merged : Statement} {place : Nat} {name : String}
  (h : s.Replaces place name child merged) (hnames : s.sourceNames.Nodup)

include h

theorem exists_join_at : ∃ j, s.chain[place]? = some j ∧ j.sourceName = name ∧
    j.source = .select child := by
  have hplace := h.source_at
  rw [sources_eq_map_chain, List.getElem?_map] at hplace
  rcases Option.map_eq_some_iff.1 hplace with ⟨j, hj, heq⟩
  exact ⟨j, hj, congrArg Prod.fst heq, congrArg Prod.snd heq⟩

include hnames

theorem chain_eq : merged.chain = s.chain.map (Join.replaced name child) := by
  rcases h.exists_join_at with ⟨j, hj, rfl, -⟩
  have hat : (s.substitute (columnSubstitution j.sourceName child)).chain[place]? = some
      { j with condition :=
          j.condition.map (Expr.substitute (columnSubstitution j.sourceName child)) } := by
    rw [chain_substitute, List.getElem?_map, hj]
    rfl
  have hkeys : ((s.substitute (columnSubstitution j.sourceName child)).chain.map
      Join.sourceName).Nodup := by
    rw [chain_substitute, List.map_map]
    exact hnames
  rw [h.merged, chain_setSource, modify_eq_map_of_nodup hkeys hat, chain_substitute, List.map_map]
  refine List.map_congr_left ?_
  intro k _
  by_cases hk : k.sourceName = j.sourceName <;> simp [Join.replaced, hk]

end Replaces

/-- The sources of a statement can be told apart and its references are in scope: those of a join
condition name sources joined so far, and sort keys name output columns.  There is no full outer join
and no uninterpreted SQL. -/
structure JoinsInScope (s : Statement) : Prop where
  source_names : s.sourceNames.Nodup
  kinds : ∀ j ∈ s.joins, j.kind ≠ .fullOuter
  tables : ∀ r ∈ s.columnRefs, r.table ∈ s.sourceNames
  conditions : Join.InScope [s.sourceName] s.joins
  raws : ∀ e ∈ s.exprs, e.lineage.raws = []
  order_names : ∀ k ∈ s.orderBy, ∀ n ∈ k.expr.lineage.names, n ∈ s.columnNames

namespace JoinsInScope

variable {s : Statement} (hscope : s.JoinsInScope)

include hscope

theorem kind_of_mem_chain {j : Join Node} (hj : j ∈ s.chain) : j.kind ≠ .fullOuter := by
  rcases List.mem_cons.1 hj with rfl | hj
  · exact JoinKind.noConfusion
  · exact hscope.kinds j hj

theorem inScope_chain : Join.InScope [] s.chain := by
  refine ⟨?_, hscope.conditions⟩
  intro e he
  cases he

end JoinsInScope

theorem mem_conditions_of_mem_chain {s : Statement} {j : Join Node} (hj : j ∈ s.chain) {e : Expr}
    (he : e ∈ j.condition) : e ∈ s.conditions := by
  rcases List.mem_cons.1 hj with rfl | hj
  · cases he
  · exact List.mem_filterMap.2 ⟨j, hj, he⟩

namespace Replaces

variable {s child merged : Statement} {place : Nat} {name : String}
  (h : s.Replaces place name child merged)

include h

theorem admits (hscope : s.JoinsInScope) (hunnamed : s.Unnamed) {j : Join Node}
    (hj : j ∈ s.chain) : j.Admits name child := by
  have hmem : ∀ e ∈ j.condition, e ∈ s.exprs := fun e he =>
    mem_exprs.2 (.inr (.inl (mem_conditions_of_mem_chain hj he)))
  -- a join with the child's name is the one at the place
  have hat : j.sourceName = name → s.chain[place]? = some j ∧ j.source = .select child := by
    intro hname
    rcases h.exists_join_at with ⟨k, hk, hkname, hksource⟩
    have hnames : (s.chain.map Join.sourceName).Nodup := hscope.source_names
    have heq : k = j := List.inj_on_of_nodup_map hnames (List.mem_of_getElem? hk) hj
      (hkname.trans hname.symm)
    exact heq ▸ ⟨hk, hksource⟩
  refine
    { kind := hscope.kind_of_mem_chain hj
      raws := fun e he => hscope.raws e (hmem e he)
      names := fun e he => ?_
      covered := fun e he r hr => h.covered r (mem_columnRefs_of_mem_exprs (hmem e he) hr)
      source := fun hname => (hat hname).2
      null_filled := fun hname hleft => h.null_filled ?_
      name_free := fun hne => h.ne_of_mem (List.mem_map_of_mem hj) hne }
  · refine hunnamed e ?_
    simp [mem_conditions_of_mem_chain hj he]
  · have hplace := (hat hname).1
    cases place with
    | zero =>
        cases hplace
        cases hleft
    | succ i =>
        rw [chain, List.getElem?_cons_succ] at hplace
        simp [nullFilled, hplace, hleft]

section Values

variable {V : Type} {I : Interpretation V} {A : Across V} {seen : List String}
  {envs envs' : List (Env V)} (hview : child.IsView) (hscope : s.JoinsInScope)
  (hseen : ∀ n ∈ s.sourceNames, n ∈ seen)
  (hrows : List.Forall₂ (Reflects I name child seen) envs envs')

theorem readable (hscope : s.JoinsInScope) (hseen : ∀ n ∈ s.sourceNames, n ∈ seen) {e : Expr}
    (he : e ∈ s.exprs) : Readable name child seen e where
  raws := hscope.raws e he
  tables r hr := hseen _ (hscope.tables r (mem_columnRefs_of_mem_exprs he hr))
  covered r hr := h.covered r (mem_columnRefs_of_mem_exprs he hr)

include hview hscope hseen hrows

theorem valueAt_rows {e : Expr} (he : e ∈ s.exprs) (hnames : e.lineage.names = []) :
    ∀ i < envs.length,
      (e.substitute (columnSubstitution name child)).valueAt I A (.rows I A envs') i =
        e.valueAt I A (.rows I A envs) i := by
  rw [Frame.rows, Frame.rows, ← hrows.length_eq]
  exact hview.valueAt_substitute hrows (h.readable hscope hseen he) rfl (by simp [hnames])

theorem spread_rows {e : Expr} (he : e ∈ s.exprs) (hnames : e.lineage.names = []) :
    (e.substitute (columnSubstitution name child)).spread I A (.rows I A envs') =
      e.spread I A (.rows I A envs) := by
  refine Expr.spread_congr ?_ (h.valueAt_rows hview hscope hseen hrows he hnames)
  rw [Frame.rows, Frame.rows, hrows.length_eq]
  rfl

/-- Both sides filter and group alike. -/
theorem extent_eq (hunnamed : s.Unnamed) : merged.extent I A envs' = s.extent I A envs := by
  have hspread : ∀ e, e ∈ s.filter.toList ++ s.groupExprs →
      (e.substitute (columnSubstitution name child)).spread I A (.rows I A envs') =
        e.spread I A (.rows I A envs) := by
    intro e he
    refine h.spread_rows hview hscope hseen hrows ?_ (hunnamed e ?_)
    · rw [Select.exprs, List.append_assoc _ s.filter.toList]
      exact List.mem_append_left _ (List.mem_append_right _ he)
    · rw [List.append_assoc]
      exact List.mem_append_right _ he
  have hfilter : merged.filter.map (Expr.spread I A (.rows I A envs')) =
      s.filter.map (Expr.spread I A (.rows I A envs)) := by
    rw [h.filter, Option.map_map]
    cases hf : s.filter with
    | none => rfl
    | some e => exact congrArg some (hspread e (by simp [hf]))
  have hkeys : merged.groupExprs.map (Expr.spread I A (.rows I A envs')) =
      s.groupExprs.map (Expr.spread I A (.rows I A envs)) := by
    rw [groupExprs, h.groupBy, substituteColumns, groupExprs, List.map_map, List.map_map,
      List.map_map]
    refine List.map_congr_left ?_
    intro g hg
    exact hspread g.expr (by simp [groupExprs, List.mem_map_of_mem hg])
  rw [extent, extent, hfilter, hkeys, hrows.length_eq]

/-- Both sides show the same values. -/
theorem valueAt_output (hunnamed : s.Unnamed) {c : NamedExpr} (hc : c ∈ s.columns) :
    ∀ i < envs.length,
      (c.expr.substitute (columnSubstitution name child)).valueAt I A
          (merged.outputFrame I A envs') i =
        c.expr.valueAt I A (s.outputFrame I A envs) i := by
  have hselect : c.expr ∈ s.selectExprs := List.mem_map_of_mem hc
  have hnames : c.expr.lineage.names = [] := hunnamed c.expr (by simp [hselect])
  rw [outputFrame, outputFrame, h.extent_eq hview hscope hseen hrows hunnamed]
  exact hview.valueAt_substitute hrows (h.readable hscope hseen (mem_exprs.2 (.inl hselect))) rfl
    (by simp [hnames])

/-- Both sides sort alike. -/
theorem valueAt_order (hunnamed : s.Unnamed) {k : SortKey Expr} (hk : k ∈ s.orderBy) :
    ∀ i < envs.length,
      (k.expr.substitute (columnSubstitution name child)).valueAt I A
          (merged.orderFrame I A envs') i =
        k.expr.valueAt I A (s.orderFrame I A envs) i := by
  have hexpr : k.expr ∈ s.exprs :=
    mem_exprs.2 (.inr (.inr (.inr (.inr (List.mem_map_of_mem hk)))))
  rw [orderFrame, orderFrame, h.extent_eq hview hscope hseen hrows hunnamed]
  refine hview.valueAt_substitute hrows (h.readable hscope hseen hexpr) rfl ?_
  -- a name in a sort key is that of a column, and columns have the same values
  intro n hn i hi
  have hcolumn : merged.column? n = (s.column? n).map fun c =>
      { c with expr := c.expr.substitute (columnSubstitution name child) } := by
    rw [column?, h.columns, substituteColumns, List.find?_map]
    rfl
  rcases List.mem_map.1 (hscope.order_names k hk n hn) with ⟨d, hd, rfl⟩
  have hsome : (s.column? d.name).isSome = true := List.find?_isSome.2 ⟨d, hd, by simp⟩
  rcases Option.isSome_iff_exists.1 hsome with ⟨c, hc⟩
  rw [hcolumn, hc]
  exact h.valueAt_output hview hscope hseen hrows hunnamed (List.mem_of_find?_eq_some hc) i hi

/-- **One replacement.**  At every joined row all expressions keep their values. -/
theorem valuesAt_eq (hunnamed : s.Unnamed) :
    ∀ i < envs.length, merged.valuesAt I A envs' i = s.valuesAt I A envs i := by
  intro i hi
  have hrow : ∀ e ∈ s.exprs, e.lineage.names = [] →
      (e.substitute (columnSubstitution name child)).valueAt I A (.rows I A envs') i =
        e.valueAt I A (.rows I A envs) i :=
    fun e he hnames => h.valueAt_rows hview hscope hseen hrows he hnames i hi
  simp only [valuesAt, h.columns, h.filter, h.groupBy, h.orderBy, substituteColumns, List.map_map,
    Option.map_map, Values.mk.injEq]
  refine ⟨List.map_congr_left ?_, ?_, List.map_congr_left ?_, List.map_congr_left ?_⟩
  · intro c hc
    exact congrArg (c.name, ·) (h.valueAt_output hview hscope hseen hrows hunnamed hc i hi)
  · cases hf : s.filter with
    | none => rfl
    | some e =>
        exact congrArg some (hrow e (by simp [Select.exprs, hf]) (hunnamed e (by simp [hf])))
  · intro g hg
    have hmem : g.expr ∈ s.groupExprs := List.mem_map_of_mem hg
    exact congrArg (g.name, ·)
      (hrow g.expr (by simp [Select.exprs, hmem]) (hunnamed g.expr (by simp [hmem])))
  · intro k hk
    exact congrArg (SortKey.mk · k.descending)
      (h.valueAt_order hview hscope hseen hrows hunnamed hk i hi)

end Values

/-- On both sides the joined rows correspond. -/
theorem forall₂_joinedRows {V : Type} [DecidableEq V] {I : Interpretation V} {A : Across V}
    {base : Node → List (Row V)} (hview : child.IsView) (hscope : s.JoinsInScope)
    (hunnamed : s.Unnamed) :
    List.Forall₂ (Reflects I name child s.sourceNames.reverse)
      (s.joinedRows I A (Node.rowsOf I base)) (merged.joinedRows I A (Node.rowsOf I base)) := by
  rw [joinedRows_eq_foldl, joinedRows_eq_foldl, h.chain_eq hscope.source_names,
    ← List.append_nil s.sourceNames.reverse]
  -- before anything has been joined, there is nothing to agree on
  have hstart : Reflects I name child [] (fun _ => []) (fun _ => []) := ⟨by simp, by simp⟩
  exact Join.forall₂_foldl_replaced hview (fun j hj => h.admits hscope hunnamed hj)
    hscope.inScope_chain (by simp) (.cons hstart .nil)

/-! ## What a replacement keeps -/

theorem sourceNames_eq (hnames : s.sourceNames.Nodup) :
    merged.sourceNames = s.sourceNames.map (Join.renamed name child) := by
  rw [sourceNames_eq_map_chain, h.chain_eq hnames, sourceNames_eq_map_chain, List.map_map,
    List.map_map]
  rfl

theorem sourceNames_nodup (hnames : s.sourceNames.Nodup) : merged.sourceNames.Nodup := by
  rw [h.sourceNames_eq hnames]
  refine hnames.map_on ?_
  intro n hn m hm heq
  by_cases hnname : n = name <;> by_cases hmname : m = name <;>
    simp only [Join.renamed, hnname, hmname, if_true, if_false] at heq
  · rw [hnname, hmname]
  · exact absurd heq.symm (h.ne_of_mem hm hmname)
  · exact absurd heq (h.ne_of_mem hn hnname)
  · exact heq

/-- **A replacement keeps the references in scope.** -/
theorem joinsInScope (hview : child.IsView) (hscope : s.JoinsInScope) (hunnamed : s.Unnamed) :
    merged.JoinsInScope where
  source_names := h.sourceNames_nodup hscope.source_names
  kinds j hj := by
    have hmem : j ∈ merged.chain := List.mem_cons_of_mem _ hj
    rw [h.chain_eq hscope.source_names] at hmem
    rcases List.mem_map.1 hmem with ⟨k, hk, rfl⟩
    show k.kind ≠ .fullOuter
    exact hscope.kind_of_mem_chain hk
  tables r' hr' := by
    rcases List.mem_flatMap.1 hr' with ⟨e', he', hre'⟩
    rw [h.exprs] at he'
    rcases List.mem_map.1 he' with ⟨e, he, rfl⟩
    rcases Join.table_of_mem_substitute hview
      (fun r hr => h.covered r (mem_columnRefs_of_mem_exprs he hr)) hre' with ⟨r, hr, htable⟩
    rw [h.sourceNames_eq hscope.source_names, htable]
    exact List.mem_map_of_mem (hscope.tables r (mem_columnRefs_of_mem_exprs he hr))
  conditions := by
    have hchain := Join.inScope_replaced hview (fun j hj => h.admits hscope hunnamed hj)
      hscope.inScope_chain
    rw [← h.chain_eq hscope.source_names] at hchain
    exact hchain.2
  raws e' he' := by
    rw [h.exprs] at he'
    rcases List.mem_map.1 he' with ⟨e, he, rfl⟩
    rw [lineage_part_substitute Lineage.combine_raws (fun _ => rfl)
      (isPlain_of_isPlainProjection h.plain).raws]
    exact hscope.raws e he
  order_names k' hk' n hn := by
    rw [h.orderBy] at hk'
    rcases List.mem_map.1 hk' with ⟨k, hk, rfl⟩
    rw [lineage_part_substitute Lineage.combine_names (fun _ => rfl)
      (isPlain_of_isPlainProjection h.plain).names] at hn
    rw [columnNames, h.columns, columnNames_substituteColumns]
    exact hscope.order_names k hk n hn

theorem unnamed (hunnamed : s.Unnamed) : merged.Unnamed := by
  have hexprs : merged.selectExprs ++ merged.conditions ++ merged.filter.toList ++
      merged.groupExprs =
        (s.selectExprs ++ s.conditions ++ s.filter.toList ++ s.groupExprs).map
          (Expr.substitute (columnSubstitution name child)) := by
    simp only [selectExprs, groupExprs, h.columns, h.groupBy, h.filter, h.conditions,
      substituteColumns, List.map_map, List.map_append, Option.toList_map, Function.comp_def]
  intro e' he'
  rw [hexprs] at he'
  rcases List.mem_map.1 he' with ⟨e, he, rfl⟩
  rw [lineage_part_substitute Lineage.combine_names (fun _ => rfl)
    (isPlain_of_isPlainProjection h.plain).names]
  exact hunnamed e he

/-- The sources at other places stay. -/
theorem sources_other {i : Nat} (hi : i ≠ place) : merged.sources[i]? = s.sources[i]? := by
  rw [h.merged, sources_eq_map_chain, chain_setSource, chain_substitute, sources_eq_map_chain,
    List.getElem?_map, List.getElem?_modify_ne _ _ hi.symm, List.getElem?_map, List.getElem?_map,
    Option.map_map]
  rfl

end Replaces

/-! ## All replacements -/

theorem Replaces.source_new {s child merged : Statement} {place : Nat} {name : String}
    (h : s.Replaces place name child merged) :
    merged.sources[place]? = some (child.sourceName, child.source) := by
  rcases h.sources_split with ⟨before, after, rfl, -, hmerged⟩
  rw [hmerged, List.getElem?_append_right (Nat.le_refl _), Nat.sub_self]
  rfl

/-- Only sources at the given places are replaced. -/
theorem sources_of_replaceSources? {i : Nat} : ∀ {places : List Nat} {s merged : Statement},
    i ∉ places → replaceSources? places s = some merged → merged.sources[i]? = s.sources[i]?
  | [], _, _, _, h => by cases h
  | place :: places, s, merged, hi, h => by
      rw [List.mem_cons, not_or] at hi
      rcases replaceSources?_cons h with hskip | ⟨name, child, t, hstep, rfl | hrest⟩
      · exact sources_of_replaceSources? hi.2 hskip
      · exact hstep.sources_other hi.1
      · rw [sources_of_replaceSources? hi.2 hrest, hstep.sources_other hi.1]

/-- No statement reads itself. -/
theorem source_ne_select (s : Statement) : s.source ≠ .select s := by
  intro h
  have hsize := congrArg sizeOf h
  cases s
  simp only [Node.select.sizeOf_spec, mk.sizeOf_spec] at hsize
  omega

/-- The child at a place shows its columns under different names; where another statement has
something else at that place, the child reads nothing but its own source. -/
def ChildScoped (s merged : Statement) (place : Nat) : Prop :=
  ∀ name child, s.sources[place]? = some (name, .select child) →
    child.columnNames.Nodup ∧
      (merged.sources[place]? ≠ some (name, .select child) →
        ∀ r ∈ child.columnRefs, r.table = child.sourceName)

section Sequence

variable {V : Type} [DecidableEq V] (I : Interpretation V) (A : Across V)
  (base : Node → List (Row V))

/-- Two statements have as many joined rows, and the same values at each. -/
def SameValues (s merged : Statement) : Prop :=
  (merged.joinedRows I A (Node.rowsOf I base)).length =
      (s.joinedRows I A (Node.rowsOf I base)).length ∧
    ∀ i < (s.joinedRows I A (Node.rowsOf I base)).length,
      merged.valuesAt I A (merged.joinedRows I A (Node.rowsOf I base)) i =
        s.valuesAt I A (s.joinedRows I A (Node.rowsOf I base)) i

variable {I A base}

theorem SameValues.trans {a b c : Statement} (hab : SameValues I A base a b)
    (hbc : SameValues I A base b c) : SameValues I A base a c := by
  refine ⟨hbc.1.trans hab.1, ?_⟩
  intro i hi
  rw [hbc.2 i (hab.1 ▸ hi), hab.2 i hi]

theorem Replaces.sameValues {s child merged : Statement} {place : Nat} {name : String}
    (h : s.Replaces place name child merged) (hview : child.IsView) (hscope : s.JoinsInScope)
    (hunnamed : s.Unnamed) : SameValues I A base s merged := by
  have hrows : List.Forall₂ _ (s.joinedRows I A (Node.rowsOf I base)) _ :=
    h.forall₂_joinedRows hview hscope hunnamed
  refine ⟨hrows.length_eq.symm, h.valuesAt_eq hview hscope ?_ hrows hunnamed⟩
  intro n hn
  simpa using hn

/-- Every source is looked at once, so what is assumed of the sources still holds of those that are
left when one has been replaced. -/
theorem sameValues_of_replaceSources? : ∀ {places : List Nat} {s merged : Statement},
    places.Nodup → s.JoinsInScope → s.Unnamed → (∀ i ∈ places, s.ChildScoped merged i) →
    replaceSources? places s = some merged → SameValues I A base s merged
  | [], _, _, _, _, _, _, h => by cases h
  | place :: places, s, merged, hplaces, hscope, hunnamed, hchildren, h => by
      rw [List.nodup_cons] at hplaces
      have hothers : ∀ i ∈ places, s.ChildScoped merged i :=
        fun i hi => hchildren i (List.mem_cons_of_mem _ hi)
      rcases replaceSources?_cons h with hskip | ⟨name, child, t, hstep, hrest⟩
      · exact sameValues_of_replaceSources? hplaces.2 hscope hunnamed hothers hskip
      · have hplace : merged.sources[place]? = some (child.sourceName, child.source) := by
          rw [← hstep.source_new]
          rcases hrest with rfl | hrest
          · rfl
          · exact sources_of_replaceSources? hplaces.1 hrest
        have hview : child.IsView := by
          rcases hchildren place List.mem_cons_self name child hstep.source_at with ⟨hnames, hown⟩
          refine ⟨hstep.plain, hnames, hown ?_⟩
          rw [hplace]
          intro heq
          exact source_ne_select child (congrArg Prod.snd (Option.some.inj heq))
        have hsame : SameValues I A base s t := hstep.sameValues hview hscope hunnamed
        rcases hrest with rfl | hrest
        · exact hsame
        · refine hsame.trans (sameValues_of_replaceSources? hplaces.2
            (hstep.joinsInScope hview hscope hunnamed) (hstep.unnamed hunnamed) ?_ hrest)
          intro i hi n c hc
          have hne : i ≠ place := fun heq => hplaces.1 (heq ▸ hi)
          rw [hstep.sources_other hne] at hc
          exact hothers i hi n c hc

end Sequence

end Select

/-- **Replacing the sources of a join keeps all values.**  The statement has as many joined rows as
before, and at each of them every column, the filter, every grouping key and every sort key has the
value that it had. -/
theorem values_of_joinSources {V : Type} [DecidableEq V] (I : Interpretation V) (A : Across V)
    (base : Node → List (Row V)) {s merged : Statement} (hscope : s.JoinsInScope)
    (hchildren : ∀ place, s.ChildScoped merged place) (h : s.joinSources? = some merged) :
    Select.SameValues I A base s merged := by
  unfold Select.joinSources? at h
  split at h
  case isTrue htransparent =>
    exact Select.sameValues_of_replaceSources? List.nodup_range hscope
      (Select.unnamed_of_isTransparent htransparent) (fun i _ => hchildren i) h
  case isFalse => cases h

/-! ## An example -/

/-- Aggregates are the number of rows that pass the filter, at every row. -/
def Across.counts : Across Nat where
  aggregate extent _ _ _ := (extent.filter.map fun vs => vs.count 1).getD extent.size
  window extent _ _ _ _ _ := extent.size
  bare _ _ := 0

/-- Rows of three tables. -/
def threeTables : Node → List (Row Nat)
  | .table _ ⟨_, "r"⟩ => [[("u", 1), ("v", 5)], [("u", 2), ("v", 6)], [("u", 3), ("v", 7)]]
  | .table _ ⟨_, "s"⟩ => [[("k", 0)], [("k", 1)], [("k", 7)]]
  | .table _ ⟨_, "t"⟩ => [[("u", 8), ("v", 6)], [("u", 9), ("v", 6)]]
  | _ => []

/-- `SELECT a.x AS p, f.n AS q, SUM(d.z) AS total
FROM (SELECT c.u AS x, c.v AS w FROM r c) a
INNER JOIN (SELECT g.k + '1' AS n FROM s g) f ON a.x = f.n
LEFT JOIN (SELECT e.v AS y, e.u AS z FROM t e) d ON a.w = d.y
WHERE a.x > '1' GROUP BY a.x, f.n ORDER BY q DESC`. -/
def Select.threeSources : Statement :=
  { Select.plain 7 [⟨.column ⟨"a", "x"⟩ true, "p"⟩, ⟨.column ⟨"f", "n"⟩ true, "q"⟩,
      ⟨.aggregate .sum [.column ⟨"d", "z"⟩ true], "total"⟩]
      (.select (.plain 2 [⟨.column ⟨"c", "u"⟩ true, "x"⟩, ⟨.column ⟨"c", "v"⟩ true, "w"⟩]
        (.table 1 ⟨none, "r"⟩) "c")) "a" with
    joins := [
      ⟨.select (.plain 4 [⟨.arithmetic (.column ⟨"g", "k"⟩ true) .add (.literal "1"), "n"⟩]
        (.table 3 ⟨none, "s"⟩) "g"), "f", .inner,
        some (.comparison (.column ⟨"a", "x"⟩ true) .eq (.column ⟨"f", "n"⟩ true))⟩,
      ⟨.select (.plain 6 [⟨.column ⟨"e", "v"⟩ true, "y"⟩, ⟨.column ⟨"e", "u"⟩ true, "z"⟩]
        (.table 5 ⟨none, "t"⟩) "e"), "d", .leftOuter,
        some (.comparison (.column ⟨"a", "w"⟩ true) .eq (.column ⟨"d", "y"⟩ true))⟩]
    filter := some (.comparison (.column ⟨"a", "x"⟩ true) .gt (.literal "1"))
    groupBy := [⟨.column ⟨"a", "x"⟩ true, "p"⟩, ⟨.column ⟨"f", "n"⟩ true, "q"⟩]
    orderBy := [⟨.name "q", true⟩] }

theorem Select.joinsInScope_threeSources : Select.threeSources.JoinsInScope where
  source_names := by decide
  kinds := by decide
  tables := by decide
  conditions := by
    simp only [threeSources, plain, Join.InScope]
    decide
  raws := by decide
  order_names := by decide

theorem values_of_joinSources_threeSources :
    ∃ merged, Select.threeSources.joinSources? = some merged ∧
      merged.sources = [("c", .table 1 ⟨none, "r"⟩), ("g", .table 3 ⟨none, "s"⟩),
        ("e", .table 5 ⟨none, "t"⟩)] ∧
      Select.threeSources.JoinsInScope ∧ (∀ place, Select.threeSources.ChildScoped merged place) ∧
      (Select.threeSources.joinedRows .numbers .counts (Node.rowsOf .numbers threeTables)).length = 3 ∧
      Select.SameValues .numbers .counts threeTables .threeSources merged := by
  have hchildren : ∀ merged place, Select.threeSources.ChildScoped merged place := by
    intro merged place name child hchild
    rcases place with _ | _ | _ | place
    · cases hchild
      exact ⟨by decide, fun _ => by decide⟩
    · cases hchild
      exact ⟨by decide, fun _ => by decide⟩
    · cases hchild
      exact ⟨by decide, fun _ => by decide⟩
    · cases hchild
  exact ⟨_, rfl, rfl, Select.joinsInScope_threeSources, hchildren _, by decide +kernel,
    values_of_joinSources .numbers .counts threeTables Select.joinsInScope_threeSources
      (hchildren _) rfl⟩

end QueryPlan
