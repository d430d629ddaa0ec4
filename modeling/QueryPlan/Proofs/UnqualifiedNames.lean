import QueryPlan.Proofs.MergeRules

/-!
# Names without a source

A name without a source stands for whatever the sources of its statement, or its own output columns,
offer under that name.  Such names occur as sort keys and as the declared inputs of uninterpreted SQL.
Inlining puts expressions in place of columns of a source and never looks at these names.  So a name
that is left where it was means something else afterwards if the source that offered it is gone.

This file says which of them are left (`Select.Carries`).  Without joins, all uninterpreted SQL is
left except in the sort keys, which become output names; with joins, all of it is, and the names in
sort keys as well.  `KeepsUnqualified` asks that nothing is left that names `u`, sort keys that name an
output column excepted, and `unqualified_kept_iff` says when this holds: what the removed source
computes under the name `u` plays no part in it.
-/

namespace QueryPlan

/-- The places where the expressions of a statement stand. -/
inductive Clause where
  | select | condition | filter | group | order
deriving DecidableEq, Repr

namespace Select

variable {σ : Type} {parent child merged : Select σ}

/-- The expressions of a clause. -/
def clause (s : Select σ) : Clause → List Expr
  | .select => s.selectExprs
  | .condition => s.conditions
  | .filter => s.filter.toList
  | .group => s.groupExprs
  | .order => s.orderExprs

/-- Whether an expression occurs in a clause, on its own or inside of another one. -/
def Occurs (s : Select σ) (c : Clause) (d : Expr) : Prop :=
  ∃ e ∈ s.clause c, d ∈ e.walk

/-- Whether an expression is carried over: it occurs in the same clause of both statements. -/
def Carries (s merged : Select σ) (c : Clause) (d : Expr) : Prop :=
  s.Occurs c d ∧ merged.Occurs c d

/-- Whether a merged statement has nothing left that names `u` without a source: neither SQL that
declares `u` as an input, nor a sort key that names it, unless `u` is an output name. -/
structure KeepsUnqualified (s merged : Select σ) (u : String) : Prop where
  raws : ∀ c sql inputs g, u ∈ inputs → ¬ s.Carries merged c (.raw sql (some inputs) g)
  names : s.Carries merged .order (.name u) → u ∈ s.columnNames

/-- Whether a statement puts out a name for something else than a column of that name. -/
def Reshapes (s : Select σ) (u : String) : Prop :=
  ∃ c ∈ s.columns, c.name = u ∧ ∀ r, c.expr.columnRef? = some r → r.column ≠ u

/-! ## What is carried over -/

/-- What a substitution leaves as it is occurs in the same places afterwards. -/
theorem occurs_of_substituted {s merged : Select σ} {c : Clause} {d : Expr} {subst : Substitution}
    (hclause : ∀ e ∈ s.clause c, e.substitute subst ∈ merged.clause c)
    (hstays : d.substitute subst = d) (hd : s.Occurs c d) : merged.Occurs c d := by
  rcases hd with ⟨e, he, hwalk⟩
  exact ⟨_, hclause e he, Expr.mem_walk_bindColumns _ hwalk hstays⟩

/-- What occurs in the second part of a conjunction occurs in the whole. -/
theorem exists_conjoin_of_mem_walk (l : Option Expr) {e d : Expr} (hd : d ∈ e.walk) :
    ∃ e', Expr.conjoin l (some e) = some e' ∧ d ∈ e'.walk := by
  unfold Expr.conjoin
  split
  case h_1 => exact ⟨e, rfl, hd⟩
  case h_2 hr => cases hr
  case h_3 hr =>
    cases hr
    refine ⟨_, rfl, Expr.mem_walk_of_mem_children ?_ hd⟩
    simp [Expr.children]
  case h_4 hr =>
    cases hr
    refine ⟨_, rfl, Expr.mem_walk_of_mem_children ?_ hd⟩
    simp [Expr.children]

/-- Without joins, what a substitution leaves as it is is carried over, except in sort keys. -/
theorem Inlines.occurs (h : Inlines parent child merged) (hjoins : parent.joins = []) {c : Clause}
    (hc : c ≠ .order) {d : Expr} (hstays : ∀ subst, d.substitute subst = d)
    (hd : parent.Occurs c d) : merged.Occurs c d := by
  have hsubst := hstays (columnSubstitution parent.sourceName child)
  cases c with
  | select =>
      refine occurs_of_substituted ?_ hsubst hd
      intro e he
      rcases List.mem_map.1 he with ⟨column, hcolumn, rfl⟩
      rw [clause, selectExprs, h.columns, substituteColumns, List.map_map]
      exact List.mem_map.2 ⟨column, hcolumn, rfl⟩
  | condition =>
      rcases hd with ⟨e, he, -⟩
      rw [clause, conditions, hjoins] at he
      cases he
  | filter =>
      rcases hd with ⟨e, he, hwalk⟩
      have hwalk := Expr.mem_walk_bindColumns _ hwalk hsubst
      rcases exists_conjoin_of_mem_walk child.filter hwalk with ⟨e', he', hwalk'⟩
      refine ⟨e', Option.mem_toList.2 ?_, hwalk'⟩
      rw [h.filter, Option.mem_toList.1 he, Option.map_some]
      exact he'
  | group =>
      refine occurs_of_substituted ?_ hsubst hd
      intro e he
      rcases List.mem_map.1 he with ⟨key, hkey, rfl⟩
      have hsome : parent.groupBy.isEmpty = false := by
        simpa using List.ne_nil_of_mem hkey
      rw [clause, groupExprs, h.groupBy, hsome, if_neg Bool.false_ne_true, substituteColumns,
        List.map_map]
      exact List.mem_map.2 ⟨key, hkey, rfl⟩
  | order => exact absurd rfl hc

/-- Without joins, sort keys become output names. -/
theorem Inlines.occurs_order (h : Inlines parent child merged) {d : Expr}
    (hd : merged.Occurs .order d) : ∃ n ∈ parent.columnNames, d = .name n := by
  rcases hd with ⟨e, he, hwalk⟩
  rcases List.mem_map.1 he with ⟨k, hk, rfl⟩
  rcases mem_columnNames_of_order h k hk with ⟨n, hn, hname⟩
  rw [hname] at hwalk
  exact ⟨n, columnNames_merged h ▸ hn, List.mem_singleton.1 hwalk⟩

end Select

/-- With joins, what a substitution leaves as it is is carried over by every replacement. -/
theorem Select.Replaces.occurs {s child merged : Statement} {place : Nat} {name : String}
    (h : s.Replaces place name child merged) {c : Clause} {d : Expr}
    (hstays : ∀ subst, d.substitute subst = d) (hd : s.Occurs c d) : merged.Occurs c d := by
  refine Select.occurs_of_substituted ?_ (hstays (Select.columnSubstitution name child)) hd
  intro e he
  have hclause : merged.clause c =
      (s.clause c).map (Expr.substitute (Select.columnSubstitution name child)) := by
    cases c <;>
      simp only [Select.clause, Select.selectExprs, Select.groupExprs, Select.orderExprs, h.columns,
        h.conditions, h.filter, h.groupBy, h.orderBy, substituteColumns, List.map_map,
        Option.toList_map, Function.comp_def]
  rw [hclause]
  exact List.mem_map_of_mem he

/-- With joins, what a substitution leaves as it is is carried over by a series of replacements. -/
theorem Select.occurs_of_replaceSources? {c : Clause} {d : Expr}
    (hstays : ∀ subst, d.substitute subst = d) : ∀ {places : List Nat} {s merged : Statement},
    Select.replaceSources? places s = some merged → s.Occurs c d → merged.Occurs c d
  | [], _, _, h, _ => by cases h
  | place :: places, s, merged, h, hd => by
      rcases Select.replaceSources?_cons h with hskip | ⟨name, child, t, hstep, hlast | hrest⟩
      · exact occurs_of_replaceSources? hstays hskip hd
      · exact hlast ▸ hstep.occurs hstays hd
      · exact occurs_of_replaceSources? hstays hrest (hstep.occurs hstays hd)

/-- **What inlining carries over.**  What a substitution leaves as it is is carried over from every
clause, but from sort keys only if there are joins. -/
theorem MergeRule.inlining_occurs {s merged : Statement} (h : MergeRule.inlining s = some merged)
    {c : Clause} (hc : s.joins = [] → c ≠ .order) {d : Expr}
    (hstays : ∀ subst, d.substitute subst = d) (hd : s.Occurs c d) : merged.Occurs c d := by
  by_cases hjoins : s.joins = []
  · rcases MergeRule.inlining_eq_some hjoins h with ⟨child, -, hinlines⟩
    exact hinlines.occurs hjoins (hc hjoins) hstays hd
  · rw [MergeRule.inlining, if_neg (by simpa using hjoins), Select.joinSources?] at h
    split at h
    · exact Select.occurs_of_replaceSources? hstays h hd
    · cases h

/-! ## Names that survive -/

/-- **When unqualified names keep their meaning.**  Let a statement be merged by inlining, whatever
source is removed and whatever it computes under the name `u`.  Nothing that names `u` without a
source is left exactly if no uninterpreted SQL declares `u` as an input, sort keys of a statement
without joins excepted, and the sort keys of a statement with joins name `u` only as an output
column. -/
theorem unqualified_kept_iff {s merged : Statement} (hmerged : MergeRule.inlining s = some merged)
    (u : String) :
    s.KeepsUnqualified merged u ↔
      (∀ c, (s.joins = [] → c ≠ .order) → ∀ sql inputs g, u ∈ inputs →
        ¬ s.Occurs c (.raw sql (some inputs) g)) ∧
      (s.joins ≠ [] → s.Occurs .order (.name u) → u ∈ s.columnNames) := by
  constructor
  · intro hkeeps
    refine ⟨?_, ?_⟩
    · intro c hc sql inputs g hu hd
      exact hkeeps.raws c sql inputs g hu
        ⟨hd, MergeRule.inlining_occurs hmerged hc (fun _ => rfl) hd⟩
    · intro hjoins hd
      exact hkeeps.names
        ⟨hd, MergeRule.inlining_occurs hmerged (absurd · hjoins) (fun _ => rfl) hd⟩
  · rintro ⟨hraws, hnames⟩
    refine ⟨?_, ?_⟩
    · rintro c sql inputs g hu ⟨hd, hd'⟩
      refine hraws c ?_ sql inputs g hu hd
      -- without joins the sort keys are names, so no SQL is left in them
      rintro hjoins rfl
      rcases MergeRule.inlining_eq_some hjoins hmerged with ⟨child, -, h⟩
      rcases h.occurs_order hd' with ⟨n, -, hname⟩
      cases hname
    · rintro ⟨hd, hd'⟩
      by_cases hjoins : s.joins = []
      · rcases MergeRule.inlining_eq_some hjoins hmerged with ⟨child, -, h⟩
        rcases h.occurs_order hd' with ⟨n, hn, hname⟩
        cases hname
        exact hn
      · exact hnames hjoins hd

/-! ## Two instances

A source that offers `u` for another column is removed, once below uninterpreted SQL that reads `u`
and once below a join that is sorted by `u`. -/

/-- `SELECT b.x AS x, b.y AS u FROM t b`. -/
def Select.renamedSecond : Statement :=
  .plain 2 [⟨.column ⟨"b", "x"⟩ true, "x"⟩, ⟨.column ⟨"b", "y"⟩ true, "u"⟩] (.table 1 ⟨none, "t"⟩)
    "b"

/-- `SELECT u + 1 AS v FROM renamedSecond a`, the sum being uninterpreted SQL that reads `u`. -/
def Select.rawSuccessor : Statement :=
  .plain 3 [⟨.raw "u + 1" (some ["u"]) false, "v"⟩] (.select .renamedSecond) "a"

/-- `SELECT a.x AS x FROM renamedSecond a CROSS JOIN s c ORDER BY u`. -/
def Select.sortedBySecond : Statement :=
  { Select.plain 5 [⟨.column ⟨"a", "x"⟩ true, "x"⟩] (.select .renamedSecond) "a" with
    joins := [⟨.table 4 ⟨none, "s"⟩, "c", .cross, none⟩]
    orderBy := [⟨.name "u", false⟩] }

/-- **Unqualified names are lost.**  Both statements are merged although their source offers `u` for a
column `y`, and what names `u` is left as it was. -/
theorem unqualified_lost_renamedSecond :
    Select.renamedSecond.Reshapes "u" ∧
      (∃ merged, MergeRule.inlining .rawSuccessor = some merged ∧
        merged.columns = Select.rawSuccessor.columns ∧ merged.source = .table 1 ⟨none, "t"⟩ ∧
        ¬ Select.rawSuccessor.KeepsUnqualified merged "u") ∧
      ∃ merged, MergeRule.inlining .sortedBySecond = some merged ∧
        merged.orderBy = Select.sortedBySecond.orderBy ∧ merged.source = .table 1 ⟨none, "t"⟩ ∧
        ¬ Select.sortedBySecond.KeepsUnqualified merged "u" := by
  refine ⟨⟨⟨.column ⟨"b", "y"⟩ true, "u"⟩, by decide, rfl, ?_⟩, ⟨_, rfl, rfl, rfl, ?_⟩,
    ⟨_, rfl, rfl, rfl, ?_⟩⟩
  · intro r hr
    cases hr
    decide
  · intro hkeeps
    refine ((unqualified_kept_iff rfl "u").1 hkeeps).1 .select (fun _ => by decide) "u + 1" ["u"]
      false (by decide) ⟨_, List.mem_singleton_self _, ?_⟩
    exact Expr.mem_walk_self _
  · intro hkeeps
    have hoccurs : Select.sortedBySecond.Occurs .order (.name "u") :=
      ⟨_, List.mem_singleton_self _, Expr.mem_walk_self _⟩
    have hname := ((unqualified_kept_iff rfl "u").1 hkeeps).2 (by decide) hoccurs
    exact absurd hname (by decide)

end QueryPlan
