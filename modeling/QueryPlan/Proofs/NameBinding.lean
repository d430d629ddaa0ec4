import QueryPlan.Proofs.FixedPoint
import QueryPlan.Proofs.Places
import QueryPlan.Proofs.Qualifiers

/-!
# What names refer to

A column written with its source is a column of that source.  A bare name in a statement with one
source is a column of the source, except that in `GROUP BY` and `ORDER BY` output names come first.
Dropping qualifiers keeps what every name refers to (`dropQualifiers_keeps_targets`).

* `Select.target`, `Select.keyTarget` — what a reference reads in the clauses where only sources
  count, and in those where output names come first.
* `Select.targets_bareKey` — a key that is written bare reads what it read.  The test that allows it
  looks at all columns of the key and at all output columns, so it does not matter which of them were
  bare before.
* `Select.BindsAlike` — two statements have the same expressions, clause by clause, and the same
  targets in them.
-/

namespace QueryPlan

/-! ## References and their targets -/

/-- A column as it is written: with a source, or by its name alone. -/
structure Reference where
  table : Option String
  column : String
deriving DecidableEq

/-- What a reference reads. -/
inductive Target where
  /-- A column of a source. -/
  | column (ref : ColumnRef)
  /-- An output column that is computed. -/
  | output (name : String)
  /-- A column of one of several sources. -/
  | anySource (name : String)
deriving DecidableEq

namespace Expr

/-- How a column or an output name is written; nothing for any other expression. -/
def reference? : Expr → Option Reference
  | .column r true => some ⟨some r.table, r.column⟩
  | .column r false => some ⟨none, r.column⟩
  | .name n => some ⟨none, n⟩
  | _ => none

/-- What the references in an expression read, from left to right. -/
def targets (target : Reference → Target) (e : Expr) : List Target :=
  e.walk.filterMap fun d => d.reference?.map target

/-- Two expressions that differ in qualifiers only, and whose references read the same. -/
def ReadsAlike (target target' : Reference → Target) (e e' : Expr) : Prop :=
  e'.setQualified true = e.setQualified true ∧ e'.targets target' = e.targets target

/-- No column of an expression is written with its source. -/
def IsUnqualified (e : Expr) : Prop :=
  ∀ r, .column r true ∉ e.walk

theorem walk_setQualified (q : Bool) (e : Expr) :
    (e.setQualified q).walk = e.walk.map (setQualified q) := by
  rw [setQualified_eq_bindColumns, walk_bindColumns, List.map_eq_flatMap]
  refine List.flatMap_congr ?_
  intro d _
  rw [setQualified_eq_bindColumns]
  cases d <;> rfl

theorem map_reference?_setQualified {target : Reference → Target} {e : Expr}
    (h : ∀ r, e.columnRef? = some r → target ⟨none, r.column⟩ = target ⟨some r.table, r.column⟩)
    (q : Bool) : (e.setQualified q).reference?.map target = e.reference?.map target := by
  cases e with
  | column r p =>
      have hr := h r rfl
      cases q <;> cases p <;> simp [setQualified, transform, reference?, hr]
  | _ => rfl

/-- Where the columns of an expression are the same with and without their source, qualifiers do not
matter. -/
theorem targets_setQualified {target : Reference → Target} {e : Expr}
    (h : ∀ r ∈ e.lineage.columns, target ⟨none, r.column⟩ = target ⟨some r.table, r.column⟩)
    (q : Bool) : (e.setQualified q).targets target = e.targets target := by
  rw [targets, walk_setQualified, List.filterMap_map]
  refine List.filterMap_congr ?_
  intro d hd
  refine map_reference?_setQualified ?_ q
  intro r hr
  obtain ⟨p, rfl⟩ := eq_column_of_columnRef? hr
  exact h r (mem_lineage_columns.2 ⟨p, hd⟩)

theorem isUnqualified_setQualified (e : Expr) : (e.setQualified false).IsUnqualified := by
  intro r hr
  rw [walk_setQualified] at hr
  obtain ⟨d, -, hd⟩ := List.mem_map.1 hr
  cases d <;> cases hd

end Expr

namespace Select

variable {σ τ : Type} (s : Select σ)

/-- What a reference reads where only sources count: in the select list, in join conditions and in
the filter. -/
def target : Reference → Target
  | ⟨some table, column⟩ => .column ⟨table, column⟩
  | ⟨none, column⟩ =>
      if s.joins.isEmpty then .column ⟨s.sourceName, column⟩ else .anySource column

/-- What a reference reads in `GROUP BY` and `ORDER BY`, where a bare name is first looked for among
the output names.  An output column that is itself a reference stands for what that reads. -/
def keyTarget : Reference → Target
  | ⟨some table, column⟩ => .column ⟨table, column⟩
  | ⟨none, column⟩ =>
      match s.column? column with
      | some shown => (shown.expr.reference?.map s.target).getD (.output column)
      | none => s.target ⟨none, column⟩

/-- In a statement with one source, every column is written with the name of that source. -/
def ReadsOwnSource : Prop :=
  s.joins = [] → ∀ r ∈ s.columnRefs, r.table = s.sourceName

/-- Two statements have the same expressions, clause by clause and up to qualifiers, and the same
targets in them. -/
structure BindsAlike (s : Select σ) (s' : Select τ) : Prop where
  columns : List.Forall₂ (fun c c' : NamedExpr =>
    c'.name = c.name ∧ c.expr.ReadsAlike s.target s'.target c'.expr) s.columns s'.columns
  conditions : List.Forall₂ (Expr.ReadsAlike s.target s'.target) s.conditions s'.conditions
  filter : Option.Rel (Expr.ReadsAlike s.target s'.target) s.filter s'.filter
  groupBy : List.Forall₂ (fun g g' : NamedExpr =>
    g'.name = g.name ∧ g.expr.ReadsAlike s.keyTarget s'.keyTarget g'.expr) s.groupBy s'.groupBy
  orderBy : List.Forall₂ (fun k k' : SortKey Expr =>
    k'.descending = k.descending ∧ k.expr.ReadsAlike s.keyTarget s'.keyTarget k'.expr)
    s.orderBy s'.orderBy

/-- A statement with one source has no qualifiers but those of keys of which a column has the name of
another output column. -/
def WrittenBare : Prop :=
  s.joins = [] →
    (∀ e ∈ s.selectExprs ++ s.filter.toList, e.IsUnqualified) ∧
    ∀ e ∈ s.groupExprs ++ s.orderExprs, e.IsUnqualified ∨
      ∃ r ∈ e.lineage.columns, ∃ c ∈ s.columns, c.name = r.column ∧ c.expr.columnRef? ≠ some r

/-! ## One statement -/

variable {s}

theorem ReadsOwnSource.of_mem_exprs (h : s.ReadsOwnSource) (hjoins : s.joins = []) {e : Expr}
    (he : e ∈ s.exprs) : ∀ r ∈ e.lineage.columns, r.table = s.sourceName :=
  fun r hr => h hjoins r (List.mem_flatMap.2 ⟨e, he, hr⟩)

theorem target_of_own (hjoins : s.joins = []) {r : ColumnRef} (hr : r.table = s.sourceName) :
    s.target ⟨none, r.column⟩ = .column r := by
  rw [target, hjoins, ← hr]
  rfl

theorem targets_bare (h : s.ReadsOwnSource) {e : Expr} (he : e ∈ s.exprs) :
    (s.bare e).targets s.target = e.targets s.target := by
  rw [bare]
  split
  case isTrue hjoins =>
    rw [List.isEmpty_iff] at hjoins
    refine Expr.targets_setQualified ?_ false
    intro r hr
    exact target_of_own hjoins (h.of_mem_exprs hjoins he r hr)
  case isFalse => rfl

theorem map_reference?_bare (h : s.ReadsOwnSource) {e : Expr} (he : e ∈ s.exprs) :
    (s.bare e).reference?.map s.target = e.reference?.map s.target := by
  rw [bare]
  split
  case isTrue hjoins =>
    rw [List.isEmpty_iff] at hjoins
    refine Expr.map_reference?_setQualified ?_ false
    intro r hr
    refine target_of_own hjoins (h.of_mem_exprs hjoins he r ?_)
    rw [lineage_of_columnRef? hr]
    exact List.mem_cons_self
  case isFalse => rfl

/-- Where the test succeeds, no output column takes the place of a column of the key: one that has its
name is that column. -/
theorem keyTarget_of_bindsSameBare (h : s.ReadsOwnSource) (hjoins : s.joins = []) {e : Expr}
    (he : e ∈ s.exprs) (hsame : bindsSameBare s.columns e = true) {r : ColumnRef}
    (hr : r ∈ e.lineage.columns) : s.keyTarget ⟨none, r.column⟩ = .column r := by
  have hown := target_of_own hjoins (h.of_mem_exprs hjoins he r hr)
  rw [keyTarget]
  cases hshown : s.column? r.column with
  | none => exact hown
  | some c =>
      have hname : c.name = r.column := by simpa using List.find?_some hshown
      have hcolumn : c.expr.columnRef? = some r := by
        have := List.all_eq_true.1 (List.all_eq_true.1 hsame r hr) c (List.mem_of_find?_eq_some hshown)
        simpa [hname] using this
      obtain ⟨q, hc⟩ := Expr.eq_column_of_columnRef? hcolumn
      show (c.expr.reference?.map s.target).getD (.output r.column) = .column r
      rw [hc]
      cases q with
      | false => exact hown
      | true => rfl

theorem targets_bareKey (h : s.ReadsOwnSource) {e : Expr} (he : e ∈ s.exprs) :
    (s.bareKey e).targets s.keyTarget = e.targets s.keyTarget := by
  rw [bareKey, dropQualifiersIfSame]
  split
  case isTrue hjoins =>
    rw [List.isEmpty_iff] at hjoins
    split
    case isTrue hsame =>
      exact Expr.targets_setQualified
        (fun r hr => keyTarget_of_bindsSameBare h hjoins he hsame hr) false
    case isFalse => rfl
  case isFalse => rfl

theorem target_dropQualifiers : s.dropQualifiers.target = s.target := by
  funext ⟨table, column⟩
  cases table <;> simp [target]

/-- The output names mean what they meant. -/
theorem keyTarget_dropQualifiers (h : s.ReadsOwnSource) :
    s.dropQualifiers.keyTarget = s.keyTarget := by
  funext ⟨table, column⟩
  cases table with
  | some table => rfl
  | none =>
      rw [keyTarget, keyTarget, column?_dropQualifiers, target_dropQualifiers]
      cases hshown : s.column? column with
      | none => rfl
      | some c =>
          have hc : c.expr ∈ s.exprs :=
            mem_exprs.2 (.inl (List.mem_map_of_mem (List.mem_of_find?_eq_some hshown)))
          show ((s.bare c.expr).reference?.map s.target).getD _ = _
          rw [map_reference?_bare h hc]

theorem setQualified_bare (e : Expr) : (s.bare e).setQualified true = e.setQualified true :=
  s.reading_bare (v := Expr.setQualified true) (Expr.setQualified_setQualified false true e)

theorem setQualified_bareKey (e : Expr) : (s.bareKey e).setQualified true = e.setQualified true :=
  s.reading_bareKey (v := Expr.setQualified true) (Expr.setQualified_setQualified false true e)

/-- **Dropping qualifiers in one statement.**  Every reference reads what it read. -/
theorem bindsAlike_dropQualifiers (h : s.ReadsOwnSource) : s.BindsAlike s.dropQualifiers := by
  have hrow : ∀ e ∈ s.exprs, e.ReadsAlike s.target s.dropQualifiers.target (s.bare e) := by
    intro e he
    rw [target_dropQualifiers]
    exact ⟨setQualified_bare e, targets_bare h he⟩
  have hkey : ∀ e ∈ s.exprs, e.ReadsAlike s.keyTarget s.dropQualifiers.keyTarget (s.bareKey e) := by
    intro e he
    rw [keyTarget_dropQualifiers h]
    exact ⟨setQualified_bareKey e, targets_bareKey h he⟩
  constructor
  case columns =>
    rw [columns_dropQualifiers, List.forall₂_map_right_iff, List.forall₂_same]
    intro c hc
    exact ⟨rfl, hrow _ (mem_exprs.2 (.inl (List.mem_map_of_mem hc)))⟩
  case conditions =>
    rw [conditions, conditions, joins_dropQualifiers, target_dropQualifiers, List.forall₂_same]
    exact fun e _ => ⟨rfl, rfl⟩
  case filter =>
    rw [filter_dropQualifiers]
    cases hfilter : s.filter with
    | none => exact .none
    | some e => exact .some (hrow e (mem_exprs.2 (.inr (.inr (.inl hfilter)))))
  case groupBy =>
    rw [groupBy_dropQualifiers, List.forall₂_map_right_iff, List.forall₂_same]
    intro g hg
    exact ⟨rfl, hkey _ (mem_exprs.2 (.inr (.inr (.inr (.inl (List.mem_map_of_mem hg))))))⟩
  case orderBy =>
    rw [orderBy_dropQualifiers, List.forall₂_map_right_iff, List.forall₂_same]
    intro k hk
    exact ⟨rfl, hkey _ (mem_exprs.2 (.inr (.inr (.inr (.inr (List.mem_map_of_mem hk))))))⟩

theorem isUnqualified_bare (hjoins : s.joins = []) (e : Expr) : (s.bare e).IsUnqualified := by
  rw [bare, hjoins]
  exact Expr.isUnqualified_setQualified e

/-- A key keeps its qualifiers only if a column of it has the name of another output column. -/
theorem isUnqualified_bareKey_or (hjoins : s.joins = []) (e : Expr) :
    (s.bareKey e).IsUnqualified ∨ ∃ r ∈ (s.bareKey e).lineage.columns,
      ∃ c ∈ s.dropQualifiers.columns, c.name = r.column ∧ c.expr.columnRef? ≠ some r := by
  rw [lineage_bareKey, bareKey, hjoins, List.isEmpty_nil, if_pos rfl, dropQualifiersIfSame]
  split
  case isTrue => exact .inl (Expr.isUnqualified_setQualified e)
  case isFalse hsame =>
    right
    simp only [bindsSameBare, List.all_eq_true, not_forall] at hsame
    obtain ⟨r, hr, c, hc, hother⟩ := hsame
    refine ⟨r, hr, { c with expr := s.bare c.expr }, ?_, ?_⟩
    · rw [columns_dropQualifiers]
      exact List.mem_map_of_mem hc
    · rw [columnRef?_bare]
      simpa using hother

theorem writtenBare_dropQualifiers : s.dropQualifiers.WrittenBare := by
  intro hjoins
  rw [joins_dropQualifiers] at hjoins
  constructor
  · intro e he
    rcases List.mem_append.1 he with he | he
    · rw [selectExprs, columns_dropQualifiers, List.map_map] at he
      obtain ⟨c, -, rfl⟩ := List.mem_map.1 he
      exact isUnqualified_bare hjoins c.expr
    · rw [filter_dropQualifiers, Option.mem_toList, Option.map_eq_some_iff] at he
      obtain ⟨d, -, rfl⟩ := he
      exact isUnqualified_bare hjoins d
  · intro e he
    rcases List.mem_append.1 he with he | he
    · rw [groupExprs, groupBy_dropQualifiers, List.map_map] at he
      obtain ⟨g, -, rfl⟩ := List.mem_map.1 he
      exact isUnqualified_bareKey_or hjoins g.expr
    · rw [orderExprs, orderBy_dropQualifiers, List.map_map] at he
      obtain ⟨k, -, rfl⟩ := List.mem_map.1 he
      exact isUnqualified_bareKey_or hjoins k.expr

/-! ## Statements over other sources -/

theorem target_forget (f : σ → τ) : (s.forget f).target = s.target := by
  funext ⟨table, column⟩
  cases table <;> simp [target, forget]

theorem keyTarget_forget (f : σ → τ) : (s.forget f).keyTarget = s.keyTarget := by
  funext ⟨table, column⟩
  cases table with
  | some table => rfl
  | none =>
      rw [keyTarget, keyTarget, target_forget]
      rfl

theorem bindsAlike_forget {υ : Type} {t : Select τ} (f : τ → υ) :
    s.BindsAlike (t.forget f) ↔ s.BindsAlike t := by
  constructor
  · rintro ⟨hcolumns, hconditions, hfilter, hgroup, horder⟩
    rw [target_forget] at hcolumns hconditions hfilter
    rw [keyTarget_forget] at hgroup horder
    rw [conditions_forget] at hconditions
    exact ⟨hcolumns, hconditions, hfilter, hgroup, horder⟩
  · rintro ⟨hcolumns, hconditions, hfilter, hgroup, horder⟩
    rw [← target_forget f] at hcolumns hconditions hfilter
    rw [← keyTarget_forget f] at hgroup horder
    rw [← conditions_forget f] at hconditions
    exact ⟨hcolumns, hconditions, hfilter, hgroup, horder⟩

end Select

/-! ## Plans -/

namespace Node

/-- Two nodes of one kind; if they are statements, then their references read the same, and the
second one has no qualifiers that it does not need. -/
def BindsAlike : Node → Node → Prop
  | .select s, .select s' => s.BindsAlike s' ∧ s'.WrittenBare
  | .cte c, .cte c' => c'.name = c.name
  | .createTable _ t _, .createTable _ t' _ => t' = t
  | n, n' => n' = n

end Node

namespace Rebuilder

variable {plan : Node} {done : Std.TreeMap NodeId Node}

/-- What a node reads has been built, one by one, for what the given node reads. -/
theorem parents_match_of_drop {n n' : Node}
    (h : ({ finish := Select.dropQualifiers } : Rebuilder).Forms done n n') :
    List.Forall₂ (fun m m' : Node => done[m.id]? = some m') n.parents n'.parents := by
  have hmatch := h.reads_match fun s => by simp [Node.parents]
  rwa [rewrites_dropQualifiers.reads_eq] at hmatch

theorem bindsAlike_of_drop {n n' : Node}
    (hsound : ({ finish := Select.dropQualifiers } : Rebuilder).Sound plan done)
    (hown : ∀ s, .select s ∈ plan.subnodes → s.ReadsOwnSource) (hn : n ∈ plan.subnodes)
    (hdone : done[n.id]? = some n') : n.BindsAlike n' := by
  have h := hsound n hn n' hdone
  cases n with
  | table | text => exact h
  | cte c =>
      obtain ⟨id, body, -, rfl⟩ := h
      rfl
  | createTable id t query =>
      obtain ⟨id', query', -, rfl⟩ := h
      rfl
  | select s =>
      obtain ⟨s₀, hprepares, rfl⟩ := h.exists_prepares
      have hclauses := rewrites_dropQualifiers.clauses_prepared hsound hn hprepares
      refine ⟨?_, Select.writtenBare_dropQualifiers⟩
      have hsame : s₀.dropQualifiers.forget (fun _ => ()) = s.dropQualifiers.forget fun _ => () := by
        rw [← Select.dropQualifiers_forget, hclauses, Select.dropQualifiers_forget]
      show s.BindsAlike s₀.dropQualifiers
      rw [← Select.bindsAlike_forget fun _ => (), hsame, Select.bindsAlike_forget]
      exact Select.bindsAlike_dropQualifiers (hown s hn)

end Rebuilder

/-- **Dropping qualifiers keeps what names refer to.**  Where identities tell the nodes of a plan apart
and every column in a statement with one source is written with the name of that source, the pass goes
through, and at every place of the new plan stands a statement whose references read, one by one and
in every clause, what those of the statement at that place read. -/
theorem dropQualifiers_keeps_targets {plan : Node} (hids : plan.IdsIdentify)
    (hown : ∀ s, .select s ∈ plan.subnodes → s.ReadsOwnSource) (next : NodeId) :
    ∃ out last, plan.dropQualifiers next = .ok (out, last) ∧
      ∀ place, Option.Rel Node.BindsAlike (plan.nodeAt? place) (out.nodeAt? place) := by
  obtain ⟨out, last, hout⟩ := Rebuilder.rewrites_dropQualifiers.exists_rebuilt plan next
  refine ⟨out, last, hout, ?_⟩
  obtain ⟨b, hrun, -⟩ := Node.rebuilt_eq_ok_iff.1 hout
  obtain ⟨hsound, hdone⟩ := Node.sound_of_run hids hrun
  have hreads : ∀ {n n' : Node}, n ∈ plan.subnodes ∧ b.done[n.id]? = some n' →
      List.Forall₂ (fun m m' => m ∈ plan.subnodes ∧ b.done[m.id]? = some m') n.parents n'.parents := by
    rintro n n' ⟨hn, hn'⟩
    rw [List.forall₂_and_left]
    exact ⟨fun m hm => Node.mem_subnodes_of_parent hm hn,
      Rebuilder.parents_match_of_drop (hsound n hn n' hn')⟩
  intro place
  have hplace := Node.rel_nodeAt? hreads ⟨Node.mem_subnodes_self plan, hdone⟩ place
  generalize plan.nodeAt? place = m, out.nodeAt? place = m' at hplace ⊢
  cases hplace with
  | none => exact .none
  | some h => exact .some (Rebuilder.bindsAlike_of_drop hsound hown h.1 h.2)

/-- `SELECT a.bar AS foo, a.foo AS bar, a.baz AS baz FROM t a ORDER BY a.foo, foo + a.baz, a.baz`. -/
def Select.swappedNames : Statement :=
  { Select.plain 1 [⟨.column ⟨"a", "bar"⟩ true, "foo"⟩, ⟨.column ⟨"a", "foo"⟩ true, "bar"⟩,
      ⟨.column ⟨"a", "baz"⟩ true, "baz"⟩] (.table 0 ⟨none, "t"⟩) "a" with
    orderBy := [⟨.column ⟨"a", "foo"⟩ true, false⟩,
      ⟨.arithmetic (.column ⟨"a", "foo"⟩ false) .add (.column ⟨"a", "baz"⟩ true), false⟩,
      ⟨.column ⟨"a", "baz"⟩ true, false⟩] }

/-- Where a bare `foo` would be the output column, the qualifiers stay as they are, and a `foo` that
was bare before goes on reading `bar`. -/
theorem dropQualifiers_keeps_targets_swappedNames :
    (Node.select .swappedNames).IdsIdentify ∧ Select.swappedNames.ReadsOwnSource ∧
      ∃ s' last, (Node.select .swappedNames).dropQualifiers 2 = .ok (.select s', last) ∧
        Select.swappedNames.BindsAlike s' ∧ s'.WrittenBare ∧
        s'.selectExprs = [.column ⟨"a", "bar"⟩ false, .column ⟨"a", "foo"⟩ false,
          .column ⟨"a", "baz"⟩ false] ∧
        s'.orderExprs = [.column ⟨"a", "foo"⟩ true,
          .arithmetic (.column ⟨"a", "foo"⟩ false) .add (.column ⟨"a", "baz"⟩ true),
          .column ⟨"a", "baz"⟩ false] ∧
        s'.orderExprs.map (Expr.targets s'.keyTarget) = [[.column ⟨"a", "foo"⟩],
          [.column ⟨"a", "bar"⟩, .column ⟨"a", "baz"⟩], [.column ⟨"a", "baz"⟩]] := by
  have hids : (Node.select .swappedNames).IdsIdentify := Node.idsIdentify_of_nodup (by decide)
  have hreads : Select.swappedNames.ReadsOwnSource := fun _ => by decide
  have hown : ∀ s, .select s ∈ (Node.select .swappedNames).subnodes → s.ReadsOwnSource := by
    intro s hs
    have hall : (Node.select .swappedNames).subnodes =
        [.select .swappedNames, .table 0 ⟨none, "t"⟩] := rfl
    simp only [hall, List.mem_cons, Node.select.injEq, reduceCtorEq, List.not_mem_nil, or_false] at hs
    exact hs ▸ hreads
  obtain ⟨out, last, hout, hplaces⟩ := dropQualifiers_keeps_targets hids hown 2
  have hrun : ((Node.select .swappedNames).dropQualifiers 2).toOption.bind (fun p => p.1.select?.map
      fun s' => (s'.selectExprs, s'.orderExprs, s'.orderExprs.map (Expr.targets s'.keyTarget))) =
      some ([.column ⟨"a", "bar"⟩ false, .column ⟨"a", "foo"⟩ false, .column ⟨"a", "baz"⟩ false],
        [.column ⟨"a", "foo"⟩ true,
          .arithmetic (.column ⟨"a", "foo"⟩ false) .add (.column ⟨"a", "baz"⟩ true),
          .column ⟨"a", "baz"⟩ false],
        [[.column ⟨"a", "foo"⟩], [.column ⟨"a", "bar"⟩, .column ⟨"a", "baz"⟩],
          [.column ⟨"a", "baz"⟩]]) := by
    decide +kernel
  have hroot : (Node.select .swappedNames).BindsAlike out := by
    cases hplaces [] with
    | some h => exact h
  cases out with
  | select s' =>
      rw [hout] at hrun
      simp only [Except.toOption, Option.bind_some, Node.select?, Option.map_some, Option.some.injEq,
        Prod.mk.injEq] at hrun
      exact ⟨hids, hreads, s', last, hout, hroot.1, hroot.2, hrun⟩
  | _ => cases hroot

end QueryPlan
