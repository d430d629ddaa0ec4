import QueryPlan.Proofs.NameBinding
import QueryPlan.Proofs.OptimizingTwice
import QueryPlan.Proofs.Sharing

/-!
# Dropping qualifiers changes nothing else

A qualifier is a flag on a column.  A plan whose flags have all been set (`Node.eraseFlags`) shows what
there is apart from them, and that is what dropping qualifiers keeps, up to identities
(`eraseFlags_reworked_dropQualifiers`).

* `Select.DropsFlags` — which flags may be left, and that statements with joins are not touched.
* `Rebuilder.places_match_of_drop` — the new plan has the places of the given one, and holds at each
  of them what has been built for the node there.
* `Node.dropQualifiers_again` — the test that decides about keys does not look at flags, so a second
  run finds nothing to drop.
-/

namespace QueryPlan

/-! ## Without flags -/

namespace Expr

mutual
/-- An expression in which all columns are flagged alike. -/
def eraseFlags : Expr → Expr
  | .column r _ => .column r true
  | e@(.name _) | e@(.raw ..) | e@(.literal _) | e@.null => e
  | .comparison l op r => .comparison l.eraseFlags op r.eraseFlags
  | .logical op as => .logical op (eraseFlagsOfList as)
  | .isNull a => .isNull a.eraseFlags
  | .arithmetic l op r => .arithmetic l.eraseFlags op r.eraseFlags
  | .call g as => .call g (eraseFlagsOfList as)
  | .aggregate g as => .aggregate g (eraseFlagsOfList as)
  | .window g as ps os =>
      .window g (eraseFlagsOfList as) (eraseFlagsOfList ps) (eraseFlagsOfKeys os)
  | .cast a type => .cast a.eraseFlags type
  | .truncate grain a => .truncate grain a.eraseFlags
  | .between a low high => .between a.eraseFlags low.eraseFlags high.eraseFlags

/-- `eraseFlags` on every member of a list. -/
def eraseFlagsOfList : List Expr → List Expr
  | [] => []
  | a :: as => a.eraseFlags :: eraseFlagsOfList as

/-- `eraseFlags` on every sort key. -/
def eraseFlagsOfKeys : List (SortKey Expr) → List (SortKey Expr)
  | [] => []
  | k :: ks => { k with expr := k.expr.eraseFlags } :: eraseFlagsOfKeys ks
end

theorem eraseFlagsOfList_eq (as : List Expr) : eraseFlagsOfList as = as.map eraseFlags := by
  induction as with
  | nil => rfl
  | cons a as ih => rw [eraseFlagsOfList, ih, List.map_cons]

theorem eraseFlagsOfKeys_eq (ks : List (SortKey Expr)) :
    eraseFlagsOfKeys ks = ks.map fun k => { k with expr := k.expr.eraseFlags } := by
  induction ks with
  | nil => rfl
  | cons k ks ih => rw [eraseFlagsOfKeys, ih, List.map_cons]

theorem eraseFlags_eq_mapChildren {e : Expr} (h : e.columnRef? = none) :
    e.eraseFlags = e.mapChildren eraseFlags := by
  cases e with
  | column r q => simp [columnRef?] at h
  | _ => simp [eraseFlags, mapChildren, eraseFlagsOfList_eq, eraseFlagsOfKeys_eq]

/-- To erase flags is to set them all. -/
theorem eraseFlags_eq_setQualified (e : Expr) : e.eraseFlags = e.setQualified true := by
  rw [setQualified_eq_bindColumns]
  induction e using induct_columns with
  | column r q => rfl
  | step e hc ih =>
      rw [eraseFlags_eq_mapChildren hc, bindColumns_eq_mapChildren _ hc]
      exact mapChildren_congr ih

end Expr

namespace Select

variable {σ τ : Type} (s : Select σ)

/-- A statement without the flags of its columns, in every clause. -/
def eraseFlags : Select σ :=
  { s with
    columns := s.columns.map fun c => { c with expr := c.expr.eraseFlags }
    joins := s.joins.map fun j => { j with condition := j.condition.map Expr.eraseFlags }
    groupBy := s.groupBy.map fun g => { g with expr := g.expr.eraseFlags }
    orderBy := s.orderBy.map fun k => { k with expr := k.expr.eraseFlags }
    filter := s.filter.map Expr.eraseFlags }

theorem eraseFlags_forget (f : σ → τ) : (s.forget f).eraseFlags = s.eraseFlags.forget f := by
  simp [eraseFlags, forget, Join.forget, Function.comp_def]

theorem eraseFlags_bare (e : Expr) : (s.bare e).eraseFlags = e.eraseFlags := by
  rw [Expr.eraseFlags_eq_setQualified, setQualified_bare, Expr.eraseFlags_eq_setQualified]

theorem eraseFlags_bareKey (e : Expr) : (s.bareKey e).eraseFlags = e.eraseFlags := by
  rw [Expr.eraseFlags_eq_setQualified, setQualified_bareKey, Expr.eraseFlags_eq_setQualified]

/-- **Dropping qualifiers in one statement** changes flags only. -/
theorem eraseFlags_dropQualifiers : s.dropQualifiers.eraseFlags = s.eraseFlags := by
  rw [dropQualifiers_eq]
  simp only [eraseFlags, List.map_map, Option.map_map, Function.comp_def, eraseFlags_bare,
    eraseFlags_bareKey]

/-- A statement with one source has no qualifiers in the select list and in the filter, and any other
statement has the clauses of the given one. -/
structure DropsFlags (s s' : Select σ) : Prop where
  bare : s'.joins = [] → ∀ e ∈ s'.selectExprs ++ s'.filter.toList, e.IsUnqualified
  same : s'.joins ≠ [] → s'.forget (fun _ => ()) = s.forget fun _ => ()

end Select

namespace Node

/-- A plan without the flags of its columns. -/
def eraseFlags (n : Node) : Node :=
  n.reworked Select.eraseFlags

end Node

namespace Rebuilder

theorem isNatural_eraseFlags : ({ finish := Select.eraseFlags } : Rebuilder).IsNatural :=
  fun s => s.eraseFlags_forget Node.eraseIds

end Rebuilder

namespace Node

/-- **Dropping qualifiers in a plan**, by plain recursion, changes flags only. -/
theorem eraseFlags_reworked_dropQualifiers (n : Node) :
    (n.reworked Select.dropQualifiers).eraseFlags.eraseIds = n.eraseFlags.eraseIds := by
  have hselect := Rebuilder.isNatural_eraseFlags.eraseIds_reworked_select
  simp only [eraseFlags] at hselect ⊢
  induction n using induct_below with
  | h n ih =>
      cases n with
      | table | text => rfl
      | cte c =>
          have hbody := ih c.body (by simp [parents]) _ (mem_subnodes_self _)
          simp only [reworked, eraseIds, hbody]
      | createTable id t query =>
          have hquery := ih query (by simp [parents]) _ (mem_subnodes_self _)
          simp only [reworked, eraseIds, hquery]
      | select s =>
          rw [Select.parents_select] at ih
          -- the flags of this statement are erased last, so that it plays no part which were dropped
          rw [reworked, hselect, hselect, ← Select.dropQualifiers_forget,
            Select.eraseFlags_dropQualifiers, forget_reworked]
          congr 2
          refine Select.forget_congr ?_ ?_
          · intro m hm
            exact ih m (List.mem_append_left _ hm) m (mem_subnodes_self m)
          · intro c hc
            exact ih (.cte c) (List.mem_append_right _ (List.mem_map_of_mem hc)) c.body
              (mem_subnodes_of_mem_parents (by simp [parents]))

end Node

/-! ## Place by place -/

namespace Rebuilder

variable {plan out : Node} {done : Std.TreeMap NodeId Node}
  (hsound : ({ finish := Select.dropQualifiers } : Rebuilder).Sound plan done)

include hsound

/-- At every place stands what has been built for the node at that place. -/
theorem places_match_of_drop (hdone : done[plan.id]? = some out) (place : List Nat) :
    Option.Rel (fun m m' => m ∈ plan.subnodes ∧ done[m.id]? = some m') (plan.nodeAt? place)
      (out.nodeAt? place) := by
  refine Node.rel_nodeAt? ?_ ⟨Node.mem_subnodes_self plan, hdone⟩ place
  rintro n n' ⟨hn, hn'⟩
  rw [List.forall₂_and_left]
  exact ⟨fun m hm => Node.mem_subnodes_of_parent hm hn, parents_match_of_drop (hsound n hn n' hn')⟩

theorem exists_built_of_nodeAt? (hdone : done[plan.id]? = some out) {place : List Nat} {m : Node}
    (hm : plan.nodeAt? place = some m) :
    ∃ m', out.nodeAt? place = some m' ∧ done[m.id]? = some m' := by
  have hplace := places_match_of_drop hsound hdone place
  rw [hm] at hplace
  generalize out.nodeAt? place = m' at hplace ⊢
  cases hplace with
  | some h => exact ⟨_, rfl, h.2⟩

theorem exists_origin_of_nodeAt? (hdone : done[plan.id]? = some out) {place : List Nat} {m' : Node}
    (hm' : out.nodeAt? place = some m') :
    ∃ m ∈ plan.subnodes, plan.nodeAt? place = some m ∧ done[m.id]? = some m' := by
  have hplace := places_match_of_drop hsound hdone place
  rw [hm'] at hplace
  generalize plan.nodeAt? place = m at hplace ⊢
  cases hplace with
  | some h => exact ⟨_, h.1, rfl, h.2⟩

/-- Places that hold one node hold one node in the new plan. -/
theorem exists_shared_of_drop (hdone : done[plan.id]? = some out) {p q : List Nat}
    (h : plan.SharesAt p q) : ∃ m', out.nodeAt? p = some m' ∧ out.nodeAt? q = some m' := by
  obtain ⟨m, n, hm, hn, hid⟩ := h
  obtain ⟨m', hp, hm'⟩ := exists_built_of_nodeAt? hsound hdone hm
  obtain ⟨n', hq, hn'⟩ := exists_built_of_nodeAt? hsound hdone hn
  rw [hid] at hm'
  exact ⟨m', hp, hq.trans (hn'.symm.trans hm')⟩

/-- Where different identities have been built apart, no other places hold one node. -/
theorem sharesAt_of_drop (hdone : done[plan.id]? = some out)
    (hapart : ∀ {i j : NodeId} {m m' : Node}, done[i]? = some m → done[j]? = some m' →
      m.id = m'.id → i = j) {p q : List Nat} (h : out.SharesAt p q) : plan.SharesAt p q := by
  obtain ⟨m', n', hp, hq, hid⟩ := h
  obtain ⟨m, -, hm, hm'⟩ := exists_origin_of_nodeAt? hsound hdone hp
  obtain ⟨n, -, hn, hn'⟩ := exists_origin_of_nodeAt? hsound hdone hq
  exact ⟨m, n, hm, hn, hapart hm' hn' hid⟩

theorem dropsFlags_of_drop {n : Node} {s' : Statement} (hn : n ∈ plan.subnodes)
    (hdone : done[n.id]? = some (.select s')) : ∃ s, n = .select s ∧ s.DropsFlags s' := by
  obtain ⟨s, s₀, rfl, hprepares, rfl⟩ := (hsound n hn _ hdone).exists_prepares_of_select
  refine ⟨s, rfl, fun hjoins => (Select.writtenBare_dropQualifiers hjoins).1, ?_⟩
  intro hjoins
  have hsame : s₀.dropQualifiers = s₀ := by
    rw [Select.joins_dropQualifiers] at hjoins
    exact if_neg (by simpa using hjoins)
  show s₀.dropQualifiers.forget _ = _
  rw [hsame, rewrites_dropQualifiers.clauses_prepared hsound hn hprepares]

end Rebuilder

namespace Node

variable {plan out : Node} {next last : NodeId}

/-- **A second run drops nothing.** -/
theorem dropQualifiers_again (hids : plan.IdsIdentify) (hbelow : plan.IdsBelow next)
    (h : plan.dropQualifiers next = .ok (out, last)) (next' : NodeId) :
    ∃ again last', out.dropQualifiers next' = .ok (again, last') ∧
      again.eraseIds = out.eraseIds := by
  have hrewrites := Rebuilder.rewrites_dropQualifiers
  obtain ⟨b, hrun, -⟩ := rebuilt_eq_ok_iff.1 h
  obtain ⟨hsound, hdone⟩ := sound_of_run hids hrun
  have hids' := (rebuilt_identifies hids hbelow hrewrites.isLocal h).1
  obtain ⟨again, last', hagain⟩ := hrewrites.exists_rebuilt out next'
  exact ⟨again, last', hagain, eraseIds_of_rebuilt hrewrites
    (fun s => s.dropQualifiers_forget eraseIds) hids'
    (Rebuilder.fixes_of_dropQualifiers hsound hdone) hagain⟩

end Node

/-- **Dropping qualifiers changes nothing else, and leaves nothing to drop.**  Where identities tell the
nodes of a plan apart, the pass goes through.  Up to flags and identities the new plan is the given
one.  A statement of it with one source has no qualifiers in its select list and its filter, and a
statement with joins has the expressions of the one at its place.  What was shared is shared.  If the
first free identity is free, then nothing else is shared, and a second run gives the same text. -/
theorem dropQualifiers_only_flags {plan : Node} (hids : plan.IdsIdentify) (next : NodeId) :
    ∃ out last, plan.dropQualifiers next = .ok (out, last) ∧
      out.eraseFlags.eraseIds = plan.eraseFlags.eraseIds ∧
      (∀ place s', out.nodeAt? place = some (.select s') →
        ∃ s, plan.nodeAt? place = some (.select s) ∧ s.DropsFlags s') ∧
      (∀ p q, plan.SharesAt p q → ∃ m', out.nodeAt? p = some m' ∧ out.nodeAt? q = some m') ∧
      (plan.IdsBelow next →
        (∀ p q, out.SharesAt p q → plan.SharesAt p q) ∧
        ∀ next', ∃ again last', out.dropQualifiers next' = .ok (again, last') ∧
          again.serialize = out.serialize) := by
  have hrewrites := Rebuilder.rewrites_dropQualifiers
  obtain ⟨out, last, hout, hplain⟩ := hrewrites.exists_rebuilt_reworked
    (fun s => s.dropQualifiers_forget Node.eraseIds) hids next
  obtain ⟨b, hrun, -⟩ := Node.rebuilt_eq_ok_iff.1 hout
  obtain ⟨hsound, hdone⟩ := Node.sound_of_run hids hrun
  refine ⟨out, last, hout, ?_, ?_, ?_, ?_⟩
  · calc out.eraseFlags.eraseIds
        = out.eraseIds.eraseFlags.eraseIds :=
          (Rebuilder.isNatural_eraseFlags.eraseIds_reworked_eraseIds out).symm
      _ = (plan.reworked Select.dropQualifiers).eraseIds.eraseFlags.eraseIds := by rw [hplain]
      _ = (plan.reworked Select.dropQualifiers).eraseFlags.eraseIds :=
          Rebuilder.isNatural_eraseFlags.eraseIds_reworked_eraseIds _
      _ = plan.eraseFlags.eraseIds := plan.eraseFlags_reworked_dropQualifiers
  · intro place s' hs'
    obtain ⟨m, hmem, hm, hdrop⟩ := Rebuilder.exists_origin_of_nodeAt? hsound hdone hs'
    obtain ⟨s, rfl, hdrops⟩ := Rebuilder.dropsFlags_of_drop hsound hmem hdrop
    exact ⟨s, hm, hdrops⟩
  · intro p q hshares
    exact Rebuilder.exists_shared_of_drop hsound hdone hshares
  · intro hbelow
    have hapart := Node.rebuild_preserves (Build.steady_apart hbelow) hrewrites.isLocal plan
      (Node.mem_subnodes_self plan) hrun Build.apart_start
    refine ⟨fun p q hshares => Rebuilder.sharesAt_of_drop hsound hdone hapart.apart hshares, ?_⟩
    intro next'
    obtain ⟨again, last', hagain, hsame⟩ := Node.dropQualifiers_again hids hbelow hout next'
    exact ⟨again, last', hagain, Node.serialize_eq_of_eraseIds_eq hsame⟩

/-- `SELECT t.k AS k, t.x AS y FROM t t WHERE t.y IS NULL ORDER BY t.y, t.k`. -/
def Select.openKeys : Statement :=
  { Select.plain 1 [⟨.column ⟨"t", "k"⟩ true, "k"⟩, ⟨.column ⟨"t", "x"⟩ true, "y"⟩]
      (.table 0 ⟨none, "t"⟩) "t" with
    filter := some (.isNull (.column ⟨"t", "y"⟩ true))
    orderBy := [⟨.column ⟨"t", "y"⟩ true, false⟩, ⟨.column ⟨"t", "k"⟩ true, false⟩] }

/-- `SELECT a.k AS k FROM openKeys a JOIN openKeys b ON a.k = b.y`, where one statement is read at both
places. -/
def Select.linkedKeys : Statement :=
  { Select.plain 2 [⟨.column ⟨"a", "k"⟩ true, "k"⟩] (.select .openKeys) "a" with
    joins := [⟨.select .openKeys, "b", .inner,
      some (.comparison (.column ⟨"a", "k"⟩ true) .eq (.column ⟨"b", "y"⟩ true))⟩] }

/-- The joined statement keeps its qualifiers.  The statement below it is one after the run too, and
has kept its qualifier where a bare `y` would be the output column. -/
theorem dropQualifiers_only_flags_linkedKeys :
    (Node.select .linkedKeys).IdsIdentify ∧ (Node.select .linkedKeys).IdsBelow 3 ∧
      ∃ out last, (Node.select .linkedKeys).dropQualifiers 3 = .ok (out, last) ∧
        out.subnodes.filterMap (fun m => m.select?.map Select.exprs) =
          [[.column ⟨"a", "k"⟩ true,
              .comparison (.column ⟨"a", "k"⟩ true) .eq (.column ⟨"b", "y"⟩ true)],
            [.column ⟨"t", "k"⟩ false, .column ⟨"t", "x"⟩ false, .isNull (.column ⟨"t", "y"⟩ false),
              .column ⟨"t", "y"⟩ true, .column ⟨"t", "k"⟩ false],
            [.column ⟨"t", "k"⟩ false, .column ⟨"t", "x"⟩ false, .isNull (.column ⟨"t", "y"⟩ false),
              .column ⟨"t", "y"⟩ true, .column ⟨"t", "k"⟩ false]] ∧
        out.eraseFlags.eraseIds = (Node.select .linkedKeys).eraseFlags.eraseIds ∧
        (∃ m', out.nodeAt? [0] = some m' ∧ out.nodeAt? [1] = some m') ∧
        ∀ next', ∃ again last', out.dropQualifiers next' = .ok (again, last') ∧
          again.serialize = out.serialize := by
  have hids : (Node.select .linkedKeys).IdsIdentify := by
    have hall : (Node.select .linkedKeys).subnodes = [.select .linkedKeys, .select .openKeys,
        .table 0 ⟨none, "t"⟩] ++ [.select .openKeys, .table 0 ⟨none, "t"⟩] := rfl
    exact Node.idsIdentify_of_append hall (by simp) (by decide)
  have hbelow : (Node.select .linkedKeys).IdsBelow 3 := by
    unfold Node.IdsBelow
    decide
  have hshares : (Node.select .linkedKeys).SharesAt [0] [1] := ⟨_, _, rfl, rfl, rfl⟩
  have hexprs : ((Node.select .linkedKeys).dropQualifiers 3).toOption.map (fun p =>
      p.1.subnodes.filterMap fun m => m.select?.map Select.exprs) =
      some [[.column ⟨"a", "k"⟩ true,
          .comparison (.column ⟨"a", "k"⟩ true) .eq (.column ⟨"b", "y"⟩ true)],
        [.column ⟨"t", "k"⟩ false, .column ⟨"t", "x"⟩ false, .isNull (.column ⟨"t", "y"⟩ false),
          .column ⟨"t", "y"⟩ true, .column ⟨"t", "k"⟩ false],
        [.column ⟨"t", "k"⟩ false, .column ⟨"t", "x"⟩ false, .isNull (.column ⟨"t", "y"⟩ false),
          .column ⟨"t", "y"⟩ true, .column ⟨"t", "k"⟩ false]] := by
    decide +kernel
  obtain ⟨out, last, hout, hsame, -, hshared, hfree⟩ := dropQualifiers_only_flags hids 3
  rw [hout] at hexprs
  exact ⟨hids, hbelow, out, last, hout, Option.some.inj hexprs, hsame, hshared _ _ hshares,
    (hfree hbelow).2⟩

end QueryPlan
