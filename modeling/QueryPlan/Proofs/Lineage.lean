import Mathlib.Logic.Basic
import QueryPlan.Expr.Lineage
import QueryPlan.Expr.Substitution

/-!
# Lineage and occurrence

`Expr.lineage` is computed by folding over a walk.  This file says what each of its parts holds in
terms of the sub-expressions that occur in the expression (`Expr.walk`), so that statements about
what an expression reads need not mention the fold.

* `mem_lineage_columns`, `mem_lineage_names`, `mem_lineage_raws` — a column, name or fragment is in
  the lineage exactly when it occurs in the expression.
* `lineage_aggregate_iff`, `lineage_window_iff` — the two flags say that such a form occurs.
-/

namespace QueryPlan

namespace Lineage

/-! ## The parts of a combination -/

@[simp] theorem combine_nil : combine [] = {} := rfl

@[simp] theorem combine_cons (l : Lineage) (ls : List Lineage) :
    combine (l :: ls) = l.append (combine ls) := rfl

theorem append_assoc (a b c : Lineage) : (a.append b).append c = a.append (b.append c) := by
  simp only [append, List.append_assoc, Bool.or_assoc]

theorem combine_append (ls ms : List Lineage) :
    combine (ls ++ ms) = (combine ls).append (combine ms) := by
  induction ls with
  | nil => simp [append]
  | cons l ls ih => rw [List.cons_append, combine_cons, ih, combine_cons, append_assoc]

theorem combine_flatMap {α : Type} (g : α → List Lineage) (xs : List α) :
    combine (xs.flatMap g) = combine (xs.map fun x => combine (g x)) := by
  induction xs with
  | nil => rfl
  | cons x xs ih => rw [List.flatMap_cons, combine_append, ih, List.map_cons, combine_cons]

theorem combine_columns (ls : List Lineage) : (combine ls).columns = ls.flatMap columns := by
  induction ls with
  | nil => rfl
  | cons l ls ih => simp only [combine_cons, append, ih, List.flatMap_cons]

theorem combine_names (ls : List Lineage) : (combine ls).names = ls.flatMap names := by
  induction ls with
  | nil => rfl
  | cons l ls ih => simp only [combine_cons, append, ih, List.flatMap_cons]

theorem combine_raws (ls : List Lineage) : (combine ls).raws = ls.flatMap raws := by
  induction ls with
  | nil => rfl
  | cons l ls ih => simp only [combine_cons, append, ih, List.flatMap_cons]

theorem combine_aggregate (ls : List Lineage) :
    (combine ls).aggregate = ls.any aggregate := by
  induction ls with
  | nil => rfl
  | cons l ls ih => simp only [combine_cons, append, ih, List.any_cons]

theorem combine_window (ls : List Lineage) : (combine ls).window = ls.any window := by
  induction ls with
  | nil => rfl
  | cons l ls ih => simp only [combine_cons, append, ih, List.any_cons]

/-! ## The inputs of fragments -/

theorem mem_declaredInputs {l : Lineage} {x : String} :
    x ∈ l.declaredInputs ↔ ∃ u ∈ l.raws, ∃ inputs, u.inputs = some inputs ∧ x ∈ inputs := by
  rw [declaredInputs, List.mem_flatMap]
  constructor
  · rintro ⟨u, hu, hx⟩
    cases hinputs : u.inputs with
    | none => simp [hinputs] at hx
    | some inputs => exact ⟨u, hu, inputs, hinputs, by simpa [hinputs] using hx⟩
  · rintro ⟨u, hu, inputs, hinputs, hx⟩
    exact ⟨u, hu, by simpa [hinputs] using hx⟩

theorem hasUnknownInputs_iff {l : Lineage} :
    l.hasUnknownInputs = true ↔ ∃ u ∈ l.raws, u.inputs = none := by
  simp [hasUnknownInputs]

end Lineage

namespace Expr

/-! ## What is in the lineage of an expression -/

theorem eq_column_of_columnRef? {e : Expr} {r : ColumnRef} (h : e.columnRef? = some r) :
    ∃ q, e = .column r q := by
  cases e <;> simp [Expr.columnRef?] at h
  exact ⟨_, by rw [h]⟩

theorem mem_lineage_columns {e : Expr} {r : ColumnRef} :
    r ∈ e.lineage.columns ↔ ∃ q, .column r q ∈ e.walk := by
  simp only [lineage, Lineage.combine_columns, List.mem_flatMap, List.mem_map,
    exists_exists_and_eq_and]
  constructor
  · rintro ⟨d, hd, hr⟩
    cases d with
    | column r' q =>
        simp only [ownLineage, List.mem_singleton] at hr
        exact ⟨q, hr ▸ hd⟩
    | _ => simp [ownLineage] at hr
  · rintro ⟨q, hq⟩
    exact ⟨_, hq, by simp [ownLineage]⟩

theorem mem_lineage_names {e : Expr} {n : String} :
    n ∈ e.lineage.names ↔ .name n ∈ e.walk := by
  simp only [lineage, Lineage.combine_names, List.mem_flatMap, List.mem_map,
    exists_exists_and_eq_and]
  constructor
  · rintro ⟨d, hd, hn⟩
    cases d with
    | name n' =>
        simp only [ownLineage, List.mem_singleton] at hn
        exact hn ▸ hd
    | _ => simp [ownLineage] at hn
  · intro h
    exact ⟨_, h, by simp [ownLineage]⟩

theorem mem_lineage_raws {e : Expr} {u : RawUsage} :
    u ∈ e.lineage.raws ↔ ∃ g, .raw u.sql u.inputs g ∈ e.walk := by
  simp only [lineage, Lineage.combine_raws, List.mem_flatMap, List.mem_map,
    exists_exists_and_eq_and]
  constructor
  · rintro ⟨d, hd, hu⟩
    cases d with
    | raw sql inputs g =>
        simp only [ownLineage, List.mem_singleton] at hu
        subst hu
        exact ⟨g, hd⟩
    | _ => simp [ownLineage] at hu
  · rintro ⟨g, hg⟩
    exact ⟨_, hg, by simp [ownLineage]⟩

theorem lineage_aggregate_iff {e : Expr} :
    e.lineage.aggregate = true ↔ ∃ f args, .aggregate f args ∈ e.walk := by
  simp only [lineage, Lineage.combine_aggregate, List.any_map, List.any_eq_true, Function.comp]
  constructor
  · rintro ⟨d, hd, ha⟩
    cases d with
    | aggregate f args => exact ⟨f, args, hd⟩
    | _ => simp [ownLineage] at ha
  · rintro ⟨f, args, h⟩
    exact ⟨_, h, rfl⟩

theorem lineage_window_iff {e : Expr} :
    e.lineage.window = true ↔ ∃ f args ps os, .window f args ps os ∈ e.walk := by
  simp only [lineage, Lineage.combine_window, List.any_map, List.any_eq_true, Function.comp]
  constructor
  · rintro ⟨d, hd, hw⟩
    cases d with
    | window f args ps os => exact ⟨f, args, ps, os, hd⟩
    | _ => simp [ownLineage] at hw
  · rintro ⟨f, args, ps, os, h⟩
    exact ⟨_, h, rfl⟩

/-! ## Lists of expressions -/

theorem mem_lineages_columns {es : List Expr} {r : ColumnRef} :
    r ∈ (lineages es).columns ↔ ∃ e ∈ es, r ∈ e.lineage.columns := by
  simp only [lineages, Lineage.combine_columns, List.mem_flatMap, List.mem_map,
    exists_exists_and_eq_and]

theorem mem_lineages_names {es : List Expr} {n : String} :
    n ∈ (lineages es).names ↔ ∃ e ∈ es, n ∈ e.lineage.names := by
  simp only [lineages, Lineage.combine_names, List.mem_flatMap, List.mem_map,
    exists_exists_and_eq_and]

theorem mem_lineages_raws {es : List Expr} {u : RawUsage} :
    u ∈ (lineages es).raws ↔ ∃ e ∈ es, u ∈ e.lineage.raws := by
  simp only [lineages, Lineage.combine_raws, List.mem_flatMap, List.mem_map,
    exists_exists_and_eq_and]

theorem mem_lineages_declaredInputs {es : List Expr} {x : String} :
    x ∈ (lineages es).declaredInputs ↔ ∃ e ∈ es, x ∈ e.lineage.declaredInputs := by
  simp only [Lineage.mem_declaredInputs, mem_lineages_raws]
  constructor
  · rintro ⟨u, ⟨e, he, hu⟩, hx⟩
    exact ⟨e, he, u, hu, hx⟩
  · rintro ⟨e, he, u, hu, hx⟩
    exact ⟨u, ⟨e, he, hu⟩, hx⟩

theorem lineages_aggregate (es : List Expr) :
    (lineages es).aggregate = es.any fun e => e.lineage.aggregate := by
  simp only [lineages, Lineage.combine_aggregate, List.any_map, Function.comp_def]

end Expr

end QueryPlan
