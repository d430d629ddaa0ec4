import QueryPlan.Proofs.Substitution

/-!
# The laws of substitution

Reading an expression and putting replacements into it are two traversals.  The laws below say that
they meet the same sub-expressions in the same order, so that what an expression reads after a
substitution can be told beforehand, from its lineage and those of the replacements.

* `Substitution.comp` is the finite substitution that does at once what two of them do one after the
  other; `Substitution.get?_comp` says what it has for a column.
* `substitute_laws` collects the laws: columns, names, fragments and the two flags of an expression
  with columns replaced, and two substitutions in a row.
-/

namespace QueryPlan

namespace Substitution

/-- What is put in the place of an expression: the replacement, if it is a column that has one. -/
def at? (σ : Substitution) (e : Expr) : Option Expr :=
  e.columnRef?.bind σ.get?

/-- The replacements that are put into an expression, in order and as often as they are put in. -/
def usedIn (σ : Substitution) (e : Expr) : List Expr :=
  e.lineage.columns.filterMap σ.get?

theorem any_usedIn (σ : Substitution) (e : Expr) (p : Expr → Bool) :
    (σ.usedIn e).any p = e.lineage.columns.any fun r => (σ.get? r).any p := by
  rw [usedIn, List.any_filterMap]
  rfl

/-! ## Two substitutions in a row -/

theorem contains_of_mem {σ : Substitution} {p : ColumnRef × Expr} (h : p ∈ σ.entries) :
    σ.contains p.1 = true := by
  rw [contains, get?, Option.isSome_iff_ne_none, Ne, List.lookup_eq_none_iff]
  intro hnone
  simpa using hnone p h

/-- One substitution and then another.  The second one is carried out in the replacements of the
first, and has its own replacements for the columns that the first leaves as they are. -/
def comp (σ τ : Substitution) : Substitution where
  entries :=
    σ.entries.map (fun p => (p.1, p.2.substitute τ)) ++ τ.entries.filter fun p => !σ.contains p.1
  nodup_columns := by
    rw [List.map_append, List.map_map]
    refine List.nodup_append.2 ⟨σ.nodup_columns, ?_, ?_⟩
    · exact τ.nodup_columns.sublist (List.filter_sublist.map Prod.fst)
    · -- what is kept of the second one is for columns without a replacement in the first
      intro r hr r' hr' heq
      obtain ⟨p, hp, rfl⟩ := List.mem_map.1 hr
      obtain ⟨p', hp', rfl⟩ := List.mem_map.1 hr'
      have hfree := (List.mem_filter.1 hp').2
      rw [← heq, Function.comp_apply, contains_of_mem hp] at hfree
      cases hfree

theorem lookup_map (g : Expr → Expr) (ps : List (ColumnRef × Expr)) (r : ColumnRef) :
    (ps.map fun p => (p.1, g p.2)).lookup r = (ps.lookup r).map g := by
  induction ps with
  | nil => rfl
  | cons p ps ih =>
      rw [List.map_cons, List.lookup_cons, List.lookup_cons, ih]
      cases r == p.1 <;> rfl

theorem get?_comp (σ τ : Substitution) (r : ColumnRef) :
    (σ.comp τ).get? r = ((σ.get? r).map (Expr.substitute τ)).or (τ.get? r) := by
  have hfirst : (σ.entries.map fun p => (p.1, p.2.substitute τ)).lookup r =
      (σ.get? r).map (Expr.substitute τ) := lookup_map _ _ r
  rw [get?, comp, List.lookup_append, hfirst]
  cases h : σ.get? r with
  | some d => rfl
  | none =>
      have hfree : (!σ.contains r) = true := by simp [contains, h]
      rw [lookup_filter (fun c => !σ.contains c) hfree, get?]

end Substitution

namespace Expr

/-- Substituting in a row is substituting once. -/
theorem substitute_substitute (σ τ : Substitution) (e : Expr) :
    (e.substitute σ).substitute τ = e.substitute (σ.comp τ) := by
  have hget : (σ.comp τ).get? = fun r => ((σ.get? r).map (substitute τ)).or (τ.get? r) :=
    funext (σ.get?_comp τ)
  rw [substitute, substitute, substitute, hget]
  exact bindColumns_bindColumns _ _ e

end Expr

/-! ## The laws together -/

/-- **The laws of substitution.**  With columns replaced, an expression reads for each column that it
read, in order, the columns of the replacement, or the column itself if it has none.  Its names and
fragments are those it had, with those of a replacement at the place that the column has in a walk.
It holds an aggregate, or a window function, if it held one or a replacement that was used does.  And
two substitutions in a row are one, which has for a column what the first one has, with the second
one carried out in it, and otherwise what the second one has. -/
theorem substitute_laws (e : Expr) (σ σ₁ σ₂ : Substitution) :
    (e.substitute σ).lineage.columns = e.lineage.columns.flatMap (Expr.boundColumns σ.get?) ∧
    (e.lineage.names = e.walk.flatMap (fun d => d.ownLineage.names) ∧
      (e.substitute σ).lineage.names =
        e.walk.flatMap fun d => d.ownLineage.names ++ (σ.at? d).elim [] fun c => c.lineage.names) ∧
    (e.lineage.raws = e.walk.flatMap (fun d => d.ownLineage.raws) ∧
      (e.substitute σ).lineage.raws =
        e.walk.flatMap fun d => d.ownLineage.raws ++ (σ.at? d).elim [] fun c => c.lineage.raws) ∧
    (e.substitute σ).lineage.aggregate =
      (e.lineage.aggregate || (σ.usedIn e).any fun d => d.lineage.aggregate) ∧
    (e.substitute σ).lineage.window =
      (e.lineage.window || (σ.usedIn e).any fun d => d.lineage.window) ∧
    (∀ r, (σ₁.comp σ₂).get? r = ((σ₁.get? r).map (Expr.substitute σ₂)).or (σ₂.get? r)) ∧
    (e.substitute σ₁).substitute σ₂ = e.substitute (σ₁.comp σ₂) := by
  refine ⟨Expr.lineage_columns_bindColumns _ e, ⟨?_, ?_⟩, ⟨?_, ?_⟩, ?_, ?_, σ₁.get?_comp σ₂,
    e.substitute_substitute σ₁ σ₂⟩
  · rw [Expr.lineage, Lineage.combine_names, List.flatMap_map]
  · exact Expr.lineage_part_bindColumns _ Lineage.combine_names (fun _ => rfl) e
  · rw [Expr.lineage, Lineage.combine_raws, List.flatMap_map]
  · exact Expr.lineage_part_bindColumns _ Lineage.combine_raws (fun _ => rfl) e
  · rw [σ.any_usedIn]
    exact Expr.lineage_aggregate_bindColumns _ e
  · rw [σ.any_usedIn]
    exact Expr.lineage_window_bindColumns _ e

/-- A partition key of a window is met after the arguments and before the sort keys, by either
traversal. -/
example :
    ((Expr.window .sum [.name "a"] [.column ⟨"t", "x"⟩ true] [⟨.name "b", true⟩]).substitute
      (.ofList [(⟨"t", "x"⟩, .aggregate .max [.name "c", .column ⟨"t", "x"⟩ true])])).lineage =
    { columns := [⟨"t", "x"⟩], names := ["a", "c", "b"], aggregate := true, window := true } := by
  decide +kernel

end QueryPlan
