import QueryPlan.Proofs.Rebuilding
import QueryPlan.Pruning

/-!
# What pruning leaves of a statement

Pruning is one of the passes that rebuild a plan.  A run ends with what has been built for every
statement; this file says how that statement differs from the one it was built for.

* `Pruning.columns_eq_ok_iff` — the columns that a statement keeps, if it keeps any.
* `prune_eq_ok_iff` — pruning gives a plan either because the columns at its root are not known, or
  by a run of the pass with the requirements of the plan.
* `pruned_statement` — a run keeps every clause of a statement but its columns.
* `exists_pruned_from` — a statement of the new plan was built for a statement of the given one.
* `exists_pruneWith_iff` — pruning goes through exactly when every statement that it looks at keeps
  a column.
-/

namespace QueryPlan

namespace Pruning

variable {required : Requirements} {s : Statement}

/-- A statement keeps its required columns and those that it groups by. -/
theorem mem_kept {names : NameSet} {c : NamedExpr} :
    c ∈ kept names s ↔ c ∈ s.columns ∧ (c.name ∈ names ∨ c.name ∈ s.groupNames) := by
  simp [kept, List.mem_filter, Std.TreeSet.contains_iff_mem]

theorem columns_eq_ok_iff {columns : List NamedExpr} :
    Pruning.columns required s = .ok columns ↔
      required.contains s.id = true ∧ kept (required.names s.id) s ≠ [] ∧
        columns = kept (required.names s.id) s := by
  have hcontains : required.contains s.id = (required.get? s.id).isSome := by
    simp [Requirements.contains, Requirements.get?]
  rw [hcontains, Requirements.names]
  unfold Pruning.columns
  cases hget : required.get? s.id with
  | none => simp
  | some names =>
      by_cases hempty : (kept names s).isEmpty
      · simp [List.isEmpty_iff.1 hempty]
      · simp only [hempty, Bool.false_eq_true, if_false, Except.ok.injEq, Option.isSome_some,
          Option.getD_some, true_and]
        exact ⟨fun h => ⟨fun hnil => hempty (by simp [hnil]), h.symm⟩, fun h => h.2.symm⟩

/-- A statement with an entry is refused only if it would keep no column. -/
theorem columns_eq_error {e : Error} (hentry : required.contains s.id = true)
    (h : Pruning.columns required s = .error e) :
    kept (required.names s.id) s = [] ∧
      e = defect required s ("every select column was pruned; columns " ++
        quotedList s.columnNames ++ ", required " ++ quotedSet (required.names s.id).toList) := by
  rw [Pruning.columns] at h
  cases hget : required.get? s.id with
  | none =>
      rw [Requirements.get?] at hget
      rw [Requirements.contains, Std.TreeMap.contains_eq_isSome_getElem?, hget] at hentry
      cases hentry
  | some names =>
      have hnames : required.names s.id = names := by
        rw [Requirements.names, hget, Option.getD_some]
      rw [hget] at h
      by_cases hempty : (kept names s).isEmpty = true
      · simp only [hempty, if_true, Except.error.injEq] at h
        rw [hnames]
        exact ⟨List.isEmpty_iff.1 hempty, h.symm⟩
      · simp [hempty] at h

end Pruning

namespace Node

variable {n n' : Node} {next next' : NodeId} {required : Requirements}

theorem pruneWith_eq_ok_iff :
    n.pruneWith required next = .ok (n', next') ↔
      ∃ b, (n.rebuild (Pruning.rebuilder required)).run { next } = .ok (n', b) ∧
        b.next = next' :=
  rebuilt_eq_ok_iff

/-- A plan is left alone if the columns at its root are not known, and otherwise rebuilt with the
columns that it requires. -/
theorem prune_eq_ok_iff :
    n.prune next = .ok (n', next') ↔
      (Requirements.ofPlan n n = .ok none ∧ n' = n ∧ next' = next) ∨
        ∃ required b, Requirements.ofPlan n n = .ok (some required) ∧
          (n.rebuild (Pruning.rebuilder required)).run { next } = .ok (n', b) ∧
          b.next = next' := by
  unfold prune
  cases hplan : Requirements.ofPlan n n with
  | error e => simp [bind, Except.bind]
  | ok found =>
      cases found with
      | none => simp [bind, Except.bind, pure, Except.pure, eq_comm]
      | some required => simp [bind, Except.bind, pruneWith_eq_ok_iff]

/-- A run fails only with the error that the pass gives at a statement it looks at. -/
theorem pruneWith_eq_error {e : Error} (h : n.pruneWith required next = .error e) :
    ∃ s, (Pruning.rebuilder required).Reaches n (.select s) ∧
      Pruning.columns required s = .error e := by
  unfold pruneWith rebuilt at h
  cases hrun : (n.rebuild (Pruning.rebuilder required)).run { next } with
  | error e' =>
      rw [hrun] at h
      cases h
      exact rebuild_error n _ _ hrun
  | ok out =>
      rw [hrun] at h
      cases h

section Run

variable {b : Build} (hids : n.IdsIdentify)
  (hrun : (n.rebuild (Pruning.rebuilder required)).run { next } = .ok (n', b))

include hids hrun

/-- **What pruning leaves of a statement.**  What is built for a statement keeps its clauses, and of
its columns those that are required or grouped by. -/
theorem pruned_statement {s : Statement} (hs : .select s ∈ n.subnodes) {m : Node}
    (hdone : b.done[s.id]? = some m) :
    ∃ s', m = .select s' ∧ s'.columns = Pruning.kept (required.names s.id) s ∧
      s'.groupBy = s.groupBy := by
  obtain ⟨id, columns, source, joins, ctes, hcolumns, -, -, -, rfl⟩ :=
    (sound_of_run hids hrun).1 (.select s) hs m hdone
  obtain ⟨-, -, rfl⟩ := Pruning.columns_eq_ok_iff.1 hcolumns
  exact ⟨_, rfl, rfl, rfl⟩

/-- Every statement of the new plan was built for a statement of the given plan. -/
theorem exists_pruned_from {s' : Statement} (hs' : .select s' ∈ n'.subnodes) :
    ∃ s, .select s ∈ n.subnodes ∧ b.done[s.id]? = some (.select s') := by
  obtain ⟨hsound, hdone⟩ := sound_of_run hids hrun
  obtain ⟨l, hreach, hl⟩ :=
    hsound.exists_origin_of_mem_subnodes (Rebuilder.isLocal_of_finish_eq_id rfl) n
      (mem_subnodes_self n) n' hdone _ hs'
  have hforms := hsound l hreach.mem_subnodes _ hl
  cases l with
  | select s => exact ⟨s, hreach.mem_subnodes, hl⟩
  | table | text => cases hforms
  | cte c =>
      obtain ⟨_, _, -, heq⟩ := hforms
      cases heq
  | createTable id t query =>
      obtain ⟨_, _, -, heq⟩ := hforms
      cases heq

end Run

/-- Pruning goes through exactly when every statement that it looks at keeps a column. -/
theorem exists_pruneWith_iff (hids : n.IdsIdentify) :
    (∃ out, n.pruneWith required next = .ok out) ↔
      ∀ s, (Pruning.rebuilder required).Reaches n (.select s) →
        required.contains s.id = true ∧ Pruning.kept (required.names s.id) s ≠ [] := by
  constructor
  · rintro ⟨⟨n', next'⟩, hout⟩ s hs
    rcases pruneWith_eq_ok_iff.1 hout with ⟨b, hrun, -⟩
    rcases sound_of_run hids hrun with ⟨hsound, hdone⟩
    rcases hsound.exists_done_of_reaches (mem_subnodes_self n) ⟨n', hdone⟩ hs with ⟨m, hm⟩
    rcases hsound (.select s) hs.mem_subnodes m hm with ⟨_, _, _, _, _, hcolumns, -⟩
    rcases Pruning.columns_eq_ok_iff.1 hcolumns with ⟨hentry, hkept, -⟩
    exact ⟨hentry, hkept⟩
  · intro hall
    cases hout : n.pruneWith required next with
    | ok out => exact ⟨out, rfl⟩
    | error e =>
        rcases pruneWith_eq_error hout with ⟨s, hs, herror⟩
        rcases hall s hs with ⟨hentry, hkept⟩
        exact absurd (Pruning.columns_eq_error hentry herror).1 hkept

end Node

end QueryPlan
