import QueryPlan.Proofs.Identities
import QueryPlan.Proofs.InlinedRows

/-!
# Sorting what a limit has cut off

A parent that sorts may be merged by inlining with a child that has a limit.  The parent sorts the
rows that the limit leaves, and the merged statement takes as many of all rows once they are sorted.

* `rows_over_child` — the rows of the parent over those of the child, under any limits of the two.
* `rows_of_sorted` — those of the merged statement, which has both limits after the order.
* `sorted_limit_kept_iff` — the rows are the same over all environments only if nothing is left to
  choose: the limit or that of the parent is 0, or the parent's order tells no rows of the child
  apart.

Projecting merges no such statements.
-/

namespace QueryPlan

/-- What may not stand before the last member of a list goes to the front. -/
theorem exists_insertionSort_eq_cons {α : Type} {r : α → α → Prop} [DecidableRel r] {a b : α}
    (h : ¬ r a b) (n : Nat) :
    ∃ rest, (List.replicate n a ++ [b]).insertionSort r = b :: rest := by
  induction n with
  | zero => exact ⟨[], rfl⟩
  | succ n ih =>
      rcases ih with ⟨rest, hrest⟩
      refine ⟨rest.orderedInsert r a, ?_⟩
      rw [List.replicate_succ, List.cons_append, List.insertionSort_cons, hrest, List.orderedInsert,
        if_neg h]

/-- A limit other than 0 leaves the first member. -/
theorem mem_cut_cons {α : Type} {limit : Option Nat} (h : limit ≠ some 0) (a : α) (l : List α) :
    a ∈ cut limit (a :: l) := by
  cases limit with
  | none => exact List.mem_cons_self
  | some n =>
      cases n with
      | zero => exact absurd rfl h
      | succ n => exact List.mem_cons_self

namespace Select

section Limits

variable {σ V : Type} {parent child merged : Select σ} (I : Interpretation V)

/-- The parent's order, as an order on environments of the child. -/
def BeforeSeen (parent child : Select σ) (a b : Env V) : Prop :=
  parent.Before I (seen I parent child a) (seen I parent child b)

instance (parent child : Select σ) : DecidableRel (BeforeSeen (V := V) I parent child) := fun _ _ =>
  inferInstanceAs (Decidable (parent.Before I _ _))

variable (h : Inlines parent child merged) (horder : parent.orderBy ≠ [])

include h

/-- Above a limit the parent does nothing to rows but sort and show them. -/
theorem parent_above_limit {n : Nat} (hlimit : child.limit = some n) :
    parent.filter = none ∧ parent.distinct = false := by
  have hbelow := h.limit_below
  simp only [limitStaysBelow, hlimit, Option.isNone_some, Bool.false_or, Bool.and_eq_true,
    Bool.not_eq_true', Option.isNone_iff_eq_none] at hbelow
  exact ⟨hbelow.1.1.1.1, hbelow.2⟩

theorem holds_above_limit {n : Nat} (hlimit : child.limit = some n) (env : Env V) :
    merged.holds I env = child.holds I env := by
  rw [holds, holds, h.filter, (parent_above_limit h hlimit).1]
  cases child.filter <;> rfl

include horder

theorem before_iff_beforeSeen (hrow : parent.isRowWise = true) (hchild : child.columnNames.Nodup)
    (hparent : parent.columnNames.Nodup) (a b : Env V) :
    merged.Before I a b ↔ BeforeSeen I parent child a b := by
  simp only [BeforeSeen, Before, sortValues_of_parent I h hrow hchild hparent horder]

variable [DecidableEq V]

/-- What the child puts out under a limit: it does not sort. -/
theorem contexts_under (below : Option Nat) (envs : List (Env V)) :
    ({ child with limit := below } : Select σ).contexts I envs =
      cut below (envs.filter (child.holds I)) := by
  have hnone : ({ child with limit := below } : Select σ).orderBy = [] :=
    h.one_order.resolve_left horder
  rw [contexts, insertionSort_of_forall fun a b => before_of_orderBy_nil I hnone a b, unsorted,
    if_neg (by simp [h.child_not_distinct])]
  rfl

variable {n : Nat} (hlimit : child.limit = some n) (hrow : parent.isRowWise = true)
  (hchild : child.columnNames.Nodup)

include hlimit hrow hchild

/-- **The parent over the child**, under any limits of the two: it sorts what the child's limit
leaves. -/
theorem rows_over_child (own below : Option Nat) (envs : List (Env V)) :
    ({ parent with limit := own } : Select σ).rows I
        ((({ child with limit := below } : Select σ).rows I envs).map
          fun row => row.under parent.sourceName) =
      (cut own ((cut below (envs.filter (child.holds I))).insertionSort
        (BeforeSeen I parent child))).map (merged.project I) := by
  rcases parent_above_limit h hlimit with ⟨hfilter, hdistinct⟩
  have hseen : (({ child with limit := below } : Select σ).rows I envs).map
      (fun row => row.under parent.sourceName) =
        (cut below (envs.filter (child.holds I))).map (seen I parent child) := by
    rw [rows, contexts_under I h horder, List.map_map]
    rfl
  have hpass : ∀ env, ({ parent with limit := own } : Select σ).holds I env = true := by
    intro env
    rw [holds, hfilter]
    rfl
  rw [hseen, rows, contexts_map, if_neg (by simp [hdistinct]),
    List.filter_eq_self.2 fun _ _ => hpass _, List.map_map]
  exact List.map_congr_left fun env _ => project_seen I h hrow hchild env

/-- The parent sorts the first rows of the child. -/
theorem rows_of_parent (envs : List (Env V)) :
    parent.rows I ((child.rows I envs).map fun row => row.under parent.sourceName) =
      (cut parent.limit (((envs.filter (child.holds I)).take n).insertionSort
        (BeforeSeen I parent child))).map (merged.project I) := by
  refine (rows_over_child I h horder hlimit hrow hchild parent.limit child.limit envs).trans ?_
  rw [hlimit]
  rfl

variable (hparent : parent.columnNames.Nodup)

include hparent

/-- **The merged statement** sorts everything, and has both limits after that. -/
theorem rows_of_sorted (envs : List (Env V)) :
    merged.rows I envs =
      (cut (tighterLimit parent.limit (some n)) ((envs.filter (child.holds I)).insertionSort
        (BeforeSeen I parent child))).map (merged.project I) := by
  have hholds : envs.filter (merged.holds I) = envs.filter (child.holds I) :=
    List.filter_congr fun env _ => holds_above_limit I h hlimit env
  rw [rows, contexts, insertionSort_congr (before_iff_beforeSeen I h horder hrow hchild hparent),
    unsorted, h.distinct, if_neg (by simp [(parent_above_limit h hlimit).2]), hholds, h.limit,
    hlimit]

/-- Where the rows are always kept, the parent's order tells no rows of the child apart. -/
theorem beforeSeen_of_rows_eq (hn : n ≠ 0) (hown : parent.limit ≠ some 0)
    (hkept : ∀ envs : List (Env V), merged.rows I envs =
      parent.rows I ((child.rows I envs).map fun row => row.under parent.sourceName))
    {a b : Env V} (ha : child.holds I a = true) (hb : child.holds I b = true) :
    BeforeSeen I parent child a b := by
  by_contra hnot
  -- copies of `a`, as many as the limit allows, hide `b`, which the merged statement puts first
  have hsame := hkept (List.replicate n a ++ [b])
  have hall : (List.replicate n a ++ [b]).filter (child.holds I) = List.replicate n a ++ [b] := by
    refine List.filter_eq_self.2 fun env henv => ?_
    rcases List.mem_append.1 henv with henv | henv
    · rw [List.eq_of_mem_replicate henv, ha]
    · rw [List.mem_singleton.1 henv, hb]
  rcases exists_insertionSort_eq_cons hnot n with ⟨rest, hrest⟩
  rw [rows_of_sorted I h horder hlimit hrow hchild hparent,
    rows_of_parent I h horder hlimit hrow hchild, hall, hrest,
    List.take_left' List.length_replicate] at hsame
  have hpositive : tighterLimit parent.limit (some n) ≠ some 0 := by
    cases hl : parent.limit with
    | none => simpa [tighterLimit] using hn
    | some m =>
        rw [hl] at hown
        simp only [tighterLimit, ne_eq, Option.some.injEq] at hown ⊢
        omega
  have hfirst := List.mem_map_of_mem (f := merged.project I) (mem_cut_cons hpositive b rest)
  rw [hsame] at hfirst
  rcases List.mem_map.1 hfirst with ⟨c, hc, hproject⟩
  have hcopy : c = a :=
    List.eq_of_mem_replicate ((List.mem_insertionSort _).1 (mem_of_mem_cut hc))
  rw [hcopy] at hproject
  exact hnot ((before_iff_beforeSeen I h horder hrow hchild hparent a b).1
    (before_of_project_eq I (orderBy_names h) hproject))

/-- The rows are kept if there is nothing to choose. -/
theorem rows_eq_of_beforeSeen
    (hall : n = 0 ∨ parent.limit = some 0 ∨ ∀ a b : Env V, child.holds I a = true →
      child.holds I b = true → BeforeSeen I parent child a b) (envs : List (Env V)) :
    merged.rows I envs =
      parent.rows I ((child.rows I envs).map fun row => row.under parent.sourceName) := by
  rw [rows_of_sorted I h horder hlimit hrow hchild hparent,
    rows_of_parent I h horder hlimit hrow hchild]
  congr 1
  rcases hall with rfl | hown | hall
  · cases parent.limit <;> simp [cut, tighterLimit]
  · simp [hown, cut, tighterLimit]
  · have hsorted : (envs.filter (child.holds I)).Pairwise (BeforeSeen I parent child) :=
      List.pairwise_of_forall_mem_list fun a ha b hb =>
        hall a b (List.mem_filter.1 ha).2 (List.mem_filter.1 hb).2
    rw [hsorted.insertionSort_eq, (hsorted.sublist (List.take_sublist n _)).insertionSort_eq]
    exact (cut_cut parent.limit (some n) _).symm

end Limits

end Select

/-- Projecting does not move an order past a limit. -/
theorem MergeRule.projection_eq_none_of_limit {parent child : Statement}
    (hsource : parent.source = .select child) (horder : parent.orderBy ≠ []) {n : Nat}
    (hlimit : child.limit = some n) : MergeRule.projection parent = none := by
  cases hprojection : MergeRule.projection parent with
  | none => rfl
  | some merged =>
      rcases MergeRule.projection_eq_some hprojection with ⟨child', hsource', h⟩
      obtain rfl : child = child' := by simpa [hsource] using hsource'
      have hmoved := h.order
      rw [Select.projectedOrder?, if_neg (by simpa using horder), hlimit] at hmoved
      simp at hmoved

/-- **A limit below a sort is kept only where there is nothing to choose.**  Let a parent that sorts
be merged by inlining with a child that has a limit, both with columns of different names, the
parent without joins and looking at one row at a time.  The merged statement has the rows of the
parent over all rows of the child, with both limits after the parent's order.  These are the rows of
the parent over those of the child, for every list of environments, if and only if one of the limits
is 0 or the parent's order tells no two rows of the child apart.  Projecting merges no such
statements. -/
theorem sorted_limit_kept_iff {V : Type} [DecidableEq V] (I : Interpretation V)
    {parent child merged : Statement} (hjoins : parent.joins = [])
    (hsource : parent.source = .select child) (hmerged : MergeRule.inlining parent = some merged)
    (hrow : parent.isRowWise = true) (hchild : child.columnNames.Nodup)
    (hparent : parent.columnNames.Nodup) (horder : parent.orderBy ≠ []) {n : Nat}
    (hlimit : child.limit = some n) :
    (∀ envs : List (Env V), merged.rows I envs =
        ({ parent with limit := tighterLimit parent.limit (some n) } : Statement).rows I
          ((({ child with limit := none } : Statement).rows I envs).map
            fun row => row.under parent.sourceName)) ∧
      ((∀ envs : List (Env V), merged.rows I envs =
          parent.rows I ((child.rows I envs).map fun row => row.under parent.sourceName)) ↔
        n = 0 ∨ parent.limit = some 0 ∨
          ∀ a b : Env V, child.holds I a = true → child.holds I b = true →
            parent.Before I (Select.seen I parent child a) (Select.seen I parent child b)) ∧
      MergeRule.projection parent = none := by
  obtain ⟨child', hsource', h⟩ := MergeRule.inlining_eq_some hjoins hmerged
  obtain rfl : child = child' := by simpa [hsource] using hsource'
  refine ⟨?_, ⟨?_, ?_⟩, ?_⟩
  · intro envs
    rw [Select.rows_of_sorted I h horder hlimit hrow hchild hparent,
      Select.rows_over_child I h horder hlimit hrow hchild]
    rfl
  · intro hkept
    by_cases hn : n = 0
    · exact .inl hn
    · by_cases hown : parent.limit = some 0
      · exact .inr (.inl hown)
      · refine .inr (.inr fun a b ha hb => ?_)
        exact Select.beforeSeen_of_rows_eq I h horder hlimit hrow hchild hparent hn hown hkept ha hb
  · exact Select.rows_eq_of_beforeSeen I h horder hlimit hrow hchild hparent
  · exact MergeRule.projection_eq_none_of_limit hsource horder hlimit

/-- `SELECT a.x AS x FROM (SELECT b.x AS x, b.y AS y FROM t b LIMIT 1) a ORDER BY a.x`. -/
def Select.sortedFirst : Statement :=
  { Select.plain 3 [⟨.column ⟨"a", "x"⟩ true, "x"⟩]
      (.select { Select.pairs [] with limit := some 1 }) "a" with
    orderBy := [⟨.column ⟨"a", "x"⟩ true, false⟩] }

/-- The first row of the child has 2, and the first one once all are sorted has 1. -/
theorem sorted_limit_lost_sortedFirst :
    ∃ merged, MergeRule.inlining .sortedFirst = some merged ∧
      MergeRule.projection .sortedFirst = none ∧
      merged.rows .numbers (pairEnvs [(2, 0), (1, 0)]) = [[("x", 1)]] ∧
      Select.sortedFirst.rows .numbers
          ((({ Select.pairs [] with limit := some 1 } : Statement).rows .numbers
            (pairEnvs [(2, 0), (1, 0)])).map fun row => row.under "a") = [[("x", 2)]] ∧
      ¬ ∀ envs : List (Env Nat), merged.rows .numbers envs =
        Select.sortedFirst.rows .numbers
          ((({ Select.pairs [] with limit := some 1 } : Statement).rows .numbers envs).map
            fun row => row.under "a") := by
  have hmerged : MergeRule.inlining Select.sortedFirst = some _ := rfl
  rcases sorted_limit_kept_iff .numbers rfl rfl hmerged (by decide) (by decide) (by decide)
    (by decide) rfl with ⟨-, hiff, hnone⟩
  refine ⟨_, hmerged, hnone, by decide, by decide, ?_⟩
  intro hkept
  rcases hiff.1 hkept with hzero | hzero | hsame
  · cases hzero
  · cases hzero
  · have hbefore := hsame (Row.under [("x", 2)] "b") (Row.under [("x", 1)] "b") rfl rfl
    exact absurd hbefore (by decide)

end QueryPlan
