import Mathlib.Data.List.Perm.Subperm
import Mathlib.Tactic.Tauto
import QueryPlan.Proofs.Lineage
import QueryPlan.Proofs.Subnodes
import QueryPlan.Requirement.Propagation

/-!
# What one step of the propagation requires

The steps of the propagation add names to the sets of nodes.  This file says of each step exactly
which names it adds to which set, so that nothing later has to open a step again.

What a statement does to the sets of its sources and CTEs is written as a list of single questions
(`Ask`): `requireInputs` puts the questions `Select.asks` one after the other
(`requireInputs_eq_foldl_ask`), and `requireSome` puts those of `Select.firstAsks`.  A question is
noted at the source itself and, if the source names a CTE, at that CTE (`Node.Notes`).
-/

namespace QueryPlan

/-! ## Sets of names -/

theorem mem_foldl_insert {names : List String} {set : NameSet} {x : String} :
    x ∈ names.foldl (fun set name => set.insert name) set ↔ x ∈ set ∨ x ∈ names := by
  induction names generalizing set with
  | nil => simp
  | cons name names ih =>
      rw [List.foldl_cons, ih, Std.TreeSet.mem_insert, List.mem_cons]
      have hname : compare name x = .eq ↔ x = name := by
        rw [Std.LawfulEqCmp.compare_eq_iff_eq, eq_comm]
      rw [hname]
      constructor
      · rintro ((h | h) | h)
        · exact .inr (.inl h)
        · exact .inl h
        · exact .inr (.inr h)
      · rintro (h | h | h)
        · exact .inl (.inr h)
        · exact .inl (.inl h)
        · exact .inr h

theorem nodup_toList (set : NameSet) : set.toList.Nodup := by
  refine Std.TreeSet.distinct_toList.imp ?_
  intro a b hne heq
  rw [heq] at hne
  exact hne Std.ReflCmp.compare_self

/-- A set whose members are in a list has at most as many of them. -/
theorem size_le_of_subset {set : NameSet} {names : List String} (h : ∀ x ∈ set, x ∈ names) :
    set.size ≤ names.length := by
  rw [← Std.TreeSet.length_toList]
  refine (List.subperm_of_subset (nodup_toList set) ?_).length_le
  intro x hx
  exact h x (Std.TreeSet.mem_toList.1 hx)

/-- A subset of equal size is the whole set. -/
theorem mem_of_subset_of_size_le {set set' : NameSet} (h : ∀ x ∈ set, x ∈ set')
    (hsize : set'.size ≤ set.size) {x : String} (hx : x ∈ set') : x ∈ set := by
  rw [← Std.TreeSet.length_toList, ← Std.TreeSet.length_toList] at hsize
  have hsub : set.toList.Subperm set'.toList := by
    refine List.subperm_of_subset (nodup_toList set) ?_
    intro y hy
    rw [Std.TreeSet.mem_toList] at *
    exact h y hy
  have hperm := hsub.perm_of_length_le hsize
  rw [← Std.TreeSet.mem_toList] at *
  exact hperm.mem_iff.2 hx

namespace Requirements

variable {r : Requirements} {node i : NodeId} {names : List String} {x : String}

theorem mem_names_addAll :
    x ∈ (r.addAll node names).names i ↔ x ∈ r.names i ∨ i = node ∧ x ∈ names := by
  have hget : (r.addAll node names).get? i =
      if compare node i = .eq then
        some (names.foldl (fun set name => set.insert name) (r.names node))
      else r.get? i := by
    simp only [addAll, get?, Std.TreeMap.getElem?_insert]
  by_cases hi : i = node
  · subst hi
    have hset : (r.addAll i names).names i =
        names.foldl (fun set name => set.insert name) (r.names i) := by
      rw [Requirements.names, hget, if_pos (Std.ReflCmp.compare_self), Option.getD_some]
    rw [hset, mem_foldl_insert]
    simp
  · have hset : (r.addAll node names).names i = r.names i := by
      have hne : compare node i ≠ .eq := by
        rw [ne_eq, Std.LawfulEqCmp.compare_eq_iff_eq]
        exact Ne.symm hi
      rw [Requirements.names, hget, if_neg hne]
      rfl
    rw [hset]
    simp [hi]

theorem contains_addAll :
    (r.addAll node names).contains i = true ↔ r.contains i = true ∨ i = node := by
  simp only [contains, addAll, Std.TreeMap.contains_insert, Bool.or_eq_true, beq_iff_eq,
    Std.LawfulEqCmp.compare_eq_iff_eq]
  constructor
  · rintro (h | h)
    · exact .inr h.symm
    · exact .inl h
  · rintro (h | h)
    · exact .inr h
    · exact .inl h.symm

/-- What is required of a node without an entry is nothing. -/
theorem contains_of_mem_names (h : x ∈ r.names i) : r.contains i = true := by
  by_contra hno
  have hnone : r.sets[i]? = none := by
    refine Std.TreeMap.getElem?_eq_none ?_
    rw [Std.TreeMap.mem_iff_contains]
    exact hno
  rw [names, get?, hnone, Option.getD_none] at h
  simp at h

theorem requires_iff : r.requires i = true ↔ ∃ x, x ∈ r.names i := by
  rw [requires, Bool.not_eq_true', Std.TreeSet.isEmpty_eq_false_iff_exists_mem]

end Requirements

/-! ## Single steps -/

namespace Propagation

variable {p : Propagation} {node next i : NodeId} {names : List String} {x : String}

/-- Whether a name is required of a node. -/
def Requires (p : Propagation) (i : NodeId) (x : String) : Prop :=
  x ∈ p.required.names i

theorem requires_requireAll :
    (p.requireAll node names).Requires i x ↔ p.Requires i x ∨ i = node ∧ x ∈ names :=
  Requirements.mem_names_addAll

theorem contains_requireAll :
    (p.requireAll node names).required.contains i = true ↔
      p.required.contains i = true ∨ i = node :=
  Requirements.contains_addAll

theorem requires_handOn :
    (p.handOn node next).Requires i x ↔ p.Requires i x ∨ i = next ∧ p.Requires node x := by
  rw [handOn, requires_requireAll, Std.TreeSet.mem_toList]
  rfl

@[simp] theorem seenSize_requireAll : (p.requireAll node names).seenSize = p.seenSize := rfl

@[simp] theorem referenced_requireAll : (p.requireAll node names).referenced = p.referenced := rfl

theorem seenSize_mark :
    (p.mark node).seenSize[i]? = if i = node then some (p.count node) else p.seenSize[i]? := by
  rw [mark, Std.TreeMap.getElem?_insert]
  by_cases hi : i = node
  · rw [if_pos hi, if_pos (by rw [hi]; exact Std.ReflCmp.compare_self)]
  · have hne : compare node i ≠ .eq := by
      rw [ne_eq, Std.LawfulEqCmp.compare_eq_iff_eq]
      exact Ne.symm hi
    rw [if_neg hi, if_neg hne]

theorem seenSize_enterCte {c : Cte Node} : (p.enterCte c).seenSize[i]? =
    if i = c.id then some (p.count c.id) else p.seenSize[i]? :=
  seenSize_mark

theorem isStale_iff : p.isStale i = true ↔ (p.seenSize[i]?).getD 0 ≠ p.count i := by
  rw [isStale]
  cases p.seenSize[i]? with
  | none =>
      rw [Option.getD_none, ne_comm]
      exact bne_iff_ne
  | some size => exact bne_iff_ne

/-- A set that holds another one has at least as many names. -/
theorem count_le_count {p p' : Propagation} {j : NodeId}
    (h : ∀ x, p.Requires i x → p'.Requires j x) : p.count i ≤ p'.count j := by
  rw [count, count, ← Std.TreeSet.length_toList (t := (p'.required.names j))]
  refine size_le_of_subset ?_
  intro x hx
  rw [Std.TreeSet.mem_toList]
  exact h x hx

end Propagation

/-! ## Questions -/

/-- The nodes at which it is noted what is required of a source: the source, and the CTE that the
source names. -/
def Node.Notes (scope : Scope) (source : Node) (i : NodeId) : Prop :=
  i = source.id ∨ ∃ c, source.namedCte? scope = some c ∧ i = c.id

/-- A question of a statement: a column of a source, or columns of one of its CTEs. -/
inductive Ask where
  | ofSource (source : Node) (name : String)
  | ofCte (c : Cte Node) (names : List String)

/-- Whether a question requires a name of a node. -/
def Ask.Requires (scope : Scope) : Ask → NodeId → String → Prop
  | .ofSource source name, i, x => source.Notes scope i ∧ x = name
  | .ofCte c names, i, x => i = c.id ∧ x ∈ names

namespace Propagation

/-- Puts a question. -/
def ask (scope : Scope) (p : Propagation) : Ask → Propagation
  | .ofSource source name => p.requireOf scope source name
  | .ofCte c names => (p.requireAll c.id names).refer c

variable {p : Propagation} {scope : Scope} {i : NodeId} {x : String}

/-- A question adds to the sets what it requires, and nothing else. -/
theorem requires_ask {a : Ask} :
    (p.ask scope a).Requires i x ↔ p.Requires i x ∨ a.Requires scope i x := by
  cases a with
  | ofCte c names => exact requires_requireAll
  | ofSource source name =>
      simp only [ask, requireOf, Ask.Requires, Node.Notes]
      cases hcte : source.namedCte? scope with
      | none => simp [requires_requireAll]
      | some c =>
          have hrefer : (((p.requireAll source.id [name]).requireAll c.id [name]).refer c).Requires
              i x ↔ ((p.requireAll source.id [name]).requireAll c.id [name]).Requires i x := Iff.rfl
          simp only [hrefer, requires_requireAll, List.mem_singleton, Option.some.injEq,
            exists_eq_left']
          tauto

@[simp] theorem seenSize_ask {a : Ask} : (p.ask scope a).seenSize = p.seenSize := by
  cases a with
  | ofCte c names => rfl
  | ofSource source name =>
      simp only [ask, requireOf]
      cases source.namedCte? scope <;> rfl

theorem requires_foldl_ask {as : List Ask} :
    (as.foldl (ask scope) p).Requires i x ↔
      p.Requires i x ∨ ∃ a ∈ as, a.Requires scope i x := by
  induction as generalizing p with
  | nil => simp
  | cons a as ih =>
      rw [List.foldl_cons, ih, requires_ask]
      simp only [List.mem_cons, exists_eq_or_imp, or_assoc]

@[simp] theorem seenSize_foldl_ask {as : List Ask} :
    (as.foldl (ask scope) p).seenSize = p.seenSize := by
  induction as generalizing p with
  | nil => rfl
  | cons a as ih => rw [List.foldl_cons, ih, seenSize_ask]

end Propagation

/-! ## The questions of a statement -/

namespace Select

/-- Everything that the sources show. -/
def shownAsks (s : Statement) (scope : Scope) : List Ask :=
  s.sources.flatMap fun source => (source.2.exposedNames scope).map (.ofSource source.2)

/-- Names without a source are asked of every source. -/
def unqualifiedAsks (s : Statement) (names : List String) : List Ask :=
  names.flatMap fun name => s.sources.map fun source => .ofSource source.2 name

/-- Columns are asked of the source that they name. -/
def columnAsks (s : Statement) (refs : List ColumnRef) : List Ask :=
  refs.filterMap fun r => (s.source? r.table).map fun source => .ofSource source r.column

/-- All columns of the CTEs are asked for if text below the statement might read them. -/
def cteAsks (s : Statement) (scope : Scope) : List Ask :=
  if !s.ctes.isEmpty && s.hasTextBelow then
    s.ctes.map fun c => .ofCte c (c.body.exposedNames scope)
  else []

/-- What a statement asks when its expressions read the given columns and names. -/
def asks (s : Statement) (scope : Scope) (lineage : Lineage) : List Ask :=
  s.cteAsks scope ++
    (if lineage.hasUnknownInputs || s.readsUnknownSource lineage then s.shownAsks scope else []) ++
    s.unqualifiedAsks (lineage.declaredInputs ++ lineage.names) ++ s.columnAsks lineage.columns

/-- The expressions that a statement reads to put out the required columns. -/
def requiredExprs (s : Statement) (required : NameSet) : List Expr :=
  (s.columns.filter fun c => required.contains c.name).map NamedExpr.expr ++ s.conditions ++
    s.filter.toList ++ s.groupExprs ++ s.orderExprs

/-- A source that is read only for its rows is asked for its first column. -/
def firstAsks (scope : Scope) (source : Node) : List Ask :=
  ((source.exposedNames scope).take 1).map (.ofSource source)

end Select

namespace Propagation

variable (p : Propagation) (scope : Scope) (s : Statement)

theorem requireAllOf_eq_foldl_ask (source : Node) (names : List String) :
    p.requireAllOf scope source names = (names.map (Ask.ofSource source)).foldl (ask scope) p := by
  rw [requireAllOf, List.foldl_map]
  rfl

theorem requireCtes_eq_foldl_ask :
    p.requireCtes scope s = (s.cteAsks scope).foldl (ask scope) p := by
  rw [requireCtes, Select.cteAsks]
  split
  · rw [List.foldl_map]
    rfl
  · rfl

theorem requireShown_eq_foldl_ask :
    p.requireShown scope s = (s.shownAsks scope).foldl (ask scope) p := by
  rw [requireShown, Select.shownAsks, List.foldl_flatMap]
  simp only [requireAllOf_eq_foldl_ask]

theorem foldl_requireUnqualified_eq (names : List String) :
    names.foldl (fun p name => p.requireUnqualified scope s name) p =
      (s.unqualifiedAsks names).foldl (ask scope) p := by
  rw [Select.unqualifiedAsks, List.foldl_flatMap]
  simp only [List.foldl_map]
  rfl

theorem foldl_requireColumn_eq (refs : List ColumnRef) :
    refs.foldl (fun p r => p.requireColumn scope s r) p =
      (s.columnAsks refs).foldl (ask scope) p := by
  induction refs generalizing p with
  | nil => rfl
  | cons r refs ih =>
      rw [List.foldl_cons, ih]
      simp only [Select.columnAsks, List.filterMap_cons, requireColumn]
      cases s.source? r.table <;> rfl

/-- **A statement puts its questions one after the other.** -/
theorem requireInputs_eq_foldl_ask :
    p.requireInputs scope s =
      (s.asks scope (s.requiredLineage (p.required.names s.id))).foldl (ask scope) p := by
  simp only [requireInputs, requireCtes_eq_foldl_ask, foldl_requireUnqualified_eq,
    foldl_requireColumn_eq]
  rw [Select.asks, List.foldl_append, List.foldl_append, List.foldl_append]
  split
  · rw [requireShown_eq_foldl_ask]
  · rfl

/-- A source of which nothing is required is asked for its first column. -/
theorem requireSome_eq_foldl_ask (source : Node) :
    p.requireSome scope source =
      if p.required.requires (((source.namedCte? scope).map Cte.id).getD source.id) then p
      else (Select.firstAsks scope source).foldl (ask scope) p := by
  simp only [requireSome, requireAllOf_eq_foldl_ask, Select.firstAsks]

end Propagation

namespace Select

variable {s : Statement} {scope : Scope} {lineage : Lineage} {source : Node} {x : String}

/-- What a statement asks of its sources. -/
theorem ofSource_mem_asks :
    .ofSource source x ∈ s.asks scope lineage ↔
      ((lineage.hasUnknownInputs = true ∨ s.readsUnknownSource lineage = true) ∧
        source ∈ s.sourceNodes ∧ x ∈ source.exposedNames scope) ∨
      ((x ∈ lineage.declaredInputs ∨ x ∈ lineage.names) ∧ source ∈ s.sourceNodes) ∨
      ∃ r ∈ lineage.columns, s.source? r.table = some source ∧ r.column = x := by
  have hctes : Ask.ofSource source x ∉ s.cteAsks scope := by
    rw [cteAsks]
    split <;> simp
  have hshown : Ask.ofSource source x ∈
      (if lineage.hasUnknownInputs || s.readsUnknownSource lineage then s.shownAsks scope else []) ↔
      (lineage.hasUnknownInputs = true ∨ s.readsUnknownSource lineage = true) ∧
        source ∈ s.sourceNodes ∧ x ∈ source.exposedNames scope := by
    by_cases hunknown : (lineage.hasUnknownInputs || s.readsUnknownSource lineage) = true
    · rw [if_pos hunknown]
      rw [Bool.or_eq_true] at hunknown
      simp [hunknown, shownAsks, sourceNodes]
    · rw [if_neg hunknown]
      rw [Bool.or_eq_true] at hunknown
      simp [hunknown]
  have hnames : Ask.ofSource source x ∈
      s.unqualifiedAsks (lineage.declaredInputs ++ lineage.names) ↔
      (x ∈ lineage.declaredInputs ∨ x ∈ lineage.names) ∧ source ∈ s.sourceNodes := by
    simp [unqualifiedAsks, sourceNodes, or_and_right]
  have hcolumns : Ask.ofSource source x ∈ s.columnAsks lineage.columns ↔
      ∃ r ∈ lineage.columns, s.source? r.table = some source ∧ r.column = x := by
    simp [columnAsks]
  rw [asks, List.mem_append, List.mem_append, List.mem_append, hshown, hnames, hcolumns]
  simp only [hctes, false_or, or_assoc]

/-- What a statement asks of its CTEs. -/
theorem of_ofCte_mem_asks {c : Cte Node} {names : List String}
    (h : .ofCte c names ∈ s.asks scope lineage) :
    c ∈ s.ctes ∧ names = c.body.exposedNames scope := by
  have hctes : Ask.ofCte c names ∈ s.cteAsks scope := by
    rw [asks, List.mem_append, List.mem_append, List.mem_append] at h
    rcases h with ((h | h) | h) | h
    · exact h
    · split at h
      · simp [shownAsks] at h
      · simp at h
    · simp [unqualifiedAsks] at h
    · simp [columnAsks] at h
  rw [cteAsks] at hctes
  split at hctes
  · simp only [List.mem_map, Ask.ofCte.injEq] at hctes
    rcases hctes with ⟨d, hd, rfl, rfl⟩
    exact ⟨hd, rfl⟩
  · simp at hctes

/-- Only sources of the statement are asked. -/
theorem source_mem_of_mem_asks (h : .ofSource source x ∈ s.asks scope lineage) :
    source ∈ s.sourceNodes := by
  rcases ofSource_mem_asks.1 h with ⟨-, hsource, -⟩ | ⟨-, hsource⟩ | ⟨r, -, hsource, -⟩
  · exact hsource
  · exact hsource
  · exact mem_sourceNodes_of_source? hsource

/-- What a statement requires of itself. -/
theorem mem_forcedNames : x ∈ s.forcedNames ↔ x ∈ s.groupNames ∨ x ∈ s.columnNames ∧
    (s.distinct = true ∨ (Expr.lineages s.orderExprs).hasUnknownInputs = true ∨
      x ∈ (Expr.lineages s.orderExprs).names ∨
      x ∈ (Expr.lineages s.orderExprs).declaredInputs) := by
  simp only [forcedNames, List.mem_append]
  by_cases hall : (s.distinct || (Expr.lineages s.orderExprs).hasUnknownInputs) = true
  · rw [if_pos hall]
    rw [Bool.or_eq_true] at hall
    tauto
  · rw [if_neg hall, List.mem_filter, List.mem_append, List.contains_iff_mem]
    rw [Bool.or_eq_true] at hall
    tauto

end Select

end QueryPlan
