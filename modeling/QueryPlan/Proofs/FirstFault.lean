import Mathlib.Data.List.Duplicate
import QueryPlan.Proofs.Validity

/-!
# The first fault of a plan

`Node.validate` turns back at an identity that it has met, and stops at the first node that breaks its
rule.  The specification neither remembers nor stops: `Node.subnodes` lists the nodes of a plan in
depth-first order, a node before what it reads, and each as often as it is read.

* `findSome?_reachable` — whatever is looked for, the traversal that turns back finds what a search
  of this list finds.  A part of the plan that is not looked into again stands in the list of what has
  been met, and there nothing was found in it.
* `Node.Breaks` — the faults of a node, with one case for each rule and without the order in which the
  rules are checked.  A node keeps its rule exactly if it has no fault (`Node.keepsRule_iff`).

`validate_reports_first` puts the two together.
-/

namespace QueryPlan

/-! ## Searching with and without turning back -/

namespace Node

variable {plan : Node} {β : Type}

/-- Everything below a node that is not looked into again has been listed. -/
theorem Lists.mem_of_complete (hids : plan.IdsIdentify) {v : Visited} (hv : Lists plan v) {size : Nat}
    (hcomplete : CompleteBelow plan (fun _ => True) (· ∈ v.seen) size) {n m : Node}
    (hn : n ∈ plan.subnodes) (hsize : sizeOf n < size) (hseen : n.id ∈ v.seen)
    (hm : m ∈ n.subnodes) : m ∈ v.latest := by
  have hmet : m.id ∈ v.seen := hcomplete n hn trivial hseen hsize m hm trivial
  obtain ⟨m', hm', hid⟩ := hv.listed m.id hmet
  rwa [← hids m' (hv.subnodes m' hm') m (mem_subnodes_trans hm hn) hid]

/-- **To turn back loses nothing** of what is looked for: after a visit the list of what has been met
is as good as if all nodes below had been added to it. -/
theorem findSome?_visit (hids : plan.IdsIdentify) (f : Node → Option β) (n : Node)
    (hn : n ∈ plan.subnodes) (v : Visited) (hv : Lists plan v) {size : Nat}
    (hcomplete : CompleteBelow plan (fun _ => True) (· ∈ v.seen) size) (hsize : sizeOf n < size) :
    (n.visit v).latest.reverse.findSome? f = (v.latest.reverse ++ n.subnodes).findSome? f := by
  induction n using induct_parents generalizing v size with
  | h n ih =>
      rw [visit_eq, Visited.meet]
      split
      case isTrue hseen =>
        rw [List.findSome?_append]
        cases hfound : v.latest.reverse.findSome? f with
        | some b => rfl
        | none =>
            rw [List.findSome?_eq_none_iff] at hfound
            have hmet : n.id ∈ v.seen := Std.TreeSet.mem_iff_contains.2 hseen
            have hbelow : n.subnodes.findSome? f = none := by
              rw [List.findSome?_eq_none_iff]
              intro m hm
              exact hfound m (by simpa using hv.mem_of_complete hids hcomplete hn hsize hmet hm)
            rw [hbelow, Option.or_none]
      case isFalse =>
        -- what is read is visited one after the other, from the node's own entry on
        have hreads : ∀ ms : List Node, ms ⊆ n.parents → ∀ v : Visited, Lists plan v →
            CompleteBelow plan (fun _ => True) (· ∈ v.seen) (sizeOf n) →
            (ms.foldl (fun v m => m.visit v) v).latest.reverse.findSome? f =
              (v.latest.reverse ++ ms.flatMap subnodes).findSome? f := by
          intro ms hms
          induction ms with
          | nil => simp
          | cons m ms ihms =>
              intro v hv hcomplete
              rw [List.cons_subset] at hms
              have hm := mem_subnodes_of_parent hms.1 hn
              have hlt := sizeOf_lt_of_mem_parents hms.1
              have hafter := ((traverses_visit hids m hm v).covers _ hcomplete (by simpa using hlt)).1
              rw [List.foldl_cons, ihms hms.2 _ (lists_visit m hm v hv) hafter,
                List.findSome?_append, ih m hms.1 hm v hv hcomplete hlt, ← List.findSome?_append,
                List.flatMap_cons, List.append_assoc]
        have hinside : CompleteBelow plan (fun _ => True) (· ∈ v.seen.insert n.id) (sizeOf n) := by
          convert hcomplete.enter hids hn hsize using 2 with i
          rw [Std.TreeSet.mem_insert, Nat.compare_eq_eq, eq_comm]
        rw [hreads n.parents (List.Subset.refl _) _ (hv.note hn) hinside, subnodes_eq n]
        simp

/-- **A search of a plan finds the first node** for which there is something to find, in depth-first
order and with the sharing written out. -/
theorem findSome?_reachable (hids : plan.IdsIdentify) (f : Node → Option β) :
    plan.reachable.findSome? f = plan.subnodes.findSome? f := by
  have hnone : CompleteBelow plan (fun _ => True) (· ∈ ({} : Visited).seen) (sizeOf plan + 1) := by
    intro y _ _ hmet
    simp at hmet
  exact findSome?_visit hids f plan (mem_subnodes_self plan) {} ⟨by simp, by simp⟩ hnone
    (Nat.lt_succ_self _)

end Node

/-! ## Faults -/

/-- A name that is found to be repeated occurs twice, or has been seen before. -/
theorem duplicate_of_firstRepeat? {x : String} {xs seen : List String}
    (h : firstRepeat? seen xs = some x) : x ∈ xs ∧ (x ∈ seen ∨ xs.Duplicate x) := by
  induction xs generalizing seen with
  | nil => simp [firstRepeat?] at h
  | cons y ys ih =>
      rw [firstRepeat?] at h
      split_ifs at h with hy
      · obtain rfl : y = x := Option.some.inj h
        exact ⟨List.mem_cons_self, .inl hy⟩
      · obtain ⟨hx, hrepeats⟩ := ih h
        refine ⟨List.mem_cons_of_mem _ hx, ?_⟩
        rcases hrepeats with hseen | hrepeats
        · rcases List.mem_cons.1 hseen with rfl | hseen
          · exact .inr (.cons_mem hx)
          · exact .inl hseen
        · exact .inr (.cons_duplicate hrepeats)

/-- Source names have the faults that column names have, and may be empty. -/
theorem sourceFault?_eq_some {node : NodeId} {fault : PlanFault} {xs seen : List String}
    (h : sourceFault? node seen xs = some fault) :
    (fault = .emptySourceName node ∧ "" ∈ xs) ∨
      ∃ x, fault = .repeatedSource node x ∧ firstRepeat? seen xs = some x := by
  induction xs generalizing seen with
  | nil => simp [sourceFault?] at h
  | cons y ys ih =>
      rw [sourceFault?] at h
      split_ifs at h with hempty hy
      · obtain rfl : y = "" := String.isEmpty_iff.1 hempty
        exact .inl ⟨(Option.some.inj h).symm, List.mem_cons_self⟩
      · exact .inr ⟨y, (Option.some.inj h).symm, by rw [firstRepeat?, if_pos hy]⟩
      · rcases ih h with ⟨hfault, hmem⟩ | ⟨x, hfault, hrepeat⟩
        · exact .inl ⟨hfault, List.mem_cons_of_mem _ hmem⟩
        · exact .inr ⟨x, hfault, by rw [firstRepeat?, if_neg hy, hrepeat]⟩

/-- The faults of a statement. -/
inductive Select.Breaks {σ : Type} (s : Select σ) : PlanFault → Prop
  | noColumns : s.columns = [] → s.Breaks (.noColumns s.id)
  | repeatedColumn {name : String} : s.columnNames.Duplicate name →
      s.Breaks (.repeatedColumn s.id name)
  | emptySourceName : "" ∈ s.sourceNames → s.Breaks (.emptySourceName s.id)
  | repeatedSource {name : String} : s.sourceNames.Duplicate name →
      s.Breaks (.repeatedSource s.id name)
  | repeatedCte {name : String} : (s.ctes.map Cte.name).Duplicate name →
      s.Breaks (.repeatedCte s.id name)

theorem Select.breaks_of_fault? {σ : Type} {s : Select σ} {fault : PlanFault}
    (h : s.fault? = some fault) : s.Breaks fault := by
  have hrepeats : ∀ {x : String} {xs : List String}, firstRepeat? [] xs = some x →
      xs.Duplicate x := by
    intro x xs hx
    simpa using (duplicate_of_firstRepeat? hx).2
  unfold fault? at h
  split_ifs at h with hcolumns
  · cases h
    exact .noColumns (by simpa using hcolumns)
  · simp only [Option.orElse_eq_orElse, Option.orElse_eq_or, Option.or_eq_some_iff,
      Option.map_eq_some_iff] at h
    rcases h with ⟨x, hx, rfl⟩ | ⟨-, hsources | ⟨-, x, hx, rfl⟩⟩
    · exact .repeatedColumn (hrepeats hx)
    · rcases sourceFault?_eq_some hsources with ⟨rfl, hempty⟩ | ⟨x, rfl, hx⟩
      · exact .emptySourceName hempty
      · exact .repeatedSource (hrepeats hx)
    · exact .repeatedCte (hrepeats hx)

namespace Node

/-- The faults of a node. -/
inductive Breaks : Node → PlanFault → Prop
  | emptyTableName {id : NodeId} {t : TableName} : t.name = "" →
      Breaks (.table id t) (.emptyTableName id)
  | statement {s : Statement} {fault : PlanFault} : s.Breaks fault → Breaks (.select s) fault
  | cteBody {c : Cte Node} : c.body.isSelect = false →
      Breaks (.cte c) (.cteBody c.name c.body.kindName)
  | createTableBody {id : NodeId} {t : TableName} {query : Node} : query.isSelect = false →
      Breaks (.createTable id t query) (.createTableBody t query.kindName)

theorem breaks_of_localFault? {n : Node} {fault : PlanFault} (h : n.localFault? = some fault) :
    n.Breaks fault := by
  cases n with
  | table id t =>
      simp only [localFault?] at h
      split_ifs at h with hempty
      cases h
      exact .emptyTableName (String.isEmpty_iff.1 hempty)
  | text => simp [localFault?] at h
  | select s => exact .statement (Select.breaks_of_fault? h)
  | cte c =>
      simp only [localFault?] at h
      split_ifs at h with hselect
      cases h
      exact .cteBody (by simpa using hselect)
  | createTable id t query =>
      simp only [localFault?] at h
      split_ifs at h with hselect
      cases h
      exact .createTableBody (by simpa using hselect)

theorem Breaks.not_keepsRule {n : Node} {fault : PlanFault} (h : n.Breaks fault) : ¬ n.KeepsRule := by
  intro hrule
  cases h with
  | emptyTableName hempty => exact hrule hempty
  | statement h =>
      have hs : Select.WellFormed _ := hrule
      cases h with
      | noColumns hnone => exact hs.columns hnone
      | repeatedColumn htwice => exact List.nodup_iff_forall_not_duplicate.1 hs.columnNames _ htwice
      | emptySourceName hempty => exact hs.named hempty
      | repeatedSource htwice => exact List.nodup_iff_forall_not_duplicate.1 hs.sourceNames _ htwice
      | repeatedCte htwice => exact List.nodup_iff_forall_not_duplicate.1 hs.cteNames _ htwice
  | cteBody hselect | createTableBody hselect => simp [KeepsRule, hselect] at hrule

/-- A node keeps its rule exactly if it has no fault. -/
theorem keepsRule_iff {n : Node} : n.KeepsRule ↔ ∀ fault, ¬ n.Breaks fault := by
  constructor
  · intro hrule fault hbreaks
    exact hbreaks.not_keepsRule hrule
  · intro hnone
    rw [← localFault?_eq_none_iff, Option.eq_none_iff_forall_ne_some]
    intro fault hfault
    exact hnone fault (breaks_of_localFault? hfault)

end Node

/-- **A plan is accepted exactly if every node keeps its rule**, and otherwise the error is a fault of
the first node that does not, in depth-first order.  Identities must tell the nodes of the plan
apart. -/
theorem validate_reports_first {plan : Node} (hids : plan.IdsIdentify) :
    (plan.validate = .ok () ↔ ∀ n ∈ plan.subnodes, n.KeepsRule) ∧
      ((∃ n ∈ plan.subnodes, ¬ n.KeepsRule) → ∃ before n after fault,
        plan.subnodes = before ++ n :: after ∧ (∀ m ∈ before, m.KeepsRule) ∧ ¬ n.KeepsRule ∧
        plan.validate = .error (.plan fault) ∧ n.Breaks fault) := by
  refine ⟨Node.validate_eq_ok_iff hids, ?_⟩
  rintro ⟨m, hm, hrule⟩
  cases hfound : plan.subnodes.findSome? Node.localFault? with
  | none =>
      have hnone := List.findSome?_eq_none_iff.1 hfound m hm
      exact absurd (Node.localFault?_eq_none_iff.1 hnone) hrule
  | some fault =>
      obtain ⟨before, n, after, hsplit, hfault, hbefore⟩ := List.findSome?_eq_some_iff.1 hfound
      have hbreaks := Node.breaks_of_localFault? hfault
      refine ⟨before, n, after, fault, hsplit, ?_, hbreaks.not_keepsRule, ?_, hbreaks⟩
      · intro u hu
        exact Node.localFault?_eq_none_iff.1 (hbefore u hu)
      · rw [Node.validate, Node.findSome?_reachable hids, hfound]

/-- `SELECT a.x AS x FROM "" a`, over a table without a name. -/
def Select.readingNameless : Statement :=
  .plain 2 [⟨.column ⟨"a", "x"⟩ true, "x"⟩] (.table 1 ⟨none, ""⟩) "a"

/-- `SELECT b.x AS x FROM readingNameless b CROSS JOIN (CREATE TABLE u AS t) c
CROSS JOIN readingNameless d`.  The table that is created is made from a table, which is a fault
too, and one statement is read at two places. -/
def Select.faultyTwice : Statement :=
  { Select.plain 5 [⟨.column ⟨"b", "x"⟩ true, "x"⟩] (.select .readingNameless) "b" with
    joins := [⟨.createTable 4 ⟨none, "u"⟩ (.table 3 ⟨none, "t"⟩), "c", .cross, none⟩,
      ⟨.select .readingNameless, "d", .cross, none⟩] }

/-- The table without a name is reported, although the other fault is nearer to the root. -/
theorem validate_reports_first_faultyTwice :
    (Node.select .faultyTwice).IdsIdentify ∧
      ∃ before t after, (Node.select .faultyTwice).subnodes = before ++ .table 1 t :: after ∧
        (∀ m ∈ before, m.KeepsRule) ∧
        (Node.select .faultyTwice).validate = .error (.plan (.emptyTableName 1)) := by
  have hids : (Node.select .faultyTwice).IdsIdentify := by
    have hall : (Node.select .faultyTwice).subnodes = [.select .faultyTwice,
        .select .readingNameless, .table 1 ⟨none, ""⟩,
        .createTable 4 ⟨none, "u"⟩ (.table 3 ⟨none, "t"⟩), .table 3 ⟨none, "t"⟩] ++
        [.select .readingNameless, .table 1 ⟨none, ""⟩] := rfl
    exact Node.idsIdentify_of_append hall (by simp) (by decide)
  have hfaulty : ∃ n ∈ (Node.select .faultyTwice).subnodes, ¬ n.KeepsRule :=
    ⟨.table 1 ⟨none, ""⟩, Node.mem_subnodes_of_parent (n := .select .readingNameless)
      List.mem_cons_self (Node.mem_subnodes_of_mem_parents List.mem_cons_self), by
        simp [Node.KeepsRule]⟩
  obtain ⟨before, n, after, fault, hsplit, hbefore, -, hvalidate, hbreaks⟩ :=
    (validate_reports_first hids).2 hfaulty
  have hruns : (Node.select .faultyTwice).validate = .error (.plan (.emptyTableName 1)) := rfl
  rw [hruns] at hvalidate
  cases hvalidate
  cases hbreaks with
  | emptyTableName => exact ⟨hids, before, _, after, hsplit, hbefore, hruns⟩
  | statement h => cases h

end QueryPlan
