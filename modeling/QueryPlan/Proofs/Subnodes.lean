import Mathlib.Data.List.Nodup
import QueryPlan.Plan.WellFormed

/-!
# The nodes below a node

A plan is a tree with shared parts, and every traversal knows a node by its identity.  This file
says what the nodes of a plan are when the sharing is written out (`Node.subnodes`), and when
identities tell them apart (`Node.IdsIdentify`).

* `Node.induct_parents` — induction over the nodes that a node reads.
* `Traverses` — what a depth-first traversal that remembers identities does to the set of identities
  it has met.  Under `IdsIdentify` such a traversal leaves nothing out (`Traverses.met_of_mem`),
  although it turns back wherever it has been before.
* `mem_reachable_iff`, `localFault?_of_validate` — hence `Node.reachable` lists all nodes of
  a plan, and `Node.validate` checks the rule of each.
-/

namespace QueryPlan

/-! ## What a statement reads -/

namespace Select

variable {s : Statement}

/-- The sources of a statement, without their names. -/
def sourceNodes (s : Statement) : List Node :=
  s.sources.map Prod.snd

/-- A statement reads its sources and its CTEs. -/
theorem parents_select (s : Statement) :
    (Node.select s).parents = s.sourceNodes ++ s.ctes.map .cte := by
  simp [Node.parents, sourceNodes, sources, Function.comp_def]

theorem mem_sourceNodes_of_source? {table : String} {source : Node}
    (h : s.source? table = some source) : source ∈ s.sourceNodes := by
  rcases List.lookup_eq_some_iff.1 h with ⟨l₁, l₂, hsources, -⟩
  rw [sourceNodes, hsources]
  simp

end Select

namespace Node

/-! ## Nodes with the sharing written out -/

mutual
/-- A node and everything below it. -/
def subnodes : Node → List Node
  | n@(.table ..) | n@(.text ..) => [n]
  | n@(.select s) =>
      n :: (s.source.subnodes ++ (subnodesOfJoins s.joins ++ subnodesOfCtes s.ctes))
  | n@(.cte c) => n :: c.body.subnodes
  | n@(.createTable _ _ query) => n :: query.subnodes

/-- `subnodes` for the sources of joins. -/
def subnodesOfJoins : List (Join Node) → List Node
  | [] => []
  | j :: js => j.source.subnodes ++ subnodesOfJoins js

/-- `subnodes` for CTEs. -/
def subnodesOfCtes : List (Cte Node) → List Node
  | [] => []
  | c :: cs => .cte c :: (c.body.subnodes ++ subnodesOfCtes cs)
end

theorem subnodesOfJoins_eq : ∀ js : List (Join Node),
    subnodesOfJoins js = (js.map Join.source).flatMap subnodes
  | [] => rfl
  | j :: js => by rw [subnodesOfJoins, subnodesOfJoins_eq js, List.map_cons, List.flatMap_cons]

theorem subnodesOfCtes_eq : ∀ cs : List (Cte Node),
    subnodesOfCtes cs = (cs.map Node.cte).flatMap subnodes
  | [] => rfl
  | c :: cs => by
      rw [subnodesOfCtes, subnodesOfCtes_eq cs, List.map_cons, List.flatMap_cons, subnodes,
        List.cons_append]

/-- The nodes below a node are the node itself and those below what it reads. -/
theorem subnodes_eq (n : Node) : n.subnodes = n :: n.parents.flatMap subnodes := by
  cases n with
  | table | text => rfl
  | select s =>
      simp only [subnodes, parents, subnodesOfJoins_eq, subnodesOfCtes_eq, List.flatMap_cons,
        List.flatMap_append]
  | cte | createTable => simp only [subnodes, parents, List.flatMap_cons, List.flatMap_nil,
      List.append_nil]

@[simp] theorem mem_subnodes_self (n : Node) : n ∈ n.subnodes := by
  rw [subnodes_eq]
  exact List.mem_cons_self

theorem mem_subnodes_iff {m n : Node} :
    m ∈ n.subnodes ↔ m = n ∨ ∃ p ∈ n.parents, m ∈ p.subnodes := by
  rw [subnodes_eq, List.mem_cons, List.mem_flatMap]

theorem mem_subnodes_of_mem_parents {m n : Node} (h : m ∈ n.parents) : m ∈ n.subnodes :=
  mem_subnodes_iff.2 (.inr ⟨m, h, mem_subnodes_self m⟩)

/-! ## Induction -/

/-- What a node reads is smaller than the node. -/
theorem sizeOf_lt_of_mem_parents {m n : Node} (h : m ∈ n.parents) : sizeOf m < sizeOf n := by
  cases n with
  | table | text => simp [parents] at h
  | select s =>
      obtain ⟨id, columns, source, sourceName, ctes, joins, groupBy, orderBy, filter, limit,
        distinct⟩ := s
      simp only [parents, List.mem_cons, List.mem_append, List.mem_map] at h
      simp only [select.sizeOf_spec, Select.mk.sizeOf_spec]
      rcases h with rfl | ⟨j, hj, rfl⟩ | ⟨c, hc, rfl⟩
      · omega
      · have hlt := List.sizeOf_lt_of_mem hj
        have hsource : sizeOf j.source < sizeOf j := by
          cases j
          simp only [Join.mk.sizeOf_spec]
          omega
        omega
      · have hlt := List.sizeOf_lt_of_mem hc
        simp only [cte.sizeOf_spec]
        omega
  | cte c =>
      obtain rfl : m = c.body := by simpa [parents] using h
      cases c
      simp only [cte.sizeOf_spec, Cte.mk.sizeOf_spec]
      omega
  | createTable id t query =>
      obtain rfl : m = query := by simpa [parents] using h
      simp only [createTable.sizeOf_spec]
      omega

/-- **Induction over what is read.**  A property holds of every node if it holds of a node whenever
it holds of the nodes that the node reads. -/
@[elab_as_elim]
theorem induct_parents {motive : Node → Prop} (h : ∀ n, (∀ m ∈ n.parents, motive m) → motive n)
    (n : Node) : motive n :=
  h n fun m _ => induct_parents h m
termination_by sizeOf n
decreasing_by exact sizeOf_lt_of_mem_parents ‹_›

/-- Induction over everything below what is read. -/
@[elab_as_elim]
theorem induct_below {motive : Node → Prop}
    (h : ∀ n, (∀ p ∈ n.parents, ∀ m ∈ p.subnodes, motive m) → motive n) (n : Node) : motive n := by
  have hall : ∀ m ∈ n.subnodes, motive m := by
    induction n using induct_parents with
    | h n ih =>
        intro m hm
        rcases mem_subnodes_iff.1 hm with rfl | ⟨p, hp, hm⟩
        · exact h m ih
        · exact ih p hp m hm
  exact hall n (mem_subnodes_self n)

theorem mem_subnodes_trans {l m : Node} : ∀ {n : Node}, l ∈ m.subnodes → m ∈ n.subnodes →
    l ∈ n.subnodes := by
  intro n
  induction n using induct_parents with
  | h n ih =>
      intro hl hm
      rcases mem_subnodes_iff.1 hm with rfl | ⟨p, hp, hm⟩
      · exact hl
      · exact mem_subnodes_iff.2 (.inr ⟨p, hp, ih p hp hl hm⟩)

theorem mem_subnodes_of_parent {m n plan : Node} (hm : m ∈ n.parents) (hn : n ∈ plan.subnodes) :
    m ∈ plan.subnodes :=
  mem_subnodes_trans (mem_subnodes_of_mem_parents hm) hn

theorem body_mem_subnodes {c : Cte Node} {plan : Node} (hc : .cte c ∈ plan.subnodes) :
    c.body ∈ plan.subnodes :=
  mem_subnodes_of_parent (by simp [parents]) hc

theorem query_mem_subnodes {id : NodeId} {t : TableName} {query plan : Node}
    (hn : .createTable id t query ∈ plan.subnodes) : query ∈ plan.subnodes :=
  mem_subnodes_of_parent (by simp [parents]) hn

theorem sizeOf_le_of_mem_subnodes {m : Node} : ∀ {n : Node}, m ∈ n.subnodes →
    sizeOf m ≤ sizeOf n := by
  intro n
  induction n using induct_parents with
  | h n ih =>
      intro hm
      rcases mem_subnodes_iff.1 hm with rfl | ⟨p, hp, hm⟩
      · exact Nat.le_refl _
      · exact Nat.le_of_lt (Nat.lt_of_le_of_lt (ih p hp hm) (sizeOf_lt_of_mem_parents hp))

/-- No node lies below what it reads. -/
theorem not_mem_subnodes_of_mem_parents {m n : Node} (h : m ∈ n.parents) : n ∉ m.subnodes :=
  fun hn => absurd (sizeOf_le_of_mem_subnodes hn) (Nat.not_le.2 (sizeOf_lt_of_mem_parents h))

/-- A property holds of a node and of everything below it. -/
def Everywhere (L : Node → Prop) (n : Node) : Prop :=
  ∀ m ∈ n.subnodes, L m

theorem Everywhere.self {L : Node → Prop} {n : Node} (h : n.Everywhere L) : L n :=
  h n (mem_subnodes_self n)

theorem Everywhere.below {L : Node → Prop} {m n : Node} (h : n.Everywhere L)
    (hm : m ∈ n.subnodes) : m.Everywhere L :=
  fun l hl => h l (mem_subnodes_trans hl hm)

/-! ## Identities -/

/-- Identities tell the nodes of a plan apart: what has one identity is one node. -/
def IdsIdentify (plan : Node) : Prop :=
  ∀ a ∈ plan.subnodes, ∀ b ∈ plan.subnodes, a.id = b.id → a = b

/-- A plan whose nodes are among nodes with different identities. -/
theorem idsIdentify_of_subset {plan : Node} {nodes : List Node} (hsub : plan.subnodes ⊆ nodes)
    (h : (nodes.map Node.id).Nodup) : plan.IdsIdentify :=
  fun _ ha _ hb hid => List.inj_on_of_nodup_map h (hsub ha) (hsub hb) hid

/-- A plan whose nodes have different identities up to a place after which they only repeat. -/
theorem idsIdentify_of_append {plan : Node} {nodes again : List Node}
    (hall : plan.subnodes = nodes ++ again) (hagain : again ⊆ nodes)
    (h : (nodes.map Node.id).Nodup) : plan.IdsIdentify := by
  refine idsIdentify_of_subset ?_ h
  rw [hall]
  exact List.append_subset.2 ⟨List.Subset.refl _, hagain⟩

/-- A plan without sharing, whose nodes have different identities. -/
theorem idsIdentify_of_nodup {plan : Node} (h : (plan.subnodes.map Node.id).Nodup) :
    plan.IdsIdentify :=
  idsIdentify_of_subset (List.Subset.refl _) h

/-- Nothing below what a node reads has the identity of the node. -/
theorem IdsIdentify.id_ne_of_below {plan l m n : Node} (h : plan.IdsIdentify)
    (hn : n ∈ plan.subnodes) (hm : m ∈ n.parents) (hl : l ∈ m.subnodes) : l.id ≠ n.id := by
  intro hid
  have hplan := mem_subnodes_trans hl (mem_subnodes_of_parent hm hn)
  exact not_mem_subnodes_of_mem_parents hm (h l hplan n hn hid ▸ hl)

end Node

/-! ## Traversals that remember identities

A depth-first traversal meets the nodes that satisfy `P`, remembers their identities and turns back
at an identity that it has met.  Nothing is lost, because what has been met is already complete: all
below it has been met as well.  The exception are the nodes that the traversal is still inside of;
but these are larger than any node that it can come across, so completeness is only claimed of nodes
below a certain size. -/

section Traversals

variable (plan : Node) (P : Node → Prop)

/-- With every node of less than the given size, all nodes below it have been met. -/
def CompleteBelow (met : NodeId → Prop) (size : Nat) : Prop :=
  ∀ y ∈ plan.subnodes, P y → met y.id → sizeOf y < size → ∀ z ∈ y.subnodes, P z → met z.id

/-- What a traversal of some nodes does to the set of identities that have been met. -/
structure Traverses (nodes : List Node) (before after : NodeId → Prop) : Prop where
  grows : ∀ i, before i → after i
  frame : ∀ i, after i → before i ∨ ∃ x ∈ nodes, ∃ y ∈ x.subnodes, y.id = i
  covers : ∀ size, CompleteBelow plan P before size → (∀ x ∈ nodes, sizeOf x < size) →
    CompleteBelow plan P after size ∧ ∀ x ∈ nodes, ∀ y ∈ x.subnodes, P y → after y.id

variable {plan P} {n : Node} {before between after : NodeId → Prop}

/-- A node is remembered before what lies below it has been met; this is harmless for smaller nodes. -/
theorem CompleteBelow.enter {size : Nat} (h : CompleteBelow plan P before size)
    (hids : plan.IdsIdentify) (hn : n ∈ plan.subnodes) (hsize : sizeOf n < size) :
    CompleteBelow plan P (fun i => i = n.id ∨ before i) (sizeOf n) := by
  intro y hy hP hmet hlt z hz hPz
  rcases hmet with hid | hmet
  · obtain rfl := hids y hy n hn hid
    exact absurd hlt (Nat.lt_irrefl _)
  · exact .inr (h y hy hP hmet (Nat.lt_trans hlt hsize) z hz hPz)

namespace Traverses

theorem nil : Traverses plan P [] before before where
  grows _ h := h
  frame _ h := .inl h
  covers _ h _ := ⟨h, by simp⟩

theorem cons {ns : List Node} (hn : Traverses plan P [n] before between)
    (hns : Traverses plan P ns between after) : Traverses plan P (n :: ns) before after where
  grows i h := hns.grows i (hn.grows i h)
  frame i h := by
    rcases hns.frame i h with h | ⟨x, hx, h⟩
    · rcases hn.frame i h with h | ⟨x, hx, h⟩
      · exact .inl h
      · exact .inr ⟨x, by simp_all, h⟩
    · exact .inr ⟨x, List.mem_cons_of_mem _ hx, h⟩
  covers size hcomplete hsize := by
    obtain ⟨hcomplete, hcovers⟩ := hn.covers size hcomplete fun x hx => hsize x (by simp_all)
    obtain ⟨hcomplete, hcovers'⟩ :=
      hns.covers size hcomplete fun x hx => hsize x (List.mem_cons_of_mem _ hx)
    refine ⟨hcomplete, fun x hx y hy hP => ?_⟩
    rcases List.mem_cons.1 hx with rfl | hx
    · exact hns.grows _ (hcovers x (by simp) y hy hP)
    · exact hcovers' x hx y hy hP

/-- The traversal turns back. -/
theorem turn (hn : n ∈ plan.subnodes) (hP : P n) (hmet : before n.id) :
    Traverses plan P [n] before before where
  grows _ h := h
  frame _ h := .inl h
  covers size hcomplete hsize := by
    refine ⟨hcomplete, fun x hx => ?_⟩
    obtain rfl := List.mem_singleton.1 hx
    exact hcomplete x hn hP hmet (hsize x hx)

/-- The traversal passes through a node that it does not remember. -/
theorem pass (hP : ¬ P n) (h : Traverses plan P n.parents before after) :
    Traverses plan P [n] before after where
  grows := h.grows
  frame i hi := by
    rcases h.frame i hi with hi | ⟨x, hx, y, hy, hi⟩
    · exact .inl hi
    · exact .inr ⟨n, by simp, y, Node.mem_subnodes_iff.2 (.inr ⟨x, hx, hy⟩), hi⟩
  covers size hcomplete hsize := by
    obtain ⟨hcomplete, hcovers⟩ := h.covers size hcomplete fun x hx =>
      Nat.lt_trans (Node.sizeOf_lt_of_mem_parents hx) (hsize n (by simp))
    refine ⟨hcomplete, fun x hx y hy hPy => ?_⟩
    obtain rfl := List.mem_singleton.1 hx
    rcases Node.mem_subnodes_iff.1 hy with rfl | ⟨m, hm, hy⟩
    · exact absurd hPy hP
    · exact hcovers m hm y hy hPy

/-- The traversal remembers a node and then traverses what the node reads. -/
theorem enter (hids : plan.IdsIdentify) (hn : n ∈ plan.subnodes)
    (h : Traverses plan P n.parents (fun i => i = n.id ∨ before i) after) :
    Traverses plan P [n] before after where
  grows i hi := h.grows i (.inr hi)
  frame i hi := by
    rcases h.frame i hi with (rfl | hi) | ⟨x, hx, y, hy, hi⟩
    · exact .inr ⟨n, by simp, n, Node.mem_subnodes_self n, rfl⟩
    · exact .inl hi
    · exact .inr ⟨n, by simp, y, Node.mem_subnodes_iff.2 (.inr ⟨x, hx, hy⟩), hi⟩
  covers size hcomplete hsize := by
    have hlt : sizeOf n < size := hsize n (by simp)
    obtain ⟨hafter, hcovers⟩ :=
      h.covers (sizeOf n) (hcomplete.enter hids hn hlt) fun x hx => Node.sizeOf_lt_of_mem_parents hx
    have hall : ∀ y ∈ n.subnodes, P y → after y.id := by
      intro y hy hPy
      rcases Node.mem_subnodes_iff.1 hy with rfl | ⟨m, hm, hy⟩
      · exact h.grows _ (.inl rfl)
      · exact hcovers m hm y hy hPy
    refine ⟨fun y hy hP hmet hsizey z hz hPz => ?_, fun x hx => ?_⟩
    · -- a node met by now was met before, or is the node itself, or lies below it
      rcases h.frame _ hmet with (hid | hmet) | ⟨x, hx, y', hy', hid⟩
      · obtain rfl := hids y hy n hn hid
        exact hall z hz hPz
      · exact h.grows _ (.inr (hcomplete y hy hP hmet hsizey z hz hPz))
      · have hplan := Node.mem_subnodes_trans hy' (Node.mem_subnodes_of_parent hx hn)
        obtain rfl := hids y' hplan y hy hid
        have hx' := Node.mem_subnodes_trans hz hy'
        exact hcovers x hx z hx' hPz
    · obtain rfl := List.mem_singleton.1 hx
      exact hall

/-- **Nothing is left out.**  A traversal of a whole plan meets every node. -/
theorem met_of_mem (h : Traverses plan P [plan] (fun _ => False) after) {y : Node}
    (hy : y ∈ plan.subnodes) (hP : P y) : after y.id := by
  have hnone : CompleteBelow plan P (fun _ => False) (sizeOf plan + 1) :=
    fun _ _ _ hmet => hmet.elim
  exact (h.covers _ hnone fun x hx => by simp_all).2 plan (by simp) y hy hP

end Traverses

end Traversals

/-! ## The nodes that are reached -/

namespace Node

theorem visitJoins_eq : ∀ (js : List (Join Node)) (v : Visited),
    visitJoins js v = (js.map Join.source).foldl (fun v n => n.visit v) v
  | [], _ => rfl
  | j :: js, v => by rw [visitJoins, visitJoins_eq js, List.map_cons, List.foldl_cons]

theorem visitCtes_eq : ∀ (cs : List (Cte Node)) (v : Visited),
    visitCtes cs v = (cs.map Node.cte).foldl (fun v n => n.visit v) v
  | [], _ => rfl
  | c :: cs, v => by rw [visitCtes, visitCtes_eq cs, List.map_cons, List.foldl_cons, visit]

/-- To visit a node is to meet it and to visit what it reads, in order. -/
theorem visit_eq (n : Node) (v : Visited) :
    n.visit v = v.meet n fun v => n.parents.foldl (fun v m => m.visit v) v := by
  cases n with
  | table | text | cte | createTable => rfl
  | select s =>
      simp only [visit, parents, List.foldl_cons, List.foldl_append, visitJoins_eq, visitCtes_eq]

variable {plan : Node}

/-- Visiting is a traversal that remembers every node. -/
theorem traverses_visit (hids : plan.IdsIdentify) (n : Node) (hn : n ∈ plan.subnodes)
    (v : Visited) :
    Traverses plan (fun _ => True) [n] (· ∈ v.seen) (· ∈ (n.visit v).seen) := by
  induction n using induct_parents generalizing v with
  | h n ih =>
      rw [visit_eq, Visited.meet]
      split
      case isTrue hseen => exact .turn hn trivial (Std.TreeSet.mem_iff_contains.2 hseen)
      case isFalse =>
        have hbelow : ∀ ms : List Node, ms ⊆ n.parents → ∀ v : Visited,
            Traverses plan (fun _ => True) ms (· ∈ v.seen)
              (· ∈ (ms.foldl (fun v m => m.visit v) v).seen) := by
          intro ms hms
          induction ms with
          | nil => exact fun v => .nil
          | cons m ms ihms =>
              intro v
              rw [List.cons_subset] at hms
              exact .cons (ih m hms.1 (mem_subnodes_of_parent hms.1 hn) v) (ihms hms.2 _)
        refine .enter hids hn ?_
        convert hbelow n.parents (List.Subset.refl _) _ using 2 with i
        rw [Std.TreeSet.mem_insert, Nat.compare_eq_eq, eq_comm]

/-- What has been seen is listed, and only nodes of the plan are. -/
structure Lists (plan : Node) (v : Visited) : Prop where
  listed : ∀ i ∈ v.seen, ∃ m ∈ v.latest, m.id = i
  subnodes : ∀ m ∈ v.latest, m ∈ plan.subnodes

/-- A node is listed when it is met. -/
theorem Lists.note {n : Node} {v : Visited} (hv : Lists plan v) (hn : n ∈ plan.subnodes) :
    Lists plan { seen := v.seen.insert n.id, latest := n :: v.latest } where
  listed i hi := by
    rcases Std.TreeSet.mem_insert.1 hi with hi | hi
    · exact ⟨n, List.mem_cons_self, by simpa using hi⟩
    · obtain ⟨m, hm, hid⟩ := hv.listed i hi
      exact ⟨m, List.mem_cons_of_mem _ hm, hid⟩
  subnodes m hm := by
    rcases List.mem_cons.1 hm with rfl | hm
    · exact hn
    · exact hv.subnodes m hm

theorem lists_visit (n : Node) (hn : n ∈ plan.subnodes) (v : Visited) (hv : Lists plan v) :
    Lists plan (n.visit v) := by
  induction n using induct_parents generalizing v with
  | h n ih =>
      rw [visit_eq, Visited.meet]
      split
      case isTrue => exact hv
      case isFalse =>
        exact List.foldlRecOn (motive := Lists plan) n.parents _ (hv.note hn) fun v hv m hm =>
          ih m hm (mem_subnodes_of_parent hm hn) v hv

/-- **Every node is reached.**  Where identities tell the nodes of a plan apart, its nodes are
exactly those that a traversal lists. -/
theorem mem_reachable_iff (hids : plan.IdsIdentify) {m : Node} :
    m ∈ plan.reachable ↔ m ∈ plan.subnodes := by
  have hlists : Lists plan (plan.visit {}) :=
    lists_visit plan (mem_subnodes_self plan) {} ⟨by simp, by simp⟩
  simp only [reachable, reachableFrom, List.foldl_cons, List.foldl_nil, List.mem_reverse]
  refine ⟨hlists.subnodes m, fun hm => ?_⟩
  have htrav := traverses_visit hids plan (mem_subnodes_self plan) {}
  have hseen : m.id ∈ (plan.visit {}).seen := by
    refine Traverses.met_of_mem (P := fun _ => True) ?_ hm trivial
    convert htrav using 2
    simp
  obtain ⟨m', hm', hid⟩ := hlists.listed _ hseen
  rwa [← hids m' (hlists.subnodes m' hm') m hm hid]

/-- In a plan that is accepted, every node keeps its rule. -/
theorem localFault?_of_validate (hids : plan.IdsIdentify) (h : plan.validate = .ok ()) {m : Node}
    (hm : m ∈ plan.subnodes) : m.localFault? = none := by
  unfold validate at h
  split at h
  case h_1 => simp at h
  case h_2 hnone => exact List.findSome?_eq_none_iff.1 hnone m ((mem_reachable_iff hids).2 hm)

end Node

end QueryPlan
