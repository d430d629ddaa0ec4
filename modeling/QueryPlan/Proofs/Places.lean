import QueryPlan.Proofs.Lists
import QueryPlan.Proofs.Subnodes

/-!
# Places in a plan

A place in a plan is the way that leads to it from the root: at each step, which of the nodes that are
read is taken.  Places say where a node of one plan stands in another one, and which places of a plan
hold one node.

* `mem_subnodes_iff_nodeAt?` — the nodes of a plan are those at its places.
* `rel_nodeAt?` — a relation between nodes that holds of what they read, one by one, if it holds of
  the nodes themselves, relates two plans place by place.
-/

namespace QueryPlan

namespace Node

/-- The node at a place. -/
def nodeAt? : Node → List Nat → Option Node
  | n, [] => some n
  | n, i :: place => n.parents[i]?.bind fun m => m.nodeAt? place

/-- Two places of a plan hold one node. -/
def SharesAt (plan : Node) (p q : List Nat) : Prop :=
  ∃ m n, plan.nodeAt? p = some m ∧ plan.nodeAt? q = some n ∧ m.id = n.id

theorem mem_subnodes_of_nodeAt? {m n : Node} {place : List Nat} (h : n.nodeAt? place = some m) :
    m ∈ n.subnodes := by
  induction place generalizing n with
  | nil =>
      cases h
      exact mem_subnodes_self m
  | cons i place ih =>
      rw [nodeAt?] at h
      obtain ⟨l, hl, hm⟩ := Option.bind_eq_some_iff.1 h
      exact mem_subnodes_iff.2 (.inr ⟨l, List.mem_of_getElem? hl, ih hm⟩)

/-- **Every node of a plan has a place.** -/
theorem mem_subnodes_iff_nodeAt? {m n : Node} :
    m ∈ n.subnodes ↔ ∃ place, n.nodeAt? place = some m := by
  constructor
  · intro hm
    induction n using induct_parents with
    | h n ih =>
        rcases mem_subnodes_iff.1 hm with rfl | ⟨l, hl, hm⟩
        · exact ⟨[], rfl⟩
        · obtain ⟨i, hi⟩ := List.getElem?_of_mem hl
          obtain ⟨place, hplace⟩ := ih l hl hm
          exact ⟨i :: place, by rw [nodeAt?, hi, Option.bind_some, hplace]⟩
  · rintro ⟨place, hplace⟩
    exact mem_subnodes_of_nodeAt? hplace

/-- **Place by place.**  A relation that passes on to what is read holds at every place. -/
theorem rel_nodeAt? {R : Node → Node → Prop}
    (hreads : ∀ {n n' : Node}, R n n' → List.Forall₂ R n.parents n'.parents) {n n' : Node}
    (h : R n n') (place : List Nat) : Option.Rel R (n.nodeAt? place) (n'.nodeAt? place) := by
  induction place generalizing n n' with
  | nil => exact .some h
  | cons i place ih =>
      rw [nodeAt?, nodeAt?]
      have hlength := (hreads h).length_eq
      cases hm' : n'.parents[i]? with
      | none =>
          rw [List.getElem?_eq_none_iff, ← hlength, ← List.getElem?_eq_none_iff] at hm'
          rw [hm']
          exact .none
      | some m' =>
          obtain ⟨m, hm, hR⟩ := exists_getElem?_of_forall₂ (hreads h) hm'
          rw [hm]
          exact ih hR

end Node

end QueryPlan
