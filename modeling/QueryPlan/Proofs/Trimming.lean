import QueryPlan.Proofs.FirstRefusal
import QueryPlan.Proofs.Places
import QueryPlan.Proofs.PrunedAlike

/-!
# Pruning only leaves things out

What pruning makes of a plan is the plan, place by place, with columns and CTEs left out.  Where a CTE
is left out of a list, those after it move up, so a place of the plan has another name in the pruned
plan, or none (`Node.newPlace?`).

* `Select.TrimsTo`, `Node.TrimsTo` — what may change at one statement, and at one node.
* `Node.Trimmed` — a plan is what another one is after trimming: its places are the new places of
  that plan, the node at each of them is trimmed, and what was shared is shared.
* `trimmed_of_simulation` — it is enough to relate nodes to nodes, so that what a node reads and keeps
  is related, one by one, to what the other one reads.  Pruning relates a node to what has been built
  for it.
-/

namespace QueryPlan

/-! ## Places after CTEs have been left out -/

namespace Node

/-- What a node reads at an index it reads at this one after CTEs have been left out of its list.
Sources stay where they are. -/
def newIndex? (keeps : Cte Node → Bool) : Node → Nat → Option Nat
  | .select s, i =>
      if i < s.sourceNodes.length then some i
      else if s.ctes[i - s.sourceNodes.length]?.any keeps then
        some (s.sourceNodes.length + (s.ctes.take (i - s.sourceNodes.length)).countP keeps)
      else none
  | _, i => some i

/-- The place that a place of a plan becomes when CTEs are left out of all lists. -/
def newPlace? (keeps : Cte Node → Bool) : Node → List Nat → Option (List Nat)
  | _, [] => some []
  | n, i :: place => do
      let m ← n.parents[i]?
      return (← n.newIndex? keeps i) :: (← m.newPlace? keeps place)

variable {r : Rebuilder} {n m : Node} {i j : Nat}

theorem newPlace?_cons_eq_some_iff {keeps : Cte Node → Bool} {p p' : List Nat} :
    n.newPlace? keeps (i :: p) = some p' ↔ ∃ m j p₁, n.parents[i]? = some m ∧
      n.newIndex? keeps i = some j ∧ m.newPlace? keeps p = some p₁ ∧ p' = j :: p₁ := by
  simp only [newPlace?, Option.bind_eq_bind, Option.bind_eq_some_iff, Option.pure_def,
    Option.some.injEq, eq_comm (a := p')]
  constructor
  · rintro ⟨m, hm, j, hj, p₁, hp₁, rfl⟩
    exact ⟨m, j, p₁, hm, hj, hp₁, rfl⟩
  · rintro ⟨m, j, p₁, hm, hj, hp₁, rfl⟩
    exact ⟨m, hm, j, hj, p₁, hp₁, rfl⟩

theorem getElem?_reads_of_newIndex? (hm : n.parents[i]? = some m)
    (h : n.newIndex? r.keeps i = some j) : (r.reads n)[j]? = some m := by
  cases n with
  | select s =>
      rw [Select.parents_select] at hm
      rw [r.reads_select]
      rw [newIndex?] at h
      split at h
      case isTrue hlt =>
        obtain rfl : i = j := by simpa using h
        rw [List.getElem?_append_left hlt] at hm
        rwa [List.getElem?_append_left hlt]
      case isFalse hge =>
        rw [List.getElem?_append_right (Nat.le_of_not_lt hge), List.getElem?_map,
          Option.map_eq_some_iff] at hm
        obtain ⟨c, hc, rfl⟩ := hm
        split at h
        case isTrue hkeeps =>
          obtain rfl := Option.some.inj h
          rw [hc] at hkeeps
          rw [List.getElem?_append_right (Nat.le_add_right _ _), Nat.add_sub_cancel_left,
            List.getElem?_map, getElem?_filter_countP hc (by simpa using hkeeps), Option.map_some]
        case isFalse => cases h
  | table | text | cte | createTable =>
      obtain rfl : i = j := Option.some.inj h
      exact hm

theorem exists_newIndex?_of_getElem?_reads (h : (r.reads n)[j]? = some m) :
    ∃ i, n.parents[i]? = some m ∧ n.newIndex? r.keeps i = some j := by
  cases n with
  | select s =>
      rw [r.reads_select] at h
      rw [Select.parents_select]
      by_cases hlt : j < s.sourceNodes.length
      · rw [List.getElem?_append_left hlt] at h
        refine ⟨j, ?_, ?_⟩
        · rwa [List.getElem?_append_left hlt]
        · rw [newIndex?, if_pos hlt]
      · have hle := Nat.le_of_not_lt hlt
        rw [List.getElem?_append_right hle, List.getElem?_map, Option.map_eq_some_iff] at h
        obtain ⟨c, hc, rfl⟩ := h
        obtain ⟨k, hk, hkeeps, hcount⟩ := exists_countP_of_getElem?_filter hc
        refine ⟨s.sourceNodes.length + k, ?_, ?_⟩
        · rw [List.getElem?_append_right (Nat.le_add_right _ _), Nat.add_sub_cancel_left,
            List.getElem?_map, hk, Option.map_some]
        · rw [newIndex?, if_neg (Nat.not_lt.2 (Nat.le_add_right _ _)), Nat.add_sub_cancel_left, hk,
            Option.any_some, if_pos hkeeps, hcount, Nat.add_sub_cancel' hle]
  | table | text | cte | createTable => exact ⟨j, h, rfl⟩

/-! ## What may change -/

end Node

/-- A statement is another one with columns and CTEs left out: those columns stay that are grouped by,
and all of them where repetitions are dropped.  Its identity and what it reads are new. -/
structure Select.TrimsTo (keeps : Cte Node → Bool) (s s' : Statement) : Prop where
  columns : s'.columns.Sublist s.columns
  grouped : (s.columns.filter fun c => c.name ∈ s.groupNames).Sublist s'.columns
  distinct : s.distinct = true → s'.columns = s.columns
  joins : List.Forall₂ (fun j j' : Join Node => j' = { j with source := j'.source }) s.joins s'.joins
  ctes : s'.ctes.map Cte.name = (s.ctes.filter keeps).map Cte.name
  clauses : s' = { s with
    id := s'.id, columns := s'.columns, source := s'.source, joins := s'.joins, ctes := s'.ctes }

namespace Node

/-- A node is another one of the same kind and name, or the same table or text. -/
def TrimsTo (keeps : Cte Node → Bool) : Node → Node → Prop
  | .select s, n' => ∃ s', n' = .select s' ∧ s.TrimsTo keeps s'
  | .cte c, n' => ∃ id body, n' = .cte { c with id, body }
  | .createTable _ t _, n' => ∃ id query, n' = .createTable id t query
  | n, n' => n' = n

/-- A plan is another one with columns and CTEs left out. -/
structure Trimmed (keeps : Cte Node → Bool) (plan q : Node) : Prop where
  /-- What is left at a place is trimmed. -/
  trims : ∀ p p', plan.newPlace? keeps p = some p' →
    ∃ m m', plan.nodeAt? p = some m ∧ q.nodeAt? p' = some m' ∧ m.TrimsTo keeps m'
  /-- There is nothing else. -/
  covers : ∀ p' m', q.nodeAt? p' = some m' → ∃ p, plan.newPlace? keeps p = some p'
  /-- Places that held one node hold one node. -/
  shares : ∀ p₁ p₂ p₁' p₂', plan.newPlace? keeps p₁ = some p₁' → plan.newPlace? keeps p₂ = some p₂' →
    plan.SharesAt p₁ p₂ → ∃ m', q.nodeAt? p₁' = some m' ∧ q.nodeAt? p₂' = some m'

section Simulation

variable {r : Rebuilder} {R : Node → Node → Prop}
  (hreads : ∀ {n n' : Node}, R n n' → List.Forall₂ R (r.reads n) n'.parents)

include hreads

/-- A relation that passes on to what is read and kept holds at every place that is left. -/
theorem exists_rel_of_newPlace? {n n' : Node} (h : R n n') {p p' : List Nat}
    (hp : n.newPlace? r.keeps p = some p') :
    ∃ m m', n.nodeAt? p = some m ∧ n'.nodeAt? p' = some m' ∧ R m m' := by
  induction p generalizing n n' p' with
  | nil =>
      obtain rfl := Option.some.inj hp
      exact ⟨n, n', rfl, rfl, h⟩
  | cons i p ih =>
      obtain ⟨m, j, p₁, hm, hj, hp₁, rfl⟩ := newPlace?_cons_eq_some_iff.1 hp
      obtain ⟨m', hm', hR⟩ :=
        exists_getElem?_of_forall₂ (hreads h).flip (getElem?_reads_of_newIndex? hm hj)
      obtain ⟨l, l', hl, hl', hend⟩ := ih hR hp₁
      exact ⟨l, l', by rw [nodeAt?, hm, Option.bind_some, hl],
        by rw [nodeAt?, hm', Option.bind_some, hl'], hend⟩

/-- Under such a relation there are no places but those that are left. -/
theorem exists_newPlace?_of_nodeAt? {n n' : Node} (h : R n n') {p' : List Nat} {m' : Node}
    (hp' : n'.nodeAt? p' = some m') : ∃ p, n.newPlace? r.keeps p = some p' := by
  induction p' generalizing n n' with
  | nil => exact ⟨[], rfl⟩
  | cons j p' ih =>
      obtain ⟨l', hl', hm'⟩ := Option.bind_eq_some_iff.1 hp'
      obtain ⟨l, hl, hR⟩ := exists_getElem?_of_forall₂ (hreads h) hl'
      obtain ⟨i, hi, hj⟩ := exists_newIndex?_of_getElem?_reads hl
      obtain ⟨p, hp⟩ := ih hR hm'
      exact ⟨i :: p, newPlace?_cons_eq_some_iff.2 ⟨l, j, p', hi, hj, hp, rfl⟩⟩

/-- **Trimming by simulation.**  A plan is trimmed to another one if a relation between their nodes
passes on to what is read and kept, trims, and gives one node for one identity. -/
theorem trimmed_of_simulation {plan q : Node} (hroot : R plan q)
    (htrims : ∀ {n n' : Node}, R n n' → n.TrimsTo r.keeps n')
    (hone : ∀ {n₁ n₂ n₁' n₂' : Node}, R n₁ n₁' → R n₂ n₂' → n₁.id = n₂.id → n₁' = n₂') :
    plan.Trimmed r.keeps q where
  trims p p' hp := by
    obtain ⟨m, m', hm, hm', hR⟩ := exists_rel_of_newPlace? hreads hroot hp
    exact ⟨m, m', hm, hm', htrims hR⟩
  covers p' m' hp' := exists_newPlace?_of_nodeAt? hreads hroot hp'
  shares p₁ p₂ p₁' p₂' hp₁ hp₂ hshares := by
    obtain ⟨m₁, m₁', hm₁, hm₁', hR₁⟩ := exists_rel_of_newPlace? hreads hroot hp₁
    obtain ⟨m₂, m₂', hm₂, hm₂', hR₂⟩ := exists_rel_of_newPlace? hreads hroot hp₂
    obtain ⟨n₁, n₂, hn₁, hn₂, hid⟩ := hshares
    obtain rfl := Option.some.inj (hm₁.symm.trans hn₁)
    obtain rfl := Option.some.inj (hm₂.symm.trans hn₂)
    obtain rfl := hone hR₁ hR₂ hid
    exact ⟨m₁', hm₁', hm₂'⟩

/-- If the relation tells identities apart, then nothing is shared but what was. -/
theorem sharesAt_of_simulation {plan q : Node} (hroot : R plan q)
    (hapart : ∀ {n₁ n₂ n₁' n₂' : Node}, R n₁ n₁' → R n₂ n₂' → n₁'.id = n₂'.id → n₁.id = n₂.id)
    {p₁ p₂ p₁' p₂' : List Nat} (hp₁ : plan.newPlace? r.keeps p₁ = some p₁')
    (hp₂ : plan.newPlace? r.keeps p₂ = some p₂') (hshares : q.SharesAt p₁' p₂') :
    plan.SharesAt p₁ p₂ := by
  obtain ⟨m₁, m₁', hm₁, hm₁', hR₁⟩ := exists_rel_of_newPlace? hreads hroot hp₁
  obtain ⟨m₂, m₂', hm₂, hm₂', hR₂⟩ := exists_rel_of_newPlace? hreads hroot hp₂
  obtain ⟨n₁', n₂', hn₁', hn₂', hid⟩ := hshares
  obtain rfl := Option.some.inj (hm₁'.symm.trans hn₁')
  obtain rfl := Option.some.inj (hm₂'.symm.trans hn₂')
  exact ⟨m₁, m₂, hm₁, hm₂, hapart hR₁ hR₂ hid⟩

end Simulation

end Node

/-! ## Pruning -/

namespace Propagation.Finished

variable {plan root : Node} {p : Propagation} (h : Finished plan root p)

include h

/-- A statement that drops repetitions keeps its columns. -/
theorem kept_of_distinct {s : Statement} (hs : .select s ∈ plan.subnodes)
    (hentry : p.required.contains s.id = true) (hdistinct : s.distinct = true) :
    Pruning.kept (p.required.names s.id) s = s.columns := by
  rcases h.consistent.exists_serves hs (h.isSettled hs hentry) with ⟨set, hset, hserves⟩
  rw [h.kept_eq_filter hs hentry, List.filter_eq_self]
  intro c hc
  rw [Std.TreeSet.contains_iff_mem]
  have hforced : c.name ∈ s.forcedNames :=
    Select.mem_forcedNames.2 (.inr ⟨List.mem_map_of_mem hc, .inl hdistinct⟩)
  exact (hset c.name).1 (hserves.1 _ hforced)

/-- What has been built for a statement is trimmed. -/
theorem trimsTo_of_prepares {done : Std.TreeMap NodeId Node}
    (hsound : (Pruning.rebuilder p.required).Sound plan done) {s s' : Statement}
    (hs : .select s ∈ plan.subnodes)
    (hprepares : (Pruning.rebuilder p.required).Prepares done s s') :
    s.TrimsTo (Pruning.rebuilder p.required).keeps s' := by
  obtain ⟨hentry, -, hkept⟩ := Pruning.columns_eq_ok_iff.1 hprepares.columns
  refine ⟨?_, ?_, ?_, ?_, ?_, hprepares.clauses⟩
  · rw [hkept]
    exact List.filter_sublist
  · rw [hkept]
    refine List.monotone_filter_right _ ?_
    intro c hc
    simp only [decide_eq_true_eq] at hc
    simp [hc]
  · intro hdistinct
    rw [hkept, h.kept_of_distinct hs hentry hdistinct]
  · refine hprepares.joins.imp ?_
    rintro j j' ⟨source, -, rfl⟩
    rfl
  · refine map_eq_of_forall₂ hprepares.ctes ?_
    intro c hc c' hc'
    have hmem : .cte c ∈ plan.subnodes := by
      refine Node.mem_subnodes_of_parent ?_ hs
      simp [Node.parents, List.mem_of_mem_filter hc]
    obtain ⟨id, body, -, heq⟩ := hsound (.cte c) hmem _ hc'
    rw [Node.cte.inj heq]

theorem trimsTo_of_forms {done : Std.TreeMap NodeId Node}
    (hsound : (Pruning.rebuilder p.required).Sound plan done) {n n' : Node}
    (hn : n ∈ plan.subnodes) (hforms : (Pruning.rebuilder p.required).Forms done n n') :
    n.TrimsTo (Pruning.rebuilder p.required).keeps n' := by
  cases n with
  | table | text => exact hforms
  | select s =>
      obtain ⟨s', hprepares, rfl⟩ := hforms.exists_prepares
      exact ⟨s', rfl, h.trimsTo_of_prepares hsound hn hprepares⟩
  | cte c =>
      obtain ⟨id, body, -, rfl⟩ := hforms
      exact ⟨id, body, rfl⟩
  | createTable id t query =>
      obtain ⟨id', query', -, rfl⟩ := hforms
      exact ⟨id', query', rfl⟩

end Propagation.Finished

theorem Select.TrimsTo.refl (s : Statement) : s.TrimsTo (fun _ => true) s where
  columns := .refl _
  grouped := List.filter_sublist
  distinct _ := rfl
  joins := List.forall₂_same.2 fun _ _ => rfl
  ctes := by rw [List.filter_true]
  clauses := rfl

theorem Node.TrimsTo.refl (n : Node) : n.TrimsTo (fun _ => true) n := by
  cases n with
  | table | text => rfl
  | select s => exact ⟨s, rfl, .refl s⟩
  | cte c => exact ⟨c.id, c.body, rfl⟩
  | createTable id t query => exact ⟨id, query, rfl⟩

/-- **Pruning only leaves things out.**  If identities tell the nodes of a plan apart, then what
pruning returns is the plan with columns and CTEs left out of its statements.  If the first free
identity is free, then nothing is shared in the end that was not shared before. -/
theorem prune_only_deletes {plan q : Node} {next last : NodeId} (hids : plan.IdsIdentify)
    (h : plan.prune next = .ok (q, last)) :
    ∃ keeps, plan.Trimmed keeps q ∧
      (plan.IdsBelow next → ∀ p₁ p₂ p₁' p₂', plan.newPlace? keeps p₁ = some p₁' →
        plan.newPlace? keeps p₂ = some p₂' → q.SharesAt p₁' p₂' → plan.SharesAt p₁ p₂) := by
  have hroot := Node.mem_subnodes_self plan
  rcases Node.prune_eq_ok_iff.1 h with ⟨-, rfl, -⟩ | ⟨required, b, hfound, hrun, -⟩
  · -- Every node stands for itself.
    have hreads : ∀ {n n' : Node}, n ∈ q.subnodes ∧ n' = n →
        List.Forall₂ (fun m m' => m ∈ q.subnodes ∧ m' = m) (({} : Rebuilder).reads n) n'.parents := by
      rintro _ n ⟨hn, rfl⟩
      have hparents : ({} : Rebuilder).reads n = n.parents := by
        cases n with
        | select s => rw [Rebuilder.reads_select, List.filter_true, Select.parents_select]
        | table | text | cte | createTable => rfl
      rw [hparents]
      exact List.forall₂_same.2 fun m hm => ⟨Node.mem_subnodes_of_parent hm hn, rfl⟩
    refine ⟨_, Node.trimmed_of_simulation hreads ⟨hroot, rfl⟩ ?_ ?_, ?_⟩
    · rintro _ n ⟨-, rfl⟩
      exact .refl n
    · rintro n₁ n₂ _ _ ⟨hn₁, rfl⟩ ⟨hn₂, rfl⟩ hid
      exact hids _ hn₁ _ hn₂ hid
    · intro _ p₁ p₂ p₁' p₂' hp₁ hp₂
      refine Node.sharesAt_of_simulation hreads ⟨hroot, rfl⟩ ?_ hp₁ hp₂
      rintro n₁ n₂ _ _ ⟨-, rfl⟩ ⟨-, rfl⟩ hid
      exact hid
  · -- A node stands for what has been built for it.
    obtain ⟨p, rfl, hp⟩ := Requirements.exists_finished hids hroot hfound
    obtain ⟨hsound, hdone⟩ := Node.sound_of_run hids hrun
    have hreads : ∀ {n n' : Node}, n ∈ plan.subnodes ∧ b.done[n.id]? = some n' →
        List.Forall₂ (fun m m' => m ∈ plan.subnodes ∧ b.done[m.id]? = some m')
          ((Pruning.rebuilder p.required).reads n) n'.parents := by
      rintro n n' ⟨hn, hn'⟩
      rw [List.forall₂_and_left]
      refine ⟨?_, (hsound n hn n' hn').reads_match fun _ => rfl⟩
      intro m hm
      exact Node.mem_subnodes_of_parent (Rebuilder.mem_parents_of_mem_reads hm) hn
    refine ⟨_, Node.trimmed_of_simulation hreads ⟨hroot, hdone⟩ ?_ ?_, ?_⟩
    · rintro n n' ⟨hn, hn'⟩
      exact hp.trimsTo_of_forms hsound hn (hsound n hn n' hn')
    · rintro n₁ n₂ n₁' n₂' ⟨-, hn₁⟩ ⟨-, hn₂⟩ hid
      exact Option.some.inj (hn₁.symm.trans (hid ▸ hn₂))
    · intro hbelow p₁ p₂ p₁' p₂' hp₁ hp₂
      have hapart := Node.rebuild_preserves (Build.steady_apart hbelow)
        (Rebuilder.isLocal_of_finish_eq_id rfl) plan hroot hrun Build.apart_start
      refine Node.sharesAt_of_simulation hreads ⟨hroot, hdone⟩ ?_ hp₁ hp₂
      rintro n₁ n₂ n₁' n₂' ⟨-, hn₁⟩ ⟨-, hn₂⟩ hid
      exact hapart.apart hn₁ hn₂ hid

/-- Of the two CTEs in the list the first is left out, and the second, which is the source too, loses a
column at both places. -/
theorem prune_only_deletes_readingCountedKeys :
    ∃ q last, (Node.select .readingCountedKeys).prune 6 = .ok (q, last) ∧
      q.shownColumns = [["n"], ["k", "n"], ["k", "n"]] ∧
      ∃ keeps, (Node.select .readingCountedKeys).Trimmed keeps q := by
  have hruns : ((Node.select .readingCountedKeys).prune 6).toOption.map (·.1.shownColumns) =
      some [["n"], ["k", "n"], ["k", "n"]] := by
    decide +kernel
  rcases exists_ok_of_toOption_map hruns with ⟨⟨q, last⟩, hout, hcolumns⟩
  obtain ⟨keeps, htrimmed, -⟩ := prune_only_deletes idsIdentify_readingCountedKeys hout
  exact ⟨q, last, hout, hcolumns, keeps, htrimmed⟩

end QueryPlan
