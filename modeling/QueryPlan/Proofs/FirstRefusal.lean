import QueryPlan.Proofs.Identities
import QueryPlan.Proofs.Pruning

/-!
# Where pruning fails

A pass builds each node once and turns back where it has been before.  The specification here does
not remember anything: `Node.lookedAt` lists the nodes that a pass looks at, each one as often as it
is read, a statement before its source, its joins and its CTEs.  A run fails with the error of the
first statement in this list that the pass refuses (`rebuild_fails_first`), because a part of the plan
that has been built before holds no such statement (`Sound.firstRefusal?_eq_none`).

For pruning with given requirements, `pruneWith_first_refusal` says which statements these are: those
without an entry, and those of which no column is required or grouped by.
-/

namespace QueryPlan

/-! ## The order in which a pass looks at nodes -/

namespace Node

mutual
/-- A node and what a pass looks at below it, in order, if of the CTEs in lists it keeps these. -/
def lookedAt (keeps : Cte Node → Bool) : Node → List Node
  | n@(.table ..) | n@(.text ..) => [n]
  | n@(.select s) => n :: (s.source.lookedAt keeps ++
      (lookedAtInJoins keeps s.joins ++ lookedAtInCtes keeps s.ctes))
  | n@(.cte c) => n :: c.body.lookedAt keeps
  | n@(.createTable _ _ query) => n :: query.lookedAt keeps

/-- `lookedAt` for the sources of joins. -/
def lookedAtInJoins (keeps : Cte Node → Bool) : List (Join Node) → List Node
  | [] => []
  | j :: js => j.source.lookedAt keeps ++ lookedAtInJoins keeps js

/-- `lookedAt` for the CTEs that are kept. -/
def lookedAtInCtes (keeps : Cte Node → Bool) : List (Cte Node) → List Node
  | [] => []
  | c :: cs =>
      if keeps c then .cte c :: (c.body.lookedAt keeps ++ lookedAtInCtes keeps cs)
      else lookedAtInCtes keeps cs
end

variable {keeps : Cte Node → Bool}

theorem lookedAtInJoins_eq (js : List (Join Node)) :
    lookedAtInJoins keeps js = (js.map Join.source).flatMap (lookedAt keeps) := by
  induction js with
  | nil => rfl
  | cons j js ih => rw [lookedAtInJoins, ih, List.map_cons, List.flatMap_cons]

theorem lookedAtInCtes_eq (cs : List (Cte Node)) :
    lookedAtInCtes keeps cs = ((cs.filter keeps).map Node.cte).flatMap (lookedAt keeps) := by
  induction cs with
  | nil => rfl
  | cons c cs ih =>
      rw [lookedAtInCtes]
      split
      case isTrue hkeeps =>
        rw [List.filter_cons_of_pos hkeeps, List.map_cons, List.flatMap_cons, lookedAt, ih,
          List.cons_append]
      case isFalse hkeeps => rw [List.filter_cons_of_neg hkeeps, ih]

end Node

namespace Rebuilder

variable {r : Rebuilder}

theorem lookedAt_eq (n : Node) :
    n.lookedAt r.keeps = n :: (r.reads n).flatMap (Node.lookedAt r.keeps) := by
  cases n with
  | table | text => rfl
  | select s =>
      simp only [Node.lookedAt, reads, Node.lookedAtInJoins_eq, Node.lookedAtInCtes_eq,
        List.flatMap_cons, List.flatMap_append]
  | cte | createTable =>
      simp only [Node.lookedAt, reads, Node.parents, List.flatMap_cons, List.flatMap_nil,
        List.append_nil]

/-- The list holds the nodes that the pass reaches. -/
theorem mem_lookedAt_iff {n m : Node} : m ∈ n.lookedAt r.keeps ↔ r.Reaches n m := by
  constructor
  · intro hm
    induction n using Node.induct_parents with
    | h n ih =>
        rw [lookedAt_eq, List.mem_cons, List.mem_flatMap] at hm
        rcases hm with rfl | ⟨p, hp, hm⟩
        · exact .refl m
        · exact .step hp (ih p (mem_parents_of_mem_reads hp) hm)
  · intro h
    induction h with
    | refl n =>
        rw [lookedAt_eq]
        exact List.mem_cons_self
    | step hp _ ih =>
        rw [lookedAt_eq]
        exact List.mem_cons_of_mem _ (List.mem_flatMap.2 ⟨_, hp, ih⟩)

/-! ## A run fails at the first refusal -/

/-- The error with which a pass refuses a node. -/
def refusal? (r : Rebuilder) : Node → Option Error
  | .select s =>
      match r.columns s with
      | .ok _ => none
      | .error e => some e
  | _ => none

theorem refusal?_eq_some_iff {n : Node} {e : Error} :
    r.refusal? n = some e ↔ ∃ s, n = .select s ∧ r.columns s = .error e := by
  cases n with
  | select s => cases hcolumns : r.columns s <;> simp [refusal?, hcolumns]
  | table | text | cte | createTable => simp [refusal?]

theorem refusal?_select_eq_none_iff {s : Statement} :
    r.refusal? (.select s) = none ↔ ∃ columns, r.columns s = .ok columns := by
  cases hcolumns : r.columns s <;> simp [refusal?, hcolumns]

/-- The error of the first node that a pass refuses. -/
def firstRefusal? (r : Rebuilder) (n : Node) : Option Error :=
  (n.lookedAt r.keeps).findSome? r.refusal?

theorem firstRefusal?_eq (n : Node) :
    r.firstRefusal? n = (r.refusal? n).or ((r.reads n).findSome? r.firstRefusal?) := by
  have hall : ∀ ns : List Node, (ns.flatMap (Node.lookedAt r.keeps)).findSome? r.refusal? =
      ns.findSome? r.firstRefusal? := by
    intro ns
    induction ns with
    | nil => rfl
    | cons n ns ih =>
        rw [List.flatMap_cons, List.findSome?_append, ih, List.findSome?_cons, firstRefusal?]
        cases (n.lookedAt r.keeps).findSome? r.refusal? <;> rfl
  rw [firstRefusal?, lookedAt_eq, List.findSome?_cons, hall]
  cases r.refusal? n <;> rfl

/-- Where something has been built, the pass refuses nothing. -/
theorem Sound.firstRefusal?_eq_none {plan n n' : Node} {done : Std.TreeMap NodeId Node}
    (hsound : r.Sound plan done) (hn : n ∈ plan.subnodes) (hdone : done[n.id]? = some n') :
    r.firstRefusal? n = none := by
  refine List.findSome?_eq_none_iff.2 ?_
  intro m hm
  have hreach := mem_lookedAt_iff.1 hm
  cases m with
  | table | text | cte | createTable => rfl
  | select s =>
      rcases hsound.exists_done_of_reaches hn ⟨n', hdone⟩ hreach with ⟨s', hs'⟩
      have hmem := Node.mem_subnodes_trans hreach.mem_subnodes hn
      rcases hsound (.select s) hmem s' hs' with ⟨_, columns, _, _, _, hcolumns, -⟩
      exact refusal?_select_eq_none_iff.2 ⟨columns, hcolumns⟩

/-- Where the sources of joins have been built, neither does it there. -/
theorem Sound.findSome?_joins_eq_none {plan : Node} {done : Std.TreeMap NodeId Node}
    (hsound : r.Sound plan done) {js js' : List (Join Node)}
    (hjs : ∀ j ∈ js, j.source ∈ plan.subnodes) (hforms : List.Forall₂ (FormsJoin done) js js') :
    (js.map Join.source).findSome? r.firstRefusal? = none := by
  refine List.findSome?_eq_none_iff.2 ?_
  intro m hm
  obtain ⟨j, hj, rfl⟩ := List.mem_map.1 hm
  obtain ⟨_, -, source', hsource', -⟩ := exists_right_of_forall₂ hforms j hj
  exact hsound.firstRefusal?_eq_none (hjs j hj) hsource'

end Rebuilder

namespace Node

open Rebuilder

variable {r : Rebuilder} {plan : Node}

/-- What a run guarantees that does not build a node. -/
def FailsFirst (r : Rebuilder) (plan n : Node) : Prop :=
  ∀ (b : Build) (e : Error), r.Sound plan b.done → (n.rebuild r).run b = .error e →
    r.firstRefusal? n = some e

theorem rebuildJoins_fails_first (hids : plan.IdsIdentify) {js : List (Join Node)}
    (hjs : ∀ j ∈ js, j.source ∈ plan.subnodes ∧ FailsFirst r plan j.source) {b : Build} {e : Error}
    (hb : r.Sound plan b.done) (h : (rebuildJoins r js).run b = .error e) :
    (js.map Join.source).findSome? r.firstRefusal? = some e := by
  induction js generalizing b with
  | nil => cases h
  | cons j js ih =>
      obtain ⟨hj, hfails⟩ := hjs j List.mem_cons_self
      rw [rebuildJoins, Build.run_bind_eq_error] at h
      rw [List.map_cons, List.findSome?_cons]
      rcases h with h | ⟨source, b₁, hsource, h⟩
      · rw [hfails b e hb h]
      · obtain ⟨hb₁, -, hdone⟩ := rebuild_sound hids _ hj b b₁ source hb hsource
        rw [hb₁.firstRefusal?_eq_none hj hdone]
        rcases Build.run_bind_eq_error.1 h with h | ⟨_, _, -, h⟩
        · exact ih (fun k hk => hjs k (List.mem_cons_of_mem _ hk)) hb₁ h
        · cases h

theorem cteOnce_fails_first {c : Cte Node} (hbody : FailsFirst r plan c.body) {b : Build} {e : Error}
    (hb : r.Sound plan b.done) (h : (Build.cteOnce c (c.body.rebuild r)).run b = .error e) :
    r.firstRefusal? (.cte c) = some e := by
  rw [firstRefusal?_eq]
  simp [refusal?, reads, parents, hbody b e hb (cteOnce_error h)]

theorem rebuildCtes_fails_first (hids : plan.IdsIdentify) {cs : List (Cte Node)}
    (hcs : ∀ c ∈ cs, .cte c ∈ plan.subnodes ∧ FailsFirst r plan c.body) {b : Build} {e : Error}
    (hb : r.Sound plan b.done) (h : (rebuildCtes r cs).run b = .error e) :
    ((cs.filter r.keeps).map Node.cte).findSome? r.firstRefusal? = some e := by
  induction cs generalizing b with
  | nil => cases h
  | cons c cs ih =>
      have hrest : ∀ d ∈ cs, .cte d ∈ plan.subnodes ∧ FailsFirst r plan d.body :=
        fun d hd => hcs d (List.mem_cons_of_mem _ hd)
      rw [rebuildCtes] at h
      split at h
      case isTrue hkeeps =>
        obtain ⟨hc, hbody⟩ := hcs c List.mem_cons_self
        rw [List.filter_cons_of_pos hkeeps, List.map_cons, List.findSome?_cons]
        rcases Build.run_bind_eq_error.1 h with h | ⟨c', b₁, hcte, h⟩
        · rw [cteOnce_fails_first hbody hb h]
        · obtain ⟨hb₁, -, hdone⟩ :=
            cteOnce_sound hids hc (rebuild_sound hids _ (body_mem_subnodes hc)) hb hcte
          rw [hb₁.firstRefusal?_eq_none hc hdone]
          rcases Build.run_bind_eq_error.1 h with h | ⟨_, _, -, h⟩
          · exact ih hrest hb₁ h
          · cases h
      case isFalse hkeeps =>
        rw [List.filter_cons_of_neg hkeeps]
        exact ih hrest hb h

/-- **A run fails at the first refusal.** -/
theorem rebuild_fails_first (hids : plan.IdsIdentify) (n : Node) (hn : n ∈ plan.subnodes) :
    FailsFirst r plan n := by
  induction n using induct_below with
  | h n ih =>
      intro b e hb h
      have hparent : ∀ m ∈ n.parents, m ∈ plan.subnodes ∧ FailsFirst r plan m := by
        intro m hm
        have hmem := mem_subnodes_of_parent hm hn
        exact ⟨hmem, ih m hm m (mem_subnodes_self m) hmem⟩
      rw [firstRefusal?_eq]
      cases n with
      | table id t | text id t =>
          have hrun := once_error h
          cases hrun
      | select s =>
          have hrun := once_error h
          simp only [Build.run_bind_eq_error, Build.run_liftExcept_eq_error,
            Build.run_liftExcept_eq_ok] at hrun
          rw [reads, List.findSome?_cons, List.findSome?_append]
          rcases hrun with hcolumns | ⟨columns, _, ⟨hcolumns, rfl⟩, hrun⟩
          · rw [refusal?_eq_some_iff.2 ⟨s, rfl, hcolumns⟩, Option.some_or]
          rw [refusal?_select_eq_none_iff.2 ⟨columns, hcolumns⟩, Option.none_or]
          obtain ⟨hmem, hfails⟩ := hparent s.source (by simp [parents])
          rcases hrun with hsource | ⟨source, b₁, hsource, hrun⟩
          · rw [hfails b e hb hsource]
          obtain ⟨hb₁, -, hdone⟩ := rebuild_sound hids _ hmem _ _ _ hb hsource
          rw [hb₁.firstRefusal?_eq_none hmem hdone]
          have hjoins : ∀ j ∈ s.joins, j.source ∈ plan.subnodes ∧ FailsFirst r plan j.source :=
            fun j hj => hparent j.source (by simp [parents, List.mem_map_of_mem hj])
          rcases hrun with hrun | ⟨joins, b₂, hrun', hrun⟩
          · rw [rebuildJoins_fails_first hids hjoins hb₁ hrun, Option.some_or]
          have hctes : ∀ c ∈ s.ctes, .cte c ∈ plan.subnodes ∧ FailsFirst r plan c.body := by
            intro c hc
            have hp : .cte c ∈ (Node.select s).parents := by simp [parents, hc]
            exact ⟨(hparent _ hp).1, ih _ hp _ (mem_subnodes_of_mem_parents (by simp [parents]))
              (body_mem_subnodes (hparent _ hp).1)⟩
          obtain ⟨hb₂, -, hforms⟩ :=
            rebuildJoins_sound (fun j hj => rebuild_sound hids _ (hjoins j hj).1) hb₁ hrun'
          rw [hb₂.findSome?_joins_eq_none (fun j hj => (hjoins j hj).1) hforms, Option.none_or]
          rcases hrun with hrun | ⟨_, b₃, -, hfresh | ⟨_, _, -, hend⟩⟩
          · exact rebuildCtes_fails_first hids hctes hb₂ hrun
          · cases hfresh
          · cases hend
      | cte c =>
          have hrun := once_error h
          rw [← firstRefusal?_eq]
          rcases Build.run_bind_eq_error.1 hrun with hcte | ⟨_, _, -, hend⟩
          · exact cteOnce_fails_first (hparent c.body (by simp [parents])).2 hb hcte
          · cases hend
      | createTable id t query =>
          have hrun := once_error h
          obtain ⟨-, hfails⟩ := hparent query (by simp [parents])
          rcases Build.run_bind_eq_error.1 hrun with hquery | ⟨_, _, -, hend⟩
          · simp [refusal?, reads, parents, hfails b e hb hquery]
          · rcases Build.run_bind_eq_error.1 hend with hfresh | ⟨_, _, -, hend⟩
            · cases hfresh
            · cases hend

/-- A run on a whole plan goes through if the pass refuses nothing, and otherwise fails with the
error of the first refusal. -/
theorem rebuilt_eq_error_iff {n : Node} (hids : n.IdsIdentify) {next : NodeId} {e : Error} :
    n.rebuilt r next = .error e ↔ r.firstRefusal? n = some e := by
  have hempty : r.Sound n ({ next } : Build).done := by
    intro m _ m' hm'
    simp at hm'
  unfold rebuilt
  cases hrun : (n.rebuild r).run { next } with
  | error e' =>
      rw [rebuild_fails_first hids n (mem_subnodes_self n) _ _ hempty hrun]
      simp [bind, Except.bind]
  | ok out =>
      obtain ⟨n', b⟩ := out
      obtain ⟨hsound, hdone⟩ := sound_of_run hids hrun
      rw [hsound.firstRefusal?_eq_none (mem_subnodes_self n) hdone]
      simp [bind, Except.bind, pure, Except.pure]

end Node

/-! ## Pruning with given requirements -/

namespace Requirements

/-- The nodes that pruning looks at, in order.  A CTE in a list is looked at if something is required
of it; a CTE that is a source always is. -/
def lookedAt (required : Requirements) (plan : Node) : List Node :=
  plan.lookedAt fun c => required.requires c.id

/-- A statement has an entry, and a column that is required of it or grouped by. -/
def LeavesColumn (required : Requirements) (s : Statement) : Prop :=
  required.contains s.id = true ∧
    ∃ c ∈ s.columns, c.name ∈ required.names s.id ∨ c.name ∈ s.groupNames

instance (required : Requirements) (s : Statement) : Decidable (required.LeavesColumn s) :=
  inferInstanceAs (Decidable (_ ∧ _))

end Requirements

namespace Pruning

variable {required : Requirements} {s : Statement}

theorem leavesColumn_iff_kept : required.LeavesColumn s ↔
    required.contains s.id = true ∧ kept (required.names s.id) s ≠ [] := by
  refine and_congr_right fun _ => ?_
  simp only [ne_eq, List.eq_nil_iff_forall_not_mem, mem_kept, not_forall, not_not]

theorem leavesColumn_iff_columns :
    required.LeavesColumn s ↔ ∃ columns, Pruning.columns required s = .ok columns := by
  simp only [leavesColumn_iff_kept, columns_eq_ok_iff, exists_and_left, exists_eq, and_true]

/-- A statement is refused with a defect that names it. -/
theorem exists_defect_of_columns {e : Error} (h : Pruning.columns required s = .error e) :
    ∃ d, e = .defect d ∧ d.pass = passName ∧ d.node = s.id := by
  unfold Pruning.columns at h
  split at h
  · cases h
    exact ⟨_, rfl, rfl, rfl⟩
  · split at h
    · cases h
      exact ⟨_, rfl, rfl, rfl⟩
    · cases h

end Pruning

/-- **When pruning fails, and where.**  Pruning with given requirements goes through exactly if every
statement that it looks at has an entry and a column that is required or grouped by.  Otherwise it
fails with a defect that names the first statement without. -/
theorem pruneWith_first_refusal {plan : Node} (hids : plan.IdsIdentify) (required : Requirements)
    (next : NodeId) :
    ((∃ out, plan.pruneWith required next = .ok out) ↔
      ∀ s, .select s ∈ required.lookedAt plan → required.LeavesColumn s) ∧
    ((∃ s, .select s ∈ required.lookedAt plan ∧ ¬ required.LeavesColumn s) →
      ∃ before s after d,
        required.lookedAt plan = before ++ .select s :: after ∧
        (∀ u, .select u ∈ before → required.LeavesColumn u) ∧ ¬ required.LeavesColumn s ∧
        plan.pruneWith required next = .error (.defect d) ∧
        d.pass = Pruning.passName ∧ d.node = s.id) := by
  have hsuccess : (∃ out, plan.pruneWith required next = .ok out) ↔
      ∀ s, .select s ∈ required.lookedAt plan → required.LeavesColumn s := by
    rw [Node.exists_pruneWith_iff hids]
    refine forall_congr' fun s => ?_
    rw [Pruning.leavesColumn_iff_kept]
    exact imp_congr_left Rebuilder.mem_lookedAt_iff.symm
  refine ⟨hsuccess, ?_⟩
  rintro ⟨s, hs, hleaves⟩
  cases hout : plan.pruneWith required next with
  | ok out => exact absurd (hsuccess.1 ⟨out, hout⟩ s hs) hleaves
  | error e =>
      obtain ⟨before, m, after, hsplit, hrefused, hbefore⟩ :=
        List.findSome?_eq_some_iff.1 ((Node.rebuilt_eq_error_iff hids).1 hout)
      obtain ⟨u, rfl, hcolumns⟩ := Rebuilder.refusal?_eq_some_iff.1 hrefused
      obtain ⟨d, rfl, hpass, hnode⟩ := Pruning.exists_defect_of_columns hcolumns
      refine ⟨before, u, after, d, hsplit, ?_, ?_, rfl, hpass, hnode⟩
      · intro v hv
        exact Pruning.leavesColumn_iff_columns.2
          (Rebuilder.refusal?_select_eq_none_iff.1 (hbefore _ hv))
      · intro hu
        obtain ⟨columns, hok⟩ := Pruning.leavesColumn_iff_columns.1 hu
        cases hok.symm.trans hcolumns

/-- `SELECT t.x AS x FROM t t`. -/
def Select.listedRows : Statement :=
  .plain 1 [⟨.column ⟨"t", "x"⟩ true, "x"⟩] (.table 0 ⟨none, "t"⟩) "t"

/-- `SELECT t.k AS k, COUNT(*) AS n, MAX(t.x) AS m FROM t t GROUP BY t.k`. -/
def Select.countedKeys : Statement :=
  { Select.plain 3 [⟨.column ⟨"t", "k"⟩ true, "k"⟩, ⟨.aggregate .count [], "n"⟩,
      ⟨.aggregate .max [.column ⟨"t", "x"⟩ true], "m"⟩] (.table 0 ⟨none, "t"⟩) "t" with
    groupBy := [⟨.column ⟨"t", "k"⟩ true, "k"⟩] }

/-- `WITH p AS (listedRows), q AS (countedKeys) SELECT a.n AS n FROM q a`, where the source is the
second CTE of the list. -/
def Select.readingCountedKeys : Statement :=
  { Select.plain 5 [⟨.column ⟨"a", "n"⟩ true, "n"⟩] (.cte ⟨4, "q", .select .countedKeys⟩) "a" with
    ctes := [⟨2, "p", .select .listedRows⟩, ⟨4, "q", .select .countedKeys⟩] }

theorem idsIdentify_readingCountedKeys : (Node.select .readingCountedKeys).IdsIdentify := by
  have hall : (Node.select .readingCountedKeys).subnodes = [.select .readingCountedKeys,
      .cte ⟨4, "q", .select .countedKeys⟩, .select .countedKeys, .table 0 ⟨none, "t"⟩,
      .cte ⟨2, "p", .select .listedRows⟩, .select .listedRows] ++ [.table 0 ⟨none, "t"⟩,
      .cte ⟨4, "q", .select .countedKeys⟩, .select .countedKeys, .table 0 ⟨none, "t"⟩] := rfl
  exact Node.idsIdentify_of_append hall (by simp) (by decide)

/-- Nothing but a count is required, and the statement that counts has an empty set. -/
def Requirements.ofCount : Requirements :=
  (({} : Requirements).add 5 "n").addAll 3 []

/-- With an empty set the statement that counts keeps its keys.  The first CTE, whose body has no
entry, stops pruning only if something is required of it. -/
theorem pruneWith_first_refusal_readingCountedKeys :
    (∃ out, (Node.select .readingCountedKeys).pruneWith .ofCount 6 = .ok out) ∧
      ∃ d, (Node.select .readingCountedKeys).pruneWith (Requirements.ofCount.add 2 "x") 6 =
        .error (.defect d) ∧ d.node = 1 := by
  have hids := idsIdentify_readingCountedKeys
  refine ⟨(pruneWith_first_refusal hids .ofCount 6).1.2 ?_, ?_⟩
  · have hall : ∀ s ∈ (Requirements.ofCount.lookedAt (.select .readingCountedKeys)).filterMap
        Node.select?, Requirements.ofCount.LeavesColumn s := by
      decide +kernel
    intro s hs
    exact hall s (List.mem_filterMap.2 ⟨_, hs, rfl⟩)
  · have hcte : .cte ⟨2, "p", .select .listedRows⟩ ∈
        (Pruning.rebuilder (Requirements.ofCount.add 2 "x")).reads (.select .readingCountedKeys) :=
      Rebuilder.mem_reads_select.2 (.inr ⟨_, List.mem_cons_self, by decide +kernel, rfl⟩)
    have hlast : .select .listedRows ∈
        (Requirements.ofCount.add 2 "x").lookedAt (.select .readingCountedKeys) :=
      Rebuilder.mem_lookedAt_iff.2 (.step hcte (.step List.mem_cons_self (.refl _)))
    have hother : ∀ s ∈ ((Requirements.ofCount.add 2 "x").lookedAt
        (.select .readingCountedKeys)).filterMap Node.select?,
        (Requirements.ofCount.add 2 "x").LeavesColumn s ∨ s.id = 1 := by
      decide +kernel
    obtain ⟨before, s, after, d, hsplit, -, hs, hout, -, hnode⟩ :=
      (pruneWith_first_refusal hids (Requirements.ofCount.add 2 "x") 6).2
        ⟨_, hlast, by decide +kernel⟩
    refine ⟨d, hout, hnode.trans ?_⟩
    have hmem : s ∈ ((Requirements.ofCount.add 2 "x").lookedAt
        (.select .readingCountedKeys)).filterMap Node.select? := by
      rw [hsplit]
      simp [Node.select?]
    exact (hother s hmem).resolve_left hs

end QueryPlan
