import Mathlib.Logic.Equiv.Basic
import QueryPlan.Proofs.PrunedAlike

/-!
# Plans under other identities

What pruning leaves of a plan depends on identities only through the order of the CTEs
(`prune_renameIds`): the rounds of the propagation take CTEs in that order.

The order does matter.  A source is asked for its first column when nothing is required of it *yet*,
so a CTE that is counted by one CTE and read by another one keeps its first column if the count is
looked at first (`prune_renamed_countedAndRead`).
-/

namespace QueryPlan

namespace Node

mutual
/-- A plan under other identities. -/
def renameIds (f : NodeId → NodeId) : Node → Node
  | .table id t => .table (f id) t
  | .text id sql => .text (f id) sql
  | .select s => .select
      { s with
        id := f s.id
        source := s.source.renameIds f
        joins := renameIdsOfJoins f s.joins
        ctes := renameIdsOfCtes f s.ctes }
  | .cte c => .cte { c with id := f c.id, body := c.body.renameIds f }
  | .createTable id t query => .createTable (f id) t (query.renameIds f)

/-- `renameIds` for the sources of joins. -/
def renameIdsOfJoins (f : NodeId → NodeId) : List (Join Node) → List (Join Node)
  | [] => []
  | j :: js => { j with source := j.source.renameIds f } :: renameIdsOfJoins f js

/-- `renameIds` for CTEs. -/
def renameIdsOfCtes (f : NodeId → NodeId) : List (Cte Node) → List (Cte Node)
  | [] => []
  | c :: cs => { c with id := f c.id, body := c.body.renameIds f } :: renameIdsOfCtes f cs
end

variable {f : NodeId → NodeId}

theorem renameIdsOfJoins_eq : ∀ js : List (Join Node),
    renameIdsOfJoins f js = js.map (Join.forget (renameIds f))
  | [] => rfl
  | j :: js => by rw [renameIdsOfJoins, renameIdsOfJoins_eq js, List.map_cons, Join.forget]

theorem renameIdsOfCtes_eq : ∀ cs : List (Cte Node),
    renameIdsOfCtes f cs = cs.map (Cte.relabel f (renameIds f))
  | [] => rfl
  | c :: cs => by rw [renameIdsOfCtes, renameIdsOfCtes_eq cs, List.map_cons, Cte.relabel]

theorem renameIds_select (s : Statement) :
    (Node.select s).renameIds f = .select (s.relabel f (renameIds f) fun _ => true) := by
  rw [renameIds, renameIdsOfJoins_eq, renameIdsOfCtes_eq, Select.relabel, List.filter_true]
  rfl

/-- The text of a plan does not change. -/
theorem eraseIds_renameIds (n : Node) : (n.renameIds f).eraseIds = n.eraseIds := by
  induction n using induct_parents with
  | h n ih =>
      cases n with
      | table | text => rfl
      | cte c => rw [renameIds, eraseIds, eraseIds, ih c.body (by simp [parents])]
      | createTable id t query => rw [renameIds, eraseIds, eraseIds, ih query (by simp [parents])]
      | select s =>
          have hjoins : (s.joins.map (Join.forget (renameIds f))).map (Join.forget eraseIds) =
              s.joins.map (Join.forget eraseIds) := by
            rw [List.map_map]
            refine List.map_congr_left ?_
            intro j hj
            have hsource := ih j.source (by simp [parents, List.mem_map_of_mem hj])
            rw [Function.comp_apply, Join.forget, Join.forget, Join.forget, hsource]
          have hctes : (s.ctes.map (Cte.relabel f (renameIds f))).map (Cte.forget eraseIds) =
              s.ctes.map (Cte.forget eraseIds) := by
            rw [List.map_map]
            refine List.map_congr_left ?_
            intro c hc
            have hcte := ih (.cte c) (by simp [parents, hc])
            rw [eraseIds_cte] at hcte
            exact Node.cte.inj hcte
          have hsource := ih s.source (by simp [parents])
          rw [renameIds, renameIdsOfJoins_eq, renameIdsOfCtes_eq, eraseIds_select, eraseIds_select]
          simp only [Select.forget, hsource, hjoins, hctes]

/-- A renaming that keeps the nodes of a plan apart. -/
def SeparatedBy (plan : Node) (f : NodeId → NodeId) : Prop :=
  ∀ m ∈ plan.subnodes, ∀ n ∈ plan.subnodes, f m.id = f n.id → m.id = n.id

/-- A renaming that keeps the CTEs of a plan in order. -/
def OrderedBy (plan : Node) (f : NodeId → NodeId) : Prop :=
  ∀ c d, .cte c ∈ plan.subnodes → .cte d ∈ plan.subnodes → c.id < d.id → f c.id < f d.id

end Node

/-- A plan under other identities is like the given one, with all columns. -/
def Likeness.ofRenaming {plan : Node} {f : NodeId → NodeId} (hseparated : plan.SeparatedBy f) :
    Likeness plan where
  idOf := f
  nodeOf := Node.renameIds f
  keeps _ _ := true
  idOf_inj {m n} hm hn hid := hseparated m hm n hn hid
  table _ := rfl
  text _ := rfl
  select _ := Node.renameIds_select _
  cte _ := rfl
  createTable _ := rfl
  exposes _ _ _ _ := rfl

/-- **Pruning under other identities.**  Where a renaming keeps the nodes of a plan apart and its CTEs
in order, the renamed plan is refused exactly if the given one is, and what is left of them has the
same serialised form. -/
theorem prune_renameIds {plan : Node} {f : NodeId → NodeId} (hids : plan.IdsIdentify)
    (hseparated : plan.SeparatedBy f) (hordered : plan.OrderedBy f) (next next' : NodeId) :
    ((∃ out, (plan.renameIds f).prune next' = .ok out) ↔ ∃ out, plan.prune next = .ok out) ∧
      ∀ q r last last', plan.prune next = .ok (q, last) →
        (plan.renameIds f).prune next' = .ok (r, last') →
          r.eraseIds = q.eraseIds ∧ r.serialize = q.serialize := by
  suffices hsame : ((∃ out, (plan.renameIds f).prune next' = .ok out) ↔
      ∃ out, plan.prune next = .ok out) ∧
      ∀ q r last last', plan.prune next = .ok (q, last) →
        (plan.renameIds f).prune next' = .ok (r, last') → r.eraseIds = q.eraseIds by
    refine ⟨hsame.1, ?_⟩
    intro q r last last' hq hr
    have herase := hsame.2 q r last last' hq hr
    exact ⟨herase, Node.serialize_eq_of_eraseIds_eq herase⟩
  let l := Likeness.ofRenaming hseparated
  have hknown' : ((plan.renameIds f).exposedColumns? ∅).isSome =
      (plan.exposedColumns? ∅).isSome := l.isSome_exposedColumns?_nodeOf
  by_cases hknown : (plan.exposedColumns? ∅).isSome = true
  · rcases Propagation.exists_ofPlan hids (Node.mem_subnodes_self plan) with ⟨p, hp⟩
    have hpruned := l.prune_nodeOf hids (fun {c d} hc hd => hordered c d hc hd) hp
      (fun _ _ _ _ => rfl) (fun _ _ _ _ => rfl) hknown next next'
    refine ⟨hpruned.1, ?_⟩
    intro q r last last' hq hr
    exact hpruned.2 hq hr
  · -- nothing is known of the columns at the root, so that both plans are left as they are
    have hleft : ∀ {n : Node} {first : NodeId}, ¬ (n.exposedColumns? ∅).isSome = true →
        n.prune first = .ok (n, first) := by
      intro n first hn
      refine Node.prune_of_none ?_
      rw [Requirements.ofPlan_eq, if_neg hn]
    rw [hleft hknown, hleft (hknown' ▸ hknown)]
    refine ⟨⟨fun _ => ⟨_, rfl⟩, fun _ => ⟨_, rfl⟩⟩, ?_⟩
    rintro q r last last' hq hr
    cases hq
    cases hr
    exact Node.eraseIds_renameIds plan

/-- `WITH d AS (SELECT f.y AS y FROM e f), c AS (SELECT COUNT(*) AS n FROM e g),
e AS (SELECT t.x AS x, t.y AS y FROM t t)
SELECT a.n AS n, b.y AS y FROM c a CROSS JOIN d b`. -/
def Select.countedAndRead : Statement :=
  { Select.plain 11 [⟨.column ⟨"a", "n"⟩ true, "n"⟩, ⟨.column ⟨"b", "y"⟩ true, "y"⟩]
      (.table 1 ⟨none, "c"⟩) "a" with
    ctes := [⟨9, "d", .select (.plain 3 [⟨.column ⟨"f", "y"⟩ true, "y"⟩] (.table 4 ⟨none, "e"⟩) "f")⟩,
      ⟨8, "c", .select (.plain 5 [⟨.aggregate .count [], "n"⟩] (.table 6 ⟨none, "e"⟩) "g")⟩,
      ⟨10, "e", .select (.plain 7 [⟨.column ⟨"t", "x"⟩ true, "x"⟩, ⟨.column ⟨"t", "y"⟩ true, "y"⟩]
        (.table 0 ⟨none, "t"⟩) "t")⟩]
    joins := [⟨.table 2 ⟨none, "d"⟩, "b", .cross, none⟩] }

/-- **The order of CTEs matters.**  The plan keeps `x` of `e` under all identities that leave its CTEs
in order.  If `c` and `d` change places then `y` is required of `e` when its rows are counted, and
nothing else is. -/
theorem prune_renamed_countedAndRead :
    (∃ q r last last', (Node.select .countedAndRead).prune 12 = .ok (q, last) ∧
      q.shownColumns = [["n", "y"], ["y"], ["n"], ["x", "y"]] ∧
      ((Node.select .countedAndRead).renameIds fun i => 3 * i + 5).prune 40 = .ok (r, last') ∧
      r.serialize = q.serialize) ∧
    (Node.select .countedAndRead).SeparatedBy (Equiv.swap 8 9) ∧
      ∃ r last', ((Node.select .countedAndRead).renameIds (Equiv.swap 8 9)).prune 12 = .ok (r, last') ∧
        r.shownColumns = [["n", "y"], ["y"], ["n"], ["y"]] := by
  have hids : (Node.select .countedAndRead).IdsIdentify := Node.idsIdentify_of_nodup (by decide)
  have hseparated : (Node.select .countedAndRead).SeparatedBy fun i => 3 * i + 5 := by
    unfold Node.SeparatedBy
    decide
  have hordered : (Node.select .countedAndRead).OrderedBy fun i => 3 * i + 5 := by
    intro c d _ _ hlt
    exact Nat.add_lt_add_right (Nat.mul_lt_mul_of_pos_left hlt (by decide)) 5
  have hruns : ((Node.select .countedAndRead).prune 12).toOption.map (·.1.shownColumns) =
      some [["n", "y"], ["y"], ["n"], ["x", "y"]] := by
    decide +kernel
  have hswapped : (((Node.select .countedAndRead).renameIds (Equiv.swap 8 9)).prune 12).toOption.map
      (·.1.shownColumns) = some [["n", "y"], ["y"], ["n"], ["y"]] := by
    decide +kernel
  rcases exists_ok_of_toOption_map hruns with ⟨⟨q, last⟩, hq, hcolumns⟩
  rcases exists_ok_of_toOption_map hswapped with ⟨⟨r', last''⟩, hr', hcolumns'⟩
  rcases prune_renameIds hids hseparated hordered 12 40 with ⟨hiff, hsame⟩
  rcases hiff.2 ⟨_, hq⟩ with ⟨⟨r, last'⟩, hr⟩
  refine ⟨⟨q, r, last, last', hq, hcolumns, hr, (hsame q r last last' hq hr).2⟩, ?_, r', last'',
    hr', hcolumns'⟩
  unfold Node.SeparatedBy
  decide

end QueryPlan
