import QueryPlan.Proofs.Identities
import QueryPlan.Proofs.Weights

/-!
# Merging reaches a fixed point

Every step of a merging rule removes exactly one select statement from a plan whose sharing is
written out (`MergeStep.selectCount`).  So a rule that may be applied as often as there are
statements is applied until it no longer applies, at every statement (`rule_exhaust`).  Statements
are built from below, and what a statement reads does not grow before it is merged
(`Rewrites.weight_le`).

A second run finds nothing to do.  It builds the same statements under new identities, and the rules
do not look at identities (`MergeRule.IsNatural`), so that none of them applies
(`merge_reaches_fixedPoint`).
-/

namespace QueryPlan

open Relation

/-! ## Counting statements -/

namespace Node

/-- The number of select statements of a plan, with the sharing written out. -/
def selectCount (n : Node) : Nat :=
  n.subnodes.countP isSelect

theorem selectCount_eq_weight (n : Node) : n.selectCount = n.weight { statement := 1 } := by
  induction n using induct_parents with
  | h n ih =>
      have hown : Weights.own { statement := 1 } n = if n.isSelect then 1 else 0 := by
        cases n with
        | select s => simp [Weights.own, isSelect, select?]
        | table | text | cte | createTable => rfl
      rw [selectCount, subnodes_eq, List.countP_cons, List.countP_flatMap, weight_eq, hown,
        ← List.map_congr_left ih]
      rfl

theorem selectCount_select_pos (s : Statement) : 0 < (Node.select s).selectCount := by
  rw [selectCount_eq_weight, weight_select, Nat.zero_mul]
  exact Nat.succ_pos _

end Node

/-- **A step removes one statement.** -/
theorem MergeStep.selectCount {s merged : Statement} (h : MergeStep s merged) :
    (Node.select merged).selectCount + 1 = (Node.select s).selectCount := by
  rcases h.weight { statement := 1 } with ⟨columns, hweight⟩
  rw [Node.selectCount_eq_weight, Node.selectCount_eq_weight, ← hweight, Nat.zero_mul]

theorem MergeStep.selectCount_lt_of_series {s merged : Statement} (h : TransGen MergeStep s merged) :
    (Node.select merged).selectCount < (Node.select s).selectCount := by
  induction h with
  | single hstep =>
      have hcount := hstep.selectCount
      omega
  | tail _ hstep ih =>
      have hcount := hstep.selectCount
      omega

/-! ## Enough rounds -/

/-- **A rule is exhausted** after as many rounds as there are statements. -/
theorem MergeRule.Stepwise.rule_exhaust {rule : MergeRule} (hrule : rule.Stepwise) :
    ∀ {rounds : Nat} {s : Statement}, (Node.select s).selectCount ≤ rounds →
      rule (rule.exhaust rounds s) = none
  | 0, s, hcount => by
      have hpos := Node.selectCount_select_pos s
      omega
  | rounds + 1, s, hcount => by
      rw [MergeRule.exhaust]
      split
      case h_1 merged h =>
        have hlt := MergeStep.selectCount_lt_of_series (hrule h)
        exact hrule.rule_exhaust (by omega)
      case h_2 h => exact h

namespace Rebuilder

variable {r : Rebuilder} {plan : Node} {done : Std.TreeMap NodeId Node}

/-- A statement of the new plan has been finished, and was no larger before than the given plan. -/
theorem Rewrites.exists_finished (hrewrites : r.Rewrites) (hsound : r.Sound plan done) {n' : Node}
    (hdone : done[plan.id]? = some n') {s' : Statement} (hs' : .select s' ∈ n'.subnodes) :
    ∃ s s₀, .select s ∈ plan.subnodes ∧ r.Prepares done s s₀ ∧ s' = r.finish s₀ ∧
      (Node.select s₀).selectCount ≤ plan.selectCount := by
  rcases hsound.exists_origin_of_mem_subnodes hrewrites.isLocal plan (Node.mem_subnodes_self plan)
    n' hdone _ hs' with ⟨l, hreach, hl⟩
  have hmem := hreach.mem_subnodes
  rcases (hsound l hmem _ hl).exists_prepares_of_select with ⟨s, s₀, rfl, hprepares, rfl⟩
  refine ⟨s, s₀, hmem, hprepares, rfl, ?_⟩
  rw [Node.selectCount_eq_weight, Node.selectCount_eq_weight]
  refine Nat.le_trans ?_ (Node.weight_le_of_mem_subnodes hmem)
  refine hrewrites.weight_prepared_le hprepares ?_
  intro m hm
  exact hrewrites.weight_le hsound m (Node.mem_subnodes_of_parent hm hmem)

/-! ## A second run -/

theorem Rewrites.preparedOver_eq {τ : Type} (hrewrites : r.Rewrites) (f : Node → τ)
    (s : Statement) : r.preparedOver f s.columns s = s.forget f := by
  have hall : s.ctes.filter r.keeps = s.ctes := List.filter_eq_self.2 fun c _ => hrewrites.keeps c
  rw [preparedOver, hall]
  rfl

/-- A prepared statement has the clauses of the given one. -/
theorem Rewrites.clauses_prepared (hrewrites : r.Rewrites) (hsound : r.Sound plan done)
    {s s₀ : Statement} (hs : .select s ∈ plan.subnodes) (h : r.Prepares done s s₀) :
    s₀.forget (fun _ => ()) = s.forget fun _ => () := by
  have hctes : ∀ c ∈ s.ctes, ∀ c', done[c.id]? = some (.cte c') →
      c'.forget (fun _ => ()) = c.forget fun _ => () := by
    intro c hc c' hdone
    have hcte : .cte c ∈ plan.subnodes :=
      Node.mem_subnodes_of_parent (by simp [Node.parents, hc]) hs
    rcases hsound (.cte c) hcte _ hdone with ⟨_, _, -, heq⟩
    cases heq
    rfl
  rw [h.forget_eq (fun _ _ _ _ => rfl) hctes, hrewrites.columns_eq h, hrewrites.preparedOver_eq]

/-- A pass leaves every statement of a plan as it is, up to identities. -/
def Fixes (r : Rebuilder) (n : Node) : Prop :=
  ∀ s, .select s ∈ n.subnodes → (r.finish s).forget Node.eraseIds = s.forget Node.eraseIds

theorem Fixes.of_eraseIds_eq (hnatural : r.IsNatural) {m n : Node} (hfixes : r.Fixes n)
    (h : m.eraseIds = n.eraseIds) : r.Fixes m := by
  intro s hs
  rcases Node.exists_select_of_eraseIds_eq h hs with ⟨s', hs', hsame⟩
  rw [← hnatural s, ← hsame, hnatural s', hfixes s' hs']

/-- A pass that leaves every statement of a plan as it is does nothing but forget identities. -/
theorem Rewrites.describes_eraseIds (hrewrites : r.Rewrites) (hnatural : r.IsNatural)
    (hfixes : r.Fixes plan) : r.Describes plan Node.eraseIds where
  table _ _ := rfl
  text _ _ := rfl
  cte := Node.eraseIds_cte
  createTable _ _ _ := rfl
  select s columns hs hcolumns := by
    rw [hrewrites.columns, Except.ok.injEq] at hcolumns
    rw [← hcolumns, hrewrites.preparedOver_eq, hnatural s, hfixes s hs, Node.eraseIds_select]

end Rebuilder

/-- If a pass leaves every statement of a plan as it is, then the new plan is the given one up to
identities. -/
theorem Node.eraseIds_of_rebuilt {r : Rebuilder} (hrewrites : r.Rewrites) (hnatural : r.IsNatural)
    {n n' : Node} {next next' : NodeId} (hids : n.IdsIdentify) (hfixes : r.Fixes n)
    (h : n.rebuilt r next = .ok (n', next')) : n'.eraseIds = n.eraseIds :=
  eraseIds_of_described hids hnatural (hrewrites.describes_eraseIds hnatural hfixes) h

namespace MergeRule

variable {rule : MergeRule}

theorem exhaust_of_eq_none {s : Statement} (h : rule s = none) (rounds : Nat) :
    rule.exhaust rounds s = s := by
  cases rounds with
  | zero => rfl
  | succ rounds => rw [MergeRule.exhaust, h]

/-- Applying a natural rule for a number of rounds does not depend on identities either. -/
theorem IsNatural.rebuilder (hrule : rule.IsNatural) (rounds : Nat) :
    (rule.rebuilder rounds).IsNatural := by
  show ∀ s, rule.exhaust rounds (s.forget Node.eraseIds) = (rule.exhaust rounds s).forget _
  induction rounds with
  | zero => exact fun _ => rfl
  | succ rounds ih =>
      intro s
      rw [exhaust, exhaust, hrule s]
      cases rule s with
      | none => rfl
      | some merged => exact ih merged

theorem fixes_of_eq_none {n : Node} (h : ∀ s, .select s ∈ n.subnodes → rule s = none)
    (rounds : Nat) : (rule.rebuilder rounds).Fixes n := by
  intro s hs
  exact congrArg (Select.forget Node.eraseIds) (exhaust_of_eq_none (h s hs) rounds)

end MergeRule

/-- Merging leaves a plan alone, up to identities, in which the rule applies nowhere. -/
theorem Node.merge_of_eq_none {rule : MergeRule} (hstepwise : rule.Stepwise)
    (hnatural : rule.IsNatural) {n : Node} (hids : n.IdsIdentify)
    (hnone : ∀ s, .select s ∈ n.subnodes → rule s = none) (rounds : Nat) (next : NodeId) :
    ∃ n' next', n.merge rule rounds next = .ok (n', next') ∧ n'.eraseIds = n.eraseIds := by
  have hrewrites := Rebuilder.rewrites_of_stepwise hstepwise rounds
  rcases hrewrites.exists_rebuilt n next with ⟨n', next', hout⟩
  exact ⟨n', next', hout, eraseIds_of_rebuilt hrewrites (hnatural.rebuilder rounds) hids
    (MergeRule.fixes_of_eq_none hnone rounds) hout⟩

/-- Merging goes through and leaves no statement to which the rule applies. -/
theorem Node.merge_exhausts {rule : MergeRule} (hstepwise : rule.Stepwise) {n : Node}
    (hids : n.IdsIdentify) {rounds : Nat} (hrounds : n.selectCount ≤ rounds) (next : NodeId) :
    ∃ n' next', n.merge rule rounds next = .ok (n', next') ∧
      ∀ s, .select s ∈ n'.subnodes → rule s = none := by
  have hrewrites := Rebuilder.rewrites_of_stepwise hstepwise rounds
  rcases hrewrites.exists_rebuilt n next with ⟨n', next', hout⟩
  rcases rebuilt_eq_ok_iff.1 hout with ⟨b, hrun, -⟩
  rcases sound_of_run hids hrun with ⟨hsound, hdone⟩
  refine ⟨n', next', hout, ?_⟩
  intro s hs
  rcases hrewrites.exists_finished hsound hdone hs with ⟨_, s₀, -, -, rfl, hcount⟩
  exact hstepwise.rule_exhaust (Nat.le_trans hcount hrounds)

/-- **Merging reaches a fixed point.**  With as many rounds as there are statements, merging by either
rule gives a plan in which the rule applies nowhere; and to merge that plan again, with the same
number of rounds, changes nothing but identities.  The first free identity must be free. -/
theorem merge_reaches_fixedPoint {rule : MergeRule}
    (hrule : rule = .projection ∨ rule = .inlining) {n : Node} {next : NodeId}
    (hids : n.IdsIdentify) (hnext : n.IdsBelow next) {rounds : Nat}
    (hrounds : n.selectCount ≤ rounds) :
    ∃ n' next', n.merge rule rounds next = .ok (n', next') ∧
      (∀ s, .select s ∈ n'.subnodes → rule s = none) ∧
      ∀ again, ∃ n'' last, n'.merge rule rounds again = .ok (n'', last) ∧
        n''.eraseIds = n'.eraseIds ∧ n''.serialize = n'.serialize := by
  have hboth : rule.Stepwise ∧ rule.IsNatural := by
    rcases hrule with rfl | rfl
    · exact ⟨MergeRule.stepwise_projection, MergeRule.isNatural_projection⟩
    · exact ⟨MergeRule.stepwise_inlining, MergeRule.isNatural_inlining⟩
  rcases hboth with ⟨hstepwise, hnatural⟩
  rcases Node.merge_exhausts hstepwise hids hrounds next with ⟨n', next', hout, hnone⟩
  have hlocal := (Rebuilder.rewrites_of_stepwise hstepwise rounds).isLocal
  have hids' := (Node.rebuilt_identifies hids hnext hlocal hout).1
  refine ⟨n', next', hout, hnone, ?_⟩
  intro again
  rcases Node.merge_of_eq_none hstepwise hnatural hids' hnone rounds again with
    ⟨n'', last, hagain, hsame⟩
  exact ⟨n'', last, hagain, hsame, Node.serialize_eq_of_eraseIds_eq hsame⟩

/-- Of four statements two are left, and merging them again finds nothing to do. -/
theorem merge_fixedPoint_joinedProjections :
    (Node.select .joinedProjections).selectCount = 4 ∧
      ∃ n' next', (Node.select .joinedProjections).merge .inlining 4 9 = .ok (n', next') ∧
        n'.selectCount = 2 ∧ (∀ s, .select s ∈ n'.subnodes → MergeRule.inlining s = none) ∧
        ∀ again, ∃ n'' last, n'.merge .inlining 4 again = .ok (n'', last) ∧
          n''.eraseIds = n'.eraseIds ∧ n''.serialize = n'.serialize := by
  have hcount : (Node.select .joinedProjections).selectCount = 4 := rfl
  have hruns : ((Node.select .joinedProjections).merge .inlining 4 9).toOption.map
      (fun out => out.1.selectCount) = some 2 := by
    decide +kernel
  rcases merge_reaches_fixedPoint (.inr rfl) idsIdentify_joinedProjections
    idsBelow_joinedProjections (Nat.le_of_eq hcount) with ⟨n', next', hout, hnone, hagain⟩
  rw [hout] at hruns
  exact ⟨hcount, n', next', hout, Option.some.inj hruns, hnone, hagain⟩

end QueryPlan
