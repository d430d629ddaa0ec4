import Mathlib.Data.List.Pairwise
import QueryPlan.Proofs.Scopes

/-!
# Scopes along paths

What a name of a CTE stands for at a node depends on the path by which the node is reached: every
statement on the path adds its CTEs (`Scope.along`).  The scope that is recorded for a statement is
the one along some path to it (`AlongPaths`), so if there is no other path then it is the one along
that path (`getElem?_ofPlan_of_above`).
-/

namespace QueryPlan

namespace Node

/-- The paths of a plan: the nodes that lie above a node on the way from the root, from the nearest
one on. -/
inductive Above (plan : Node) : List Node → Node → Prop
  | root : Above plan [] plan
  | step {above : List Node} {n m : Node} : Above plan above n → m ∈ n.parents →
      Above plan (n :: above) m

/-- No statement of the plan is reached by two different paths. -/
def SinglePaths (plan : Node) : Prop :=
  ∀ s above above', plan.Above above (.select s) → plan.Above above' (.select s) → above = above'

variable {plan n : Node} {above : List Node}

theorem Above.mem_subnodes (h : plan.Above above n) : n ∈ plan.subnodes := by
  induction h with
  | root => exact mem_subnodes_self plan
  | step _ hm ih => exact mem_subnodes_of_parent hm ih

/-- In a plan without sharing every node is read by one node only. -/
theorem eq_of_mem_parents {k l m : Node} (h : n.subnodes.Nodup) (hk : k ∈ n.subnodes)
    (hl : l ∈ n.subnodes) (hmk : m ∈ k.parents) (hml : m ∈ l.parents) : k = l := by
  induction n using induct_parents with
  | h n ih =>
      rw [subnodes_eq, List.nodup_cons, List.nodup_flatMap] at h
      rcases h with ⟨-, hnodup, hdisjoint⟩
      have hsame : ∀ a ∈ n.parents, ∀ b ∈ n.parents, m ∈ a.subnodes → m ∈ b.subnodes → a = b := by
        intro a ha b hb hma hmb
        have hsymm : Std.Symm (Function.onFun List.Disjoint subnodes) := ⟨fun _ _ h _ hb ha => h ha hb⟩
        by_contra hne
        exact hdisjoint.forall ha hb hne hma hmb
      -- what is read at the root is not read further below
      have htop : ∀ a ∈ n.parents, ∀ i ∈ a.subnodes, m ∈ i.parents → m ∉ n.parents := by
        intro a ha i hi hmi hmn
        have heq := hsame m hmn a ha (mem_subnodes_self m) (mem_subnodes_of_parent hmi hi)
        exact not_mem_subnodes_of_mem_parents hmi (heq ▸ hi)
      rcases mem_subnodes_iff.1 hk with rfl | ⟨a, ha, hka⟩
      · rcases mem_subnodes_iff.1 hl with rfl | ⟨b, hb, hlb⟩
        · rfl
        · exact absurd hmk (htop b hb l hlb hml)
      · rcases mem_subnodes_iff.1 hl with rfl | ⟨b, hb, hlb⟩
        · exact absurd hml (htop a ha k hka hmk)
        · have heq := hsame a ha b hb (mem_subnodes_of_parent hmk hka) (mem_subnodes_of_parent hml hlb)
          subst heq
          exact ih a ha (hnodup a ha) hka hlb

/-- **A plan without sharing** has one path to every node. -/
theorem singlePaths_of_nodup (h : plan.subnodes.Nodup) : plan.SinglePaths := by
  have hroot : ∀ {above : List Node} {m : Node}, plan.Above above m → plan ∉ m.parents := by
    intro above m hpath hm
    exact not_mem_subnodes_of_mem_parents hm hpath.mem_subnodes
  have hpaths : ∀ {above above' : List Node} {m : Node}, plan.Above above m →
      plan.Above above' m → above = above' := by
    intro above above' m hpath
    induction hpath generalizing above' with
    | root =>
        intro hpath'
        cases hpath' with
        | root => rfl
        | step hpath' hm => exact absurd hm (hroot hpath')
    | step hpath hm ih =>
        intro hpath'
        cases hpath' with
        | root => exact absurd hm (hroot hpath)
        | step hpath' hm' =>
            have heq := eq_of_mem_parents h hpath.mem_subnodes hpath'.mem_subnodes hm hm'
            subst heq
            rw [ih hpath']
  intro s above above' hpath hpath'
  exact hpaths hpath hpath'

end Node

namespace Scope

/-- The scope of what a node reads: a statement adds its CTEs. -/
def inside (scope : Scope) : Node → Scope
  | .select s => scope.enter (.ofCtes s.ctes)
  | _ => scope

/-- The scope at the end of a path. -/
def along (above : List Node) : Scope :=
  above.foldr (fun n scope => scope.inside n) ∅

end Scope

namespace Scopes

variable {plan : Node}

/-- Recorded scopes are the scopes along paths. -/
def AlongPaths (plan : Node) (scopes : Scopes) : Prop :=
  ∀ (i : NodeId) (scope : Scope), scopes[i]? = some scope → ∃ s above, s.id = i ∧
    plan.Above above (.select s) ∧ scope = Scope.along (.select s :: above)

theorem AlongPaths.insert {scopes : Scopes} (h : AlongPaths plan scopes) {s : Statement}
    {above : List Node} (hpath : plan.Above above (.select s)) :
    AlongPaths plan (scopes.insert s.id (.along (.select s :: above))) := by
  intro i scope hscope
  rw [Std.TreeMap.getElem?_insert] at hscope
  split at hscope
  case isTrue hid => exact ⟨s, above, Nat.compare_eq_eq.1 hid, hpath, (Option.some.inj hscope).symm⟩
  case isFalse => exact h i scope hscope

/-- What is recorded below the end of a path are scopes along paths that go on from there. -/
theorem AlongPaths.record {n : Node} {above : List Node} (hpath : plan.Above above n)
    {scopes : Scopes} (h : AlongPaths plan scopes) :
    AlongPaths plan (record (.along above) n scopes) := by
  induction n using Node.induct_parents generalizing above scopes with
  | h n ih =>
      cases n with
      | table | text => exact h
      | select s =>
          rw [record_select]
          split
          · exact h
          · refine List.foldlRecOn (motive := AlongPaths plan) _ _ (h.insert hpath) ?_
            intro scopes hscopes m hm
            exact ih m hm (hpath.step hm) hscopes
      | cte c =>
          have hbody : c.body ∈ (Node.cte c).parents := by simp [Node.parents]
          exact ih c.body hbody (hpath.step hbody) h
      | createTable id t query =>
          have hquery : query ∈ (Node.createTable id t query).parents := by simp [Node.parents]
          exact ih query hquery (hpath.step hquery) h

/-- The scopes of a plan are those along its paths. -/
theorem alongPaths_ofPlan : AlongPaths plan (ofPlan plan) := by
  have hstart : AlongPaths plan (∅ : Scopes) := by
    intro i scope h
    simp at h
  exact hstart.record .root

/-- Some path to a statement has the scope that is recorded for it. -/
theorem exists_above (hids : plan.IdsIdentify) {s : Statement} (hs : .select s ∈ plan.subnodes) :
    ∃ above, plan.Above above (.select s) ∧
      (ofPlan plan)[s.id]? = some (.along (.select s :: above)) := by
  rcases exists_scope hids hs with ⟨scope, hscope⟩
  rcases alongPaths_ofPlan s.id scope hscope with ⟨s', above, hid, hpath, rfl⟩
  cases hids _ hpath.mem_subnodes _ hs hid
  exact ⟨above, hpath, hscope⟩

/-- **The scope of a statement** that is reached by one path only is the one along that path. -/
theorem getElem?_ofPlan_of_above (hids : plan.IdsIdentify) (hsingle : plan.SinglePaths)
    {s : Statement} {above : List Node} (hpath : plan.Above above (.select s)) :
    (ofPlan plan)[s.id]? = some (.along (.select s :: above)) := by
  rcases exists_above hids hpath.mem_subnodes with ⟨above', hpath', hscope⟩
  rwa [hsingle s above above' hpath hpath']

end Scopes

end QueryPlan
