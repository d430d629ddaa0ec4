import QueryPlan.Proofs.PrunedAlike
import QueryPlan.Proofs.References

/-!
# Pruning twice

A plan without CTEs is pruned once and for all.  The pruned plan is like the given one, with those
columns that are required (`Likeness.ofPruned`).  So the propagation through it goes in step with
the first one, and requires what is there (`prune_again_drops_nothing`).

The plan may share statements.  A statement that is read at two places is asked for its first column
by the second place only if the first place required nothing, and this is the same in both runs.
With CTEs it need not be, because the rounds take the CTEs in the order of their identities.
-/

namespace QueryPlan

/-! ## Plans without CTEs -/

/-- A plan without CTEs. -/
def Node.CteFree (plan : Node) : Prop :=
  ∀ c, .cte c ∉ plan.subnodes

namespace Node.CteFree

variable {plan : Node} (hfree : plan.CteFree)

include hfree

theorem ctes_eq_nil {s : Statement} (hs : .select s ∈ plan.subnodes) : s.ctes = [] := by
  refine List.eq_nil_iff_forall_not_mem.2 ?_
  intro c hc
  exact hfree c (Node.mem_subnodes_of_parent (by simp [Node.parents, hc]) hs)

theorem namedCte?_eq_none {scope : Scope} (hscope : scope.OfPlan plan) (n : Node) :
    n.namedCte? scope = none := by
  refine Option.eq_none_iff_forall_ne_some.2 ?_
  intro c hc
  exact hfree c (Node.mem_subnodes_of_namedCte? hscope hc)

/-- A pass looks at everything. -/
theorem reaches (r : Rebuilder) {n m : Node} (hn : n ∈ plan.subnodes) (hm : m ∈ n.subnodes) :
    r.Reaches n m := by
  induction n using Node.induct_parents with
  | h n ih =>
      have hreads : r.reads n = n.parents := by
        cases n with
        | select s => rw [r.reads_select, Select.parents_select, hfree.ctes_eq_nil hn]; rfl
        | table | text | cte | createTable => rfl
      rcases Node.mem_subnodes_iff.1 hm with rfl | ⟨k, hk, hm⟩
      · exact .refl m
      · exact .step (hreads ▸ hk) (ih k hk (Node.mem_subnodes_of_parent hk hn) hm)

end Node.CteFree

/-! ## The pruned plan is like the given one -/

namespace Build

variable {b : Build} {n n' : Node}

/-- What has been built for a node. -/
def nodeOf (b : Build) (n : Node) : Node :=
  b.done[n.id]?.getD n

theorem nodeOf_eq (h : b.done[n.id]? = some n') : b.nodeOf n = n' := by
  rw [nodeOf, h, Option.getD_some]

end Build

namespace Likeness

variable {plan q : Node} {p : Propagation} {next : NodeId} {b : Build}

section Run

variable (hids : plan.IdsIdentify) (hfree : plan.CteFree)
  (hrun : (plan.rebuild (Pruning.rebuilder p.required)).run { next } = .ok (q, b))

include hids hfree hrun

/-- Without CTEs, something is built for every node. -/
theorem exists_built {n : Node} (hn : n ∈ plan.subnodes) :
    ∃ n', b.done[n.id]? = some n' ∧ (Pruning.rebuilder p.required).Forms b.done n n' := by
  rcases Node.sound_of_run hids hrun with ⟨hsound, hroot⟩
  have hself := Node.mem_subnodes_self plan
  rcases hsound.exists_done_of_reaches hself ⟨q, hroot⟩ (hfree.reaches _ hself hn) with ⟨n', hn'⟩
  exact ⟨n', hn', hsound n hn n' hn'⟩

theorem nodeOf_select_of_run (hp : Propagation.Finished plan plan p) {s : Statement}
    (hs : .select s ∈ plan.subnodes) :
    b.nodeOf (.select s) = .select (s.relabel (newId b.done) b.nodeOf
      fun x => (p.required.names s.id).contains x) := by
  rcases exists_built hids hfree hrun hs with ⟨n', hn', hforms⟩
  rcases hforms.exists_prepares with ⟨s₀, hprepares, rfl⟩
  rcases Pruning.columns_eq_ok_iff.1 hprepares.columns with ⟨hentry, -, hcolumns⟩
  have hjoins : s₀.joins = s.joins.map (Join.forget b.nodeOf) := by
    rw [← List.map_id s₀.joins]
    refine map_eq_of_forall₂ hprepares.joins ?_
    rintro j hj j' ⟨source, hdone, rfl⟩
    rw [Join.forget, Build.nodeOf_eq hdone]
    rfl
  have hctes : s₀.ctes = [] := by
    have hnone := hprepares.ctes
    rw [hfree.ctes_eq_nil hs] at hnone
    exact List.forall₂_nil_left_iff.1 hnone
  have hsource : s₀.source = b.nodeOf s.source := (Build.nodeOf_eq hprepares.source).symm
  have hid : s₀.id = newId b.done s.id := (newId_of_done hn').symm
  rw [hp.kept_eq_filter hs hentry] at hcolumns
  rw [Build.nodeOf_eq hn']
  show Node.select s₀ = _
  rw [hprepares.clauses, hid, hcolumns, hsource, hjoins, hctes, Select.relabel,
    hfree.ctes_eq_nil hs]
  rfl

end Run

/-- **The pruned plan is like the given one**, with the columns that are required. -/
def ofPruned (hids : plan.IdsIdentify) (hfree : plan.CteFree) (hbelow : plan.IdsBelow next)
    (hp : Propagation.Finished plan plan p)
    (hrun : (plan.rebuild (Pruning.rebuilder p.required)).run { next } = .ok (q, b)) :
    Likeness plan where
  idOf := newId b.done
  nodeOf := b.nodeOf
  keeps i x := (p.required.names i).contains x
  idOf_inj {m n} hm hn hid := by
    rcases exists_built hids hfree hrun hm with ⟨m', hm', -⟩
    rcases exists_built hids hfree hrun hn with ⟨n', hn', -⟩
    rw [newId_of_done hm', newId_of_done hn'] at hid
    have hapart := Node.rebuild_preserves (Build.steady_apart hbelow)
      (Rebuilder.isLocal_of_finish_eq_id rfl) plan (Node.mem_subnodes_self plan) hrun
      Build.apart_start
    exact hapart.apart hm' hn' hid
  table {i t} hn := by
    rcases exists_built hids hfree hrun hn with ⟨n', hn', hforms⟩
    cases hforms
    have hid : newId b.done i = i := newId_of_done hn'
    rw [Build.nodeOf_eq hn', hid]
  text {i sql} hn := by
    rcases exists_built hids hfree hrun hn with ⟨n', hn', hforms⟩
    cases hforms
    have hid : newId b.done i = i := newId_of_done hn'
    rw [Build.nodeOf_eq hn', hid]
  select hs := nodeOf_select_of_run hids hfree hrun hp hs
  cte {c} hc := absurd hc (hfree c)
  createTable {i t query} hn := by
    rcases exists_built hids hfree hrun hn with ⟨n', hn', j, query', hquery, rfl⟩
    have hid : newId b.done i = j := newId_of_done hn'
    rw [Build.nodeOf_eq hn', hid, Build.nodeOf_eq hquery]
  exposes {n scope s x} hn hscope hexposes hx := by
    cases hexposes with
    | wraps hs => exact hp.requires_unwrapped hids n hn s hs hx
    | names hc _ => rw [hfree.namedCte?_eq_none hscope] at hc; cases hc

/-- The pruned plan has every column that is required, and whatever pruning leaves of a statement is
required. -/
theorem exists_of_pruned (hids : plan.IdsIdentify) (hfree : plan.CteFree)
    (hbelow : plan.IdsBelow next) (hp : Propagation.Finished plan plan p)
    (hrun : (plan.rebuild (Pruning.rebuilder p.required)).run { next } = .ok (q, b)) :
    ∃ l : Likeness plan, l.nodeOf plan = q ∧ l.Ordered ∧ l.Covers p ∧ l.Retains p.required := by
  refine ⟨ofPruned hids hfree hbelow hp hrun, Build.nodeOf_eq (Node.sound_of_run hids hrun).2,
    ?_, ?_, ?_⟩
  · intro c _ hc
    exact absurd hc (hfree c)
  · intro n _ x hx
    exact Std.TreeSet.contains_iff_mem.2 hx
  · intro s hs c hc
    rcases exists_built hids hfree hrun hs with ⟨n', -, hforms⟩
    rcases hforms.exists_prepares with ⟨s₀, hprepares, -⟩
    have hentry := (Pruning.columns_eq_ok_iff.1 hprepares.columns).1
    rw [hp.kept_eq_filter hs hentry] at hc
    exact (List.mem_filter.1 hc).2

end Likeness

/-! ## The second run -/

namespace Node

variable {plan q : Node} {next last : NodeId}

/-- **Pruning again drops nothing.**  If a plan without CTEs has been pruned, then the result can be
pruned, and what comes out has the same serialised form. -/
theorem prune_again_drops_nothing (hids : plan.IdsIdentify) (hbelow : plan.IdsBelow next)
    (hfree : plan.CteFree) (h : plan.prune next = .ok (q, last)) (again : NodeId) :
    ∃ r final, q.prune again = .ok (r, final) ∧ r.eraseIds = q.eraseIds ∧
      r.serialize = q.serialize := by
  suffices hsame : ∃ r final, q.prune again = .ok (r, final) ∧ r.eraseIds = q.eraseIds by
    rcases hsame with ⟨r, final, hprune, herase⟩
    exact ⟨r, final, hprune, herase, serialize_eq_of_eraseIds_eq herase⟩
  rcases prune_eq_ok_iff.1 h with ⟨hnone, rfl, rfl⟩ | ⟨required, b, hrequired, hrun, -⟩
  · exact ⟨q, again, prune_eq_ok_iff.2 (.inl ⟨hnone, rfl, rfl⟩), rfl⟩
  · rcases Requirements.exists_propagation hrequired with ⟨hknown, p, hp, rfl⟩
    have hfinished := Propagation.finished_ofPlan hids (mem_subnodes_self plan) hp
    rcases Likeness.exists_of_pruned hids hfree hbelow hfinished hrun with
      ⟨l, rfl, hordered, hcovers, hretains⟩
    rcases l.prune_nodeOf hids hordered hp hcovers hretains hknown next again with ⟨hiff, herase⟩
    rcases hiff.2 ⟨_, h⟩ with ⟨⟨r, final⟩, hprune⟩
    exact ⟨r, final, hprune, herase h hprune⟩

end Node

/-- `SELECT t.x AS u, t.y AS v, t.z AS w FROM t t`. -/
def Select.renamedThree : Statement :=
  .plain 2 [⟨.column ⟨"t", "x"⟩ true, "u"⟩, ⟨.column ⟨"t", "y"⟩ true, "v"⟩,
    ⟨.column ⟨"t", "z"⟩ true, "w"⟩] (.table 1 ⟨none, "t"⟩) "t"

/-- `SELECT COUNT(*) AS n FROM renamedThree c`. -/
def Select.countOfThree : Statement :=
  .plain 3 [⟨.aggregate .count [], "n"⟩] (.select .renamedThree) "c"

/-- `SELECT c.v AS k FROM renamedThree c`. -/
def Select.secondOfThree : Statement :=
  .plain 4 [⟨.column ⟨"c", "v"⟩ true, "k"⟩] (.select .renamedThree) "c"

/-- `SELECT d.n AS n, p.k AS k FROM countOfThree d CROSS JOIN secondOfThree p`, where both sources
read the same statement. -/
def Select.sharedThree : Statement :=
  { Select.plain 5 [⟨.column ⟨"d", "n"⟩ true, "n"⟩, ⟨.column ⟨"p", "k"⟩ true, "k"⟩]
      (.select .countOfThree) "d" with
    joins := [⟨.select .secondOfThree, "p", .cross, none⟩] }

theorem idsIdentify_sharedThree : (Node.select .sharedThree).IdsIdentify := by
  have hall : (Node.select .sharedThree).subnodes = [.select .sharedThree, .select .countOfThree,
      .select .renamedThree, .table 1 ⟨none, "t"⟩, .select .secondOfThree] ++
      [.select .renamedThree, .table 1 ⟨none, "t"⟩] := rfl
  exact Node.idsIdentify_of_append hall (by simp) (by decide)

/-- The first run drops a column of the statement that is read at two places. -/
theorem prune_again_sharedThree :
    ∃ q last, (Node.select .sharedThree).prune 6 = .ok (q, last) ∧
      q.shownColumns = [["n", "k"], ["n"], ["u", "v"], ["k"], ["u", "v"]] ∧
      ∃ r final, q.prune last = .ok (r, final) ∧ r.eraseIds = q.eraseIds ∧
        r.serialize = q.serialize := by
  have hbelow : (Node.select .sharedThree).IdsBelow 6 := by
    unfold Node.IdsBelow
    decide
  have hfree : (Node.select .sharedThree).CteFree := by
    intro c hc
    have hnone : ∀ m ∈ (Node.select .sharedThree).subnodes, m.cte? = none := by decide
    cases hnone _ hc
  have hruns : ((Node.select .sharedThree).prune 6).toOption.map (·.1.shownColumns) =
      some [["n", "k"], ["n"], ["u", "v"], ["k"], ["u", "v"]] := by
    decide +kernel
  rcases exists_ok_of_toOption_map hruns with ⟨⟨q, last⟩, hout, hcolumns⟩
  exact ⟨q, last, hout, hcolumns,
    Node.prune_again_drops_nothing idsIdentify_sharedThree hbelow hfree hout last⟩

end QueryPlan
