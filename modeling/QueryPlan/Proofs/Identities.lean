import QueryPlan.Proofs.Rebuilding

/-!
# Identities in a rebuilt plan

A pass keeps tables and texts and numbers all other nodes that it builds from the first free
identity on.  So identities tell the nodes of the new plan apart if they did so in the given one,
and the pass can be followed by another.

* `Build.Numbered` — what has been built is either a node of the given plan, below the first free
  identity, or has one of the identities that have been given out since; and no two of these nodes
  share an identity.
* `rebuild_preserves` — a property of the state that every single insertion keeps is kept by a run.
* `rebuilt_identifies` — hence the result.
-/

namespace QueryPlan

/-- All identities of a plan are smaller than a given one, which is then free. -/
def Node.IdsBelow (plan : Node) (next : NodeId) : Prop :=
  ∀ m ∈ plan.subnodes, m.id < next

/-! ## Single insertions -/

/-- A property of the state of a build that is kept when a table or a text of the plan is kept, when
a node is built under the next identity, and when an entry is written once more. -/
structure Build.Steady (plan : Node) (Inv : Build → Prop) : Prop where
  keep : ∀ {b : Build} {n : Node}, n ∈ plan.subnodes → Inv b →
    Inv { b with done := b.done.insert n.id n }
  add : ∀ {b : Build} {i : NodeId} {n' : Node}, n'.id = b.next → Inv b →
    Inv { next := b.next + 1, done := b.done.insert i n' }
  again : ∀ {b : Build} {i : NodeId} {n' : Node}, b.done[i]? = some n' → Inv b →
    Inv { b with done := b.done.insert i n' }

namespace Node

open Build Rebuilder

variable {plan : Node} {Inv : Build → Prop} {r : Rebuilder}

/-- A run that builds a node keeps a property of the state. -/
def BuildKeeps (r : Rebuilder) (Inv : Build → Prop) (n : Node) : Prop :=
  ∀ {b b' : Build} {n' : Node}, (n.rebuild r).run b = .ok (n', b') → Inv b → Inv b'

theorem once_preserves {id : NodeId} {build : Rebuild Node} {b b' : Build} {n' : Node}
    (hbuild : ∀ b₁, build.run b = .ok (n', b₁) →
      Inv { b₁ with done := b₁.done.insert id n' })
    (h : (once id build).run b = .ok (n', b')) (hb : Inv b) : Inv b' := by
  rcases once_cases h with ⟨-, rfl⟩ | ⟨-, b₁, hrun, rfl⟩
  · exact hb
  · exact hbuild b₁ hrun

theorem rebuildJoins_preserves : ∀ {js : List (Join Node)},
    (∀ j ∈ js, BuildKeeps r Inv j.source) → ∀ {b b' : Build} {js' : List (Join Node)},
    (rebuildJoins r js).run b = .ok (js', b') → Inv b → Inv b'
  | [], _, b, b', js', h, hb => by
      rw [rebuildJoins, run_pure_eq_ok] at h
      exact h.2 ▸ hb
  | j :: js, hjs, b, b', js', h, hb => by
      simp only [rebuildJoins, run_bind_eq_ok, run_pure_eq_ok] at h
      rcases h with ⟨source, b₁, hsource, js'', b₂, hrest, -, rfl⟩
      have hb₁ := hjs j List.mem_cons_self hsource hb
      exact rebuildJoins_preserves (fun k hk => hjs k (List.mem_cons_of_mem _ hk)) hrest hb₁

/-- A CTE is built and remembered, unless one is remembered already. -/
theorem cteOnce_preserves (hsteady : Steady plan Inv) {c c' : Cte Node}
    (hbody : BuildKeeps r Inv c.body) {b b' : Build}
    (h : (cteOnce c (c.body.rebuild r)).run b = .ok (c', b')) (hb : Inv b) :
    Inv b' ∧ b'.done[c.id]? = some (.cte c') := by
  rcases cteOnce_cases h with ⟨hdone, rfl⟩ | ⟨-, body, b₁, hrun, rfl, rfl⟩
  · exact ⟨hb, hdone⟩
  · have hb₁ : Inv b₁ := hbody hrun hb
    refine ⟨hsteady.add rfl hb₁, ?_⟩
    simp

theorem rebuildCtes_preserves (hsteady : Steady plan Inv) : ∀ {cs : List (Cte Node)},
    (∀ c ∈ cs, BuildKeeps r Inv c.body) → ∀ {b b' : Build} {cs' : List (Cte Node)},
    (rebuildCtes r cs).run b = .ok (cs', b') → Inv b → Inv b'
  | [], _, b, b', cs', h, hb => by
      rw [rebuildCtes, run_pure_eq_ok] at h
      exact h.2 ▸ hb
  | c :: cs, hcs, b, b', cs', h, hb => by
      have hrest : ∀ d ∈ cs, BuildKeeps r Inv d.body :=
        fun d hd => hcs d (List.mem_cons_of_mem _ hd)
      rw [rebuildCtes] at h
      split at h
      case isTrue =>
        simp only [run_bind_eq_ok, run_pure_eq_ok] at h
        rcases h with ⟨c', b₁, hcte, cs'', b₂, hctes, -, rfl⟩
        have hb₁ := (cteOnce_preserves hsteady (hcs c List.mem_cons_self) hcte hb).1
        exact rebuildCtes_preserves hsteady hrest hctes hb₁
      case isFalse => exact rebuildCtes_preserves hsteady hrest h hb

/-- **A run is a series of insertions.**  What each of them keeps is kept by a run. -/
theorem rebuild_preserves (hsteady : Steady plan Inv) (hlocal : r.IsLocal) (n : Node)
    (hn : n ∈ plan.subnodes) : BuildKeeps r Inv n := by
  induction n using induct_below with
  | h n ih =>
      intro b b' n' h hb
      have hbelow : ∀ p ∈ n.parents, ∀ m ∈ p.subnodes, BuildKeeps r Inv m := by
        intro p hp m hm
        exact ih p hp m hm (mem_subnodes_trans hm (mem_subnodes_of_parent hp hn))
      have hparent : ∀ m ∈ n.parents, BuildKeeps r Inv m := by
        intro m hm
        exact hbelow m hm m (mem_subnodes_self m)
      cases n with
      | table id t | text id t =>
          refine once_preserves (fun b₁ hrun => ?_) h hb
          rcases run_pure_eq_ok.1 hrun with ⟨rfl, rfl⟩
          exact hsteady.keep hn hb
      | select s =>
          refine once_preserves (fun b₁ hrun => ?_) h hb
          simp only [run_bind_eq_ok, run_liftExcept_eq_ok, run_fresh, run_pure_eq_ok,
            Except.ok.injEq, Prod.mk.injEq] at hrun
          rcases hrun with ⟨columns, _, ⟨-, rfl⟩, source, b₂, hsource, joins, b₃, hjoins, ctes, b₄,
            hctes, _, _, ⟨rfl, rfl⟩, rfl, rfl⟩
          have hb₂ := hparent s.source (by simp [parents]) hsource hb
          have hb₃ := rebuildJoins_preserves
            (fun j hj => hparent j.source (by simp [parents, List.mem_map_of_mem hj])) hjoins hb₂
          have hb₄ := rebuildCtes_preserves hsteady (fun c hc => hbelow (.cte c)
            (by simp [parents, hc]) c.body (mem_subnodes_of_mem_parents (by simp [parents])))
            hctes hb₃
          exact hsteady.add (hlocal.id_eq _) hb₄
      | cte c =>
          refine once_preserves (fun b₁ hrun => ?_) h hb
          simp only [run_bind_eq_ok, run_pure_eq_ok] at hrun
          rcases hrun with ⟨c', b₂, hcte, rfl, rfl⟩
          rcases cteOnce_preserves hsteady (hparent c.body (by simp [parents])) hcte hb with
            ⟨hb₂, hdone⟩
          exact hsteady.again hdone hb₂
      | createTable id t query =>
          refine once_preserves (fun b₁ hrun => ?_) h hb
          simp only [run_bind_eq_ok, run_fresh, run_pure_eq_ok, Except.ok.injEq,
            Prod.mk.injEq] at hrun
          rcases hrun with ⟨query', b₂, hquery, _, _, ⟨rfl, rfl⟩, rfl, rfl⟩
          exact hsteady.add rfl (hparent query (by simp [parents]) hquery hb)

end Node

/-! ## Numbering -/

namespace Build

variable {plan : Node} {first : NodeId} {b : Build}

/-- What has been built has identities of its own: those of the given plan below `first`, and new
ones from `first` on, each given out once. -/
structure Numbered (plan : Node) (first : NodeId) (b : Build) : Prop where
  le_next : first ≤ b.next
  origin : ∀ {i : NodeId} {m : Node}, b.done[i]? = some m →
    m ∈ plan.subnodes ∨ first ≤ m.id ∧ m.id < b.next
  once : ∀ {i j : NodeId} {m m' : Node}, b.done[i]? = some m → b.done[j]? = some m' →
    first ≤ m.id → m.id = m'.id → m = m'

theorem numbered_start : Numbered plan first { next := first } where
  le_next := Nat.le_refl first
  origin h := by simp at h
  once h := by simp at h

/-- An entry after an insertion was there before or is the new one. -/
theorem getElem?_insert_done {i j : NodeId} {n' m : Node}
    (h : (b.done.insert i n')[j]? = some m) : b.done[j]? = some m ∨ m = n' := by
  rw [Std.TreeMap.getElem?_insert] at h
  split at h
  case isTrue => exact .inr (Option.some.inj h).symm
  case isFalse => exact .inl h

theorem Numbered.id_lt (h : Numbered plan first b) (hbelow : plan.IdsBelow first) {i : NodeId}
    {m : Node} (hm : b.done[i]? = some m) : m.id < b.next := by
  rcases h.origin hm with horigin | ⟨-, hlt⟩
  · exact Nat.lt_of_lt_of_le (hbelow m horigin) h.le_next
  · exact hlt

/-- Numbering is kept: a new node takes an identity that nothing built so far has. -/
theorem steady_numbered (hbelow : plan.IdsBelow first) : Steady plan (Numbered plan first) where
  keep {b n} hn hb := by
    refine ⟨hb.le_next, ?_, ?_⟩
    · intro i m hm
      rcases getElem?_insert_done hm with hold | rfl
      · exact hb.origin hold
      · exact .inl hn
    · -- a node that is kept lies below `first`
      intro i j m m' hm hm' hle hid
      rcases getElem?_insert_done hm with hold | rfl
      · rcases getElem?_insert_done hm' with hold' | rfl
        · exact hb.once hold hold' hle hid
        · exact absurd (hid ▸ hle) (Nat.not_le.2 (hbelow _ hn))
      · exact absurd hle (Nat.not_le.2 (hbelow _ hn))
  add {b i n'} hid hb := by
    have hfresh : ∀ {j : NodeId} {m : Node}, b.done[j]? = some m → m.id ≠ n'.id := by
      intro j m hm
      rw [hid]
      exact Nat.ne_of_lt (hb.id_lt hbelow hm)
    refine ⟨Nat.le_succ_of_le hb.le_next, ?_, ?_⟩
    · intro j m hm
      rcases getElem?_insert_done hm with hold | rfl
      · rcases hb.origin hold with horigin | ⟨hle, hlt⟩
        · exact .inl horigin
        · exact .inr ⟨hle, Nat.lt_succ_of_lt hlt⟩
      · rw [hid]
        exact .inr ⟨hb.le_next, Nat.lt_succ_self _⟩
    · intro j k m m' hm hm' hle heq
      rcases getElem?_insert_done hm with hold | hnew
      · rcases getElem?_insert_done hm' with hold' | hnew'
        · exact hb.once hold hold' hle heq
        · exact absurd (hnew' ▸ heq) (hfresh hold)
      · rcases getElem?_insert_done hm' with hold' | hnew'
        · exact absurd (hnew ▸ heq.symm) (hfresh hold')
        · rw [hnew, hnew']
  again {b i n'} hdone hb := by
    have hold : ∀ {j : NodeId} {m : Node}, (b.done.insert i n')[j]? = some m →
        ∃ k : NodeId, b.done[k]? = some m := by
      intro j m hm
      rcases getElem?_insert_done hm with hold | rfl
      · exact ⟨j, hold⟩
      · exact ⟨i, hdone⟩
    refine ⟨hb.le_next, ?_, ?_⟩
    · intro j m hm
      rcases hold hm with ⟨k, hk⟩
      exact hb.origin hk
    · intro j k m m' hm hm' hle heq
      rcases hold hm with ⟨j', hj'⟩
      rcases hold hm' with ⟨k', hk'⟩
      exact hb.once hj' hk' hle heq

/-- Two nodes that have been built are one if they have one identity. -/
theorem Numbered.eq_of_id_eq (h : Numbered plan first b) (hids : plan.IdsIdentify)
    (hbelow : plan.IdsBelow first) {i j : NodeId} {m m' : Node} (hm : b.done[i]? = some m)
    (hm' : b.done[j]? = some m') (hid : m.id = m'.id) : m = m' := by
  rcases h.origin hm with horigin | ⟨hle, -⟩
  · rcases h.origin hm' with horigin' | ⟨hle', -⟩
    · exact hids m horigin m' horigin' hid
    · exact absurd (hid ▸ hle') (Nat.not_le.2 (hbelow m horigin))
  · exact h.once hm hm' hle hid

/-- What has been built for different identities has different identities: a node that is kept has
its own, and every other node a new one. -/
structure Apart (plan : Node) (first : NodeId) (b : Build) : Prop extends Numbered plan first b where
  keeps : ∀ {i : NodeId} {m : Node}, b.done[i]? = some m → m.id < first → m.id = i
  apart : ∀ {i j : NodeId} {m m' : Node}, b.done[i]? = some m → b.done[j]? = some m' →
    m.id = m'.id → i = j

theorem apart_start : Apart plan first { next := first } where
  toNumbered := numbered_start
  keeps h := by simp at h
  apart h := by simp at h

/-- An insertion keeps what has been built apart if the new node has an identity that nothing built
for another identity has. -/
theorem Apart.insert (hb : Apart plan first b) {i next : NodeId} {n' : Node}
    (hnumbered : Numbered plan first { next, done := b.done.insert i n' })
    (hkeeps : n'.id < first → n'.id = i)
    (hapart : ∀ {j : NodeId} {m : Node}, b.done[j]? = some m → m.id = n'.id → j = i) :
    Apart plan first { next, done := b.done.insert i n' } := by
  have hcases : ∀ {j : NodeId} {m : Node}, (b.done.insert i n')[j]? = some m →
      b.done[j]? = some m ∨ j = i ∧ m = n' := by
    intro j m hm
    rw [Std.TreeMap.getElem?_insert] at hm
    split at hm
    case isTrue hid => exact .inr ⟨(Nat.compare_eq_eq.1 hid).symm, (Option.some.inj hm).symm⟩
    case isFalse => exact .inl hm
  refine ⟨hnumbered, ?_, ?_⟩
  · intro j m hm hlt
    rcases hcases hm with hold | ⟨rfl, rfl⟩
    · exact hb.keeps hold hlt
    · exact hkeeps hlt
  · intro j k m m' hm hm' hid
    rcases hcases hm with hold | ⟨rfl, rfl⟩
    · rcases hcases hm' with hold' | ⟨rfl, rfl⟩
      · exact hb.apart hold hold' hid
      · exact hapart hold hid
    · rcases hcases hm' with hold' | ⟨rfl, -⟩
      · exact (hapart hold' hid.symm).symm
      · rfl

theorem steady_apart (hbelow : plan.IdsBelow first) : Steady plan (Apart plan first) where
  keep {b n} hn hb := by
    refine hb.insert ((steady_numbered hbelow).keep hn hb.toNumbered) (fun _ => rfl) ?_
    intro j m hm hid
    rw [← hid]
    exact (hb.keeps hm (hid ▸ hbelow n hn)).symm
  add {b i n'} hid hb := by
    refine hb.insert ((steady_numbered hbelow).add hid hb.toNumbered) ?_ ?_
    · intro hlt
      exact absurd hb.le_next (Nat.not_le.2 (hid ▸ hlt))
    · intro j m hm heq
      exact absurd (heq.trans hid) (Nat.ne_of_lt (hb.id_lt hbelow hm))
  again {b i n'} hdone hb := by
    refine hb.insert ((steady_numbered hbelow).again hdone hb.toNumbered) (hb.keeps hdone) ?_
    intro j m hm hid
    exact hb.apart hm hdone hid

end Build

/-! ## The rebuilt plan -/

namespace Node

variable {r : Rebuilder} {n n' : Node} {next next' : NodeId}

/-- **Identities tell the nodes of the new plan apart**, and the next identity is free in it. -/
theorem rebuilt_identifies (hids : n.IdsIdentify) (hbelow : n.IdsBelow next) (hlocal : r.IsLocal)
    (h : n.rebuilt r next = .ok (n', next')) : n'.IdsIdentify ∧ n'.IdsBelow next' := by
  rcases rebuilt_eq_ok_iff.1 h with ⟨b, hrun, rfl⟩
  have hroot := mem_subnodes_self n
  have hnumbered : Build.Numbered n next b :=
    rebuild_preserves (Build.steady_numbered hbelow) hlocal n hroot hrun Build.numbered_start
  rcases sound_of_run hids hrun with ⟨hsound, hdone⟩
  have hentry : ∀ m ∈ n'.subnodes, ∃ i : NodeId, b.done[i]? = some m := by
    intro m hm
    rcases hsound.exists_origin_of_mem_subnodes hlocal n hroot n' hdone m hm with ⟨l, -, hl⟩
    exact ⟨l.id, hl⟩
  refine ⟨?_, ?_⟩
  · intro m hm m' hm' hid
    rcases hentry m hm with ⟨i, hi⟩
    rcases hentry m' hm' with ⟨j, hj⟩
    exact hnumbered.eq_of_id_eq hids hbelow hi hj hid
  · intro m hm
    rcases hentry m hm with ⟨i, hi⟩
    exact hnumbered.id_lt hbelow hi

end Node

/-! ## An example -/

/-- `WITH r AS (SELECT b.u AS u, b.v AS v FROM t b)
SELECT a.x AS p, d.y AS q
FROM (SELECT c.u AS x, c.v AS w FROM r c) a
LEFT JOIN (SELECT e.v AS y, e.u AS z FROM t e) d ON a.w = d.y`. -/
def Select.joinedProjections : Statement :=
  { Select.plain 8 [⟨.column ⟨"a", "x"⟩ true, "p"⟩, ⟨.column ⟨"d", "y"⟩ true, "q"⟩]
      (.select (.plain 5 [⟨.column ⟨"c", "u"⟩ true, "x"⟩, ⟨.column ⟨"c", "v"⟩ true, "w"⟩]
        (.table 4 ⟨none, "r"⟩) "c")) "a" with
    ctes := [⟨3, "r", .select (.plain 2
      [⟨.column ⟨"b", "u"⟩ true, "u"⟩, ⟨.column ⟨"b", "v"⟩ true, "v"⟩] (.table 1 ⟨none, "t"⟩) "b")⟩]
    joins := [⟨.select (.plain 7
      [⟨.column ⟨"e", "v"⟩ true, "y"⟩, ⟨.column ⟨"e", "u"⟩ true, "z"⟩] (.table 6 ⟨none, "t"⟩) "e"),
      "d", .leftOuter, some (.comparison (.column ⟨"a", "w"⟩ true) .eq (.column ⟨"d", "y"⟩ true))⟩] }

theorem idsIdentify_joinedProjections : (Node.select .joinedProjections).IdsIdentify :=
  Node.idsIdentify_of_nodup (by decide)

theorem idsBelow_joinedProjections : (Node.select .joinedProjections).IdsBelow 9 := by
  unfold Node.IdsBelow
  decide

end QueryPlan
