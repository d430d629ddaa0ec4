import QueryPlan.Proofs.Lists
import QueryPlan.Proofs.Subnodes
import QueryPlan.Rebuild

/-!
# What rebuilding a plan does

A pass builds each node once and remembers what it has built by identity.  What it remembers is a
homomorphism: the node built for `n` is `n` with every node that it reads replaced by what has been
built for that one, and with the pass's own changes (`Rebuilder.Forms`).

* `rebuild_sound` — if identities tell the nodes of a plan apart, then a run keeps the homomorphism,
  forgets nothing, and ends with an entry for the node that it builds.
* `Rebuilder.Reaches` — the nodes that a pass looks at: those below the plan, except through CTEs
  that it does not keep.  Each of them has an entry (`exists_done_of_reaches`).
* `Rebuilder.IsLocal` — a pass that leaves a statement, in the end, with nothing to read but what
  lies below it.  Then every node of the new plan is an entry (`exists_origin_of_mem_subnodes`), and
  what holds everywhere in it is shown entry by entry (`Sound.everywhere`).
* `rebuild_error` — a run fails only where the pass refuses a statement that it looks at.
-/

namespace QueryPlan

/-! ## Runs -/

namespace Build

theorem run_bind_eq_ok {α β : Type} {x : Rebuild α} {f : α → Rebuild β} {b b' : Build} {y : β} :
    (x >>= f).run b = .ok (y, b') ↔ ∃ a b₁, x.run b = .ok (a, b₁) ∧ (f a).run b₁ = .ok (y, b') := by
  rw [StateT.run_bind]
  cases hx : x.run b with
  | error e => simp [bind, Except.bind]
  | ok out =>
      obtain ⟨a, b₁⟩ := out
      simp [bind, Except.bind]

theorem run_bind_eq_error {α β : Type} {x : Rebuild α} {f : α → Rebuild β} {b : Build} {e : Error} :
    (x >>= f).run b = .error e ↔
      x.run b = .error e ∨ ∃ a b₁, x.run b = .ok (a, b₁) ∧ (f a).run b₁ = .error e := by
  rw [StateT.run_bind]
  cases hx : x.run b with
  | error e => simp [bind, Except.bind]
  | ok out =>
      obtain ⟨a, b₁⟩ := out
      simp [bind, Except.bind]

theorem run_pure_eq_ok {α : Type} {x y : α} {b b' : Build} :
    (pure x : Rebuild α).run b = .ok (y, b') ↔ x = y ∧ b = b' := by
  rw [StateT.run_pure]
  simp [pure, Except.pure]

theorem run_liftExcept_eq_ok {α : Type} {x : Except Error α} {y : α} {b b' : Build} :
    (liftM x : Rebuild α).run b = .ok (y, b') ↔ x = .ok y ∧ b = b' := by
  cases x <;> simp [liftM, monadLift, MonadLift.monadLift, StateT.lift, StateT.run, bind,
    Except.bind, pure, Except.pure]

theorem run_liftExcept_eq_error {α : Type} {x : Except Error α} {b : Build} {e : Error} :
    (liftM x : Rebuild α).run b = .error e ↔ x = .error e := by
  cases x <;> simp [liftM, monadLift, MonadLift.monadLift, StateT.lift, StateT.run, bind,
    Except.bind, pure, Except.pure]

theorem run_fresh (b : Build) :
    (fresh : Rebuild NodeId).run b = .ok (b.next, { b with next := b.next + 1 }) := rfl

theorem run_once_of_some {id : NodeId} {build : Rebuild Node} {n : Node} {b : Build}
    (h : b.done[id]? = some n) : (once id build).run b = .ok (n, b) := by
  simp only [once, StateT.run_bind, StateT.run_get, pure_bind, h]
  rfl

theorem run_once_of_none {id : NodeId} {build : Rebuild Node} {b : Build}
    (h : b.done[id]? = none) :
    (once id build).run b =
      (build.run b).map fun out => (out.1, { out.2 with done := out.2.done.insert id out.1 }) := by
  simp only [once, StateT.run_bind, StateT.run_get, pure_bind, h]
  cases build.run b <;> rfl

theorem run_cteOnce_of_some {c c' : Cte Node} {build : Rebuild Node} {b : Build}
    (h : b.done[c.id]?.bind Node.cte? = some c') : (cteOnce c build).run b = .ok (c', b) := by
  simp only [cteOnce, StateT.run_bind, StateT.run_get, pure_bind, h]
  rfl

theorem run_cteOnce_of_none {c : Cte Node} {build : Rebuild Node} {b : Build}
    (h : b.done[c.id]?.bind Node.cte? = none) :
    (cteOnce c build).run b =
      (build.run b).map fun out =>
        let c' := { c with id := out.2.next, body := out.1 }
        (c', { next := out.2.next + 1, done := out.2.done.insert c.id (.cte c') }) := by
  simp only [cteOnce, StateT.run_bind, StateT.run_get, pure_bind, h]
  cases build.run b <;> rfl

/-- What is remembered is given back, and anything else is built and then remembered. -/
theorem once_cases {id : NodeId} {build : Rebuild Node} {n : Node} {b b' : Build}
    (h : (once id build).run b = .ok (n, b')) :
    (b.done[id]? = some n ∧ b' = b) ∨ (b.done[id]? = none ∧
      ∃ b₁, build.run b = .ok (n, b₁) ∧ b' = { b₁ with done := b₁.done.insert id n }) := by
  cases hdone : b.done[id]? with
  | some m =>
      rw [run_once_of_some hdone] at h
      cases h
      exact .inl ⟨rfl, rfl⟩
  | none =>
      rw [run_once_of_none hdone] at h
      cases hrun : build.run b with
      | error e => simp [hrun, Except.map] at h
      | ok out =>
          rw [hrun] at h
          cases h
          exact .inr ⟨rfl, out.2, rfl, rfl⟩

theorem cteOnce_cases {c c' : Cte Node} {build : Rebuild Node} {b b' : Build}
    (h : (cteOnce c build).run b = .ok (c', b')) :
    (b.done[c.id]? = some (.cte c') ∧ b' = b) ∨ (b.done[c.id]?.bind Node.cte? = none ∧
      ∃ body b₁, build.run b = .ok (body, b₁) ∧ c' = { c with id := b₁.next, body } ∧
        b' = { next := b₁.next + 1, done := b₁.done.insert c.id (.cte c') }) := by
  cases hcte : b.done[c.id]?.bind Node.cte? with
  | some c₀ =>
      rw [run_cteOnce_of_some hcte] at h
      cases h
      rcases Option.bind_eq_some_iff.1 hcte with ⟨m, hm, hkind⟩
      have hsame : m = .cte c' := by
        cases m <;> simp_all [Node.cte?]
      exact .inl ⟨hsame ▸ hm, rfl⟩
  | none =>
      rw [run_cteOnce_of_none hcte] at h
      cases hrun : build.run b with
      | error e => simp [hrun, Except.map] at h
      | ok out =>
          rw [hrun] at h
          cases h
          exact .inr ⟨rfl, out.1, out.2, rfl, rfl, rfl⟩

end Build

/-! ## What is remembered -/

namespace Rebuilder

variable (r : Rebuilder)

/-- A join whose source has been built. -/
def FormsJoin (done : Std.TreeMap NodeId Node) (j j' : Join Node) : Prop :=
  ∃ source, done[j.source.id]? = some source ∧ j' = { j with source }

/-- A CTE that has been built. -/
def FormsCte (done : Std.TreeMap NodeId Node) (c c' : Cte Node) : Prop :=
  done[c.id]? = some (.cte c')

/-- What a pass builds for a node, given what it has built for the nodes that the node reads. -/
def Forms (done : Std.TreeMap NodeId Node) : Node → Node → Prop
  | .select s, n' => ∃ id columns source joins ctes,
      r.columns s = .ok columns ∧ done[s.source.id]? = some source ∧
      List.Forall₂ (FormsJoin done) s.joins joins ∧
      List.Forall₂ (FormsCte done) (s.ctes.filter r.keeps) ctes ∧
      n' = .select (r.finish { s with id, columns, source, joins, ctes })
  | .cte c, n' => ∃ id body, done[c.body.id]? = some body ∧ n' = .cte { c with id, body }
  | .createTable _ t query, n' =>
      ∃ id query', done[query.id]? = some query' ∧ n' = .createTable id t query'
  | n, n' => n' = n

/-- Everything that is remembered for a node of the plan was built for it. -/
def Sound (plan : Node) (done : Std.TreeMap NodeId Node) : Prop :=
  ∀ n ∈ plan.subnodes, ∀ n', done[n.id]? = some n' → r.Forms done n n'

/-- What building some nodes does to what is remembered: nothing is forgotten, and nothing is added
but for nodes below these. -/
structure Adds (nodes : List Node) (done done' : Std.TreeMap NodeId Node) : Prop where
  kept : ∀ {i : NodeId} {n' : Node}, done[i]? = some n' → done'[i]? = some n'
  frame : ∀ {i : NodeId} {n' : Node}, done'[i]? = some n' →
    done[i]? = some n' ∨ ∃ x ∈ nodes, ∃ y ∈ x.subnodes, y.id = i

variable {r} {done done' done'' : Std.TreeMap NodeId Node}

theorem Adds.refl : Adds [] done done :=
  ⟨fun h => h, fun h => .inl h⟩

theorem Adds.trans {xs ys : List Node} (h : Adds xs done done') (h' : Adds ys done' done'') :
    Adds (xs ++ ys) done done'' where
  kept hi := h'.kept (h.kept hi)
  frame hi := by
    rcases h'.frame hi with hi | ⟨y, hy, hi⟩
    · rcases h.frame hi with hi | ⟨x, hx, hi⟩
      · exact .inl hi
      · exact .inr ⟨x, List.mem_append_left _ hx, hi⟩
    · exact .inr ⟨y, List.mem_append_right _ hy, hi⟩

theorem Adds.mono {xs ys : List Node} (h : Adds xs done done') (hsub : xs ⊆ ys) :
    Adds ys done done' where
  kept := h.kept
  frame hi := (h.frame hi).imp_right fun ⟨x, hx, hy⟩ => ⟨x, hsub hx, hy⟩

/-- What is below nodes below a node is below that node. -/
theorem Adds.below {n : Node} {xs : List Node} (h : Adds xs done done')
    (hxs : ∀ x ∈ xs, x ∈ n.subnodes) : Adds [n] done done' where
  kept := h.kept
  frame hi := (h.frame hi).imp_right fun ⟨x, hx, y, hy, hid⟩ =>
    ⟨n, by simp, y, Node.mem_subnodes_trans hy (hxs x hx), hid⟩

/-- Nothing is remembered for a node while the nodes that it reads are built. -/
theorem Adds.eq_none {plan n : Node} {xs : List Node} (h : Adds xs done done')
    (hids : plan.IdsIdentify) (hn : n ∈ plan.subnodes) (hxs : xs ⊆ n.parents)
    (hnone : done[n.id]? = none) : done'[n.id]? = none := by
  refine Option.eq_none_iff_forall_ne_some.2 fun n' hn' => ?_
  rcases h.frame hn' with h | ⟨x, hx, y, hy, hid⟩
  · simp [hnone] at h
  · exact hids.id_ne_of_below hn (hxs hx) hy hid

theorem Forms.mono
    (hkept : ∀ {i : NodeId} {n' : Node}, done[i]? = some n' → done'[i]? = some n') {n n' : Node}
    (h : r.Forms done n n') : r.Forms done' n n' := by
  cases n with
  | table | text => exact h
  | select s =>
      obtain ⟨id, columns, source, joins, ctes, hcolumns, hsource, hjoins, hctes, heq⟩ := h
      refine ⟨id, columns, source, joins, ctes, hcolumns, hkept hsource,
        hjoins.imp fun j j' hj => ?_, hctes.imp fun c c' hc => hkept hc, heq⟩
      rcases hj with ⟨source', hsource', hj'⟩
      exact ⟨source', hkept hsource', hj'⟩
  | cte c =>
      obtain ⟨id, body, hbody, heq⟩ := h
      exact ⟨id, body, hkept hbody, heq⟩
  | createTable id t query =>
      obtain ⟨id', query', hquery, heq⟩ := h
      exact ⟨id', query', hkept hquery, heq⟩

/-- **One node more.**  What has been built for a node can be remembered, unless something else is
remembered for it: if `F` says what is built for a node from what has been built for others, then `F`
holds of all that is remembered afterwards. -/
theorem insert_remembered {F : Std.TreeMap NodeId Node → Node → Node → Prop} {plan n n' : Node}
    (hmono : ∀ {done done' : Std.TreeMap NodeId Node} {m m' : Node},
      (∀ {i : NodeId} {l' : Node}, done[i]? = some l' → done'[i]? = some l') →
        F done m m' → F done' m m')
    (h : ∀ m ∈ plan.subnodes, ∀ m', done[m.id]? = some m' → F done m m') (hids : plan.IdsIdentify)
    (hn : n ∈ plan.subnodes) (hforms : F done n n') (hold : ∀ m, done[n.id]? = some m → m = n') :
    (∀ m ∈ plan.subnodes, ∀ m', (done.insert n.id n')[m.id]? = some m' →
        F (done.insert n.id n') m m') ∧
      Adds [n] done (done.insert n.id n') := by
  have hkept : ∀ {i : NodeId} {m : Node}, done[i]? = some m →
      (done.insert n.id n')[i]? = some m := by
    intro i m hi
    rw [Std.TreeMap.getElem?_insert]
    split
    case isTrue hid =>
      rw [Nat.compare_eq_eq] at hid
      rw [hold m (hid ▸ hi)]
    case isFalse => exact hi
  refine ⟨fun m hm m' hm' => ?_, hkept, fun {i m'} hm' => ?_⟩
  · rw [Std.TreeMap.getElem?_insert] at hm'
    split at hm'
    case isTrue hid =>
      obtain rfl := hids n hn m hm (Nat.compare_eq_eq.1 hid)
      obtain rfl := Option.some.inj hm'
      exact hmono hkept hforms
    case isFalse => exact hmono hkept (h m hm m' hm')
  · rw [Std.TreeMap.getElem?_insert] at hm'
    split at hm'
    case isTrue hid =>
      exact .inr ⟨n, by simp, n, Node.mem_subnodes_self n, Nat.compare_eq_eq.1 hid⟩
    case isFalse => exact .inl hm'

theorem Sound.insert {plan n n' : Node} (h : r.Sound plan done) (hids : plan.IdsIdentify)
    (hn : n ∈ plan.subnodes) (hforms : r.Forms done n n')
    (hold : ∀ m, done[n.id]? = some m → m = n') :
    r.Sound plan (done.insert n.id n') ∧ Adds [n] done (done.insert n.id n') :=
  insert_remembered (fun hkept => Forms.mono hkept) h hids hn hforms hold

/-- What is remembered for a CTE is a CTE. -/
theorem Sound.bind_cte? {plan : Node} {c : Cte Node} (h : r.Sound plan done)
    (hc : .cte c ∈ plan.subnodes) {n' : Node} (hn' : done[c.id]? = some n') :
    ∃ c', n' = .cte c' ∧ done[c.id]?.bind Node.cte? = some c' := by
  obtain ⟨id, body, -, rfl⟩ := h (.cte c) hc n' hn'
  exact ⟨_, rfl, by simp [hn', Node.cte?]⟩

end Rebuilder

/-! ## One run

A run is followed through the recursion: what is shown of one node is shown of the sources of joins
and of CTEs in order, and from these of the node that reads them. -/

namespace Node

open Rebuilder

variable {r : Rebuilder} {plan : Node}

/-- What a run guarantees that builds a node. -/
def BuildsSoundly (r : Rebuilder) (plan n : Node) : Prop :=
  ∀ (b b' : Build) (n' : Node), r.Sound plan b.done → (n.rebuild r).run b = .ok (n', b') →
    r.Sound plan b'.done ∧ Adds [n] b.done b'.done ∧ b'.done[n.id]? = some n'

/-- A node that is not yet remembered is built from what it reads, and remembered. -/
theorem once_sound {n n' : Node} {build : Rebuild Node} (hids : plan.IdsIdentify)
    (hn : n ∈ plan.subnodes) {b b' : Build} (hb : r.Sound plan b.done)
    (hbuild : ∀ b₁, b.done[n.id]? = none → build.run b = .ok (n', b₁) →
      r.Sound plan b₁.done ∧ Adds (n :: n.parents) b.done b₁.done ∧ r.Forms b₁.done n n' ∧
        ∀ m, b₁.done[n.id]? = some m → m = n')
    (h : (Build.once n.id build).run b = .ok (n', b')) :
    r.Sound plan b'.done ∧ Adds [n] b.done b'.done ∧ b'.done[n.id]? = some n' := by
  rcases Build.once_cases h with ⟨hdone, rfl⟩ | ⟨hdone, b₁, hrun, rfl⟩
  · exact ⟨hb, Adds.refl.mono (by simp), hdone⟩
  · obtain ⟨hsound, hadds, hforms, hold⟩ := hbuild b₁ hdone hrun
    obtain ⟨hsound', hadds'⟩ := hsound.insert hids hn hforms hold
    refine ⟨hsound', (hadds.trans hadds').below fun x hx => ?_, by simp⟩
    simp only [List.cons_append, List.mem_cons, List.mem_append, List.not_mem_nil, or_false] at hx
    rcases hx with rfl | hx | rfl
    · exact mem_subnodes_self x
    · exact mem_subnodes_of_mem_parents hx
    · exact mem_subnodes_self x

theorem rebuildJoins_sound : ∀ {js : List (Join Node)},
    (∀ j ∈ js, BuildsSoundly r plan j.source) → ∀ {b b' : Build} {js' : List (Join Node)},
    r.Sound plan b.done → (rebuildJoins r js).run b = .ok (js', b') →
    r.Sound plan b'.done ∧ Adds (js.map Join.source) b.done b'.done ∧
      List.Forall₂ (FormsJoin b'.done) js js'
  | [], _, b, b', js', hb, h => by
      rw [rebuildJoins, Build.run_pure_eq_ok] at h
      obtain ⟨rfl, rfl⟩ := h
      exact ⟨hb, .refl, .nil⟩
  | j :: js, hjs, b, b', js', hb, h => by
      simp only [rebuildJoins, Build.run_bind_eq_ok, Build.run_pure_eq_ok] at h
      obtain ⟨source, b₁, hsource, js'', b₂, hrest, rfl, rfl⟩ := h
      obtain ⟨hb₁, hadds, hdone⟩ := hjs j List.mem_cons_self b b₁ source hb hsource
      obtain ⟨hb₂, hadds', hforms⟩ :=
        rebuildJoins_sound (fun k hk => hjs k (List.mem_cons_of_mem _ hk)) hb₁ hrest
      exact ⟨hb₂, hadds.trans hadds', .cons ⟨source, hadds'.kept hdone, rfl⟩ hforms⟩

theorem cteOnce_sound {c c' : Cte Node} (hids : plan.IdsIdentify) (hc : .cte c ∈ plan.subnodes)
    (hbody : BuildsSoundly r plan c.body) {b b' : Build} (hb : r.Sound plan b.done)
    (h : (Build.cteOnce c (c.body.rebuild r)).run b = .ok (c', b')) :
    r.Sound plan b'.done ∧ Adds [.cte c] b.done b'.done ∧ FormsCte b'.done c c' := by
  rcases Build.cteOnce_cases h with ⟨hdone, rfl⟩ | ⟨hcte, body, b₁, hrun, rfl, rfl⟩
  · exact ⟨hb, Adds.refl.mono (by simp), hdone⟩
  · have hdone : b.done[c.id]? = none := by
      refine Option.eq_none_iff_forall_ne_some.2 fun m hm => ?_
      obtain ⟨c₀, -, hc₀⟩ := hb.bind_cte? hc hm
      simp [hcte] at hc₀
    obtain ⟨hb₁, hadds, hdone₁⟩ := hbody b b₁ body hb hrun
    have hnone : b₁.done[c.id]? = none := hadds.eq_none hids hc (by simp [parents]) hdone
    obtain ⟨hsound, hadds'⟩ := hb₁.insert hids hc ⟨b₁.next, body, hdone₁, rfl⟩
      fun m hm => by simp [Node.id, hnone] at hm
    refine ⟨hsound, (hadds.trans hadds').below fun x hx => ?_, by simp [FormsCte]⟩
    simp only [List.cons_append, List.nil_append, List.mem_cons, List.not_mem_nil, or_false] at hx
    rcases hx with rfl | rfl
    · exact mem_subnodes_of_mem_parents (by simp [parents])
    · exact mem_subnodes_self _

theorem rebuildCtes_sound (hids : plan.IdsIdentify) : ∀ {cs : List (Cte Node)},
    (∀ c ∈ cs, .cte c ∈ plan.subnodes ∧ BuildsSoundly r plan c.body) →
    ∀ {b b' : Build} {cs' : List (Cte Node)},
    r.Sound plan b.done → (rebuildCtes r cs).run b = .ok (cs', b') →
    r.Sound plan b'.done ∧ Adds (cs.map Node.cte) b.done b'.done ∧
      List.Forall₂ (FormsCte b'.done) (cs.filter r.keeps) cs'
  | [], _, b, b', cs', hb, h => by
      rw [rebuildCtes, Build.run_pure_eq_ok] at h
      obtain ⟨rfl, rfl⟩ := h
      exact ⟨hb, .refl, .nil⟩
  | c :: cs, hcs, b, b', cs', hb, h => by
      have hrest : ∀ d ∈ cs, .cte d ∈ plan.subnodes ∧ BuildsSoundly r plan d.body :=
        fun d hd => hcs d (List.mem_cons_of_mem _ hd)
      rw [rebuildCtes] at h
      split at h
      case isTrue hkeeps =>
        simp only [Build.run_bind_eq_ok, Build.run_pure_eq_ok] at h
        obtain ⟨c', b₁, hcte, cs'', b₂, hctes, rfl, rfl⟩ := h
        obtain ⟨hc, hbody⟩ := hcs c List.mem_cons_self
        obtain ⟨hb₁, hadds, hforms⟩ := cteOnce_sound hids hc hbody hb hcte
        obtain ⟨hb₂, hadds', hforms'⟩ := rebuildCtes_sound hids hrest hb₁ hctes
        rw [List.filter_cons_of_pos hkeeps]
        exact ⟨hb₂, hadds.trans hadds', .cons (hadds'.kept hforms) hforms'⟩
      case isFalse hkeeps =>
        obtain ⟨hb', hadds, hforms⟩ := rebuildCtes_sound hids hrest hb h
        rw [List.filter_cons_of_neg hkeeps]
        exact ⟨hb', hadds.mono (by simp), hforms⟩

/-- **A run is a homomorphism.**  Where identities tell the nodes of a plan apart, a run that builds
a node of the plan keeps what is remembered sound, adds to it only for nodes below that node, and
ends with what it returns remembered for it. -/
theorem rebuild_sound (hids : plan.IdsIdentify) (n : Node) (hn : n ∈ plan.subnodes) :
    BuildsSoundly r plan n := by
  induction n using induct_below with
  | h n ih =>
      intro b b' n' hb h
      have hbelow : ∀ p ∈ n.parents, ∀ m ∈ p.subnodes, BuildsSoundly r plan m := fun p hp m hm =>
        ih p hp m hm (mem_subnodes_trans hm (mem_subnodes_of_parent hp hn))
      have hparent : ∀ m ∈ n.parents, BuildsSoundly r plan m := fun m hm =>
        hbelow m hm m (mem_subnodes_self m)
      cases n with
      | table id t | text id t =>
          refine once_sound hids hn hb (fun b₁ hnone hrun => ?_) h
          obtain ⟨rfl, rfl⟩ := Build.run_pure_eq_ok.1 hrun
          exact ⟨hb, Adds.refl.mono (by simp), rfl, fun m hm => by simp [hnone] at hm⟩
      | select s =>
          refine once_sound hids hn hb (fun b₁ hnone hrun => ?_) h
          simp only [Build.run_bind_eq_ok, Build.run_liftExcept_eq_ok, Build.run_fresh,
            Build.run_pure_eq_ok, Except.ok.injEq, Prod.mk.injEq] at hrun
          obtain ⟨columns, _, ⟨hcolumns, rfl⟩, source, b₂, hsource, joins, b₃, hjoins, ctes, b₄,
            hctes, _, _, ⟨rfl, rfl⟩, rfl, rfl⟩ := hrun
          obtain ⟨hb₂, hadds₂, hdone⟩ := hparent s.source (by simp [parents]) _ _ _ hb hsource
          obtain ⟨hb₃, hadds₃, hformsJoins⟩ := rebuildJoins_sound
            (fun j hj => hparent j.source (by simp [parents, List.mem_map_of_mem hj])) hb₂ hjoins
          have hcte : ∀ c ∈ s.ctes, .cte c ∈ plan.subnodes ∧ BuildsSoundly r plan c.body := by
            intro c hc
            have hp : .cte c ∈ (Node.select s).parents := by simp [parents, hc]
            exact ⟨mem_subnodes_of_parent hp hn,
              hbelow _ hp _ (mem_subnodes_of_mem_parents (by simp [parents]))⟩
          obtain ⟨hb₄, hadds₄, hformsCtes⟩ := rebuildCtes_sound hids hcte hb₃ hctes
          have hadds : Adds (Node.select s).parents b.done b₄.done := by
            have htrans := (hadds₂.trans hadds₃).trans hadds₄
            rwa [List.append_assoc] at htrans
          have hformsJoins' : List.Forall₂ (FormsJoin b₄.done) s.joins joins := by
            refine hformsJoins.imp ?_
            intro j j' hj
            rcases hj with ⟨source', hsource', hj'⟩
            exact ⟨source', hadds₄.kept hsource', hj'⟩
          refine ⟨hb₄, hadds.mono (by simp), ⟨b₄.next, columns, source, joins, ctes, hcolumns,
            hadds₄.kept (hadds₃.kept hdone), hformsJoins', hformsCtes, rfl⟩, fun m hm => ?_⟩
          rw [show b₄.done[(Node.select s).id]? = none from
            hadds.eq_none hids hn (List.Subset.refl _) hnone] at hm
          simp at hm
      | cte c =>
          refine once_sound hids hn hb (fun b₁ hnone hrun => ?_) h
          simp only [Build.run_bind_eq_ok, Build.run_pure_eq_ok] at hrun
          obtain ⟨c', b₂, hcte, rfl, rfl⟩ := hrun
          obtain ⟨hb₂, hadds, hforms⟩ :=
            cteOnce_sound hids hn (hparent c.body (by simp [parents])) hb hcte
          refine ⟨hb₂, hadds.mono (by simp), hb₂ (.cte c) hn _ hforms, fun m hm => ?_⟩
          exact Option.some.inj (hm.symm.trans hforms)
      | createTable id t query =>
          refine once_sound hids hn hb (fun b₁ hnone hrun => ?_) h
          simp only [Build.run_bind_eq_ok, Build.run_fresh, Build.run_pure_eq_ok, Except.ok.injEq,
            Prod.mk.injEq] at hrun
          obtain ⟨query', b₂, hquery, _, _, ⟨rfl, rfl⟩, rfl, rfl⟩ := hrun
          obtain ⟨hb₂, hadds, hdone⟩ := hparent query (by simp [parents]) _ _ _ hb hquery
          refine ⟨hb₂, hadds.mono (by simp [parents]), ⟨b₂.next, query', hdone, rfl⟩,
            fun m hm => ?_⟩
          rw [show b₂.done[(Node.createTable id t query).id]? = none from
            hadds.eq_none hids hn (by simp [parents]) hnone] at hm
          simp at hm

section Whole

variable {n n' : Node} {next next' : NodeId}

theorem rebuilt_eq_ok_iff :
    n.rebuilt r next = .ok (n', next') ↔
      ∃ b, (n.rebuild r).run { next } = .ok (n', b) ∧ b.next = next' := by
  unfold rebuilt
  cases hrun : (n.rebuild r).run { next } with
  | error e => simp [bind, Except.bind]
  | ok out =>
      rcases out with ⟨m, b⟩
      simp [bind, Except.bind, pure, Except.pure, and_assoc]

/-- A run on a whole plan starts with nothing remembered. -/
theorem sound_of_run {b : Build} (hids : n.IdsIdentify)
    (hrun : (n.rebuild r).run { next } = .ok (n', b)) :
    r.Sound n b.done ∧ b.done[n.id]? = some n' := by
  have hnone : r.Sound n ({ next } : Build).done := by
    intro m _ m' hm'
    simp at hm'
  rcases rebuild_sound hids n (mem_subnodes_self n) _ _ _ hnone hrun with ⟨hsound, -, hdone⟩
  exact ⟨hsound, hdone⟩

end Whole

end Node

/-- The identity of what has been built for an identity. -/
def newId (done : Std.TreeMap NodeId Node) (i : NodeId) : NodeId :=
  (done[i]?.map Node.id).getD i

theorem newId_of_done {done : Std.TreeMap NodeId Node} {i : NodeId} {n' : Node}
    (h : done[i]? = some n') : newId done i = n'.id := by
  rw [newId, h]
  rfl

/-! ## The nodes that a pass looks at -/

namespace Rebuilder

variable {r : Rebuilder}

/-- The nodes that a pass builds before it builds a node. -/
def reads (r : Rebuilder) : Node → List Node
  | .select s => s.source :: (s.joins.map Join.source ++ (s.ctes.filter r.keeps).map .cte)
  | n => n.parents

/-- Whether a pass looks at a node when it builds another one. -/
inductive Reaches (r : Rebuilder) : Node → Node → Prop
  | refl (n : Node) : Reaches r n n
  | step {n m l : Node} : m ∈ r.reads n → Reaches r m l → Reaches r n l

/-- For a statement a pass builds its sources and the CTEs that it keeps. -/
theorem reads_select (r : Rebuilder) (s : Statement) :
    r.reads (.select s) = s.sourceNodes ++ (s.ctes.filter r.keeps).map .cte := by
  simp [reads, Select.sourceNodes, Select.sources]

theorem mem_reads_select {m : Node} {s : Statement} : m ∈ r.reads (.select s) ↔
    m ∈ s.sourceNodes ∨ ∃ c ∈ s.ctes, r.keeps c = true ∧ m = .cte c := by
  simp only [reads_select, List.mem_append, List.mem_map, List.mem_filter, and_assoc,
    eq_comm (a := m)]

theorem mem_parents_of_mem_reads {m n : Node} (h : m ∈ r.reads n) : m ∈ n.parents := by
  cases n with
  | select s =>
      rw [Select.parents_select, List.mem_append]
      rcases mem_reads_select.1 h with hsource | ⟨c, hc, -, rfl⟩
      · exact .inl hsource
      · exact .inr (List.mem_map_of_mem hc)
  | _ => exact h

theorem Reaches.mem_subnodes {n l : Node} (h : r.Reaches n l) : l ∈ n.subnodes := by
  induction h with
  | refl n => exact Node.mem_subnodes_self n
  | step hm _ ih => exact Node.mem_subnodes_iff.2 (.inr ⟨_, mem_parents_of_mem_reads hm, ih⟩)

theorem Reaches.trans {n m l : Node} (h : r.Reaches n m) (h' : r.Reaches m l) :
    r.Reaches n l := by
  induction h with
  | refl => exact h'
  | step hm _ ih => exact .step hm (ih h')

/-- What the nodes of a plan pass on to everything that is read for them reaches every node that a
pass looks at. -/
theorem Reaches.passes_on {plan : Node} {P : Node → Prop}
    (hpass : ∀ n ∈ plan.subnodes, P n → ∀ m ∈ r.reads n, P m) {n l : Node} (h : r.Reaches n l)
    (hn : n ∈ plan.subnodes) (hP : P n) : P l := by
  induction h with
  | refl => exact hP
  | step hm _ ih =>
      exact ih (Node.mem_subnodes_of_parent (mem_parents_of_mem_reads hm) hn) (hpass _ hn hP _ hm)

/-- What a node reads has been built when the node has. -/
theorem Forms.exists_done {done : Std.TreeMap NodeId Node} {n n' m : Node}
    (h : r.Forms done n n') (hm : m ∈ r.reads n) : ∃ m', done[m.id]? = some m' := by
  cases n with
  | table | text => simp [reads, Node.parents] at hm
  | select s =>
      obtain ⟨id, columns, source, joins, ctes, -, hsource, hjoins, hctes, -⟩ := h
      simp only [reads, List.mem_cons, List.mem_append, List.mem_map] at hm
      rcases hm with rfl | ⟨j, hj, rfl⟩ | ⟨c, hc, rfl⟩
      · exact ⟨source, hsource⟩
      · obtain ⟨j', -, source', hsource', -⟩ := exists_right_of_forall₂ hjoins j hj
        exact ⟨source', hsource'⟩
      · obtain ⟨c', -, hc'⟩ := exists_right_of_forall₂ hctes c hc
        exact ⟨.cte c', hc'⟩
  | cte c =>
      obtain ⟨id, body, hbody, -⟩ := h
      obtain rfl : m = c.body := by simpa [reads, Node.parents] using hm
      exact ⟨body, hbody⟩
  | createTable id t query =>
      obtain ⟨id', query', hquery, -⟩ := h
      obtain rfl : m = query := by simpa [reads, Node.parents] using hm
      exact ⟨query', hquery⟩

/-- Every node that a pass looks at has been built in the end. -/
theorem Sound.exists_done_of_reaches {plan n l : Node} {done : Std.TreeMap NodeId Node}
    (hsound : r.Sound plan done) (hn : n ∈ plan.subnodes) (hdone : ∃ n', done[n.id]? = some n')
    (h : r.Reaches n l) : ∃ l', done[l.id]? = some l' := by
  refine h.passes_on (P := fun m => ∃ m', done[m.id]? = some m') ?_ hn hdone
  rintro k hk ⟨k', hk'⟩ m hm
  exact (hsound k hk k' hk').exists_done hm

/-- A statement whose sources and CTEs have been built, before the pass makes its last changes. -/
structure Prepares (r : Rebuilder) (done : Std.TreeMap NodeId Node) (s s₀ : Statement) : Prop where
  columns : r.columns s = .ok s₀.columns
  source : done[s.source.id]? = some s₀.source
  joins : List.Forall₂ (FormsJoin done) s.joins s₀.joins
  ctes : List.Forall₂ (FormsCte done) (s.ctes.filter r.keeps) s₀.ctes
  clauses : s₀ = { s with
    id := s₀.id, columns := s₀.columns, source := s₀.source, joins := s₀.joins, ctes := s₀.ctes }

theorem Forms.exists_prepares {done : Std.TreeMap NodeId Node} {s : Statement} {n' : Node}
    (h : r.Forms done (.select s) n') :
    ∃ s₀, r.Prepares done s s₀ ∧ n' = .select (r.finish s₀) := by
  rcases h with ⟨id, columns, source, joins, ctes, hcolumns, hsource, hjoins, hctes, heq⟩
  exact ⟨_, ⟨hcolumns, hsource, hjoins, hctes, rfl⟩, heq⟩

/-- A statement that has been built was built for a statement. -/
theorem Forms.exists_prepares_of_select {done : Std.TreeMap NodeId Node} {n : Node}
    {s' : Statement} (h : r.Forms done n (.select s')) :
    ∃ s s₀, n = .select s ∧ r.Prepares done s s₀ ∧ s' = r.finish s₀ := by
  cases n with
  | select s =>
      rcases h.exists_prepares with ⟨s₀, hprepares, heq⟩
      exact ⟨s, s₀, rfl, hprepares, Node.select.inj heq⟩
  | table | text => cases (show Node.select s' = _ from h)
  | cte c => rcases h with ⟨_, _, -, heq⟩; cases heq
  | createTable id t query => rcases h with ⟨_, _, -, heq⟩; cases heq

/-- What a prepared statement reads has been built, one by one, for what the given statement reads. -/
theorem Prepares.reads_match {done : Std.TreeMap NodeId Node} {s s₀ : Statement}
    (h : r.Prepares done s s₀) :
    List.Forall₂ (fun m m' : Node => done[m.id]? = some m') (r.reads (.select s))
      (Node.select s₀).parents := by
  refine .cons h.source (List.rel_append ?_ ?_)
  · rw [List.forall₂_map_left_iff, List.forall₂_map_right_iff]
    refine h.joins.imp ?_
    rintro j j' ⟨source, hsource, rfl⟩
    exact hsource
  · rw [List.forall₂_map_left_iff, List.forall₂_map_right_iff]
    exact h.ctes

/-- What has been built for a node reads, one by one, what has been built for what the node reads, if
the pass makes no changes to that in the end. -/
theorem Forms.reads_match {done : Std.TreeMap NodeId Node} {n n' : Node}
    (hfinish : ∀ s, (Node.select (r.finish s)).parents = (Node.select s).parents)
    (h : r.Forms done n n') :
    List.Forall₂ (fun m m' : Node => done[m.id]? = some m') (r.reads n) n'.parents := by
  cases n with
  | table | text =>
      obtain rfl : n' = _ := h
      exact .nil
  | cte c =>
      obtain ⟨id, body, hbody, rfl⟩ := h
      exact .cons hbody .nil
  | createTable id t query =>
      obtain ⟨id', query', hquery, rfl⟩ := h
      exact .cons hquery .nil
  | select s =>
      obtain ⟨s₀, hprepares, rfl⟩ := h.exists_prepares
      rw [hfinish]
      exact hprepares.reads_match

/-- A pass is local if what it makes of a statement in the end keeps the identity of the statement
and reads nothing but what lies below the statement. -/
structure IsLocal (r : Rebuilder) : Prop where
  id_eq : ∀ s, (r.finish s).id = s.id
  below : ∀ s, ∀ m ∈ (Node.select (r.finish s)).parents,
    ∃ p ∈ (Node.select s).parents, m ∈ p.subnodes

theorem isLocal_of_finish_eq_id (h : r.finish = id) : r.IsLocal where
  id_eq s := by rw [h, id]
  below s m hm := by
    rw [h, id] at hm
    exact ⟨m, hm, Node.mem_subnodes_self m⟩

/-- What a node reads that a local pass has built lies below what has been built for a node that the
given one reads. -/
theorem Forms.exists_origin (hlocal : r.IsLocal) {done : Std.TreeMap NodeId Node} {n n' m' : Node}
    (h : r.Forms done n n') (hm' : m' ∈ n'.parents) :
    ∃ m ∈ r.reads n, ∃ p', done[m.id]? = some p' ∧ m' ∈ p'.subnodes := by
  cases n with
  | table | text =>
      obtain rfl : n' = _ := h
      simp [Node.parents] at hm'
  | select s =>
      rcases h.exists_prepares with ⟨s₀, hprepares, rfl⟩
      rcases hlocal.below s₀ m' hm' with ⟨p', hp', hbelow⟩
      rcases exists_left_of_forall₂ hprepares.reads_match p' hp' with ⟨m, hm, hdone⟩
      exact ⟨m, hm, p', hdone, hbelow⟩
  | cte c =>
      obtain ⟨id, body, hbody, rfl⟩ := h
      obtain rfl : m' = body := by simpa [Node.parents] using hm'
      exact ⟨c.body, by simp [reads, Node.parents], m', hbody, Node.mem_subnodes_self m'⟩
  | createTable id t query =>
      obtain ⟨id', query', hquery, rfl⟩ := h
      obtain rfl : m' = query' := by simpa [Node.parents] using hm'
      exact ⟨query, by simp [reads, Node.parents], m', hquery, Node.mem_subnodes_self m'⟩

/-- Every node of the new plan was built for a node that the pass looks at. -/
theorem Sound.exists_origin_of_mem_subnodes {plan : Node} {done : Std.TreeMap NodeId Node}
    (hsound : r.Sound plan done) (hlocal : r.IsLocal) (n : Node) :
    n ∈ plan.subnodes → ∀ n', done[n.id]? = some n' → ∀ l' ∈ n'.subnodes,
      ∃ l, r.Reaches n l ∧ done[l.id]? = some l' := by
  induction n using Node.induct_parents with
  | h n ih =>
      intro hn n' hdone l' hl'
      rcases Node.mem_subnodes_iff.1 hl' with rfl | ⟨m', hm', hl'⟩
      · exact ⟨n, .refl n, hdone⟩
      · obtain ⟨m, hm, p', hp', hbelow⟩ := (hsound n hn n' hdone).exists_origin hlocal hm'
        have hparent := mem_parents_of_mem_reads hm
        obtain ⟨l, hreach, hl⟩ := ih m hparent (Node.mem_subnodes_of_parent hparent hn) p' hp' l'
          (Node.mem_subnodes_trans hl' hbelow)
        exact ⟨l, .step hm hreach, hl⟩

/-- **What holds of everything that is built.**  If a property passes from all that has been built
for the nodes that a node reads to what is built for the node, then it holds everywhere in the new
plan. -/
theorem Sound.everywhere {plan : Node} {done : Std.TreeMap NodeId Node} {L : Node → Prop}
    (hsound : r.Sound plan done) (hlocal : r.IsLocal)
    (hbuilt : ∀ n ∈ plan.subnodes, ∀ n', r.Forms done n n' →
      (∀ m ∈ r.reads n, ∀ m', done[m.id]? = some m' → m'.Everywhere L) → L n')
    (n : Node) : n ∈ plan.subnodes → ∀ n', done[n.id]? = some n' → n'.Everywhere L := by
  induction n using Node.induct_parents with
  | h n ih =>
      intro hn n' hdone
      have hforms := hsound n hn n' hdone
      have hread : ∀ m ∈ r.reads n, ∀ m', done[m.id]? = some m' → m'.Everywhere L := by
        intro m hm
        have hparent := mem_parents_of_mem_reads hm
        exact ih m hparent (Node.mem_subnodes_of_parent hparent hn)
      intro l' hl'
      rcases Node.mem_subnodes_iff.1 hl' with rfl | ⟨m', hm', hl'⟩
      · exact hbuilt n hn l' hforms hread
      · obtain ⟨m, hm, p', hp', hbelow⟩ := hforms.exists_origin hlocal hm'
        exact hread m hm p' hp' l' (Node.mem_subnodes_trans hl' hbelow)

end Rebuilder

/-! ## Failure -/

namespace Node

open Rebuilder

variable {r : Rebuilder}

/-- A run that builds a node fails only with an error of the pass at a statement it looks at. -/
def FailsBelow (r : Rebuilder) (n : Node) : Prop :=
  ∀ (b : Build) (e : Error), (n.rebuild r).run b = .error e →
    ∃ s, r.Reaches n (.select s) ∧ r.columns s = .error e

theorem rebuildJoins_error : ∀ {js : List (Join Node)}, (∀ j ∈ js, FailsBelow r j.source) →
    ∀ {b : Build} {e : Error}, (rebuildJoins r js).run b = .error e →
    ∃ j ∈ js, ∃ s, r.Reaches j.source (.select s) ∧ r.columns s = .error e
  | [], _, b, e, h => by cases h
  | j :: js, hjs, b, e, h => by
      rw [rebuildJoins, Build.run_bind_eq_error] at h
      rcases h with h | ⟨source, b₁, -, h⟩
      · exact ⟨j, List.mem_cons_self, hjs j List.mem_cons_self b e h⟩
      · rcases Build.run_bind_eq_error.1 h with h | ⟨_, _, -, h⟩
        · obtain ⟨k, hk, hs⟩ :=
            rebuildJoins_error (fun k hk => hjs k (List.mem_cons_of_mem _ hk)) h
          exact ⟨k, List.mem_cons_of_mem _ hk, hs⟩
        · cases h

theorem cteOnce_error {c : Cte Node} {build : Rebuild Node} {b : Build} {e : Error}
    (h : (Build.cteOnce c build).run b = .error e) : build.run b = .error e := by
  cases hcte : b.done[c.id]?.bind Node.cte? with
  | some c' => simp [Build.run_cteOnce_of_some hcte] at h
  | none =>
      rw [Build.run_cteOnce_of_none hcte] at h
      cases hrun : build.run b with
      | ok out => simp [hrun, Except.map] at h
      | error e' => simpa [hrun, Except.map] using h

theorem rebuildCtes_error : ∀ {cs : List (Cte Node)}, (∀ c ∈ cs, FailsBelow r c.body) →
    ∀ {b : Build} {e : Error}, (rebuildCtes r cs).run b = .error e →
    ∃ c ∈ cs.filter r.keeps, ∃ s, r.Reaches c.body (.select s) ∧ r.columns s = .error e
  | [], _, b, e, h => by cases h
  | c :: cs, hcs, b, e, h => by
      have hrest : ∀ d ∈ cs, FailsBelow r d.body := fun d hd => hcs d (List.mem_cons_of_mem _ hd)
      rw [rebuildCtes] at h
      split at h
      case isTrue hkeeps =>
        rw [List.filter_cons_of_pos hkeeps]
        rcases Build.run_bind_eq_error.1 h with h | ⟨c', b₁, -, h⟩
        · exact ⟨c, List.mem_cons_self, hcs c List.mem_cons_self b e (cteOnce_error h)⟩
        · rcases Build.run_bind_eq_error.1 h with h | ⟨_, _, -, h⟩
          · obtain ⟨d, hd, hs⟩ := rebuildCtes_error hrest h
            exact ⟨d, List.mem_cons_of_mem _ hd, hs⟩
          · cases h
      case isFalse hkeeps =>
        rw [List.filter_cons_of_neg hkeeps]
        exact rebuildCtes_error hrest h

theorem once_error {id : NodeId} {build : Rebuild Node} {b : Build} {e : Error}
    (h : (Build.once id build).run b = .error e) : build.run b = .error e := by
  cases hdone : b.done[id]? with
  | some n => simp [Build.run_once_of_some hdone] at h
  | none =>
      rw [Build.run_once_of_none hdone] at h
      cases hrun : build.run b with
      | ok out => simp [hrun, Except.map] at h
      | error e' => simpa [hrun, Except.map] using h

/-- **Only the pass fails.**  A run fails only with an error that the pass gives at a statement that
it looks at. -/
theorem rebuild_error (n : Node) : FailsBelow r n := by
  induction n using induct_below with
  | h n ih =>
      intro b e h
      have hparent : ∀ m ∈ n.parents, FailsBelow r m := fun m hm => ih m hm m (mem_subnodes_self m)
      cases n with
      | table id t | text id t =>
          have hrun := once_error h
          cases hrun
      | select s =>
          have hrun := once_error h
          simp only [Build.run_bind_eq_error, Build.run_liftExcept_eq_error,
            Build.run_liftExcept_eq_ok] at hrun
          rcases hrun with hcolumns | ⟨columns, _, ⟨-, rfl⟩, hsource | ⟨_, b₁, -, hjoins |
            ⟨_, b₂, -, hctes | ⟨_, b₃, -, hfresh | ⟨_, _, -, hdone⟩⟩⟩⟩⟩
          · exact ⟨s, .refl _, hcolumns⟩
          · obtain ⟨t, ht, herror⟩ := hparent s.source (by simp [parents]) b e hsource
            exact ⟨t, .step (by simp [reads]) ht, herror⟩
          · obtain ⟨j, hj, t, ht, herror⟩ := rebuildJoins_error
              (fun j hj => hparent j.source (by simp [parents, List.mem_map_of_mem hj])) hjoins
            exact ⟨t, .step (by simp [reads, List.mem_map_of_mem hj]) ht, herror⟩
          · obtain ⟨c, hc, t, ht, herror⟩ := rebuildCtes_error (fun c hc =>
              ih (.cte c) (by simp [parents, hc]) c.body
                (mem_subnodes_of_mem_parents (by simp [parents]))) hctes
            have hread : .cte c ∈ r.reads (.select s) := by
              simp only [reads, List.mem_cons, List.mem_append, List.mem_map_of_mem hc, or_true]
            exact ⟨t, .step hread (.step (by simp [reads, parents]) ht), herror⟩
          · cases hfresh
          · cases hdone
      | cte c =>
          have hrun := once_error h
          rcases Build.run_bind_eq_error.1 hrun with hcte | ⟨_, _, -, hdone⟩
          · obtain ⟨t, ht, herror⟩ :=
              hparent c.body (by simp [parents]) b e (cteOnce_error hcte)
            exact ⟨t, .step (by simp [reads, parents]) ht, herror⟩
          · cases hdone
      | createTable id t query =>
          have hrun := once_error h
          rcases Build.run_bind_eq_error.1 hrun with hquery | ⟨_, _, -, hdone⟩
          · obtain ⟨u, hu, herror⟩ := hparent query (by simp [parents]) b e hquery
            exact ⟨u, .step (by simp [reads, parents]) hu, herror⟩
          · rcases Build.run_bind_eq_error.1 hdone with hfresh | ⟨_, _, -, hdone⟩
            · cases hfresh
            · cases hdone

end Node

end QueryPlan
