import QueryPlan.Plan.Copy
import QueryPlan.Proofs.Places
import QueryPlan.Proofs.Renaming

/-!
# Copies of a plan

Copying a plan is a renaming of its identities.  The run that makes the copy remembers what it has
built, by identity, and two things are shown of what it remembers.

* `CopySound` — the copy of a node is the node over the copies of what it reads.  So it is the node
  with every identity replaced by that of the copy (`CopySound.eq_renameIds`).
* `Build.Renumbered` — copies of different nodes have different identities, all given out during the
  run.  A statement takes its identity before the nodes that it reads are copied and is remembered
  after them; in the meantime its identity is reserved.

Both are followed through the run by `Copies`, and `copy_is_renaming` reads off the result.
-/

namespace QueryPlan

open Rebuilder (Adds FormsJoin FormsCte)

/-! ## Runs -/

namespace Build

variable {id : NodeId} {build : StateM Build Node} {b : Build}

theorem run_once_of_done {n : Node} (h : b.done[id]? = some n) : (once id build).run b = (n, b) := by
  simp only [once, StateT.run_bind, StateT.run_get, pure_bind, h]
  rfl

theorem run_once_of_new (h : b.done[id]? = none) :
    (once id build).run b =
      ((build.run b).1,
        { (build.run b).2 with done := (build.run b).2.done.insert id (build.run b).1 }) := by
  simp only [once, StateT.run_bind, StateT.run_get, pure_bind, h]
  rfl

theorem run_cteOnce_of_done {c c' : Cte Node} (h : b.done[c.id]?.bind Node.cte? = some c') :
    (cteOnce c build).run b = (c', b) := by
  simp only [cteOnce, StateT.run_bind, StateT.run_get, pure_bind, h]
  rfl

theorem run_cteOnce_of_new {c : Cte Node} (h : b.done[c.id]?.bind Node.cte? = none) :
    (cteOnce c build).run b =
      let c' := { c with id := (build.run b).2.next, body := (build.run b).1 }
      (c', { next := (build.run b).2.next + 1,
             done := (build.run b).2.done.insert c.id (.cte c') }) := by
  simp only [cteOnce, StateT.run_bind, StateT.run_get, pure_bind, h]
  rfl

end Build

/-! ## What is remembered -/

/-- What the copy of a node is, given the copies of what the node reads. -/
def Node.CopiedAs (done : Std.TreeMap NodeId Node) : Node → Node → Prop
  | .table _ t, n' => ∃ id, n' = .table id t
  | .text _ sql, n' => ∃ id, n' = .text id sql
  | n, n' => ({} : Rebuilder).Forms done n n'

/-- Everything that is remembered for a node of the plan is a copy of it. -/
def CopySound (plan : Node) (done : Std.TreeMap NodeId Node) : Prop :=
  ∀ n ∈ plan.subnodes, ∀ n', done[n.id]? = some n' → n.CopiedAs done n'

section Remembered

variable {plan n n' : Node} {done done' : Std.TreeMap NodeId Node}

theorem Node.CopiedAs.mono
    (hkept : ∀ {i : NodeId} {m : Node}, done[i]? = some m → done'[i]? = some m)
    (h : n.CopiedAs done n') : n.CopiedAs done' n' := by
  cases n with
  | table | text => exact h
  | select s => exact Rebuilder.Forms.mono (r := {}) (n := .select s) hkept h
  | cte c => exact Rebuilder.Forms.mono (r := {}) (n := .cte c) hkept h
  | createTable i t query =>
      exact Rebuilder.Forms.mono (r := {}) (n := .createTable i t query) hkept h

theorem CopySound.insert (h : CopySound plan done) (hids : plan.IdsIdentify)
    (hn : n ∈ plan.subnodes) (hcopied : n.CopiedAs done n')
    (hold : ∀ m, done[n.id]? = some m → m = n') :
    CopySound plan (done.insert n.id n') ∧ Adds [n] done (done.insert n.id n') :=
  Rebuilder.insert_remembered (F := fun done n n' => n.CopiedAs done n')
    (fun hkept => Node.CopiedAs.mono hkept) h hids hn hcopied hold

/-- What is remembered for a CTE is a CTE. -/
theorem CopySound.bind_cte? (h : CopySound plan done) {c : Cte Node} (hc : .cte c ∈ plan.subnodes)
    (hdone : done[c.id]? = some n') :
    ∃ c', n' = .cte c' ∧ done[c.id]?.bind Node.cte? = some c' := by
  obtain ⟨id, body, -, rfl⟩ := h (.cte c) hc n' hdone
  exact ⟨_, rfl, by simp [hdone, Node.cte?]⟩

/-- **A copy is a renaming.**  What is remembered for a node is the node with every identity replaced
by that of what is remembered for it. -/
theorem CopySound.eq_renameIds (h : CopySound plan done) (hn : n ∈ plan.subnodes)
    (hdone : done[n.id]? = some n') : n' = n.renameIds (newId done) := by
  induction n using Node.induct_parents generalizing n' with
  | h n ih =>
      have hparent : ∀ m ∈ n.parents, ∀ {m' : Node}, done[m.id]? = some m' →
          m' = m.renameIds (newId done) := fun m hm _ hm' =>
        ih m hm (Node.mem_subnodes_of_parent hm hn) hm'
      have hid := newId_of_done hdone
      have hcopied := h n hn n' hdone
      cases n with
      | table i t | text i t =>
          obtain ⟨id, rfl⟩ := hcopied
          rw [Node.renameIds, ← show newId done i = id from hid]
      | cte c =>
          obtain ⟨id, body, hbody, rfl⟩ := hcopied
          rw [Node.renameIds, show newId done c.id = id from hid,
            hparent c.body (by simp [Node.parents]) hbody]
      | createTable i t query =>
          obtain ⟨id, query', hquery, rfl⟩ := hcopied
          rw [Node.renameIds, show newId done i = id from hid,
            hparent query (by simp [Node.parents]) hquery]
      | select s =>
          obtain ⟨id, columns, source, joins, ctes, hcolumns, hsource, hjoins, hctes, rfl⟩ := hcopied
          cases hcolumns
          rw [List.filter_true] at hctes
          have hjoins' : joins = s.joins.map (Join.forget (Node.renameIds (newId done))) := by
            rw [← List.map_id joins]
            refine map_eq_of_forall₂ hjoins ?_
            rintro j hj _ ⟨source', hsource', rfl⟩
            rw [hparent j.source (by simp [Node.parents, List.mem_map_of_mem hj]) hsource']
            rfl
          have hctes' : ctes = s.ctes.map (Cte.relabel (newId done) (Node.renameIds (newId done))) := by
            rw [← List.map_id ctes]
            refine map_eq_of_forall₂ hctes ?_
            intro c hc c' hc'
            exact Node.cte.inj (hparent (.cte c) (by simp [Node.parents, hc]) hc')
          rw [Node.renameIds, Node.renameIdsOfJoins_eq, Node.renameIdsOfCtes_eq, ← hjoins', ← hctes',
            show newId done s.id = id from hid,
            ← hparent s.source (by simp [Node.parents]) hsource]
          rfl

end Remembered

/-! ## Which identities are given out -/

namespace Build

/-- What has been built has identities from `first` on that have been given out: different ones for
different nodes, and none of those that are reserved for nodes still to be built. -/
structure Renumbered (first : NodeId) (reserved : List NodeId) (b : Build) : Prop where
  first_le : first ≤ b.next
  nodup : reserved.Nodup
  reserved_range : ∀ k ∈ reserved, first ≤ k ∧ k < b.next
  range : ∀ {i : NodeId} {m : Node}, b.done[i]? = some m →
    first ≤ m.id ∧ m.id < b.next ∧ m.id ∉ reserved
  apart : ∀ {i j : NodeId} {m m' : Node}, b.done[i]? = some m → b.done[j]? = some m' →
    m.id = m'.id → i = j

variable {first : NodeId} {reserved : List NodeId} {b : Build}

theorem renumbered_start : Renumbered first [] { next := first } where
  first_le := Nat.le_refl first
  nodup := .nil
  reserved_range := by simp
  range h := by simp at h
  apart h := by simp at h

/-- The next identity is taken and reserved. -/
theorem Renumbered.reserve (h : Renumbered first reserved b) :
    Renumbered first (b.next :: reserved) { b with next := b.next + 1 } where
  first_le := Nat.le_succ_of_le h.first_le
  nodup := by
    refine List.nodup_cons.2 ⟨fun hmem => ?_, h.nodup⟩
    exact absurd (h.reserved_range _ hmem).2 (Nat.lt_irrefl _)
  reserved_range := by
    rintro k (_ | ⟨_, hk⟩)
    · exact ⟨h.first_le, Nat.lt_succ_self _⟩
    · have := h.reserved_range k hk
      exact ⟨this.1, Nat.lt_succ_of_lt this.2⟩
  range hm := by
    obtain ⟨hfirst, hlt, hfree⟩ := h.range hm
    refine ⟨hfirst, Nat.lt_succ_of_lt hlt, ?_⟩
    rw [List.mem_cons, not_or]
    exact ⟨Nat.ne_of_lt hlt, hfree⟩
  apart := h.apart

/-- A node is remembered under the identity that was reserved for it. -/
theorem Renumbered.settle {i k : NodeId} {n' : Node} (h : Renumbered first (k :: reserved) b)
    (hk : n'.id = k) : Renumbered first reserved { b with done := b.done.insert i n' } := by
  subst hk
  have hentry : ∀ {j : NodeId} {m : Node}, (b.done.insert i n')[j]? = some m →
      (b.done[j]? = some m ∧ m.id ≠ n'.id) ∨ (j = i ∧ m = n') := by
    intro j m hm
    rw [Std.TreeMap.getElem?_insert] at hm
    split at hm
    case isTrue hid => exact .inr ⟨(Nat.compare_eq_eq.1 hid).symm, (Option.some.inj hm).symm⟩
    case isFalse =>
      refine .inl ⟨hm, fun hid => (h.range hm).2.2 ?_⟩
      rw [hid]
      exact List.mem_cons_self
  have hnodup := List.nodup_cons.1 h.nodup
  have hreserved := List.forall_mem_cons.1 h.reserved_range
  refine ⟨h.first_le, hnodup.2, hreserved.2, ?_, ?_⟩
  · intro j m hm
    rcases hentry hm with ⟨hold, -⟩ | ⟨-, rfl⟩
    · obtain ⟨hfirst, hlt, hfree⟩ := h.range hold
      exact ⟨hfirst, hlt, fun hmem => hfree (List.mem_cons_of_mem _ hmem)⟩
    · exact ⟨hreserved.1.1, hreserved.1.2, hnodup.1⟩
  · intro j k m m' hm hm' hid
    rcases hentry hm with ⟨hold, hne⟩ | ⟨rfl, rfl⟩
    · rcases hentry hm' with ⟨hold', -⟩ | ⟨-, rfl⟩
      · exact h.apart hold hold' hid
      · exact absurd hid hne
    · rcases hentry hm' with ⟨-, hne⟩ | ⟨rfl, -⟩
      · exact absurd hid.symm hne
      · rfl

/-- To write an entry once more changes nothing. -/
theorem Renumbered.again {i : NodeId} {n' : Node} (h : Renumbered first reserved b)
    (hdone : b.done[i]? = some n') :
    Renumbered first reserved { b with done := b.done.insert i n' } := by
  have hentry : ∀ {j : NodeId} {m : Node}, (b.done.insert i n')[j]? = some m →
      b.done[j]? = some m := by
    intro j m hm
    rw [Std.TreeMap.getElem?_insert] at hm
    split at hm
    case isTrue hid => rwa [← Nat.compare_eq_eq.1 hid, hdone]
    case isFalse => exact hm
  exact ⟨h.first_le, h.nodup, h.reserved_range, fun hm => h.range (hentry hm),
    fun hm hm' => h.apart (hentry hm) (hentry hm')⟩

end Build

/-! ## One run -/

/-- What a run does that copies some nodes. -/
structure Copies (plan : Node) (nodes : List Node) (b b' : Build) : Prop where
  sound : CopySound plan b'.done
  adds : Adds nodes b.done b'.done
  numbers : ∀ {first : NodeId} {reserved : List NodeId}, b.Renumbered first reserved →
    b'.Renumbered first reserved

theorem Copies.refl {plan : Node} {b : Build} (h : CopySound plan b.done) : Copies plan [] b b :=
  ⟨h, .refl, fun hb => hb⟩

theorem Copies.trans {plan : Node} {xs ys : List Node} {b₁ b₂ b₃ : Build}
    (h : Copies plan xs b₁ b₂) (h' : Copies plan ys b₂ b₃) : Copies plan (xs ++ ys) b₁ b₃ :=
  ⟨h'.sound, h.adds.trans h'.adds, fun hb => h'.numbers (h.numbers hb)⟩

/-- What is to be shown of a new copy before it is remembered. -/
structure NewCopy (plan n : Node) (b : Build) (out : Node × Build) : Prop where
  sound : CopySound plan out.2.done
  adds : Adds (n :: n.parents) b.done out.2.done
  copied : n.CopiedAs out.2.done out.1
  old : ∀ m, out.2.done[n.id]? = some m → m = out.1
  numbers : ∀ {first : NodeId} {reserved : List NodeId}, b.Renumbered first reserved →
    Build.Renumbered first reserved { out.2 with done := out.2.done.insert n.id out.1 }

namespace Node

variable {plan : Node}

/-- What a run guarantees that copies a node. -/
def CopiesSoundly (plan n : Node) : Prop :=
  ∀ b : Build, CopySound plan b.done →
    Copies plan [n] b (n.duplicate.run b).2 ∧
      (n.duplicate.run b).2.done[n.id]? = some (n.duplicate.run b).1

/-- A node that is not yet remembered is copied and remembered. -/
theorem once_copies (hids : plan.IdsIdentify) {n : Node} (hn : n ∈ plan.subnodes)
    {build : StateM Build Node} {b : Build} (hb : CopySound plan b.done)
    (hbuild : b.done[n.id]? = none → NewCopy plan n b (build.run b)) :
    Copies plan [n] b ((Build.once n.id build).run b).2 ∧
      ((Build.once n.id build).run b).2.done[n.id]? = some ((Build.once n.id build).run b).1 := by
  cases hdone : b.done[n.id]? with
  | some m =>
      rw [Build.run_once_of_done hdone]
      exact ⟨⟨hb, Adds.refl.mono (by simp), fun h => h⟩, hdone⟩
  | none =>
      rw [Build.run_once_of_new hdone]
      have hnew := hbuild hdone
      obtain ⟨hsound, hadds⟩ := hnew.sound.insert hids hn hnew.copied hnew.old
      refine ⟨⟨hsound, (hnew.adds.trans hadds).below fun x hx => ?_, hnew.numbers⟩, by simp⟩
      simp only [List.cons_append, List.mem_cons, List.mem_append, List.not_mem_nil, or_false] at hx
      rcases hx with rfl | hx | rfl
      · exact mem_subnodes_self x
      · exact mem_subnodes_of_mem_parents hx
      · exact mem_subnodes_self x

theorem duplicateJoins_copies : ∀ {js : List (Join Node)},
    (∀ j ∈ js, CopiesSoundly plan j.source) → ∀ {b : Build}, CopySound plan b.done →
    Copies plan (js.map Join.source) b ((duplicateJoins js).run b).2 ∧
      List.Forall₂ (FormsJoin ((duplicateJoins js).run b).2.done) js ((duplicateJoins js).run b).1
  | [], _, b, hb => ⟨.refl hb, .nil⟩
  | j :: js, hjs, b, hb => by
      rw [List.forall_mem_cons] at hjs
      obtain ⟨hcopies, hdone⟩ := hjs.1 b hb
      obtain ⟨hrest, hforms⟩ := duplicateJoins_copies hjs.2 hcopies.sound
      exact ⟨hcopies.trans hrest, .cons ⟨_, hrest.adds.kept hdone, rfl⟩ hforms⟩

/-- A CTE is copied and remembered, unless a copy is remembered already. -/
theorem cteOnce_copies (hids : plan.IdsIdentify) {c : Cte Node} (hc : .cte c ∈ plan.subnodes)
    (hbody : CopiesSoundly plan c.body) {b : Build} (hb : CopySound plan b.done) :
    Copies plan [.cte c] b ((Build.cteOnce c c.body.duplicate).run b).2 ∧
      FormsCte ((Build.cteOnce c c.body.duplicate).run b).2.done c
        ((Build.cteOnce c c.body.duplicate).run b).1 := by
  cases hdone : b.done[c.id]? with
  | some m =>
      obtain ⟨c', rfl, hcte⟩ := hb.bind_cte? hc hdone
      rw [Build.run_cteOnce_of_done hcte]
      exact ⟨⟨hb, Adds.refl.mono (by simp), fun h => h⟩, hdone⟩
  | none =>
      rw [Build.run_cteOnce_of_new (by simp [hdone])]
      obtain ⟨hcopies, hdone'⟩ := hbody b hb
      have hnone := hcopies.adds.eq_none hids hc (by simp [parents]) hdone
      obtain ⟨hsound, hadds⟩ := hcopies.sound.insert hids hc
        ⟨(c.body.duplicate.run b).2.next, _, hdone', rfl⟩ fun m hm => by simp [hnone] at hm
      refine ⟨⟨hsound, (hcopies.adds.trans hadds).below fun x hx => ?_, fun hnumbers => ?_⟩, ?_⟩
      · simp only [List.cons_append, List.nil_append, List.mem_cons, List.not_mem_nil, or_false] at hx
        rcases hx with rfl | rfl
        · exact mem_subnodes_of_mem_parents (by simp [parents])
        · exact mem_subnodes_self _
      · exact (hcopies.numbers hnumbers).reserve.settle rfl
      · simp [FormsCte]

theorem duplicateCtes_copies (hids : plan.IdsIdentify) : ∀ {cs : List (Cte Node)},
    (∀ c ∈ cs, .cte c ∈ plan.subnodes ∧ CopiesSoundly plan c.body) →
    ∀ {b : Build}, CopySound plan b.done →
    Copies plan (cs.map Node.cte) b ((duplicateCtes cs).run b).2 ∧
      List.Forall₂ (FormsCte ((duplicateCtes cs).run b).2.done) cs ((duplicateCtes cs).run b).1
  | [], _, b, hb => ⟨.refl hb, .nil⟩
  | c :: cs, hcs, b, hb => by
      rw [List.forall_mem_cons] at hcs
      obtain ⟨hcopies, hforms⟩ := cteOnce_copies hids hcs.1.1 hcs.1.2 hb
      obtain ⟨hrest, hforms'⟩ := duplicateCtes_copies hids hcs.2 hcopies.sound
      exact ⟨hcopies.trans hrest, .cons (hrest.adds.kept hforms) hforms'⟩

/-- **A run copies soundly.**  Where identities tell the nodes of a plan apart, copying a node of the
plan keeps what is remembered a copy, adds to it only for nodes below that node, and ends with what it
returns remembered for it. -/
theorem duplicate_copies (hids : plan.IdsIdentify) (n : Node) (hn : n ∈ plan.subnodes) :
    CopiesSoundly plan n := by
  induction n using induct_below with
  | h n ih =>
      intro b hb
      have hbelow : ∀ p ∈ n.parents, ∀ m ∈ p.subnodes, CopiesSoundly plan m := fun p hp m hm =>
        ih p hp m hm (mem_subnodes_trans hm (mem_subnodes_of_parent hp hn))
      have hparent : ∀ m ∈ n.parents, CopiesSoundly plan m := fun m hm =>
        hbelow m hm m (mem_subnodes_self m)
      cases n with
      | table id t | text id t =>
          refine once_copies hids hn hb fun hnone => ⟨hb, Adds.refl.mono (by simp), ⟨_, rfl⟩, ?_, ?_⟩
          · intro m hm
            cases hm.symm.trans hnone
          · intro first reserved hnumbers
            exact hnumbers.reserve.settle rfl
      | cte c =>
          obtain ⟨hcopies, hforms⟩ := cteOnce_copies hids hn (hparent c.body (by simp [parents])) hb
          refine once_copies hids hn hb fun _ =>
            ⟨hcopies.sound, hcopies.adds.mono (by simp), hcopies.sound (.cte c) hn _ hforms, ?_, ?_⟩
          · intro m hm
            exact Option.some.inj (hm.symm.trans hforms)
          · intro first reserved hnumbers
            exact (hcopies.numbers hnumbers).again hforms
      | createTable id t query =>
          obtain ⟨hcopies, hdone⟩ := hparent query (by simp [parents]) b hb
          refine once_copies hids hn hb fun hnone =>
            ⟨hcopies.sound, hcopies.adds.mono (by simp [parents]), ⟨_, _, hdone, rfl⟩, ?_, ?_⟩
          · intro m hm
            cases hm.symm.trans (hcopies.adds.eq_none hids hn (by simp [parents]) hnone)
          · intro first reserved hnumbers
            exact (hcopies.numbers hnumbers).reserve.settle rfl
      | select s =>
          -- the identity of the statement is taken first
          let b₀ : Build := { b with next := b.next + 1 }
          have hcte : ∀ c ∈ s.ctes, .cte c ∈ plan.subnodes ∧ CopiesSoundly plan c.body := by
            intro c hc
            have hp : .cte c ∈ (Node.select s).parents := by simp [parents, hc]
            exact ⟨mem_subnodes_of_parent hp hn,
              hbelow _ hp _ (mem_subnodes_of_mem_parents (by simp [parents]))⟩
          obtain ⟨hsource, hdone⟩ := hparent s.source (by simp [parents]) b₀ hb
          obtain ⟨hctes, hformsCtes⟩ := duplicateCtes_copies hids hcte hsource.sound
          have hread : ∀ j ∈ s.joins, CopiesSoundly plan j.source := fun j hj =>
            hparent j.source (by simp [parents, List.mem_map_of_mem hj])
          obtain ⟨hjoins, hformsJoins⟩ := duplicateJoins_copies hread hctes.sound
          have hcopies := (hsource.trans hctes).trans hjoins
          have hsub : [s.source] ++ s.ctes.map Node.cte ++ s.joins.map Join.source ⊆
              (Node.select s).parents := by simp [parents]
          have hadds := hcopies.adds.mono hsub
          refine once_copies hids hn hb fun hnone => ⟨hcopies.sound, hadds.mono (by simp), ?_, ?_, ?_⟩
          · refine ⟨b.next, s.columns, _, _, _, rfl, ?_, hformsJoins, ?_, rfl⟩
            · exact hjoins.adds.kept (hctes.adds.kept hdone)
            · rw [List.filter_true]
              exact hformsCtes.imp fun c c' hc => hjoins.adds.kept hc
          · intro m hm
            cases hm.symm.trans (hadds.eq_none hids hn (List.Subset.refl _) hnone)
          · intro first reserved hnumbers
            exact (hcopies.numbers hnumbers.reserve).settle rfl

end Node

/-! ## The copy -/

theorem Node.CopiedAs.exists_done {done : Std.TreeMap NodeId Node} {n n' m : Node}
    (h : n.CopiedAs done n') (hm : m ∈ n.parents) : ∃ m', done[m.id]? = some m' := by
  cases n with
  | table | text => simp [Node.parents] at hm
  | select s =>
      have hreads : ({} : Rebuilder).reads (.select s) = (Node.select s).parents := by
        simp [Rebuilder.reads, Node.parents]
      exact Rebuilder.Forms.exists_done (r := {}) (n := .select s) h (hreads ▸ hm)
  | cte c => exact Rebuilder.Forms.exists_done (r := {}) (n := .cte c) h hm
  | createTable i t query =>
      exact Rebuilder.Forms.exists_done (r := {}) (n := .createTable i t query) h hm

/-- All nodes below a node that has been copied have been copied. -/
theorem CopySound.exists_done {plan n m : Node} {done : Std.TreeMap NodeId Node}
    (h : CopySound plan done) (hn : n ∈ plan.subnodes) (hdone : ∃ n', done[n.id]? = some n')
    (hm : m ∈ n.subnodes) : ∃ m', done[m.id]? = some m' := by
  induction n using Node.induct_parents with
  | h n ih =>
      rcases Node.mem_subnodes_iff.1 hm with rfl | ⟨l, hl, hm⟩
      · exact hdone
      · obtain ⟨n', hn'⟩ := hdone
        exact ih l hl (Node.mem_subnodes_of_parent hl hn) ((h n hn n' hn').exists_done hl) hm

namespace Likeness

variable {plan : Node} (l : Likeness plan)

theorem nodeAt?_nodeOf {n : Node} (hn : n ∈ plan.subnodes) (place : List Nat) :
    (l.nodeOf n).nodeAt? place = (n.nodeAt? place).map l.nodeOf := by
  induction place generalizing n with
  | nil => rfl
  | cons i place ih =>
      rw [Node.nodeAt?, Node.nodeAt?, l.parents_nodeOf hn, List.getElem?_map]
      cases hm : n.parents[i]? with
      | none => rfl
      | some m => exact ih (Node.mem_subnodes_of_parent (List.mem_of_getElem? hm) hn)

/-- Plans that are alike have the same places in common. -/
theorem sharesAt_nodeOf {p q : List Nat} :
    (l.nodeOf plan).SharesAt p q ↔ plan.SharesAt p q := by
  have hplan := Node.mem_subnodes_self plan
  simp only [Node.SharesAt, l.nodeAt?_nodeOf hplan, Option.map_eq_some_iff]
  constructor
  · rintro ⟨_, _, ⟨m, hm, rfl⟩, ⟨n, hn, rfl⟩, hid⟩
    have hm' := Node.mem_subnodes_of_nodeAt? hm
    have hn' := Node.mem_subnodes_of_nodeAt? hn
    rw [l.id_nodeOf hm', l.id_nodeOf hn'] at hid
    exact ⟨m, n, hm, hn, l.idOf_inj hm' hn' hid⟩
  · rintro ⟨m, n, hm, hn, hid⟩
    refine ⟨_, _, ⟨m, hm, rfl⟩, ⟨n, hn, rfl⟩, ?_⟩
    rw [l.id_nodeOf (Node.mem_subnodes_of_nodeAt? hm), l.id_nodeOf (Node.mem_subnodes_of_nodeAt? hn),
      hid]

end Likeness

/-- **A copy is the plan under new identities.**  Where identities tell the nodes of a plan apart, its
copy is the plan with each identity replaced, different ones by different ones, by one that is given
out during the copying.  So the serialised form is the same, and two places of the copy hold one node
exactly if they do in the plan. -/
theorem copy_is_renaming {plan : Node} (hids : plan.IdsIdentify) (next : NodeId) :
    ∃ f copied last, plan.copy next = (copied, last) ∧
      plan.SeparatedBy f ∧
      (∀ m ∈ plan.subnodes, next ≤ f m.id ∧ f m.id < last) ∧
      (plan.IdsBelow next → ∀ m ∈ plan.subnodes, ∀ n ∈ plan.subnodes, f m.id ≠ n.id) ∧
      copied = plan.renameIds f ∧
      copied.serialize = plan.serialize ∧
      copied.IdsIdentify ∧
      ∀ p q, copied.SharesAt p q ↔ plan.SharesAt p q := by
  have hplan := Node.mem_subnodes_self plan
  obtain ⟨hcopies, hdone⟩ := Node.duplicate_copies hids plan hplan { next } (by simp [CopySound])
  have hnumbers := hcopies.numbers Build.renumbered_start
  let b := (plan.duplicate.run { next }).2
  have hcopied := hcopies.sound.eq_renameIds hplan hdone
  have hrange : ∀ m ∈ plan.subnodes, next ≤ newId b.done m.id ∧ newId b.done m.id < b.next := by
    intro m hm
    obtain ⟨m', hm'⟩ := hcopies.sound.exists_done hplan ⟨_, hdone⟩ hm
    rw [newId_of_done hm']
    exact ⟨(hnumbers.range hm').1, (hnumbers.range hm').2.1⟩
  have hseparated : plan.SeparatedBy (newId b.done) := by
    intro m hm n hn hid
    obtain ⟨m', hm'⟩ := hcopies.sound.exists_done hplan ⟨_, hdone⟩ hm
    obtain ⟨n', hn'⟩ := hcopies.sound.exists_done hplan ⟨_, hdone⟩ hn
    rw [newId_of_done hm', newId_of_done hn'] at hid
    exact hnumbers.apart hm' hn' hid
  have hcopy : plan.copy next = (plan.renameIds (newId b.done), b.next) := by
    rw [← hcopied]
    rfl
  let l := Likeness.ofRenaming hseparated
  refine ⟨_, _, _, hcopy, hseparated, hrange, ?_, rfl, ?_, l.idsIdentify_nodeOf hids,
    fun p q => l.sharesAt_nodeOf⟩
  · intro hbelow m hm n hn hid
    exact Nat.not_le_of_lt (hbelow n hn) (hid ▸ (hrange m hm).1)
  · exact Node.serialize_eq_of_eraseIds_eq (Node.eraseIds_renameIds plan)

/-- `r AS (SELECT t.x AS x FROM t t)`. -/
def Cte.sharedR : Cte Node :=
  ⟨2, "r", .select (.plain 1 [⟨.column ⟨"t", "x"⟩ true, "x"⟩] (.table 0 ⟨none, "t"⟩) "t")⟩

/-- `WITH sharedR SELECT a.x AS x, b.x AS y FROM sharedR a CROSS JOIN r b`, where the CTE of the list
is the first source too. -/
def Select.readingSharedR : Statement :=
  { Select.plain 4 [⟨.column ⟨"a", "x"⟩ true, "x"⟩, ⟨.column ⟨"b", "x"⟩ true, "y"⟩]
      (.cte .sharedR) "a" with
    ctes := [.sharedR]
    joins := [⟨.table 3 ⟨none, "r"⟩, "b", .cross, none⟩] }

/-- The copy has one CTE in its list and as its first source, and not as its second one. -/
theorem copy_is_renaming_readingSharedR :
    (Node.select .readingSharedR).IdsIdentify ∧
      ∃ f copied last, (Node.select .readingSharedR).copy 5 = (copied, last) ∧
        copied = (Node.select .readingSharedR).renameIds f ∧
        copied.serialize = (Node.select .readingSharedR).serialize ∧
        5 ≤ f 2 ∧ f 2 < last ∧
        copied.SharesAt [0] [2] ∧ copied.SharesAt [0, 0] [2, 0] ∧ ¬ copied.SharesAt [0] [1] := by
  have hids : (Node.select .readingSharedR).IdsIdentify := by
    have hall : (Node.select .readingSharedR).subnodes =
        (.select .readingSharedR :: (Node.cte .sharedR).subnodes ++ [.table 3 ⟨none, "r"⟩]) ++
          (Node.cte .sharedR).subnodes := rfl
    exact Node.idsIdentify_of_append hall (by simp) (by decide)
  obtain ⟨f, copied, last, hcopy, -, hrange, -, hrenamed, hsame, -, hshares⟩ :=
    copy_is_renaming hids 5
  have hcte : .cte .sharedR ∈ (Node.select .readingSharedR).subnodes :=
    Node.mem_subnodes_of_mem_parents List.mem_cons_self
  refine ⟨hids, f, copied, last, hcopy, hrenamed, hsame, (hrange _ hcte).1, (hrange _ hcte).2, ?_⟩
  rw [hshares, hshares, hshares]
  refine ⟨⟨_, _, rfl, rfl, rfl⟩, ⟨_, _, rfl, rfl, rfl⟩, ?_⟩
  rintro ⟨_, _, ⟨⟩, ⟨⟩, hid⟩
  exact absurd hid (by decide)

end QueryPlan
