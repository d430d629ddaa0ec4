import QueryPlan.Proofs.PruningFailure
import QueryPlan.Proofs.References

/-!
# Every statement is found where it is looked up

Three traversals meet at a plan.  The scopes are recorded everywhere; the requirements are
propagated through sources, and through the CTEs that are read; pruning goes through sources, and
through the CTEs of which something is required.  Each looks up what the one before it has left at a
statement.

That the first covers the second is `Scopes.exists_scope`.  That the second covers the third does
not follow from what is required: of a statement without columns nothing is, and still it has to
have an entry.  It follows from the entries themselves.  A visit leaves no statement behind that has
been looked at and reads a node without an entry (`Covers`), and a CTE of which something is
required has handed it on to the statement in it.

* `Propagation.Finished.entered_of_reaches` — what pruning looks at has an entry.
* `prune_finds_every_statement` — so pruning fails only where no column is left.
-/

namespace QueryPlan

namespace Propagation

/-! ## Entries -/

/-- The statement that a node stands for, if it is one, has an entry. -/
def Entered (p : Propagation) (n : Node) : Prop :=
  ∀ s, n.unwrapped = .select s → p.required.contains s.id = true

/-- A statement that has been looked at and reads a node without an entry. -/
def Missed (p : Propagation) (s : Statement) : Prop :=
  s.id ∈ p.seenSize ∧ ∃ source ∈ s.sourceNodes, ¬ p.Entered source

section Entries

variable {scope : Scope} {p p' : Propagation} {n : Node} {i : NodeId}

theorem contains_ask {a : Ask} (h : p.required.contains i = true) :
    (p.ask scope a).required.contains i = true := by
  cases a with
  | ofCte c names => exact contains_requireAll.2 (.inl h)
  | ofSource source name =>
      simp only [ask, requireOf]
      split
      · exact contains_requireAll.2 (.inl (contains_requireAll.2 (.inl h)))
      · exact contains_requireAll.2 (.inl h)

theorem contains_foldl_ask {as : List Ask} (h : p.required.contains i = true) :
    (as.foldl (ask scope) p).required.contains i = true := by
  refine List.foldlRecOn (motive := fun q : Propagation => q.required.contains i = true) as _ h ?_
  intro q hq a _
  exact contains_ask hq

theorem contains_requireInputs {s : Statement} (h : p.required.contains i = true) :
    (p.requireInputs scope s).required.contains i = true := by
  rw [requireInputs_eq_foldl_ask]
  exact contains_foldl_ask h

theorem contains_requireSome {source : Node} (h : p.required.contains i = true) :
    (p.requireSome scope source).required.contains i = true := by
  rw [requireSome_eq_foldl_ask]
  split
  · exact h
  · exact contains_foldl_ask h

theorem Entered.mono (h : p.Entered n)
    (hentries : ∀ i, p.required.contains i = true → p'.required.contains i = true) :
    p'.Entered n := by
  intro s hs
  exact hentries _ (h s hs)

theorem Missed.back {s : Statement} (h : p'.Missed s)
    (hentries : ∀ i, p.required.contains i = true → p'.required.contains i = true)
    (hseen : p'.seenSize[s.id]? = p.seenSize[s.id]?) : p.Missed s := by
  rcases h with ⟨hmem, source, hsource, hnot⟩
  refine ⟨?_, source, hsource, fun h => hnot (h.mono hentries)⟩
  rw [Std.TreeMap.mem_iff_isSome_getElem?] at *
  rwa [← hseen]

end Entries

/-! ## What a visit covers -/

/-- Visiting nodes of a plan leaves each of them with an entry, and no statement reads a node
without one that did not do so before. -/
structure Covers (plan : Node) (nodes : List Node) (p p' : Propagation) : Prop where
  entries : ∀ i, p.required.contains i = true → p'.required.contains i = true
  entered : ∀ x ∈ nodes, p'.Entered x
  missed : ∀ s, .select s ∈ plan.subnodes → p'.Missed s → p.Missed s

namespace Covers

variable {plan : Node} {scopes : Scopes} {scope : Scope} {p p₁ p' : Propagation}

theorem nil : Covers plan [] p p where
  entries _ h := h
  entered _ h := absurd h List.not_mem_nil
  missed _ _ h := h

theorem append {ns ms : List Node} (h : Covers plan ns p p₁) (h' : Covers plan ms p₁ p') :
    Covers plan (ns ++ ms) p p' where
  entries i hi := h'.entries i (h.entries i hi)
  entered x hx := by
    rcases List.mem_append.1 hx with hx | hx
    · exact (h.entered x hx).mono h'.entries
    · exact h'.entered x hx
  missed s hs hmissed := h.missed s hs (h'.missed s hs hmissed)

/-- A change that marks no statement, before a visit. -/
theorem of_quiet {ns : List Node} (h : Covers plan ns p₁ p')
    (hentries : ∀ i, p.required.contains i = true → p₁.required.contains i = true)
    (hseen : ∀ s, .select s ∈ plan.subnodes → p₁.seenSize[s.id]? = p.seenSize[s.id]?) :
    Covers plan ns p p' where
  entries i hi := h.entries i (hentries i hi)
  entered := h.entered
  missed s hs hmissed := (h.missed s hs hmissed).back hentries (hseen s hs)

/-- A visit of a node is one of every node that stands for the same statement. -/
theorem of_unwrapped {n m : Node} (h : Covers plan [m] p p') (hsame : n.unwrapped = m.unwrapped) :
    Covers plan [n] p p' where
  entries := h.entries
  entered x hx := by
    rw [List.mem_singleton.1 hx, Entered, hsame]
    exact h.entered m (List.mem_singleton.2 rfl)
  missed := h.missed

theorem sources {xs : List Node}
    (hvisit : ∀ x ∈ xs, ∀ p p', x.propagate scopes p = .ok p' → Covers plan [x] p p')
    (h : xs.foldlM (fun p x => x.propagate scopes (p.requireSome scope x)) p = .ok p') :
    Covers plan xs p p' := by
  induction xs generalizing p with
  | nil =>
      have hp : p = p' := Except.ok.inj h
      subst hp
      exact .nil
  | cons x xs ih =>
      rw [List.foldlM_cons, bind_eq_ok] at h
      rcases h with ⟨p₁, hx, h⟩
      have hfirst : Covers plan [x] (p.requireSome scope x) p₁ :=
        hvisit x List.mem_cons_self _ _ hx
      have hrest := ih (fun y hy => hvisit y (List.mem_cons_of_mem _ hy)) h
      refine (hfirst.of_quiet (fun i hi => contains_requireSome hi) ?_).append hrest
      intro s _
      rw [seenSize_requireSome]

/-- A statement whose set has kept its size is left alone, with its entry. -/
theorem settled {s : Statement} :
    Covers plan [.select s] p (p.requireAll s.id s.forcedNames) where
  entries i hi := contains_requireAll.2 (.inl hi)
  entered x hx := by
    rw [List.mem_singleton.1 hx]
    intro u hu
    cases hu
    exact contains_requireAll.2 (.inr rfl)
  missed u _ h := h.back (fun i hi => contains_requireAll.2 (.inl hi)) rfl

/-- A statement is marked, and all its sources have entries when they have been visited. -/
theorem look (hids : plan.IdsIdentify) {s : Statement} (hs : .select s ∈ plan.subnodes)
    (h : Covers plan s.sourceNodes
      (((p.requireAll s.id s.forcedNames).mark s.id).requireInputs scope s) p') :
    Covers plan [.select s] p p' := by
  have hlook : ∀ i, (p.requireAll s.id s.forcedNames).required.contains i = true →
      (((p.requireAll s.id s.forcedNames).mark s.id).requireInputs scope s).required.contains i =
        true :=
    fun i hi => contains_requireInputs hi
  refine ⟨?_, ?_, ?_⟩
  · intro i hi
    exact h.entries i (hlook i (contains_requireAll.2 (.inl hi)))
  · intro x hx u hu
    rw [List.mem_singleton.1 hx] at hu
    cases hu
    exact h.entries _ (hlook _ (contains_requireAll.2 (.inr rfl)))
  · intro u hu hmissed
    have hid : u.id ≠ s.id := by
      intro hid
      have hnode := hids _ hu _ hs hid
      injection hnode with hnode
      subst hnode
      rcases hmissed with ⟨-, source, hsource, hnot⟩
      exact hnot (h.entered source hsource)
    refine ((h.missed u hu hmissed).back hlook ?_).back
      (fun i hi => contains_requireAll.2 (.inl hi)) rfl
    rw [seenSize_requireInputs, seenSize_mark, if_neg hid]

/-- A CTE hands on its set to its body, which is visited next. -/
theorem enter (hids : plan.IdsIdentify) {c : Cte Node} (hc : .cte c ∈ plan.subnodes)
    (h : Covers plan [c.body] (p.enterCte c) p') : Covers plan [.cte c] p p' := by
  have hquiet : Covers plan [c.body] p p' := by
    refine h.of_quiet (fun i hi => contains_requireAll.2 (.inl hi)) ?_
    intro s hs
    have hid : s.id ≠ c.id := by
      intro hid
      exact Node.noConfusion (hids _ hs _ hc hid)
    rw [seenSize_enterCte, if_neg hid]
  exact hquiet.of_unwrapped rfl

end Covers

end Propagation

/-- **A visit leaves no statement behind that reads a node without an entry.** -/
theorem Node.covers_propagate {plan : Node} {scopes : Scopes} (hids : plan.IdsIdentify) (n : Node)
    (hn : n ∈ plan.subnodes) {p p' : Propagation} (h : n.propagate scopes p = .ok p') :
    Propagation.Covers plan [n] p p' := by
  induction n using induct_parents generalizing p p' with
  | h n ih =>
      have hparent : ∀ m ∈ n.parents, ∀ p p', m.propagate scopes p = .ok p' →
          Propagation.Covers plan [m] p p' := by
        intro m hm p p' h
        exact ih m hm (mem_subnodes_of_parent hm hn) h
      cases n with
      | table | text =>
          have hp : p = p' := Except.ok.inj h
          subst hp
          refine { Propagation.Covers.nil with entered := ?_ }
          intro x hx s hs
          rw [List.mem_singleton.1 hx] at hs
          cases hs
      | cte c => exact .enter hids hn (hparent c.body (by simp [parents]) _ _ h)
      | createTable id t query =>
          have hquery : Propagation.Covers plan [query] p p' := by
            refine (hparent query (by simp [parents]) _ _ h).of_quiet ?_ fun _ _ => rfl
            intro i hi
            exact Propagation.contains_requireAll.2 (.inl hi)
          exact hquery.of_unwrapped rfl
      | select s =>
          rw [propagate_select] at h
          split at h
          case isTrue =>
            rw [← Except.ok.inj h]
            exact .settled
          case isFalse =>
            rcases bind_eq_ok.1 h with ⟨scope, -, h⟩
            exact .look hids hn
              (.sources (fun x hx => hparent x (by simp [Select.parents_select, hx])) h)

namespace Propagation

variable {plan root : Node} {scopes : Scopes} {p p' : Propagation}

theorem covers_propagateCtes (hids : plan.IdsIdentify) {cs : List (Cte Node)}
    (hcs : ∀ c ∈ cs, .cte c ∈ plan.subnodes) (h : propagateCtes scopes cs p = .ok p') :
    Covers plan (cs.map .cte) p p' := by
  induction cs generalizing p with
  | nil =>
      have hp : p = p' := Except.ok.inj h
      subst hp
      exact .nil
  | cons c cs ih =>
      rcases propagateCtes_cons_eq_ok.1 h with ⟨p₁, hc, hrest⟩
      have hfirst : (Node.cte c).propagate scopes p = .ok p₁ := hc
      exact (Node.covers_propagate hids _ (hcs c List.mem_cons_self) hfirst).append
        (ih (fun d hd => hcs d (List.mem_cons_of_mem _ hd)) hrest)

/-- The rounds leave no such statement behind either. -/
theorem covers_settle (hids : plan.IdsIdentify) (hscopes : scopes.OfPlan plan) {rounds : Rounds}
    (hinv : Invariant plan scopes p) (h : settle scopes rounds p = .ok p') :
    Covers plan [] p p' := by
  induction rounds generalizing p with
  | «over» =>
      have hp : p = p' := Except.ok.inj h
      subst hp
      exact .nil
  | next rest ih =>
      rw [settle] at h
      split at h
      · have hp : p = p' := Except.ok.inj h
        subst hp
        exact .nil
      · rcases bind_eq_ok.1 h with ⟨p₁, hround, h⟩
        have hfed : ∀ c ∈ p.staleCtes, .cte c ∈ plan.subnodes ∧ p.Fed (.cte c) :=
          fun c hc => hinv.fed_of_stale hc
        have hvisit := visit_propagateCtes hids hscopes hfed hround
        have hcovers := covers_propagateCtes hids (fun c hc => (hfed c hc).1) hround
        have hrest := ih () (Run.invariant hids hscopes hvisit.run hinv) h
        exact { hcovers.append hrest with entered := fun _ hx => absurd hx List.not_mem_nil }

/-- When the propagation has come to its end, the root has an entry, and what a statement reads that
has been looked at. -/
theorem covers_ofPlan (hids : plan.IdsIdentify) (hroot : root ∈ plan.subnodes)
    (h : Propagation.ofPlan plan root (root.exposedNames ∅) = .ok p) :
    p.Entered root ∧ ∀ s, .select s ∈ plan.subnodes → ¬ p.Missed s := by
  have hscopes : (Scopes.ofPlan plan).OfPlan plan := Scopes.ofPlan_ofPlan
  rcases bind_eq_ok.1 h with ⟨p₁, hp₁, hp⟩
  rcases visit_start hids hroot hp₁ with ⟨-, hinv⟩
  have hcovers := (Node.covers_propagate hids root hroot hp₁).append
    (covers_settle hids hscopes hinv hp)
  refine ⟨hcovers.entered root List.mem_cons_self, ?_⟩
  intro s hs hmissed
  rcases hcovers.missed s hs hmissed with ⟨hseen, -⟩
  simp at hseen

/-! ## What pruning looks at -/

namespace Finished

variable (h : Finished plan root p) (hids : plan.IdsIdentify)
  (hmissed : ∀ s, .select s ∈ plan.subnodes → ¬ p.Missed s)

include h

theorem mem_seenSize {s : Statement} (hs : .select s ∈ plan.subnodes)
    (hentry : p.required.contains s.id = true) : s.id ∈ p.seenSize := by
  have hsettled := h.isSettled hs hentry
  rw [Propagation.isSettled, beq_iff_eq] at hsettled
  rw [Std.TreeMap.mem_iff_isSome_getElem?, hsettled]
  rfl

include hids

/-- A CTE of which something is required has handed it on to the statement in it. -/
theorem entered_of_requires {c : Cte Node} (hc : .cte c ∈ plan.subnodes)
    (hkept : p.required.requires c.id = true) : p.Entered (.cte c) := by
  intro s hs
  rcases Requirements.requires_iff.1 hkept with ⟨x, hx⟩
  exact Requirements.contains_of_mem_names (h.requires_unwrapped hids _ hc s hs hx)

include hmissed

theorem entered_of_mem_reads {n m : Node} (hn : n ∈ plan.subnodes) (hentered : p.Entered n)
    (hm : m ∈ (Pruning.rebuilder p.required).reads n) : p.Entered m := by
  have hplan := Node.mem_subnodes_of_parent (Rebuilder.mem_parents_of_mem_reads hm) hn
  cases n with
  | table | text => simp [Rebuilder.reads, Node.parents] at hm
  | cte c =>
      have hbody : m = c.body := by simpa [Rebuilder.reads, Node.parents] using hm
      rw [hbody]
      exact hentered
  | createTable id t query =>
      have hquery : m = query := by simpa [Rebuilder.reads, Node.parents] using hm
      rw [hquery]
      exact hentered
  | select s =>
      rcases Rebuilder.mem_reads_select.1 hm with hsource | ⟨c, -, hkept, rfl⟩
      · by_contra hno
        have hseen := h.mem_seenSize hn (hentered s rfl)
        exact hmissed s hn ⟨hseen, m, hsource, hno⟩
      · exact h.entered_of_requires hids hplan hkept

/-- **What pruning looks at has an entry**, if the node has at which it starts. -/
theorem entered_of_reaches {n l : Node} (hn : n ∈ plan.subnodes) (hentered : p.Entered n)
    (hl : (Pruning.rebuilder p.required).Reaches n l) : p.Entered l :=
  hl.passes_on (fun _ hk hentered _ hm => h.entered_of_mem_reads hids hmissed hk hentered hm) hn
    hentered

end Finished

end Propagation

/-- The statements that pruning looks at have been looked at by the propagation. -/
theorem Requirements.contains_of_reaches {plan : Node} (hids : plan.IdsIdentify)
    {required : Requirements} (h : Requirements.ofPlan plan plan = .ok (some required)) :
    ∃ p, Propagation.ofPlan plan plan (plan.exposedNames ∅) = .ok p ∧ p.required = required ∧
      ∀ s, (Pruning.rebuilder required).Reaches plan (.select s) →
        required.contains s.id = true ∧ s.id ∈ p.seenSize := by
  have hroot := Node.mem_subnodes_self plan
  rcases Requirements.exists_propagation h with ⟨-, p, hp, rfl⟩
  have hfinished := Propagation.finished_ofPlan hids hroot hp
  rcases Propagation.covers_ofPlan hids hroot hp with ⟨hentered, hmissed⟩
  refine ⟨p, hp, rfl, ?_⟩
  intro s hs
  have hentry := hfinished.entered_of_reaches hids hmissed hroot hentered hs s rfl
  exact ⟨hentry, hfinished.mem_seenSize hs.mem_subnodes hentry⟩

/-- Pruning fails only at a statement with an entry that would keep no column. -/
theorem Node.kept_eq_nil_of_prune_eq_error {plan : Node} {next : NodeId} (hids : plan.IdsIdentify)
    {e : Error} (he : plan.prune next = .error e) :
    ∃ required s, Requirements.ofPlan plan plan = .ok (some required) ∧
      (Pruning.rebuilder required).Reaches plan (.select s) ∧
      Pruning.kept (required.names s.id) s = [] ∧
      e = Pruning.defect required s ("every select column was pruned; columns " ++
        quotedList s.columnNames ++ ", required " ++ quotedSet (required.names s.id).toList) := by
  rcases Requirements.exists_ofPlan hids (Node.mem_subnodes_self plan) with ⟨found, hfound⟩
  cases found with
  | none =>
      rw [prune_of_none hfound] at he
      cases he
  | some required =>
      rw [prune_of_some hfound] at he
      rcases pruneWith_eq_error he with ⟨s, hs, hcolumns⟩
      rcases Requirements.contains_of_reaches hids hfound with ⟨_, _, _, hentries⟩
      exact ⟨required, s, hfound, hs, Pruning.columns_eq_error (hentries s hs).1 hcolumns⟩

/-- **Pruning finds every statement that it looks up**, in a plan that is accepted or not.  Every
statement has a scope, and the requirements can be worked out.  Every statement that pruning looks
at has been looked at by the propagation and has an entry.  So there is one way left for pruning to
fail: at a statement that would keep no column. -/
theorem prune_finds_every_statement {plan : Node} (next : NodeId) (hids : plan.IdsIdentify) :
    (∀ s, .select s ∈ plan.subnodes → ∃ scope, (Scopes.ofPlan plan).find s = .ok scope) ∧
    (∃ found, Requirements.ofPlan plan plan = .ok found) ∧
    (∀ required, Requirements.ofPlan plan plan = .ok (some required) →
      ∃ p, Propagation.ofPlan plan plan (plan.exposedNames ∅) = .ok p ∧ p.required = required ∧
        ∀ s, (Pruning.rebuilder required).Reaches plan (.select s) →
          required.contains s.id = true ∧ s.id ∈ p.seenSize) ∧
    ∀ e, plan.prune next = .error e →
      (∃ required s, Requirements.ofPlan plan plan = .ok (some required) ∧
        (Pruning.rebuilder required).Reaches plan (.select s) ∧
        Pruning.kept (required.names s.id) s = [] ∧
        e = Pruning.defect required s ("every select column was pruned; columns " ++
          quotedList s.columnNames ++ ", required " ++ quotedSet (required.names s.id).toList)) ∧
      ∀ d, e = .defect d →
        d.message ≠ "no CTE alias mapping was recorded for this select statement" ∧
        d.message ≠ "select statement was not reached while tagging required columns" := by
  refine ⟨?_, ?_, ?_, ?_⟩
  · intro s hs
    rcases Scopes.exists_scope hids hs with ⟨scope, hscope⟩
    exact ⟨scope, Node.find_eq_ok.2 hscope⟩
  · exact Requirements.exists_ofPlan hids (Node.mem_subnodes_self plan)
  · intro required hrequired
    exact Requirements.contains_of_reaches hids hrequired
  · intro e he
    have hkept := Node.kept_eq_nil_of_prune_eq_error hids he
    refine ⟨hkept, ?_⟩
    rintro d rfl
    rcases hkept with ⟨required, s, -, -, -, herror⟩
    cases herror
    -- the messages differ in their first letters
    refine ⟨fun hmessage => ?_, fun hmessage => ?_⟩
    · simpa using congrArg (fun text : String => text.toList.head?) hmessage
    · simpa using congrArg (fun text : String => text.toList.head?) hmessage

/-- `SELECT FROM t b`. -/
def Select.columnless : Statement :=
  .plain 2 [] (.table 1 ⟨none, "t"⟩) "b"

/-- `WITH d AS (SELECT FROM t b) SELECT COUNT(*) AS n FROM d a`, the source being the CTE itself and
not a table of its name. -/
def Select.countColumnless : Statement :=
  { Select.plain 4 [⟨.aggregate .count [], "n"⟩] (.cte ⟨3, "d", .select .columnless⟩) "a" with
    ctes := [⟨3, "d", .select .columnless⟩] }

/-- **A plan that is not accepted, and fails as it should.**  Nothing is required of the statement
without columns, and it has an entry. -/
theorem prune_finds_columnless :
    (Node.select .countColumnless).IdsIdentify ∧
    (Node.select .countColumnless).validate ≠ .ok () ∧
    ∃ required e, Requirements.ofPlan (.select .countColumnless) (.select .countColumnless) =
        .ok (some required) ∧
      (Node.select .countColumnless).prune 10 = .error e ∧
      required.requires Select.columnless.id = false ∧
      required.contains Select.columnless.id = true ∧
      ∀ d, e = .defect d →
        d.message ≠ "no CTE alias mapping was recorded for this select statement" ∧
        d.message ≠ "select statement was not reached while tagging required columns" := by
  have hids : (Node.select .countColumnless).IdsIdentify := by
    have hall : (Node.select .countColumnless).subnodes =
        (.select .countColumnless :: (Node.cte ⟨3, "d", .select .columnless⟩).subnodes) ++
          (Node.cte ⟨3, "d", .select .columnless⟩).subnodes := rfl
    exact Node.idsIdentify_of_append hall (List.subset_cons_self _ _) (by decide)
  have hreaches : ∀ r : Rebuilder, r.Reaches (.select .countColumnless) (.select .columnless) :=
    fun r => .step List.mem_cons_self (.step List.mem_cons_self (.refl _))
  rcases prune_finds_every_statement 10 hids with ⟨-, -, hentries, herrors⟩
  refine ⟨hids, nofun, _, _, rfl, rfl, rfl, ?_, (herrors _ rfl).2⟩
  rcases hentries _ rfl with ⟨p, -, -, hcontains⟩
  exact (hcontains _ (hreaches _)).1

end QueryPlan
