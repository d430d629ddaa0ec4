import QueryPlan.Proofs.Propagation

/-!
# Visits

Along a run there may be nodes that still have to be looked at (`Owes`): a question leaves a source
owing until the source is visited.  What a whole visit does is said by `Visit`: nothing owes
afterwards that did not owe before, and the nodes visited do not owe.  In the same way no visit
leaves a statement behind that reads a source of which nothing is required (`Unmet`).

* `Node.visit_propagate` — propagating from a node is a visit of the node.
* `Node.exists_propagate` — it goes through where every statement has a scope.
-/

namespace QueryPlan

theorem bind_eq_ok {α β : Type} {x : Except Error α} {f : α → Except Error β} {b : β} :
    (x >>= f) = .ok b ↔ ∃ a, x = .ok a ∧ f a = .ok b := by
  cases x <;> simp [bind, Except.bind]

namespace Propagation

/-! ## What has still to be looked at -/

/-- A node has to be looked at: a statement that has an entry and whose set has changed, or a node
that has not handed on its whole set.  CTEs that have been noted as read are left to `settle`. -/
def Owes (p : Propagation) : Node → Prop
  | .select s => p.required.contains s.id = true ∧ p.isSettled s.id = false
  | .cte c => c.id ∉ p.referenced ∧ ∃ x, p.Requires c.id x ∧ ¬ p.Requires c.body.id x
  | .createTable id _ query => ∃ x, p.Requires id x ∧ ¬ p.Requires query.id x
  | .table .. | .text .. => False

/-- The node whose set says whether something is required of a source. -/
def target (scope : Scope) (source : Node) : NodeId :=
  ((source.namedCte? scope).map Cte.id).getD source.id

/-- Something is required of a source, unless the source shows nothing. -/
def Supplied (p : Propagation) (scope : Scope) (source : Node) : Prop :=
  source.exposedNames scope = [] ∨ ∃ x, p.Requires (target scope source) x

/-- A statement that has been looked at and has a source of which nothing is required. -/
def Unmet (scopes : Scopes) (p : Propagation) (s : Statement) : Prop :=
  s.id ∈ p.seenSize ∧ ∃ scope, scopes[s.id]? = some scope ∧
    ∃ source ∈ s.sourceNodes, ¬ p.Supplied scope source

section Owing

variable {plan : Node} {scopes : Scopes} {scope : Scope} {p p' : Propagation} {n x : Node}

theorem Extends.owes {T : NodeId → Prop} (h : Extends T p p') (hx : ¬ T x.id)
    (howes : p'.Owes x) : p.Owes x := by
  cases x with
  | table | text => exact howes
  | select s =>
      rcases howes with ⟨hentry, hsettled⟩
      have hs : ¬ T s.id := hx
      rw [isSettled, h.seen hs, h.count_eq hs] at hsettled
      exact ⟨h.entries hs hentry, hsettled⟩
  | cte c =>
      rcases howes with ⟨href, y, hy, hbody⟩
      exact ⟨fun hc => href (h.refers hc), y, h.same hx hy, fun hb => hbody (h.grows hb)⟩
  | createTable id t query =>
      rcases howes with ⟨y, hy, hquery⟩
      exact ⟨y, h.same hx hy, fun hq => hquery (h.grows hq)⟩

/-- A question leaves at most the source that is asked owing: a CTE that is asked is noted as
read. -/
theorem owes_of_ask (hids : plan.IdsIdentify) (hscope : scope.OfPlan plan) {a : Ask}
    (ha : a.OfPlan plan) (hx : x ∈ plan.subnodes) (h : (p.ask scope a).Owes x) :
    p.Owes x ∨ ∃ name, a = .ofSource x name := by
  by_cases hnotes : a.Notes scope x.id
  · have hcte : ∀ c : Cte Node, .cte c ∈ plan.subnodes → x.id = c.id →
        c.id ∈ (p.ask scope a).referenced → False := by
      intro c hc hid href
      have hnode : x = .cte c := hids x hx _ hc hid
      subst hnode
      exact h.1 href
    cases a with
    | ofCte c names => exact (hcte c ha hnotes mem_referenced_refer).elim
    | ofSource source name =>
        rcases hnotes with hid | ⟨c, hnamed, hid⟩
        · have hnode : x = source := hids x hx _ ha hid
          exact .inr ⟨name, by rw [hnode]⟩
        · have hc := Node.mem_subnodes_of_namedCte? hscope hnamed
          exact (hcte c hc hid (mem_referenced_ask hnamed)).elim
  · exact .inl (extends_ask.owes hnotes h)

theorem owes_of_foldl_ask (hids : plan.IdsIdentify) (hscope : scope.OfPlan plan) {as : List Ask}
    (has : ∀ a ∈ as, a.OfPlan plan) (hx : x ∈ plan.subnodes)
    (h : (as.foldl (ask scope) p).Owes x) : p.Owes x ∨ ∃ name, .ofSource x name ∈ as := by
  induction as generalizing p with
  | nil => exact .inl h
  | cons a as ih =>
      rcases ih (fun b hb => has b (List.mem_cons_of_mem _ hb)) h with h | ⟨name, hmem⟩
      · rcases owes_of_ask hids hscope (has a List.mem_cons_self) hx h with h | ⟨name, rfl⟩
        · exact .inl h
        · exact .inr ⟨name, List.mem_cons_self⟩
      · exact .inr ⟨name, List.mem_cons_of_mem _ hmem⟩

theorem owes_of_requireSome (hids : plan.IdsIdentify) (hscope : scope.OfPlan plan) {source : Node}
    (hsource : source ∈ plan.subnodes) (hx : x ∈ plan.subnodes)
    (h : (p.requireSome scope source).Owes x) : p.Owes x ∨ x = source := by
  rw [requireSome_eq_foldl_ask] at h
  split at h
  · exact .inl h
  · have has : ∀ a ∈ Select.firstAsks scope source, a.OfPlan plan := by
      intro a ha
      exact Select.ofPlan_of_mem_firstAsks hsource ha
    rcases owes_of_foldl_ask hids hscope has hx h with h | ⟨name, hmem⟩
    · exact .inl h
    · rcases List.mem_map.1 hmem with ⟨y, -, heq⟩
      injection heq with hsame
      exact .inr hsame.symm

/-- A statement that has been looked at owes nothing, but its sources may. -/
theorem owes_of_look (hids : plan.IdsIdentify) (hscope : scope.OfPlan plan) {s : Statement}
    (hs : .select s ∈ plan.subnodes) (hx : x ∈ plan.subnodes)
    (h : ((p.mark s.id).requireInputs scope s).Owes x) :
    (p.Owes x ∧ x ≠ .select s) ∨ x ∈ s.sourceNodes := by
  rw [requireInputs_eq_foldl_ask] at h
  have has : ∀ a ∈ s.asks scope (s.requiredLineage ((p.mark s.id).required.names s.id)),
      a.OfPlan plan := by
    intro a ha
    exact Select.ofPlan_of_mem_asks hs ha
  rcases owes_of_foldl_ask hids hscope has hx h with h | ⟨name, hmem⟩
  · by_cases hid : x.id = s.id
    · have hnode : x = .select s := hids x hx _ hs hid
      subst hnode
      have hsettled : (p.mark s.id).isSettled s.id = true := by
        rw [isSettled, seenSize_mark, if_pos rfl, beq_iff_eq]
        rfl
      rw [Owes, hsettled] at h
      exact absurd h.2 (by simp)
    · refine .inl ⟨extends_mark.owes hid h, ?_⟩
      rintro rfl
      exact hid rfl
  · exact .inr (Select.source_mem_of_mem_asks hmem)

end Owing

/-! ## Sources that show something -/

section Supplying

variable {plan : Node} {scopes : Scopes} {scope : Scope} {p p' : Propagation} {source : Node}

theorem Supplied.mono (h : p.Supplied scope source)
    (hgrows : ∀ i x, p.Requires i x → p'.Requires i x) : p'.Supplied scope source := by
  rcases h with hnone | ⟨x, hx⟩
  · exact .inl hnone
  · exact .inr ⟨x, hgrows _ _ hx⟩

theorem notes_target : source.Notes scope (target scope source) := by
  rw [target]
  cases hcte : source.namedCte? scope with
  | none => exact .inl rfl
  | some c => exact .inr ⟨c, hcte, rfl⟩

theorem supplied_requireSome : (p.requireSome scope source).Supplied scope source := by
  rw [requireSome_eq_foldl_ask]
  split
  case isTrue hsome => exact .inr (Requirements.requires_iff.1 hsome)
  case isFalse =>
    cases hnames : source.exposedNames scope with
    | nil => exact .inl hnames
    | cons x xs =>
        refine .inr ⟨x, requires_foldl_ask.2 (.inr ⟨.ofSource source x, ?_, notes_target, rfl⟩)⟩
        rw [Select.firstAsks, hnames]
        exact List.mem_singleton.2 rfl

theorem Fed.mono {n : Node} (h : p.Fed n) (hgrows : ∀ i x, p.Requires i x → p'.Requires i x) :
    p'.Fed n := by
  intro hshows
  rcases h hshows with ⟨x, hx⟩
  exact ⟨x, hgrows _ _ hx⟩

theorem Supplied.fed (h : p.Supplied scope source) : p.Fed source := by
  intro hshows
  rcases Node.exists_unwrapped_of_exposedNames hshows with ⟨s, hs⟩
  have htarget : target scope source = source.id := by
    rw [target, Node.namedCte?_of_unwrapped hs]
    rfl
  rcases h with hnone | hsome
  · rw [Node.exposedNames_of_unwrapped hs] at hshows hnone
    exact absurd hnone hshows
  · rwa [htarget] at hsome

/-- What is required of a node that wraps another is required of that one when it is handed on. -/
theorem Fed.handOn {m n : Node} (h : p.Fed n) (hsame : m.unwrapped = n.unwrapped) :
    (p.handOn n.id m.id).Fed m := by
  intro hshows
  rw [Node.exposedNames_congr hsame] at hshows
  rcases h hshows with ⟨x, hx⟩
  exact ⟨x, requires_handOn.2 (.inr ⟨rfl, hx⟩)⟩

theorem Fed.enterCte {c : Cte Node} (h : p.Fed (.cte c)) : (p.enterCte c).Fed c.body :=
  have hmarked : (p.mark c.id).Fed (.cte c) := h
  hmarked.handOn rfl

theorem Unmet.back {s : Statement} (h : Unmet scopes p' s)
    (hgrows : ∀ i x, p.Requires i x → p'.Requires i x)
    (hseen : p'.seenSize[s.id]? = p.seenSize[s.id]?) : Unmet scopes p s := by
  rcases h with ⟨hmem, scope, hscope, source, hsource, hnot⟩
  refine ⟨?_, scope, hscope, source, hsource, fun h => hnot (h.mono hgrows)⟩
  rw [Std.TreeMap.mem_iff_isSome_getElem?] at *
  rwa [← hseen]

end Supplying

/-! ## Visits -/

/-- What visiting nodes of a plan, one after the other, does. -/
structure Visit (plan : Node) (scopes : Scopes) (nodes : List Node) (p p' : Propagation) :
    Prop where
  run : Run plan scopes p p'
  owes : ∀ x ∈ plan.subnodes, p'.Owes x → p.Owes x ∧ x ∉ nodes
  unmet : ∀ s, .select s ∈ plan.subnodes → Unmet scopes p' s → Unmet scopes p s

namespace Visit

variable {plan : Node} {scopes : Scopes} {scope : Scope} {p p₁ p' : Propagation}

theorem nil : Visit plan scopes [] p p where
  run := .refl
  owes _ _ h := ⟨h, List.not_mem_nil⟩
  unmet _ _ h := h

theorem append {ns ms : List Node} (h : Visit plan scopes ns p p₁)
    (h' : Visit plan scopes ms p₁ p') : Visit plan scopes (ns ++ ms) p p' where
  run := h.run.trans h'.run
  owes x hx howes := by
    rcases h'.owes x hx howes with ⟨howes, hms⟩
    rcases h.owes x hx howes with ⟨howes, hns⟩
    exact ⟨howes, fun hmem => (List.mem_append.1 hmem).elim hns hms⟩
  unmet s hs hunmet := h.unmet s hs (h'.unmet s hs hunmet)

/-- A step that leaves at most one node owing, which is visited next. -/
theorem of_step {n m : Node} (hstep : Step plan scopes p p₁)
    (howes : ∀ x ∈ plan.subnodes, p₁.Owes x → (p.Owes x ∧ x ≠ n) ∨ x = m)
    (hseen : ∀ s, .select s ∈ plan.subnodes → p₁.seenSize[s.id]? = p.seenSize[s.id]?)
    (h : Visit plan scopes [m] p₁ p') : Visit plan scopes [n] p p' where
  run := .head hstep h.run
  owes x hx hp' := by
    rcases h.owes x hx hp' with ⟨hp₁, hm⟩
    rcases howes x hx hp₁ with ⟨hp, hn⟩ | heq
    · exact ⟨hp, fun hmem => hn (List.mem_singleton.1 hmem)⟩
    · exact absurd (List.mem_singleton.2 heq) hm
  unmet s hs hp' := (h.unmet s hs hp').back (fun _ _ => hstep.grows) (hseen s hs)

/-- Sources are visited one after the other, each with something required of it. -/
theorem sources (hids : plan.IdsIdentify) (hscopes : scopes.OfPlan plan) {s : Statement}
    (hs : .select s ∈ plan.subnodes) (hscope : scopes[s.id]? = some scope) {xs : List Node}
    (hxs : ∀ x ∈ xs, x ∈ s.sourceNodes)
    (hvisit : ∀ x ∈ xs, ∀ p p', p.Fed x → x.propagate scopes p = .ok p' →
      Visit plan scopes [x] p p')
    (h : xs.foldlM (fun p x => x.propagate scopes (p.requireSome scope x)) p = .ok p') :
    Visit plan scopes xs p p' ∧ ∀ x ∈ xs, p'.Supplied scope x := by
  induction xs generalizing p with
  | nil =>
      have hp : p = p' := Except.ok.inj h
      subst hp
      exact ⟨.nil, by simp⟩
  | cons x xs ih =>
      rw [List.foldlM_cons, bind_eq_ok] at h
      rcases h with ⟨p₁, hx, h⟩
      have hmem := hxs x List.mem_cons_self
      have hplan := Select.mem_subnodes_of_mem_sourceNodes hs hmem
      have hstep : Step plan scopes p (p.requireSome scope x) := .supply hs hscope hmem
      have hfirst : Visit plan scopes [x] (p.requireSome scope x) p₁ :=
        hvisit x List.mem_cons_self _ _ supplied_requireSome.fed hx
      have hrest := ih (fun y hy => hxs y (List.mem_cons_of_mem _ hy))
        (fun y hy => hvisit y (List.mem_cons_of_mem _ hy)) h
      refine ⟨.append (.of_step hstep ?_ ?_ hfirst) hrest.1, ?_⟩
      · intro y hy howes
        rcases owes_of_requireSome hids (hscopes _ _ hscope) hplan hy howes with hp | heq
        · by_cases heq : y = x
          · exact .inr heq
          · exact .inl ⟨hp, heq⟩
        · exact .inr heq
      · intro s' _
        rw [seenSize_requireSome]
      · intro y hy
        rcases List.mem_cons.1 hy with rfl | hy
        · have hrun := hfirst.run.trans hrest.1.run
          exact supplied_requireSome.mono fun _ _ hx => Run.grows hrun hx
        · exact hrest.2 y hy

/-- A statement whose set has kept its size is left alone. -/
theorem settled (hids : plan.IdsIdentify) {s : Statement} (hs : .select s ∈ plan.subnodes)
    (hfed : p.Fed (.select s))
    (hsettled : (p.requireAll s.id s.forcedNames).isSettled s.id = true) :
    Visit plan scopes [.select s] p (p.requireAll s.id s.forcedNames) where
  run := .single (.force hs hfed)
  owes x hx howes := by
    have hid : x.id ≠ s.id := by
      intro hid
      have hnode : x = .select s := hids x hx _ hs hid
      subst hnode
      rw [Owes, hsettled] at howes
      exact absurd howes.2 (by simp)
    refine ⟨extends_requireAll.owes hid howes, ?_⟩
    rw [List.mem_singleton]
    rintro rfl
    exact hid rfl
  unmet s' _ h := h.back (fun _ _ hx => extends_requireAll.grows hx) rfl

/-- A statement is looked at, and then its sources are visited. -/
theorem look (hids : plan.IdsIdentify) (hscopes : scopes.OfPlan plan) {s : Statement}
    (hs : .select s ∈ plan.subnodes) (hfed : p.Fed (.select s))
    (hscope : scopes[s.id]? = some scope)
    (h : Visit plan scopes s.sourceNodes
      (((p.requireAll s.id s.forcedNames).mark s.id).requireInputs scope s) p')
    (hsupplied : ∀ x ∈ s.sourceNodes, p'.Supplied scope x) :
    Visit plan scopes [.select s] p p' := by
  have hforce : Step plan scopes p (p.requireAll s.id s.forcedNames) := .force hs hfed
  have hlook : Step plan scopes (p.requireAll s.id s.forcedNames)
      (((p.requireAll s.id s.forcedNames).mark s.id).requireInputs scope s) := by
    refine .look hs hscope ?_
    intro x hx
    exact requires_requireAll.2 (.inr ⟨rfl, hx⟩)
  refine ⟨.head hforce (.head hlook h.run), ?_, ?_⟩
  · intro x hx howes
    rcases h.owes x hx howes with ⟨howes, hnot⟩
    rcases owes_of_look hids (hscopes _ _ hscope) hs hx howes with ⟨howes, hne⟩ | hsource
    · have hid : x.id ≠ s.id := by
        intro hid
        exact hne (hids x hx _ hs hid)
      exact ⟨extends_requireAll.owes hid howes, fun hmem => hne (List.mem_singleton.1 hmem)⟩
    · exact absurd hsource hnot
  · intro s' hs' hunmet
    have hid : s'.id ≠ s.id := by
      intro hid
      have hnode := hids _ hs' _ hs hid
      injection hnode with hnode
      subst hnode
      rcases hunmet with ⟨-, scope', hscope', source, hsource, hnot⟩
      rw [hscope] at hscope'
      rw [← Option.some.inj hscope'] at hnot
      exact hnot (hsupplied source hsource)
    refine ((h.unmet s' hs' hunmet).back (fun _ _ => hlook.grows) ?_).back
      (fun _ _ => hforce.grows) rfl
    rw [seenSize_requireInputs, seenSize_mark, if_neg hid]

/-- A CTE hands on its set to its body, which is visited next. -/
theorem enter (hids : plan.IdsIdentify) {c : Cte Node} (hc : .cte c ∈ plan.subnodes)
    (h : Visit plan scopes [c.body] (p.enterCte c) p') : Visit plan scopes [.cte c] p p' := by
  have hbody := Node.body_mem_subnodes hc
  refine .of_step (.enter hc) ?_ ?_ h
  · intro x hx howes
    by_cases hnext : x.id = c.body.id
    · exact .inr (hids x hx _ hbody hnext)
    · have hid : x.id ≠ c.id := by
        intro hid
        have hnode : x = .cte c := hids x hx _ hc hid
        subst hnode
        -- the CTE itself owes its body nothing any more, since the whole set went over
        rcases howes with ⟨-, y, hy, hnot⟩
        exact hnot (requires_next_of_handOn hy)
      refine .inl ⟨extends_mark.owes hid (extends_handOn.owes hnext howes), ?_⟩
      rintro rfl
      exact hid rfl
  · intro s hs
    have hid : s.id ≠ c.id := by
      intro hid
      exact Node.noConfusion (hids _ hs _ hc hid)
    rw [seenSize_enterCte, if_neg hid]

/-- The creation of a table hands on its set to its query, which is visited next. -/
theorem createTable (hids : plan.IdsIdentify) {id : NodeId} {t : TableName} {query : Node}
    (hn : .createTable id t query ∈ plan.subnodes)
    (h : Visit plan scopes [query] (p.handOn id query.id) p') :
    Visit plan scopes [.createTable id t query] p p' := by
  have hquery := Node.query_mem_subnodes hn
  refine .of_step (.handOn hn) ?_ (fun _ _ => rfl) h
  intro x hx howes
  by_cases hnext : x.id = query.id
  · exact .inr (hids x hx _ hquery hnext)
  · refine .inl ⟨extends_handOn.owes hnext howes, ?_⟩
    rintro rfl
    rcases howes with ⟨y, hy, hnot⟩
    exact hnot (requires_next_of_handOn hy)

/-- Nothing is to be done at a table or a query given as text. -/
theorem leaf {n : Node} (hn : ∀ p : Propagation, ¬ p.Owes n) : Visit plan scopes [n] p p where
  run := .refl
  owes x _ howes := by
    refine ⟨howes, ?_⟩
    rw [List.mem_singleton]
    rintro rfl
    exact hn p howes
  unmet _ _ h := h

end Visit

end Propagation

/-! ## Visiting a whole plan -/

namespace Node

variable {plan : Node} {scopes : Scopes}

theorem propagateJoins_eq (scope : Scope) (js : List (Join Node)) (p : Propagation) :
    propagateJoins scopes scope js p = (js.map Join.source).foldlM
      (fun p x => x.propagate scopes (p.requireSome scope x)) p := by
  induction js generalizing p with
  | nil => rfl
  | cons j js ih =>
      simp only [propagateJoins, ih, List.map_cons, List.foldlM_cons]

/-- A statement is looked at unless its set has kept its size, and then its sources are visited, in
order. -/
theorem propagate_select (s : Statement) (p : Propagation) :
    (Node.select s).propagate scopes p =
      if (p.requireAll s.id s.forcedNames).isSettled s.id then
        .ok (p.requireAll s.id s.forcedNames)
      else scopes.find s >>= fun scope => s.sourceNodes.foldlM
        (fun p x => x.propagate scopes (p.requireSome scope x))
        (((p.requireAll s.id s.forcedNames).mark s.id).requireInputs scope s) := by
  have hnodes : s.sourceNodes = s.source :: s.joins.map Join.source := by
    simp [Select.sourceNodes, Select.sources, Function.comp_def]
  simp only [propagate, hnodes, List.foldlM_cons, propagateJoins_eq]
  rfl

theorem find_eq_ok {s : Statement} {scope : Scope} :
    scopes.find s = .ok scope ↔ scopes[s.id]? = some scope := by
  rw [Scopes.find]
  cases scopes[s.id]? <;> simp

/-- **A visit pays what the node owes.** -/
theorem visit_propagate (hids : plan.IdsIdentify) (hscopes : scopes.OfPlan plan) (n : Node)
    (hn : n ∈ plan.subnodes) {p p' : Propagation} (hfed : p.Fed n)
    (h : n.propagate scopes p = .ok p') : Propagation.Visit plan scopes [n] p p' := by
  induction n using induct_parents generalizing p p' with
  | h n ih =>
      have hparent : ∀ m ∈ n.parents, ∀ p p', p.Fed m → m.propagate scopes p = .ok p' →
          Propagation.Visit plan scopes [m] p p' := by
        intro m hm p p' hfed h
        exact ih m hm (mem_subnodes_of_parent hm hn) hfed h
      cases n with
      | table | text =>
          have hp : p = p' := Except.ok.inj h
          subst hp
          exact .leaf fun p h => h
      | cte c =>
          exact .enter hids hn (hparent c.body (by simp [parents]) _ _ hfed.enterCte h)
      | createTable id t query =>
          exact .createTable hids hn (hparent query (by simp [parents]) _ _ (hfed.handOn rfl) h)
      | select s =>
          rw [propagate_select] at h
          split at h
          case isTrue hsettled =>
            rw [← Except.ok.inj h]
            exact .settled hids hn hfed hsettled
          case isFalse =>
            rcases bind_eq_ok.1 h with ⟨scope, hfind, h⟩
            have hscope := find_eq_ok.1 hfind
            have hvisit := Propagation.Visit.sources hids hscopes hn hscope
              (fun x hx => hx) (fun x hx => hparent x (by simp [Select.parents_select, hx])) h
            exact .look hids hscopes hn hfed hscope hvisit.1 hvisit.2

/-- A visit goes through where every statement has a scope. -/
theorem exists_propagate
    (hscopes : ∀ s, .select s ∈ plan.subnodes → ∃ scope, scopes[s.id]? = some scope) (n : Node)
    (hn : n ∈ plan.subnodes) (p : Propagation) : ∃ p', n.propagate scopes p = .ok p' := by
  induction n using induct_parents generalizing p with
  | h n ih =>
      have hparent : ∀ m ∈ n.parents, ∀ p, ∃ p', m.propagate scopes p = .ok p' := by
        intro m hm p
        exact ih m hm (mem_subnodes_of_parent hm hn) p
      cases n with
      | table | text => exact ⟨p, rfl⟩
      | cte c => exact hparent c.body (by simp [parents]) _
      | createTable id t query => exact hparent query (by simp [parents]) _
      | select s =>
          rcases hscopes s hn with ⟨scope, hscope⟩
          have hsources : ∀ xs : List Node, (∀ x ∈ xs, x ∈ s.sourceNodes) → ∀ p, ∃ p',
              xs.foldlM (fun p x => x.propagate scopes (p.requireSome scope x)) p = .ok p' := by
            intro xs hxs
            induction xs with
            | nil => exact fun p => ⟨p, rfl⟩
            | cons x xs ihxs =>
                intro p
                have hx : x ∈ (Node.select s).parents := by
                  simp [Select.parents_select, hxs x List.mem_cons_self]
                rcases hparent x hx (p.requireSome scope x) with ⟨p₁, hp₁⟩
                rcases ihxs (fun y hy => hxs y (List.mem_cons_of_mem _ hy)) p₁ with ⟨p', hp'⟩
                exact ⟨p', by rw [List.foldlM_cons, hp₁]; exact hp'⟩
          rw [propagate_select, find_eq_ok.2 hscope]
          split
          · exact ⟨_, rfl⟩
          · exact hsources s.sourceNodes (fun x hx => hx) _

end Node

end QueryPlan
