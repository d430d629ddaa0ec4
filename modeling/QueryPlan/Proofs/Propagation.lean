import Mathlib.Logic.Relation
import QueryPlan.Proofs.Requirements
import QueryPlan.Proofs.Scopes

/-!
# Runs of the propagation

The propagation is a run of five kinds of steps (`Propagation.Step`), and what holds along every run
is proved for one step at a time.  The sets only grow (`Step.grows`), and only CTEs of the plan are
noted as read (`Step.refersTo`).

`Consistent` is the invariant that makes a node whose set has kept its size safe to skip: a node was
last looked at with a part of its present set, and all that this part asks for is required
(`Consistent.exists_serves`).
-/

namespace QueryPlan

namespace Propagation

/-! ## Frames -/

/-- All that was required stays required, and nothing changes at nodes outside `T`. -/
structure Extends (T : NodeId → Prop) (p p' : Propagation) : Prop where
  grows : ∀ {i : NodeId} {x : String}, p.Requires i x → p'.Requires i x
  same : ∀ {i : NodeId} {x : String}, ¬ T i → p'.Requires i x → p.Requires i x
  entries : ∀ {i : NodeId}, ¬ T i → p'.required.contains i = true → p.required.contains i = true
  seen : ∀ {i : NodeId}, ¬ T i → p'.seenSize[i]? = p.seenSize[i]?
  refers : ∀ {i : NodeId}, i ∈ p.referenced → i ∈ p'.referenced

section Frames

variable {T T' : NodeId → Prop} {p p₁ p' : Propagation} {node next i : NodeId} {names : List String}

theorem Extends.refl : Extends T p p where
  grows h := h
  same _ h := h
  entries _ h := h
  seen _ := rfl
  refers h := h

theorem Extends.trans (h : Extends T p p₁) (h' : Extends T p₁ p') : Extends T p p' where
  grows hx := h'.grows (h.grows hx)
  same hi hx := h.same hi (h'.same hi hx)
  entries hi hx := h.entries hi (h'.entries hi hx)
  seen hi := (h'.seen hi).trans (h.seen hi)
  refers hi := h'.refers (h.refers hi)

theorem Extends.mono (h : Extends T p p') (hT : ∀ i, T i → T' i) : Extends T' p p' where
  grows := h.grows
  same hi := h.same fun hT' => hi (hT _ hT')
  entries hi := h.entries fun hT' => hi (hT _ hT')
  seen hi := h.seen fun hT' => hi (hT _ hT')
  refers := h.refers

theorem Extends.count_eq (h : Extends T p p') (hi : ¬ T i) : p'.count i = p.count i := by
  refine Nat.le_antisymm (count_le_count ?_) (count_le_count ?_)
  · intro x hx
    exact h.same hi hx
  · intro x hx
    exact h.grows hx

theorem extends_requireAll : Extends (· = node) p (p.requireAll node names) where
  grows h := requires_requireAll.2 (.inl h)
  same hi h := by
    rcases requires_requireAll.1 h with h | ⟨heq, -⟩
    · exact h
    · exact absurd heq hi
  entries hi h := by
    rcases contains_requireAll.1 h with h | heq
    · exact h
    · exact absurd heq hi
  seen _ := rfl
  refers h := h

theorem extends_handOn : Extends (· = next) p (p.handOn node next) :=
  extends_requireAll

/-- What has been handed on is required of both nodes. -/
theorem requires_next_of_handOn {x : String} (h : (p.handOn node next).Requires node x) :
    (p.handOn node next).Requires next x := by
  rcases requires_handOn.1 h with hx | ⟨-, hx⟩
  · exact requires_handOn.2 (.inr ⟨rfl, hx⟩)
  · exact requires_handOn.2 (.inr ⟨rfl, hx⟩)

theorem extends_mark : Extends (· = node) p (p.mark node) where
  grows h := h
  same _ h := h
  entries _ h := h
  seen hi := by rw [seenSize_mark, if_neg hi]
  refers h := h

theorem extends_refer {c : Cte Node} : Extends (fun _ => False) p (p.refer c) where
  grows h := h
  same _ h := h
  entries _ h := h
  seen _ := rfl
  refers h := by
    rw [refer, Std.TreeMap.mem_insertIfNew]
    exact .inr h

theorem mem_referenced_refer {c : Cte Node} : c.id ∈ (p.refer c).referenced := by
  rw [refer, Std.TreeMap.mem_insertIfNew]
  exact .inl Std.ReflCmp.compare_self

end Frames

end Propagation

/-! ## Questions about a plan -/

namespace Ask

/-- The nodes at which a question is noted. -/
def Notes (scope : Scope) : Ask → NodeId → Prop
  | .ofSource source _, i => source.Notes scope i
  | .ofCte c _, i => i = c.id

/-- A question about a node of a plan. -/
def OfPlan (plan : Node) : Ask → Prop
  | .ofSource source _ => source ∈ plan.subnodes
  | .ofCte c _ => .cte c ∈ plan.subnodes

end Ask

namespace Select

variable {plan : Node} {s : Statement} {scope : Scope}

theorem mem_subnodes_of_mem_sourceNodes (hs : .select s ∈ plan.subnodes) {source : Node}
    (h : source ∈ s.sourceNodes) : source ∈ plan.subnodes := by
  refine Node.mem_subnodes_of_parent ?_ hs
  rw [parents_select]
  exact List.mem_append_left _ h

theorem ofPlan_of_mem_asks (hs : .select s ∈ plan.subnodes) {lineage : Lineage} {a : Ask}
    (h : a ∈ s.asks scope lineage) : a.OfPlan plan := by
  cases a with
  | ofSource source x => exact mem_subnodes_of_mem_sourceNodes hs (source_mem_of_mem_asks h)
  | ofCte c names =>
      refine Node.mem_subnodes_of_parent ?_ hs
      rw [parents_select]
      exact List.mem_append_right _ (List.mem_map_of_mem (of_ofCte_mem_asks h).1)

theorem ofPlan_of_mem_firstAsks {source : Node} (hsource : source ∈ plan.subnodes) {a : Ask}
    (h : a ∈ firstAsks scope source) : a.OfPlan plan := by
  rcases List.mem_map.1 h with ⟨x, -, rfl⟩
  exact hsource

end Select

namespace Node

/-- The CTE that a node of a plan names is one of the plan. -/
theorem mem_subnodes_of_namedCte? {plan source : Node} {scope : Scope} (hscope : scope.OfPlan plan)
    {c : Cte Node} (h : source.namedCte? scope = some c) : .cte c ∈ plan.subnodes := by
  unfold namedCte? at h
  split at h
  · exact (hscope _ c h).2
  · simp at h

end Node

namespace Propagation

section Questions

variable {p : Propagation} {scope : Scope} {plan : Node}

theorem extends_ask {a : Ask} : Extends (a.Notes scope) p (p.ask scope a) := by
  cases a with
  | ofCte c names =>
      exact extends_requireAll.trans (extends_refer.mono fun _ h => h.elim)
  | ofSource source name =>
      have hsource : Extends (source.Notes scope) p (p.requireAll source.id [name]) :=
        extends_requireAll.mono fun _ h => .inl h
      simp only [ask, requireOf]
      cases hcte : source.namedCte? scope with
      | none => exact hsource
      | some c =>
          refine (hsource.trans (extends_requireAll.mono ?_)).trans (extends_refer.mono ?_)
          · intro i hi
            exact .inr ⟨c, hcte, hi⟩
          · intro i hi
            exact hi.elim

theorem mem_referenced_ask {source : Node} {name : String} {c : Cte Node}
    (hcte : source.namedCte? scope = some c) :
    c.id ∈ (p.ask scope (.ofSource source name)).referenced := by
  simp only [ask, requireOf, hcte]
  exact mem_referenced_refer

/-- Only CTEs of the plan are noted as read, each under its identity. -/
def RefersTo (plan : Node) (p : Propagation) : Prop :=
  ∀ (i : NodeId) (c : Cte Node), p.referenced[i]? = some c → c.id = i ∧ .cte c ∈ plan.subnodes

theorem RefersTo.refer (h : RefersTo plan p) {c : Cte Node} (hc : .cte c ∈ plan.subnodes) :
    RefersTo plan (p.refer c) := by
  intro i d hd
  rw [Propagation.refer, Std.TreeMap.getElem?_insertIfNew] at hd
  split at hd
  case isTrue hnew =>
    have hid : c.id = i := by simpa using hnew.1
    rw [← Option.some.inj hd]
    exact ⟨hid, hc⟩
  case isFalse => exact h i d hd

theorem RefersTo.ask (h : RefersTo plan p) (hscope : scope.OfPlan plan) {a : Ask}
    (ha : a.OfPlan plan) : RefersTo plan (p.ask scope a) := by
  cases a with
  | ofCte c names => exact RefersTo.refer (p := p.requireAll c.id names) h ha
  | ofSource source name =>
      simp only [Propagation.ask, requireOf]
      cases hcte : source.namedCte? scope with
      | none => exact h
      | some c =>
          have hc := Node.mem_subnodes_of_namedCte? hscope hcte
          exact RefersTo.refer (p := (p.requireAll source.id [name]).requireAll c.id [name]) h hc

theorem RefersTo.foldl_ask (h : RefersTo plan p) (hscope : scope.OfPlan plan) {as : List Ask}
    (has : ∀ a ∈ as, a.OfPlan plan) : RefersTo plan (as.foldl (Propagation.ask scope) p) := by
  refine List.foldlRecOn (motive := RefersTo plan) as _ h ?_
  intro p hp a ha
  exact hp.ask hscope (has a ha)

end Questions

/-! ## Steps -/

/-- Something is required of a node, unless the node shows nothing by itself. -/
def Fed (p : Propagation) (n : Node) : Prop :=
  n.exposedNames ∅ ≠ [] → ∃ x, p.Requires n.id x

/-- One step of the propagation through a plan. -/
inductive Step (plan : Node) (scopes : Scopes) : Propagation → Propagation → Prop
  /-- A statement of which something is required requires of itself what it needs. -/
  | force {p : Propagation} {s : Statement} : .select s ∈ plan.subnodes → p.Fed (.select s) →
      Step plan scopes p (p.requireAll s.id s.forcedNames)
  /-- A statement is looked at. -/
  | look {p : Propagation} {s : Statement} {scope : Scope} : .select s ∈ plan.subnodes →
      scopes[s.id]? = some scope → (∀ x ∈ s.forcedNames, p.Requires s.id x) →
      Step plan scopes p ((p.mark s.id).requireInputs scope s)
  /-- A source is to show something. -/
  | supply {p : Propagation} {s : Statement} {scope : Scope} {source : Node} :
      .select s ∈ plan.subnodes → scopes[s.id]? = some scope → source ∈ s.sourceNodes →
      Step plan scopes p (p.requireSome scope source)
  /-- A CTE is looked at. -/
  | enter {p : Propagation} {c : Cte Node} : .cte c ∈ plan.subnodes →
      Step plan scopes p (p.enterCte c)
  /-- The creation of a table hands on what is required of it. -/
  | handOn {p : Propagation} {id : NodeId} {t : TableName} {query : Node} :
      .createTable id t query ∈ plan.subnodes → Step plan scopes p (p.handOn id query.id)

/-- Steps one after the other. -/
abbrev Run (plan : Node) (scopes : Scopes) : Propagation → Propagation → Prop :=
  Relation.ReflTransGen (Step plan scopes)

/-- What a property needs to hold along runs. -/
theorem Run.preserves {plan : Node} {scopes : Scopes} {P : Propagation → Prop}
    (hstep : ∀ p p', Step plan scopes p p' → P p → P p') {p p' : Propagation}
    (hrun : Run plan scopes p p') (h : P p) : P p' := by
  induction hrun with
  | refl => exact h
  | tail _ hlast ih => exact hstep _ _ hlast ih

section Steps

variable {plan : Node} {scopes : Scopes} {scope : Scope} {p p' : Propagation} {i : NodeId}
  {x : String}

theorem requires_requireInputs {s : Statement} :
    (p.requireInputs scope s).Requires i x ↔ p.Requires i x ∨
      ∃ a ∈ s.asks scope (s.requiredLineage (p.required.names s.id)), a.Requires scope i x := by
  rw [requireInputs_eq_foldl_ask, requires_foldl_ask]

theorem requires_of_requireSome {source : Node} (h : (p.requireSome scope source).Requires i x) :
    p.Requires i x ∨ ∃ a ∈ Select.firstAsks scope source, a.Requires scope i x := by
  rw [requireSome_eq_foldl_ask] at h
  split at h
  · exact .inl h
  · exact requires_foldl_ask.1 h

theorem requires_requireSome {source : Node} (h : p.Requires i x) :
    (p.requireSome scope source).Requires i x := by
  rw [requireSome_eq_foldl_ask]
  split
  · exact h
  · exact requires_foldl_ask.2 (.inl h)

@[simp] theorem seenSize_requireSome {source : Node} :
    (p.requireSome scope source).seenSize = p.seenSize := by
  rw [requireSome_eq_foldl_ask]
  split
  · rfl
  · exact seenSize_foldl_ask

theorem seenSize_requireInputs {s : Statement} :
    (p.requireInputs scope s).seenSize = p.seenSize := by
  rw [requireInputs_eq_foldl_ask, seenSize_foldl_ask]

/-- Along a step the sets grow. -/
theorem Step.grows (h : Step plan scopes p p') (hx : p.Requires i x) : p'.Requires i x := by
  cases h with
  | force => exact requires_requireAll.2 (.inl hx)
  | look => exact requires_requireInputs.2 (.inl hx)
  | supply => exact requires_requireSome hx
  | enter => exact requires_handOn.2 (.inl hx)
  | handOn => exact requires_handOn.2 (.inl hx)

theorem Run.grows (h : Run plan scopes p p') (hx : p.Requires i x) : p'.Requires i x :=
  h.preserves (P := fun p => p.Requires i x) (fun _ _ hstep => hstep.grows) hx

theorem Step.refersTo (hscopes : scopes.OfPlan plan) (h : Step plan scopes p p')
    (hp : RefersTo plan p) : RefersTo plan p' := by
  cases h with
  | force => exact hp
  | enter => exact hp
  | handOn => exact hp
  | look hs hscope =>
      rw [requireInputs_eq_foldl_ask]
      exact RefersTo.foldl_ask (p := p.mark _) hp (hscopes _ _ hscope) fun a ha =>
        Select.ofPlan_of_mem_asks hs ha
  | supply hs hscope hsource =>
      rw [requireSome_eq_foldl_ask]
      split
      · exact hp
      · refine hp.foldl_ask (hscopes _ _ hscope) ?_
        intro a ha
        have hplan := Select.mem_subnodes_of_mem_sourceNodes hs hsource
        exact Select.ofPlan_of_mem_firstAsks hplan ha

end Steps

/-! ## What has been looked at -/

/-- All that a node asks for, if the names of a set are required of it, is required. -/
def Serves (scopes : Scopes) (p : Propagation) (set : NameSet) : Node → Prop
  | .select s => (∀ x ∈ s.forcedNames, x ∈ set) ∧ ∃ scope, scopes[s.id]? = some scope ∧
      ∀ a ∈ s.asks scope (s.requiredLineage set), ∀ i x, a.Requires scope i x → p.Requires i x
  | .cte c => ∀ x ∈ set, p.Requires c.body.id x
  | _ => True

/-- A node was last looked at with a part of its present set, whose size has been noted, and what
this part asks for is required. -/
def Consistent (plan : Node) (scopes : Scopes) (p : Propagation) : Prop :=
  ∀ n ∈ plan.subnodes, ∀ k, p.seenSize[n.id]? = some k →
    ∃ set : NameSet, (∀ x ∈ set, p.Requires n.id x) ∧ set.size = k ∧ p.Serves scopes set n

section Looking

variable {plan : Node} {scopes : Scopes} {scope : Scope} {p p' : Propagation} {n : Node}

theorem Serves.mono {set : NameSet} (h : p.Serves scopes set n)
    (hgrows : ∀ i x, p.Requires i x → p'.Requires i x) : p'.Serves scopes set n := by
  cases n with
  | table | text | createTable => trivial
  | cte c =>
      intro x hx
      exact hgrows _ _ (h x hx)
  | select s =>
      rcases h with ⟨hforced, scope, hscope, hasks⟩
      refine ⟨hforced, scope, hscope, ?_⟩
      intro a ha i x hx
      exact hgrows i x (hasks a ha i x hx)

/-- The size noted for a node is that of a part of its set. -/
theorem Consistent.le_count (h : Consistent plan scopes p) (hn : n ∈ plan.subnodes) {k : Nat}
    (hk : p.seenSize[n.id]? = some k) : k ≤ p.count n.id := by
  rcases h n hn k hk with ⟨set, hset, rfl, -⟩
  rw [count, ← Std.TreeSet.length_toList (t := p.required.names n.id)]
  refine size_le_of_subset ?_
  intro x hx
  exact Std.TreeSet.mem_toList.2 (hset x hx)

/-- **A node may be skipped when its set has kept its size**: then its whole set has been served. -/
theorem Consistent.exists_serves (h : Consistent plan scopes p) (hn : n ∈ plan.subnodes)
    (hsettled : p.isSettled n.id = true) :
    ∃ set : NameSet, (∀ x, x ∈ set ↔ p.Requires n.id x) ∧ p.Serves scopes set n := by
  have hseen : p.seenSize[n.id]? = some (p.count n.id) := by simpa [isSettled] using hsettled
  rcases h n hn _ hseen with ⟨set, hset, hsize, hserves⟩
  refine ⟨set, fun x => ⟨hset x, fun hx => ?_⟩, hserves⟩
  exact mem_of_subset_of_size_le hset (Nat.le_of_eq hsize.symm) hx

/-- A step notes no size, or it notes that of a node which is then served. -/
theorem Step.seen (hids : plan.IdsIdentify) (hstep : Step plan scopes p p')
    (hn : n ∈ plan.subnodes) : p'.seenSize[n.id]? = p.seenSize[n.id]? ∨
      p'.seenSize[n.id]? = some (p.count n.id) ∧ p'.Serves scopes (p.required.names n.id) n := by
  cases hstep with
  | force | handOn => exact .inl rfl
  | supply => exact .inl (by rw [seenSize_requireSome])
  | @look s scope hs hscope hforced =>
      rw [seenSize_requireInputs, seenSize_mark]
      split
      case isFalse => exact .inl rfl
      case isTrue hid =>
        have hnode : n = .select s := hids n hn _ hs hid
        subst hnode
        refine .inr ⟨rfl, hforced, scope, hscope, ?_⟩
        intro a ha i x hx
        exact requires_requireInputs.2 (.inr ⟨a, ha, hx⟩)
  | @enter c hc =>
      rw [seenSize_enterCte]
      split
      case isFalse => exact .inl rfl
      case isTrue hid =>
        have hnode : n = .cte c := hids n hn _ hc hid
        subst hnode
        refine .inr ⟨rfl, ?_⟩
        intro x hx
        exact requires_handOn.2 (.inr ⟨rfl, hx⟩)

theorem Step.consistent (hids : plan.IdsIdentify) (hstep : Step plan scopes p p')
    (h : Consistent plan scopes p) : Consistent plan scopes p' := by
  intro n hn k hk
  rcases hstep.seen hids hn with hsame | ⟨hcount, hserves⟩
  · rw [hsame] at hk
    rcases h n hn k hk with ⟨set, hset, hsize, hserves⟩
    exact ⟨set, fun x hx => hstep.grows (hset x hx), hsize, hserves.mono fun _ _ => hstep.grows⟩
  · rw [hcount] at hk
    exact ⟨p.required.names n.id, fun x hx => hstep.grows hx, Option.some.inj hk, hserves⟩

end Looking

end Propagation

end QueryPlan
