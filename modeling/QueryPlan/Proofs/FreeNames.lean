import QueryPlan.Proofs.LexicalScopes
import QueryPlan.Proofs.Places

/-!
# Free names

A bare table below a node may stand for a CTE, and for which one depends on the scope at the node.
It depends on it only through the names that are *free* in the node: those of bare tables that no
statement in between defines (`ReadsFree`).  Conversely two scopes that differ in a free name are
told apart at some place.

* `targetAt?` — the CTE that the table at a place stands for, when the node is read in a scope.
* **`targetAt?_eq_iff`** — two scopes mean the same to a node exactly if they agree on its free
  names.
* `Scopes.getElem?_record_of_scopedAt?` — the scope at a place is the one that is recorded, in a
  plan without sharing.
-/

namespace QueryPlan

namespace Node

/-! ## Scopes at places -/

/-- The node at a place, with the scope in which it is read if the whole is read in the scope
`outer`. -/
def scopedAt? (outer : Scope) : Node → List Nat → Option (Scope × Node)
  | n, [] => some (outer, n)
  | n, i :: place => n.parents[i]?.bind fun m => m.scopedAt? (outer.inside n) place

/-- The CTE that the table at a place stands for. -/
def targetAt? (outer : Scope) (n : Node) (place : List Nat) : Option (Cte Node) :=
  (n.scopedAt? outer place).bind fun found => found.2.namedCte? found.1

section Targets

variable {outer scope scope' : Scope} {n m : Node} {i : Nat} {place : List Nat} {x : String}

theorem scopedAt?_cons :
    n.scopedAt? outer (i :: place) =
      n.parents[i]?.bind fun m => m.scopedAt? (outer.inside n) place := rfl

/-- The scope makes no difference to which node is at a place. -/
theorem map_snd_scopedAt? (outer : Scope) :
    (n.scopedAt? outer place).map Prod.snd = n.nodeAt? place := by
  induction place generalizing n outer with
  | nil => rfl
  | cons i place ih =>
      rw [scopedAt?_cons, nodeAt?]
      cases n.parents[i]? with
      | none => rfl
      | some m => exact ih _

theorem targetAt?_nil : n.targetAt? outer [] = n.namedCte? outer := rfl

theorem targetAt?_cons :
    n.targetAt? outer (i :: place) =
      n.parents[i]?.bind fun m => m.targetAt? (outer.inside n) place := by
  rw [targetAt?, scopedAt?_cons, Option.bind_assoc]
  rfl

/-! ## Names that occur free -/

/-- A bare table of the given name lies below a node, and no statement on the way defines the
name. -/
inductive ReadsFree (x : String) : Node → Prop
  | table {id : NodeId} : ReadsFree x (.table id ⟨none, x⟩)
  | step {n m : Node} : m ∈ n.parents → n.definition? x = none → ReadsFree x m → ReadsFree x n

/-- Scopes that agree on the free names of a node mean the same to it. -/
theorem targetAt?_congr (h : ∀ x, n.ReadsFree x → scope[x]? = scope'[x]?) :
    n.targetAt? scope place = n.targetAt? scope' place := by
  induction place generalizing n scope scope' with
  | nil =>
      rw [targetAt?_nil, targetAt?_nil]
      unfold namedCte?
      split
      · exact h _ .table
      · rfl
  | cons i place ih =>
      rw [targetAt?_cons, targetAt?_cons]
      cases hm : n.parents[i]? with
      | none => rfl
      | some m =>
          refine ih ?_
          intro x hx
          rw [Scope.getElem?_inside, Scope.getElem?_inside]
          cases hdefined : n.definition? x with
          | some c => rfl
          | none => exact h x (.step (List.mem_of_getElem? hm) hdefined hx)

/-- A free name is looked up at some place. -/
theorem getElem?_eq_of_readsFree (hx : n.ReadsFree x)
    (h : ∀ place, n.targetAt? scope place = n.targetAt? scope' place) : scope[x]? = scope'[x]? := by
  induction hx generalizing scope scope' with
  | table => exact h []
  | @step n m hm hdefined _ ih =>
      obtain ⟨i, hi⟩ := List.getElem?_of_mem hm
      have hinside : (scope.inside n)[x]? = (scope'.inside n)[x]? := by
        refine ih ?_
        intro place
        have hplace := h (i :: place)
        rwa [targetAt?_cons, targetAt?_cons, hi] at hplace
      rwa [Scope.getElem?_inside, Scope.getElem?_inside, hdefined] at hinside

/-- **Free names are what a scope means to a node.** -/
theorem targetAt?_eq_iff : (∀ place, n.targetAt? scope place = n.targetAt? scope' place) ↔
    ∀ x, n.ReadsFree x → scope[x]? = scope'[x]? := by
  constructor
  · intro h x hx
    exact getElem?_eq_of_readsFree hx h
  · intro h place
    exact targetAt?_congr h

theorem readsFree_cte_iff {c : Cte Node} : (Node.cte c).ReadsFree x ↔ c.body.ReadsFree x := by
  constructor
  · rintro (_ | ⟨hm, -, hx⟩)
    obtain rfl := List.mem_singleton.1 hm
    exact hx
  · intro hx
    exact .step List.mem_cons_self rfl hx

end Targets

/-! ## The scopes that are recorded -/

/-- A place is the end of a path, and its scope is the one along the path. -/
theorem exists_path_of_scopedAt? {n m : Node} {above : List Node} {place : List Nat} {scope : Scope}
    (h : n.scopedAt? (.along above) place = some (scope, m)) :
    ∃ path, m :: path ∈ n.paths above ∧ scope = .along path := by
  induction place generalizing n above with
  | nil =>
      cases h
      exact ⟨above, by rw [paths_eq]; exact List.mem_cons_self, rfl⟩
  | cons i place ih =>
      rw [scopedAt?_cons] at h
      obtain ⟨l, hl, h⟩ := Option.bind_eq_some_iff.1 h
      have hinside : l.scopedAt? (.along (n :: above)) place = some (scope, m) := h
      obtain ⟨path, hpath, hscope⟩ := ih hinside
      refine ⟨path, ?_, hscope⟩
      rw [paths_eq]
      exact List.mem_cons_of_mem _ (List.mem_flatMap.2 ⟨l, List.mem_of_getElem? hl, hpath⟩)

/-- In a plan without sharing there is one path to every node. -/
theorem eq_of_mem_paths {n m : Node} {above path path' : List Node} (hnodup : n.subnodes.Nodup)
    (h : m :: path ∈ n.paths above) (h' : m :: path' ∈ n.paths above) : path = path' := by
  rw [← ends_paths n above] at hnodup
  have hpairs := List.pairwise_filterMap.1 hnodup
  by_contra hne
  have hsymm : Std.Symm fun a b : List Node =>
      ∀ x, a.head? = some x → ∀ y, b.head? = some y → x ≠ y :=
    ⟨fun _ _ hab x hx y hy heq => hab y hy x hx heq.symm⟩
  exact hpairs.forall h h' (by simpa using hne) m rfl m rfl rfl

end Node

/-- **The scope at a place is recorded** for the statement there, if nothing is shared. -/
theorem Scopes.getElem?_record_of_scopedAt? {n : Node} {above : List Node}
    (hnodup : (n.subnodes.map Node.id).Nodup) {place : List Nat} {scope : Scope} {s : Statement}
    (h : n.scopedAt? (.along above) place = some (scope, .select s)) :
    (record (.along above) n ∅)[s.id]? = some (scope.inside (.select s)) := by
  have hids := Node.idsIdentify_of_nodup hnodup
  obtain ⟨path, hpath, rfl⟩ := Node.exists_path_of_scopedAt? h
  -- some path that ends at the statement is found, and there is no other
  have hends : Node.endsAt s.id (.select s :: path) = true := Node.endsAt_iff.2 ⟨s, rfl, rfl⟩
  obtain ⟨found, hfound⟩ := Option.isSome_iff_exists.1 (List.find?_isSome.2 ⟨_, hpath, hends⟩)
  obtain ⟨s', hhead, hid, hs'⟩ := Node.exists_select_of_find?_paths hfound
  have hs : Node.select s ∈ n.subnodes := by
    rw [← Node.ends_paths n above]
    exact List.mem_filterMap.2 ⟨_, hpath, rfl⟩
  cases hids _ hs' _ hs hid
  obtain ⟨path', rfl⟩ : ∃ path', found = .select s :: path' := List.head?_eq_some_iff.1 hhead
  rw [getElem?_record hids, hfound, Option.map_some,
    Node.eq_of_mem_paths hnodup.of_map hpath (List.mem_of_find?_eq_some hfound)]
  rfl

end QueryPlan
