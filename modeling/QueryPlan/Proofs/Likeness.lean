import QueryPlan.Proofs.Erasure
import QueryPlan.Proofs.Settling

/-!
# Plans that are alike

A plan is like another one if its nodes stand for the nodes of the other, each under an identity of
its own: they read what stands for what the others read, and only columns may be missing
(`Likeness`).  A plan under other identities is like the given one, and so is a plan from which
columns have been dropped.

What is worked out from names and structure carries over.

* `idsIdentify_nodeOf` — identities tell the nodes of the new plan apart if they did so in the given
  one, because different nodes stand for different nodes.
* `likeScopes_ofPlan` — the names of CTEs are understood alike at statements that stand for each
  other.
* `exists_keep_exposedNames` — a node shows what the node that it stands for shows, but for missing
  columns.
-/

namespace QueryPlan

/-! ## What stands for what -/

section Relabel

variable (idOf : NodeId → NodeId) (nodeOf : Node → Node)

/-- A CTE under another identity, over what stands for its body. -/
def Cte.relabel (c : Cte Node) : Cte Node where
  id := idOf c.id
  name := c.name
  body := nodeOf c.body

/-- A statement under another identity, over what stands for its sources and CTEs, with the columns
that are kept. -/
def Select.relabel (keeps : String → Bool) (s : Statement) : Statement :=
  { s.forget nodeOf with
    id := idOf s.id
    columns := s.columns.filter fun c => keeps c.name
    ctes := s.ctes.map (Cte.relabel idOf nodeOf) }

end Relabel

/-- Whether the columns that can be seen at a node are those of a statement. -/
inductive Node.Exposes (scope : Scope) : Node → Statement → Prop
  | wraps {n : Node} {s : Statement} : n.unwrapped = .select s → Exposes scope n s
  | names {n : Node} {c : Cte Node} {s : Statement} : n.unwrapped.namedCte? scope = some c →
      Exposes scope c.body s → Exposes scope n s

/-- A plan that is like a given one: what stands for each of its identities and nodes, and which
columns are kept.  A column that is kept where it can be seen is kept where it is made. -/
structure Likeness (plan : Node) where
  idOf : NodeId → NodeId
  nodeOf : Node → Node
  keeps : NodeId → String → Bool
  idOf_inj : ∀ {m n : Node}, m ∈ plan.subnodes → n ∈ plan.subnodes → idOf m.id = idOf n.id →
    m.id = n.id
  table : ∀ {i : NodeId} {t : TableName}, .table i t ∈ plan.subnodes →
    nodeOf (.table i t) = .table (idOf i) t
  text : ∀ {i : NodeId} {sql : String}, .text i sql ∈ plan.subnodes →
    nodeOf (.text i sql) = .text (idOf i) sql
  select : ∀ {s : Statement}, .select s ∈ plan.subnodes →
    nodeOf (.select s) = .select (s.relabel idOf nodeOf (keeps s.id))
  cte : ∀ {c : Cte Node}, .cte c ∈ plan.subnodes → nodeOf (.cte c) = .cte (c.relabel idOf nodeOf)
  createTable : ∀ {i : NodeId} {t : TableName} {query : Node},
    .createTable i t query ∈ plan.subnodes →
      nodeOf (.createTable i t query) = .createTable (idOf i) t (nodeOf query)
  exposes : ∀ {n : Node} {scope : Scope} {s : Statement} {x : String}, n ∈ plan.subnodes →
    scope.OfPlan plan → n.Exposes scope s → keeps n.id x = true → keeps s.id x = true

namespace Likeness

variable {plan : Node} (l : Likeness plan) {n : Node} {s : Statement}

/-- What stands for a CTE. -/
def cteOf (c : Cte Node) : Cte Node :=
  c.relabel l.idOf l.nodeOf

/-- What stands for a statement. -/
def statementOf (s : Statement) : Statement :=
  s.relabel l.idOf l.nodeOf (l.keeps s.id)

theorem nodeOf_select (hs : .select s ∈ plan.subnodes) :
    l.nodeOf (.select s) = .select (l.statementOf s) :=
  l.select hs

theorem nodeOf_cte {c : Cte Node} (hc : .cte c ∈ plan.subnodes) :
    l.nodeOf (.cte c) = .cte (l.cteOf c) :=
  l.cte hc

/-- What stands for a node is of its kind and has the identity that stands for its own. -/
theorem kind_nodeOf (hn : n ∈ plan.subnodes) :
    (l.nodeOf n).id = l.idOf n.id ∧ (l.nodeOf n).isText = n.isText ∧
      (l.nodeOf n).isSelect = n.isSelect := by
  cases n with
  | table i t => rw [l.table hn]; exact ⟨rfl, rfl, rfl⟩
  | text i sql => rw [l.text hn]; exact ⟨rfl, rfl, rfl⟩
  | select s => rw [l.select hn]; exact ⟨rfl, rfl, rfl⟩
  | cte c => rw [l.cte hn]; exact ⟨rfl, rfl, rfl⟩
  | createTable i t query => rw [l.createTable hn]; exact ⟨rfl, rfl, rfl⟩

theorem id_nodeOf (hn : n ∈ plan.subnodes) : (l.nodeOf n).id = l.idOf n.id :=
  (l.kind_nodeOf hn).1

theorem idOf_eq_iff {m : Node} (hm : m ∈ plan.subnodes) (hn : n ∈ plan.subnodes) :
    l.idOf m.id = l.idOf n.id ↔ m.id = n.id :=
  ⟨l.idOf_inj hm hn, fun h => by rw [h]⟩

theorem sources_statementOf (s : Statement) :
    (l.statementOf s).sources = s.sources.map fun source => (source.1, l.nodeOf source.2) := by
  rw [← Select.sources_forget]
  rfl

theorem sourceNodes_statementOf (s : Statement) :
    (l.statementOf s).sourceNodes = s.sourceNodes.map l.nodeOf := by
  rw [Select.sourceNodes, sources_statementOf, Select.sourceNodes, List.map_map, List.map_map]
  rfl

/-- What stands for a node reads what stands for what the node reads. -/
theorem parents_nodeOf (hn : n ∈ plan.subnodes) :
    (l.nodeOf n).parents = n.parents.map l.nodeOf := by
  cases n with
  | table i t => rw [l.table hn]; rfl
  | text i sql => rw [l.text hn]; rfl
  | cte c => rw [l.cte hn]; rfl
  | createTable i t query => rw [l.createTable hn]; rfl
  | select s =>
      have hctes : (l.statementOf s).ctes.map Node.cte = (s.ctes.map Node.cte).map l.nodeOf := by
        have hsame : (l.statementOf s).ctes = s.ctes.map l.cteOf := rfl
        rw [hsame, List.map_map, List.map_map]
        refine List.map_congr_left ?_
        intro c hc
        have hplan : .cte c ∈ plan.subnodes :=
          Node.mem_subnodes_of_parent (by simp [Node.parents, hc]) hn
        exact (l.nodeOf_cte hplan).symm
      rw [l.nodeOf_select hn, Select.parents_select, Select.parents_select, List.map_append,
        sourceNodes_statementOf, hctes]

/-- Below what stands for a node are the nodes that stand for those below it. -/
theorem subnodes_nodeOf (hn : n ∈ plan.subnodes) :
    (l.nodeOf n).subnodes = n.subnodes.map l.nodeOf := by
  induction n using Node.induct_parents with
  | h n ih =>
      rw [Node.subnodes_eq, Node.subnodes_eq, l.parents_nodeOf hn, List.map_cons, List.flatMap_map,
        List.map_flatMap]
      refine congrArg (l.nodeOf n :: ·) ?_
      rw [List.flatMap_def, List.flatMap_def]
      refine congrArg List.flatten (List.map_congr_left ?_)
      intro m hm
      exact ih m hm (Node.mem_subnodes_of_parent hm hn)

theorem nodeOf_mem_subnodes (hn : n ∈ plan.subnodes) :
    l.nodeOf n ∈ (l.nodeOf plan).subnodes := by
  rw [l.subnodes_nodeOf (Node.mem_subnodes_self plan)]
  exact List.mem_map_of_mem hn

/-- **Different nodes stand for different nodes.** -/
theorem idsIdentify_nodeOf (hids : plan.IdsIdentify) : (l.nodeOf plan).IdsIdentify := by
  rw [Node.IdsIdentify, l.subnodes_nodeOf (Node.mem_subnodes_self plan)]
  intro a ha b hb hid
  rcases List.mem_map.1 ha with ⟨m, hm, rfl⟩
  rcases List.mem_map.1 hb with ⟨n, hn, rfl⟩
  rw [l.id_nodeOf hm, l.id_nodeOf hn] at hid
  rw [hids m hm n hn (l.idOf_inj hm hn hid)]

theorem unwrapped_nodeOf (hn : n ∈ plan.subnodes) :
    (l.nodeOf n).unwrapped = l.nodeOf n.unwrapped := by
  induction n using Node.induct_parents with
  | h n ih =>
      cases n with
      | table i t => rw [l.table hn]; exact (l.table hn).symm
      | text i sql => rw [l.text hn]; exact (l.text hn).symm
      | select s => rw [l.select hn]; exact (l.select hn).symm
      | cte c =>
          rw [l.cte hn]
          exact ih c.body (by simp [Node.parents]) (Node.body_mem_subnodes hn)
      | createTable i t query =>
          rw [l.createTable hn]
          exact ih query (by simp [Node.parents]) (Node.query_mem_subnodes hn)

end Likeness

/-! ## Text below a statement -/

theorem Node.IdsIdentify.below {plan n : Node} (hids : plan.IdsIdentify) (hn : n ∈ plan.subnodes) :
    n.IdsIdentify := by
  intro a ha b hb hid
  exact hids a (Node.mem_subnodes_trans ha hn) b (Node.mem_subnodes_trans hb hn) hid

/-- A statement has text below it if a node below it is text. -/
theorem Select.hasTextBelow_iff {s : Statement} (hids : (Node.select s).IdsIdentify) :
    s.hasTextBelow = true ↔ ∃ m ∈ (Node.select s).subnodes, m.isText = true := by
  have hparents : ∀ m ∈ (Node.select s).parents, m ∈ (Node.select s).subnodes :=
    fun m hm => Node.mem_subnodes_of_mem_parents hm
  have hlists : Node.Lists (.select s)
      ((Node.select s).parents.foldl (fun v n => Node.visit n v) {}) := by
    refine List.foldlRecOn (motive := Node.Lists (.select s)) _ _ ⟨by simp, by simp⟩ ?_
    intro v hv n hn
    exact Node.lists_visit n (hparents n hn) v hv
  have htrav : ∀ ns ⊆ (Node.select s).parents, ∀ v : Visited,
      Traverses (.select s) (fun _ => True) ns (· ∈ v.seen)
        (· ∈ (ns.foldl (fun v n => Node.visit n v) v).seen) := by
    intro ns hns
    induction ns with
    | nil => exact fun v => .nil
    | cons n ns ih =>
        intro v
        rw [List.cons_subset] at hns
        exact .cons (Node.traverses_visit hids n (hparents n hns.1) v) (ih hns.2 _)
  rw [Select.hasTextBelow, List.any_eq_true]
  simp only [Node.reachableFrom, List.mem_reverse]
  constructor
  · rintro ⟨m, hm, htext⟩
    exact ⟨m, hlists.subnodes m hm, htext⟩
  · rintro ⟨m, hm, htext⟩
    rcases Node.mem_subnodes_iff.1 hm with rfl | ⟨n, hn, hbelow⟩
    · cases htext
    · have hnone : CompleteBelow (.select s) (fun _ => True) (· ∈ ({} : Visited).seen)
          (sizeOf (Node.select s)) := by
        intro z _ _ hmet
        simp at hmet
      have hmet := ((htrav _ (List.Subset.refl _) {}).covers _ hnone fun x hx =>
        Node.sizeOf_lt_of_mem_parents hx).2 n hn m hbelow trivial
      rcases hlists.listed _ hmet with ⟨m', hm', hid⟩
      have hsame : m' = m := hids m' (hlists.subnodes m' hm') m hm hid
      exact ⟨m', hm', hsame ▸ htext⟩

theorem Likeness.hasTextBelow_statementOf {plan : Node} (l : Likeness plan)
    (hids : plan.IdsIdentify) {s : Statement} (hs : .select s ∈ plan.subnodes) :
    (l.statementOf s).hasTextBelow = s.hasTextBelow := by
  have hids' : (Node.select (l.statementOf s)).IdsIdentify := by
    rw [← l.nodeOf_select hs]
    exact (l.idsIdentify_nodeOf hids).below (l.nodeOf_mem_subnodes hs)
  rw [Bool.eq_iff_iff, Select.hasTextBelow_iff hids', Select.hasTextBelow_iff (hids.below hs),
    ← l.nodeOf_select hs, l.subnodes_nodeOf hs]
  constructor
  · rintro ⟨m', hm', htext⟩
    rcases List.mem_map.1 hm' with ⟨m, hm, rfl⟩
    rw [(l.kind_nodeOf (Node.mem_subnodes_trans hm hs)).2.1] at htext
    exact ⟨m, hm, htext⟩
  · rintro ⟨m, hm, htext⟩
    rw [← (l.kind_nodeOf (Node.mem_subnodes_trans hm hs)).2.1] at htext
    exact ⟨_, List.mem_map_of_mem hm, htext⟩

/-! ## Scopes -/

namespace Likeness

variable {plan : Node} (l : Likeness plan)

/-- Names stand for CTEs that stand for each other. -/
def LikeScope (scope scope' : Scope) : Prop :=
  ∀ name : String, scope'[name]? = scope[name]?.map l.cteOf

/-- Statements that stand for each other have scopes that are alike. -/
def LikeScopes (scopes scopes' : Scopes) : Prop :=
  ∀ s : Statement, .select s ∈ plan.subnodes →
    Option.Rel l.LikeScope scopes[s.id]? scopes'[l.idOf s.id]?

variable {l} {scope scope' : Scope} {scopes scopes' : Scopes}

theorem LikeScope.empty : l.LikeScope ∅ ∅ := by
  intro name
  simp

theorem LikeScope.insert (h : l.LikeScope scope scope') (c : Cte Node) :
    l.LikeScope (scope.insert c.name c) (scope'.insert (l.cteOf c).name (l.cteOf c)) := by
  intro name
  have hname : (l.cteOf c).name = c.name := rfl
  rw [hname, Std.TreeMap.getElem?_insert, Std.TreeMap.getElem?_insert, h name]
  split <;> rfl

theorem likeScope_ofCtes (cs : List (Cte Node)) :
    l.LikeScope (.ofCtes cs) (.ofCtes (cs.map l.cteOf)) := by
  have hfold : ∀ {scope scope' : Scope}, l.LikeScope scope scope' →
      l.LikeScope (cs.foldl (fun scope c => scope.insert c.name c) scope)
        ((cs.map l.cteOf).foldl (fun scope c => scope.insert c.name c) scope') := by
    induction cs with
    | nil => exact fun h => h
    | cons c cs ih => exact fun h => ih (h.insert c)
  exact hfold .empty

theorem LikeScope.enter {inner inner' : Scope} (h : l.LikeScope scope scope')
    (hinner : l.LikeScope inner inner') :
    l.LikeScope (scope.enter inner) (scope'.enter inner') := by
  intro name
  rw [Scope.getElem?_enter, Scope.getElem?_enter, h name, hinner name, Option.map_or]

/-- Scopes that are alike are of one size. -/
theorem LikeScope.size_eq (h : l.LikeScope scope scope') : scope'.size = scope.size := by
  have hmem : ∀ name, name ∈ scope'.keys ↔ name ∈ scope.keys := by
    intro name
    rw [Std.TreeMap.mem_keys, Std.TreeMap.mem_keys, Std.TreeMap.mem_iff_isSome_getElem?,
      Std.TreeMap.mem_iff_isSome_getElem?, h name, Option.isSome_map]
  have hnodup : ∀ t : Scope, t.keys.Nodup := by
    intro t
    refine Std.TreeMap.distinct_keys.imp ?_
    rintro a b hne rfl
    exact hne Std.ReflCmp.compare_self
  have hperm : scope'.keys.Perm scope.keys :=
    (List.perm_ext_iff_of_nodup (hnodup _) (hnodup _)).2 hmem
  rw [← Std.TreeMap.length_keys, ← Std.TreeMap.length_keys, hperm.length_eq]

theorem LikeScopes.insert (h : l.LikeScopes scopes scopes') {s : Statement}
    (hs : .select s ∈ plan.subnodes) (hscope : l.LikeScope scope scope') :
    l.LikeScopes (scopes.insert s.id scope) (scopes'.insert (l.idOf s.id) scope') := by
  intro t ht
  have hid : l.idOf s.id = l.idOf t.id ↔ s.id = t.id := l.idOf_eq_iff hs ht
  simp only [Std.TreeMap.getElem?_insert, Nat.compare_eq_eq]
  by_cases heq : s.id = t.id
  · rw [if_pos heq, if_pos (hid.2 heq)]
    exact .some hscope
  · rw [if_neg heq, if_neg (mt hid.1 heq)]
    exact h t ht

theorem LikeScopes.contains_eq (h : l.LikeScopes scopes scopes') {s : Statement}
    (hs : .select s ∈ plan.subnodes) :
    scopes'.contains (l.idOf s.id) = scopes.contains s.id := by
  rw [Std.TreeMap.contains_eq_isSome_getElem?, Std.TreeMap.contains_eq_isSome_getElem?]
  have hrel := h s hs
  generalize scopes[s.id]? = found, scopes'[l.idOf s.id]? = found' at hrel
  cases hrel with
  | some | none => rfl

theorem LikeScopes.record (n : Node) (hn : n ∈ plan.subnodes) {visible visible' : Scope}
    (hvisible : l.LikeScope visible visible') (h : l.LikeScopes scopes scopes') :
    l.LikeScopes (.record visible n scopes) (.record visible' (l.nodeOf n) scopes') := by
  induction n using Node.induct_parents generalizing visible visible' scopes scopes' with
  | h n ih =>
      cases n with
      | table i t => rw [l.table hn]; exact h
      | text i sql => rw [l.text hn]; exact h
      | cte c =>
          rw [l.cte hn]
          exact ih c.body (by simp [Node.parents]) (Node.body_mem_subnodes hn) hvisible h
      | createTable i t query =>
          rw [l.createTable hn]
          exact ih query (by simp [Node.parents]) (Node.query_mem_subnodes hn) hvisible h
      | select s =>
          have hown := hvisible.enter (likeScope_ofCtes s.ctes)
          have hparents : ∀ ms ⊆ (Node.select s).parents, ∀ {scopes scopes' : Scopes},
              l.LikeScopes scopes scopes' →
              l.LikeScopes (ms.foldl (fun scopes m =>
                  .record (visible.enter (.ofCtes s.ctes)) m scopes) scopes)
                ((ms.map l.nodeOf).foldl (fun scopes m =>
                  .record (visible'.enter (.ofCtes (s.ctes.map l.cteOf))) m scopes) scopes') := by
            intro ms hms
            induction ms with
            | nil => exact fun h => h
            | cons m ms ihms =>
                intro scopes scopes' h
                rw [List.cons_subset] at hms
                exact ihms hms.2 (ih m hms.1 (Node.mem_subnodes_of_parent hms.1 hn) hown h)
          rw [Scopes.record_select, l.nodeOf_select hn, Scopes.record_select, ← l.nodeOf_select hn,
            l.parents_nodeOf hn]
          have hcontains : scopes'.contains (l.statementOf s).id = scopes.contains s.id :=
            h.contains_eq hn
          rw [hcontains]
          split
          · exact h
          · exact hparents _ (List.Subset.refl _) (h.insert hn hown)

/-- **Names are understood alike** at statements that stand for each other. -/
theorem likeScopes_ofPlan : l.LikeScopes (.ofPlan plan) (.ofPlan (l.nodeOf plan)) := by
  refine LikeScopes.record plan (Node.mem_subnodes_self plan) .empty ?_
  intro s _
  simp only [Std.TreeMap.getElem?_emptyc]
  exact .none

end Likeness

/-! ## What nodes show -/

namespace Node

variable {n : Node} {scope : Scope}

/-- A node that names a CTE shows what the body of the CTE shows. -/
theorem exposedColumnsWithin?_of_namedCte? {c : Cte Node}
    (h : n.unwrapped.namedCte? scope = some c) (hops : Nat) :
    n.exposedColumnsWithin? scope (hops + 1) = c.body.exposedColumnsWithin? scope hops := by
  rw [exposedColumnsWithin?]
  split
  case h_1 hs =>
    rw [hs] at h
    cases h
  case h_2 => simp only [h]

theorem exposedColumnsWithin?_eq_none {hops : Nat} (hselect : ∀ s, n.unwrapped ≠ .select s)
    (hcte : ∀ k c, hops = k + 1 → n.unwrapped.namedCte? scope ≠ some c) :
    n.exposedColumnsWithin? scope hops = none := by
  rw [exposedColumnsWithin?]
  split
  case h_1 s hs => exact absurd hs (hselect s)
  case h_2 =>
    split
    case h_1 k c hc => exact absurd hc (hcte k c rfl)
    case h_2 => rfl

end Node

namespace Likeness

variable {plan : Node} {l : Likeness plan} {scope scope' : Scope}

theorem LikeScope.namedCte?_eq (h : l.LikeScope scope scope') {n : Node} (hn : n ∈ plan.subnodes) :
    (l.nodeOf n).namedCte? scope' = (n.namedCte? scope).map l.cteOf := by
  cases n with
  | table i t =>
      rw [l.table hn]
      obtain ⟨schema, name⟩ := t
      cases schema with
      | none => exact h name
      | some schema => rfl
  | text i sql => rw [l.text hn]; rfl
  | select s => rw [l.select hn]; rfl
  | cte c => rw [l.cte hn]; rfl
  | createTable i t query => rw [l.createTable hn]; rfl

/-- What can be seen at a node is the select list of a statement, and at what stands for the node it
is that of what stands for the statement. -/
theorem LikeScope.exposedColumnsWithin?_cases (h : l.LikeScope scope scope')
    (hscope : scope.OfPlan plan) (hops : Nat) {n : Node} (hn : n ∈ plan.subnodes) :
    (n.exposedColumnsWithin? scope hops = none ∧
      (l.nodeOf n).exposedColumnsWithin? scope' hops = none) ∨
    ∃ s, n.Exposes scope s ∧ n.exposedColumnsWithin? scope hops = some s.columns ∧
      (l.nodeOf n).exposedColumnsWithin? scope' hops = some (l.statementOf s).columns := by
  have hmem : n.unwrapped ∈ plan.subnodes :=
    Node.mem_subnodes_trans (Node.unwrapped_mem_subnodes n) hn
  fun_induction Node.exposedColumnsWithin? scope hops n with
  | case1 hops n s hs =>
      rw [hs] at hmem
      have hs' : (l.nodeOf n).unwrapped = .select (l.statementOf s) := by
        rw [l.unwrapped_nodeOf hn, hs, l.nodeOf_select hmem]
      exact .inr ⟨s, .wraps hs, rfl, Node.exposedColumnsWithin?_of_unwrapped hs' hops⟩
  | case2 n hops c _ hcte ih =>
      have hc := Node.mem_subnodes_of_namedCte? hscope hcte
      have hbody := Node.body_mem_subnodes hc
      have hcte' : (l.nodeOf n).unwrapped.namedCte? scope' = some (l.cteOf c) := by
        rw [l.unwrapped_nodeOf hn, h.namedCte?_eq hmem, hcte]
        rfl
      rw [Node.exposedColumnsWithin?_of_namedCte? hcte']
      rcases ih hbody (Node.mem_subnodes_trans (Node.unwrapped_mem_subnodes _) hbody) with
        hnone | ⟨s, hexposes, hs, hs'⟩
      · exact .inl hnone
      · exact .inr ⟨s, .names hcte hexposes, hs, hs'⟩
  | case3 hops n hselect hcte =>
      refine .inl ⟨rfl, Node.exposedColumnsWithin?_eq_none ?_ ?_⟩
      · intro s' hs'
        have hkind := (l.kind_nodeOf hmem).2.2
        rw [← l.unwrapped_nodeOf hn, hs'] at hkind
        cases hkind' : n.unwrapped with
        | select s => exact hselect s hkind'
        | table | text | cte | createTable =>
            rw [hkind'] at hkind
            cases hkind
      · intro k c' hk hc'
        rw [l.unwrapped_nodeOf hn, h.namedCte?_eq hmem] at hc'
        rcases Option.map_eq_some_iff.1 hc' with ⟨c, hc, -⟩
        exact hcte k c hk hc

/-- What stands for a node shows what the node shows, but for columns that are missing. -/
theorem LikeScope.exists_keep_exposedNames (h : l.LikeScope scope scope')
    (hscope : scope.OfPlan plan) {n : Node} (hn : n ∈ plan.subnodes) :
    ∃ keep : String → Bool, (∀ x, l.keeps n.id x = true → keep x = true) ∧
      (l.nodeOf n).exposedNames scope' = (n.exposedNames scope).filter keep := by
  simp only [Node.exposedNames, Node.exposedColumns?, h.size_eq]
  rcases h.exposedColumnsWithin?_cases hscope scope.size hn with
    ⟨hnone, hnone'⟩ | ⟨s, hexposes, hs, hs'⟩
  · rw [hnone, hnone']
    exact ⟨fun _ => true, fun _ _ => rfl, rfl⟩
  · refine ⟨l.keeps s.id, fun x hx => l.exposes hn hscope hexposes hx, ?_⟩
    rw [hs, hs', Option.getD_some, Option.getD_some, List.filter_map]
    rfl

/-- A node and what stands for it show the same if everything is kept that the node shows. -/
theorem LikeScope.exposedNames_eq (h : l.LikeScope scope scope') (hscope : scope.OfPlan plan)
    {n : Node} (hn : n ∈ plan.subnodes)
    (hall : ∀ x ∈ n.exposedNames scope, l.keeps n.id x = true) :
    (l.nodeOf n).exposedNames scope' = n.exposedNames scope := by
  rcases h.exists_keep_exposedNames hscope hn with ⟨keep, hkeep, heq⟩
  rw [heq, List.filter_eq_self]
  intro x hx
  exact hkeep x (hall x hx)

/-- The first column that is shown is the same if it is kept. -/
theorem LikeScope.take_exposedNames_eq (h : l.LikeScope scope scope') (hscope : scope.OfPlan plan)
    {n : Node} (hn : n ∈ plan.subnodes)
    (hfirst : ∀ x ∈ (n.exposedNames scope).take 1, l.keeps n.id x = true) :
    ((l.nodeOf n).exposedNames scope').take 1 = (n.exposedNames scope).take 1 := by
  rcases h.exists_keep_exposedNames hscope hn with ⟨keep, hkeep, heq⟩
  rw [heq]
  cases hnames : n.exposedNames scope with
  | nil => rfl
  | cons x xs =>
      have hx : keep x = true := by
        refine hkeep x (hfirst x ?_)
        rw [hnames]
        exact List.mem_cons_self
      rw [List.filter_cons_of_pos hx]
      rfl

end Likeness

end QueryPlan
