import QueryPlan.Proofs.Subnodes
import QueryPlan.Scope

/-!
# The scopes that are recorded

Recording scopes is a traversal that remembers statements, so in a plan whose identities tell its
nodes apart every statement gets a scope (`exists_scope`).  What a recorded scope holds are CTEs of
the plan, each under its own name (`OfPlan`): scopes are only ever made from the CTEs that
statements define.
-/

namespace QueryPlan

/-! ## Scopes -/

namespace Scope

/-- The CTEs of a scope are CTEs of a plan, under their names. -/
def OfPlan (plan : Node) (scope : Scope) : Prop :=
  ∀ name c, scope[name]? = some c → c.name = name ∧ .cte c ∈ plan.subnodes

/-- What is found after insertions was there before, or has been inserted. -/
theorem getElem?_foldl_insert {ε : Type} {key : ε → String} {value : ε → Cte Node} {name : String}
    {c : Cte Node} (es : List ε) (scope : Scope)
    (h : (es.foldl (fun scope e => scope.insert (key e) (value e)) scope)[name]? = some c) :
    scope[name]? = some c ∨ ∃ e ∈ es, key e = name ∧ value e = c := by
  induction es generalizing scope with
  | nil => exact .inl h
  | cons e es ih =>
      rcases ih _ h with hscope | ⟨e', he', hkey, hvalue⟩
      · rw [Std.TreeMap.getElem?_insert] at hscope
        split at hscope
        case isTrue hname =>
          have hkey : key e = name := by simpa using hname
          exact .inr ⟨e, List.mem_cons_self, hkey, Option.some.inj hscope⟩
        case isFalse => exact .inl hscope
      · exact .inr ⟨e', List.mem_cons_of_mem _ he', hkey, hvalue⟩

/-- Where nothing is inserted under a name, the name keeps its meaning. -/
theorem getElem?_foldl_insert_of_forall_ne {ε : Type} {key : ε → String} {value : ε → Cte Node}
    {name : String} {es : List ε} (h : ∀ e ∈ es, key e ≠ name) (scope : Scope) :
    (es.foldl (fun scope e => scope.insert (key e) (value e)) scope)[name]? = scope[name]? := by
  induction es generalizing scope with
  | nil => rfl
  | cons e es ih =>
      have hne : ¬ compare (key e) name = .eq := by
        rw [Std.LawfulEqCmp.compare_eq_iff_eq]
        exact h e List.mem_cons_self
      rw [List.foldl_cons, ih (fun e' he' => h e' (List.mem_cons_of_mem _ he')),
        Std.TreeMap.getElem?_insert, if_neg hne]

/-- A name under which something is inserted stands for one of the things inserted under it. -/
theorem exists_getElem?_foldl_insert {ε : Type} {key : ε → String} (value : ε → Cte Node)
    {name : String} {es : List ε} {e : ε} (he : e ∈ es) (hkey : key e = name) (scope : Scope) :
    ∃ e' ∈ es, key e' = name ∧
      (es.foldl (fun scope e => scope.insert (key e) (value e)) scope)[name]? =
        some (value e') := by
  induction es generalizing scope e with
  | nil => cases he
  | cons d es ih =>
      by_cases hlater : ∃ e' ∈ es, key e' = name
      · rcases hlater with ⟨e', he', hkey'⟩
        rcases ih he' hkey' (scope.insert (key d) (value d)) with ⟨e₁, he₁, hfound⟩
        exact ⟨e₁, List.mem_cons_of_mem _ he₁, hfound⟩
      · have hsame : e = d := by
          rcases List.mem_cons.1 he with heq | he
          · exact heq
          · exact absurd ⟨e, he, hkey⟩ hlater
        subst hsame
        refine ⟨e, List.mem_cons_self, hkey, ?_⟩
        rw [List.foldl_cons, getElem?_foldl_insert_of_forall_ne
          fun e' he' hkey' => hlater ⟨e', he', hkey'⟩, hkey, Std.TreeMap.getElem?_insert_self]

/-- An inner definition hides an outer one of the same name, and nothing else. -/
theorem getElem?_enter (outer inner : Scope) (name : String) :
    (outer.enter inner)[name]? = inner[name]?.or outer[name]? := by
  rw [enter]
  cases hinner : inner[name]? with
  | none =>
      rw [getElem?_foldl_insert_of_forall_ne, Option.none_or]
      rintro ⟨key, c⟩ hentry rfl
      rw [Std.TreeMap.mem_toList_iff_getElem?_eq_some.1 hentry] at hinner
      cases hinner
  | some c =>
      have hentry : (name, c) ∈ inner.toList :=
        Std.TreeMap.mem_toList_iff_getElem?_eq_some.2 hinner
      have hname : Prod.fst (name, c) = name := rfl
      rcases exists_getElem?_foldl_insert Prod.snd hentry hname outer with
        ⟨entry, hmem, hname, hfound⟩
      have hsame : inner[name]? = some entry.2 := by
        rw [← hname]
        exact Std.TreeMap.mem_toList_iff_getElem?_eq_some.1 hmem
      rw [hinner] at hsame
      rw [Option.some_or, hfound, hsame]

/-- Where names are different, each of them stands for the CTE that has it. -/
theorem getElem?_ofCtes_of_mem {cs : List (Cte Node)} {c : Cte Node}
    (hnames : (cs.map Cte.name).Nodup) (hc : c ∈ cs) : (ofCtes cs)[c.name]? = some c := by
  rcases exists_getElem?_foldl_insert id hc rfl ∅ with ⟨c', hc', hname, hfound⟩
  rw [List.inj_on_of_nodup_map hnames hc' hc hname] at hfound
  exact hfound

theorem getElem?_ofCtes_eq_none {cs : List (Cte Node)} {name : String}
    (h : ∀ c ∈ cs, c.name ≠ name) : (ofCtes cs)[name]? = none := by
  rw [ofCtes, getElem?_foldl_insert_of_forall_ne h]
  exact Std.TreeMap.getElem?_emptyc

variable {plan : Node}

theorem ofPlan_empty : OfPlan plan ∅ := by
  intro name c h
  simp at h

theorem ofPlan_ofCtes {cs : List (Cte Node)} (hcs : ∀ c ∈ cs, .cte c ∈ plan.subnodes) :
    OfPlan plan (ofCtes cs) := by
  intro name c h
  rcases getElem?_foldl_insert cs ∅ h with hempty | ⟨d, hd, hname, rfl⟩
  · simp at hempty
  · exact ⟨hname, hcs d hd⟩

theorem OfPlan.enter {outer inner : Scope} (houter : OfPlan plan outer)
    (hinner : OfPlan plan inner) : OfPlan plan (outer.enter inner) := by
  intro name c h
  rcases getElem?_foldl_insert inner.toList outer h with hfound | ⟨entry, hentry, hname, hvalue⟩
  · exact houter name c hfound
  · have hfound : inner[entry.1]? = some entry.2 :=
      Std.TreeMap.mem_toList_iff_getElem?_eq_some.1 hentry
    rw [hname, hvalue] at hfound
    exact hinner name c hfound

end Scope

/-! ## What nodes show -/

namespace Node

variable {n : Node} {scope : Scope} {s : Statement} {c : Cte Node}

/-- What a node shows depends on what it wraps. -/
theorem exposedColumns?_congr {m : Node} (h : n.unwrapped = m.unwrapped) :
    n.exposedColumns? scope = m.exposedColumns? scope := by
  rw [exposedColumns?, exposedColumns?]
  unfold exposedColumnsWithin?
  rw [h]

theorem exposedNames_congr {m : Node} (h : n.unwrapped = m.unwrapped) :
    n.exposedNames scope = m.exposedNames scope := by
  rw [exposedNames, exposedNames, exposedColumns?_congr h]

/-- A node that wraps a statement shows its columns, in any scope. -/
theorem exposedColumnsWithin?_of_unwrapped (h : n.unwrapped = .select s) (hops : Nat) :
    n.exposedColumnsWithin? scope hops = some s.columns := by
  unfold exposedColumnsWithin?
  rw [h]

theorem exposedColumns?_of_unwrapped (h : n.unwrapped = .select s) :
    n.exposedColumns? scope = some s.columns :=
  exposedColumnsWithin?_of_unwrapped h _

theorem exposedNames_of_unwrapped (h : n.unwrapped = .select s) :
    n.exposedNames scope = s.columnNames := by
  rw [exposedNames, exposedColumns?_of_unwrapped h]
  rfl

/-- Where no CTE can be read, only a node that wraps a statement shows anything. -/
theorem exists_unwrapped_of_exposedNames (h : n.exposedNames ∅ ≠ []) :
    ∃ s, n.unwrapped = .select s := by
  cases hn : n.unwrapped with
  | select s => exact ⟨s, rfl⟩
  | table | text | cte | createTable =>
      refine absurd ?_ h
      rw [exposedNames, exposedColumns?, Std.TreeMap.size_emptyc, exposedColumnsWithin?, hn]
      rfl

theorem namedCte?_of_unwrapped (h : n.unwrapped = .select s) : n.namedCte? scope = none := by
  cases n with
  | table => cases h
  | text | select | cte | createTable => rfl

/-- A node that names a CTE shows what the CTE does. -/
theorem exposedColumns?_of_namedCte? (hc : n.namedCte? scope = some c)
    (hs : c.body.unwrapped = .select s) : n.exposedColumns? scope = some s.columns := by
  unfold namedCte? at hc
  split at hc
  case h_2 => cases hc
  case h_1 id name =>
    have hmem : name ∈ scope := by
      rw [Std.TreeMap.mem_iff_isSome_getElem?, hc]
      rfl
    have hsize : scope.size ≠ 0 := by
      have hempty := Std.TreeMap.isEmpty_eq_false_iff_exists_mem.2 ⟨name, hmem⟩
      rw [Std.TreeMap.isEmpty_eq_size_eq_zero, beq_eq_false_iff_ne] at hempty
      exact hempty
    rcases Nat.exists_eq_succ_of_ne_zero hsize with ⟨hops, hhops⟩
    rw [exposedColumns?, hhops]
    unfold exposedColumnsWithin?
    simp only [unwrapped, namedCte?, hc]
    exact exposedColumnsWithin?_of_unwrapped hs hops

end Node

/-! ## Recording -/

namespace Scopes

theorem recordJoins_eq (visible : Scope) (js : List (Join Node)) (scopes : Scopes) :
    recordJoins visible js scopes =
      (js.map Join.source).foldl (fun scopes n => record visible n scopes) scopes := by
  induction js generalizing scopes with
  | nil => rfl
  | cons j js ih => rw [recordJoins, ih, List.map_cons, List.foldl_cons]

theorem recordCtes_eq (visible : Scope) (cs : List (Cte Node)) (scopes : Scopes) :
    recordCtes visible cs scopes =
      (cs.map Node.cte).foldl (fun scopes n => record visible n scopes) scopes := by
  induction cs generalizing scopes with
  | nil => rfl
  | cons c cs ih => rw [recordCtes, ih, List.map_cons, List.foldl_cons, record]

/-- A statement is recorded and then what it reads, in order, at the scope of the statement. -/
theorem record_select (visible : Scope) (s : Statement) (scopes : Scopes) :
    record visible (.select s) scopes =
      if scopes.contains s.id then scopes
      else (Node.select s).parents.foldl
        (fun scopes n => record (visible.enter (.ofCtes s.ctes)) n scopes)
        (scopes.insert s.id (visible.enter (.ofCtes s.ctes))) := by
  rw [record]
  split
  · rfl
  · simp only [Node.parents, List.foldl_cons, List.foldl_append, recordJoins_eq, recordCtes_eq]

variable {plan : Node}

/-- What is recorded are scopes of the plan. -/
def OfPlan (plan : Node) (scopes : Scopes) : Prop :=
  ∀ (i : NodeId) (scope : Scope), scopes[i]? = some scope → scope.OfPlan plan

theorem OfPlan.insert {scopes : Scopes} (hscopes : OfPlan plan scopes) {scope : Scope}
    (hscope : scope.OfPlan plan) (i : NodeId) : OfPlan plan (scopes.insert i scope) := by
  intro j found hfound
  rw [Std.TreeMap.getElem?_insert] at hfound
  split at hfound
  case isTrue =>
    rw [← Option.some.inj hfound]
    exact hscope
  case isFalse => exact hscopes j found hfound

theorem OfPlan.record (n : Node) (hn : n ∈ plan.subnodes) {visible : Scope}
    (hvisible : visible.OfPlan plan) {scopes : Scopes} (hscopes : OfPlan plan scopes) :
    OfPlan plan (record visible n scopes) := by
  induction n using Node.induct_parents generalizing visible scopes with
  | h n ih =>
      have hparent : ∀ m ∈ n.parents, m ∈ plan.subnodes := by
        intro m hm
        exact Node.mem_subnodes_of_parent hm hn
      cases n with
      | table | text => exact hscopes
      | select s =>
          rw [record_select]
          split
          · exact hscopes
          · have hctes : ∀ c ∈ s.ctes, .cte c ∈ plan.subnodes := by
              intro c hc
              exact hparent (.cte c) (by simp [Node.parents, hc])
            have hown := hvisible.enter (Scope.ofPlan_ofCtes hctes)
            refine List.foldlRecOn (motive := OfPlan plan) _ _ (hscopes.insert hown s.id) ?_
            intro scopes hscopes m hm
            exact ih m hm (hparent m hm) hown hscopes
      | cte c =>
          have hbody : c.body ∈ (Node.cte c).parents := by simp [Node.parents]
          exact ih c.body hbody (hparent _ hbody) hvisible hscopes
      | createTable id t query =>
          have hquery : query ∈ (Node.createTable id t query).parents := by simp [Node.parents]
          exact ih query hquery (hparent _ hquery) hvisible hscopes

/-- Recording is a traversal that remembers statements. -/
theorem traverses_record (hids : plan.IdsIdentify) (n : Node) (hn : n ∈ plan.subnodes)
    (visible : Scope) (scopes : Scopes) :
    Traverses plan (fun m => m.isSelect = true) [n] (· ∈ scopes) (· ∈ record visible n scopes) := by
  induction n using Node.induct_parents generalizing visible scopes with
  | h n ih =>
      have hbelow : ∀ (ms : List Node), ms ⊆ n.parents → ∀ (visible : Scope) (scopes : Scopes),
          Traverses plan (fun m => m.isSelect = true) ms (· ∈ scopes)
            (· ∈ ms.foldl (fun scopes m => record visible m scopes) scopes) := by
        intro ms hms visible
        induction ms with
        | nil =>
            intro scopes
            exact .nil
        | cons m ms ihms =>
            intro scopes
            rw [List.cons_subset] at hms
            exact .cons (ih m hms.1 (Node.mem_subnodes_of_parent hms.1 hn) visible scopes)
              (ihms hms.2 _)
      cases n with
      | table | text => exact .pass (by simp [Node.isSelect, Node.select?]) .nil
      | cte c =>
          refine .pass (by simp [Node.isSelect, Node.select?]) ?_
          exact hbelow [c.body] (by simp [Node.parents]) visible scopes
      | createTable id t query =>
          refine .pass (by simp [Node.isSelect, Node.select?]) ?_
          exact hbelow [query] (by simp [Node.parents]) visible scopes
      | select s =>
          rw [record_select]
          split
          case isTrue hmet => exact .turn hn rfl (Std.TreeMap.mem_iff_contains.2 hmet)
          case isFalse =>
            refine .enter hids hn ?_
            convert hbelow (Node.select s).parents (List.Subset.refl _) _ _ using 2 with i
            rw [Std.TreeMap.mem_insert, Nat.compare_eq_eq, eq_comm]
            rfl

/-- **Every statement has a scope**, where identities tell the nodes of a plan apart. -/
theorem exists_scope (hids : plan.IdsIdentify) {s : Statement} (hs : .select s ∈ plan.subnodes) :
    ∃ scope, (ofPlan plan)[s.id]? = some scope := by
  have htrav := traverses_record hids plan (Node.mem_subnodes_self plan) ∅ ∅
  have hmet : s.id ∈ ofPlan plan := by
    refine Traverses.met_of_mem (P := fun m => m.isSelect = true) ?_ hs rfl
    convert htrav using 2
    · simp
    · rfl
  exact ⟨_, Std.TreeMap.getElem?_eq_some_getElem hmet⟩

/-- Recorded scopes hold CTEs of the plan. -/
theorem ofPlan_ofPlan : OfPlan plan (Scopes.ofPlan plan) := by
  refine OfPlan.record plan (Node.mem_subnodes_self plan) Scope.ofPlan_empty ?_
  intro i scope h
  simp at h

end Scopes

end QueryPlan
