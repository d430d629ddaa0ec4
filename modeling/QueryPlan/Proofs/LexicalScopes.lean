import QueryPlan.Proofs.Identities
import QueryPlan.Proofs.ScopePaths
import QueryPlan.Proofs.Visits

/-!
# Scopes are lexical

Scopes are recorded by a traversal that turns back at a statement it has met before.  This file
compares it with the traversal that never turns back: `Node.paths` lists the paths of a plan, sharing
written out, in depth-first order.

* `Scope.getElem?_along` — along a path, a name stands for the last CTE of that name in the innermost
  statement that defines one.
* **`Scopes.getElem?_record`** — the scope of a statement is the one along the first path that ends at
  it.  To turn back loses nothing, because all below a statement that has been met has been met as
  well, by paths that come earlier.
-/

namespace QueryPlan

namespace Node

/-! ## All paths, depth first -/

mutual
/-- The paths that go on from the path `above` to a node and to everything below it, depth first.  A
path lists its nodes from its end on. -/
def paths : Node → List Node → List (List Node)
  | n@(.table ..), above | n@(.text ..), above => [n :: above]
  | n@(.select s), above =>
      (n :: above) ::
        (s.source.paths (n :: above) ++
          (pathsOfJoins s.joins (n :: above) ++ pathsOfCtes s.ctes (n :: above)))
  | n@(.cte c), above => (n :: above) :: c.body.paths (n :: above)
  | n@(.createTable _ _ query), above => (n :: above) :: query.paths (n :: above)

/-- `paths` for the sources of joins. -/
def pathsOfJoins : List (Join Node) → List Node → List (List Node)
  | [], _ => []
  | j :: js, above => j.source.paths above ++ pathsOfJoins js above

/-- `paths` for CTEs. -/
def pathsOfCtes : List (Cte Node) → List Node → List (List Node)
  | [], _ => []
  | c :: cs, above => (.cte c :: above) :: (c.body.paths (.cte c :: above) ++ pathsOfCtes cs above)
end

theorem pathsOfJoins_eq (above : List Node) : ∀ js : List (Join Node),
    pathsOfJoins js above = (js.map Join.source).flatMap fun m => m.paths above
  | [] => rfl
  | j :: js => by rw [pathsOfJoins, pathsOfJoins_eq above js, List.map_cons, List.flatMap_cons]

theorem pathsOfCtes_eq (above : List Node) : ∀ cs : List (Cte Node),
    pathsOfCtes cs above = (cs.map Node.cte).flatMap fun m => m.paths above
  | [] => rfl
  | c :: cs => by
      rw [pathsOfCtes, pathsOfCtes_eq above cs, List.map_cons, List.flatMap_cons, paths,
        List.cons_append]

/-- A path ends at the node, or it goes on to something that the node reads, in order. -/
theorem paths_eq (n : Node) (above : List Node) :
    n.paths above = (n :: above) :: n.parents.flatMap fun m => m.paths (n :: above) := by
  cases n with
  | table | text => rfl
  | select s =>
      simp only [paths, parents, pathsOfJoins_eq, pathsOfCtes_eq, List.flatMap_cons,
        List.flatMap_append]
  | cte | createTable =>
      simp only [paths, parents, List.flatMap_cons, List.flatMap_nil, List.append_nil]

/-- The paths of a plan end at its nodes, in the order of the nodes. -/
theorem ends_paths (n : Node) (above : List Node) :
    (n.paths above).filterMap List.head? = n.subnodes := by
  induction n using induct_parents generalizing above with
  | h n ih =>
      rw [paths_eq, subnodes_eq, List.filterMap_cons_some List.head?_cons, List.filterMap_flatMap]
      congr 1
      exact List.flatMap_congr fun m hm => ih m hm (n :: above)

/-- The first path of a plan, in depth-first order, that ends at a node. -/
def IsFirstPath (plan : Node) (path : List Node) (n : Node) : Prop :=
  path.head? = some n ∧ ∃ earlier later, plan.paths [] = earlier ++ path :: later ∧
    ∀ p ∈ earlier, p.head? ≠ some n

/-- Whether a path ends at a statement with the given identity. -/
def endsAt (i : NodeId) : List Node → Bool
  | .select s :: _ => s.id == i
  | _ => false

theorem endsAt_iff {i : NodeId} {path : List Node} :
    endsAt i path = true ↔ ∃ s, path.head? = some (.select s) ∧ s.id = i := by
  cases path with
  | nil => simp [endsAt]
  | cons n above => cases n <;> simp [endsAt]

/-- Only a statement below a node is the end of a path that goes on from the node. -/
theorem exists_select_of_find?_paths {n : Node} {above path : List Node} {i : NodeId}
    (h : (n.paths above).find? (endsAt i) = some path) :
    ∃ s, path.head? = some (.select s) ∧ s.id = i ∧ .select s ∈ n.subnodes := by
  obtain ⟨s, hend, hid⟩ := endsAt_iff.1 (List.find?_some h)
  refine ⟨s, hend, hid, ?_⟩
  rw [← ends_paths n above]
  exact List.mem_filterMap.2 ⟨path, List.mem_of_find?_eq_some h, hend⟩

/-- Where identities tell nodes apart, the first path that ends at the identity of a statement is the
first one that ends at the statement. -/
theorem isFirstPath_of_find?_paths {plan : Node} (hids : plan.IdsIdentify) {s : Statement}
    (hs : .select s ∈ plan.subnodes) {path : List Node}
    (h : (plan.paths []).find? (endsAt s.id) = some path) : plan.IsFirstPath path (.select s) := by
  obtain ⟨s', hend, hid, hs'⟩ := exists_select_of_find?_paths h
  obtain ⟨-, earlier, later, hpaths, hearlier⟩ := List.find?_eq_some_iff_append.1 h
  refine ⟨?_, earlier, later, hpaths, ?_⟩
  · rw [hend, hids _ hs' _ hs hid]
  · intro p hp hend'
    have hnot := hearlier p hp
    simp [endsAt_iff.2 ⟨s, hend', rfl⟩] at hnot

/-! ## Names along a path -/

/-- The CTE that a node defines under a name: the last one of that name in the list of a statement. -/
def definition? (name : String) : Node → Option (Cte Node)
  | .select s => (s.ctes.filter fun c => c.name == name).getLast?
  | _ => none

end Node

namespace Scope

/-- Of several definitions of a name the last one counts. -/
theorem getElem?_ofCtes (cs : List (Cte Node)) (name : String) :
    (ofCtes cs)[name]? = (cs.filter fun c => c.name == name).getLast? := by
  have hfold : ∀ scope : Scope,
      (cs.foldl (fun scope c => scope.insert c.name c) scope)[name]? =
        (cs.filter fun c => c.name == name).getLast?.or scope[name]? := by
    induction cs with
    | nil => simp
    | cons c cs ih =>
        intro scope
        rw [List.foldl_cons, ih, Std.TreeMap.getElem?_insert, List.filter_cons]
        by_cases hname : c.name = name
        · rw [if_pos (by simpa using hname), if_pos (by simpa using hname), List.getLast?_cons]
          cases (cs.filter fun c => c.name == name).getLast? <;> rfl
        · rw [if_neg (by simpa using hname), if_neg (by simpa using hname)]
  rw [ofCtes, hfold, Std.TreeMap.getElem?_emptyc, Option.or_none]

/-- What a node reads sees the definitions of the node before those around it. -/
theorem getElem?_inside (scope : Scope) (n : Node) (name : String) :
    (scope.inside n)[name]? = (n.definition? name).or scope[name]? := by
  cases n with
  | select s =>
      show (scope.enter (.ofCtes s.ctes))[name]? = _
      rw [getElem?_enter, getElem?_ofCtes, Node.definition?]
  | table | text | cte | createTable => rfl

/-- **Lexical scoping.**  Along a path, a name stands for what the innermost statement that defines it
makes of it, and for nothing if there is no such statement. -/
theorem getElem?_along (path : List Node) (name : String) :
    (along path)[name]? = path.findSome? (Node.definition? name) := by
  induction path with
  | nil => exact Std.TreeMap.getElem?_emptyc
  | cons n above ih =>
      show ((along above).inside n)[name]? = _
      rw [List.findSome?_cons, ← ih, getElem?_inside]
      cases n.definition? name <;> rfl

end Scope

/-! ## The traversal that turns back -/

namespace Scopes

variable {plan : Node}

/-- What recording does below a node: an identity keeps the scope that it has, and otherwise gets the
scope along the first path that goes on from the node to it. -/
def RecordsFirst (plan n : Node) : Prop :=
  ∀ (above : List Node) (scopes : Scopes) (size : Nat),
    CompleteBelow plan (fun m => m.isSelect = true) (· ∈ scopes) size → sizeOf n < size →
    ∀ i : NodeId, (record (.along above) n scopes)[i]? =
      scopes[i]?.or (((n.paths above).find? (Node.endsAt i)).map Scope.along)

/-- Recording one node after the other goes through their paths one after the other. -/
theorem getElem?_foldl_record (hids : plan.IdsIdentify) (above : List Node) {size : Nat} (i : NodeId)
    (ms : List Node) (hplan : ∀ m ∈ ms, m ∈ plan.subnodes) (hrecords : ∀ m ∈ ms, RecordsFirst plan m)
    (hsize : ∀ m ∈ ms, sizeOf m < size) (scopes : Scopes)
    (hcomplete : CompleteBelow plan (fun m => m.isSelect = true) (· ∈ scopes) size) :
    (ms.foldl (fun scopes m => record (.along above) m scopes) scopes)[i]? =
      scopes[i]?.or (((ms.flatMap fun m => m.paths above).find? (Node.endsAt i)).map Scope.along) := by
  induction ms generalizing scopes with
  | nil => simp
  | cons m ms ih =>
      rw [List.forall_mem_cons] at hplan hrecords hsize
      -- what lies below this node has been met before the next one is looked at
      have hcomplete' := ((traverses_record hids m hplan.1 (.along above) scopes).covers size hcomplete
        (by simpa using hsize.1)).1
      rw [List.foldl_cons, ih hplan.2 hrecords.2 hsize.2 _ hcomplete',
        hrecords.1 above scopes size hcomplete hsize.1, Option.or_assoc, List.flatMap_cons,
        List.find?_append, Option.map_or]

/-- **To turn back loses nothing**, where identities tell the nodes of a plan apart. -/
theorem recordsFirst (hids : plan.IdsIdentify) (n : Node) (hn : n ∈ plan.subnodes) :
    RecordsFirst plan n := by
  induction n using Node.induct_parents with
  | h n ih =>
      intro above scopes size hcomplete hsize i
      have hparent : ∀ m ∈ n.parents, m ∈ plan.subnodes := fun m hm =>
        Node.mem_subnodes_of_parent hm hn
      have hrecords : ∀ m ∈ n.parents, RecordsFirst plan m := fun m hm => ih m hm (hparent m hm)
      have hsmaller : ∀ m ∈ n.parents, sizeOf m < sizeOf n := fun m hm =>
        Node.sizeOf_lt_of_mem_parents hm
      cases n with
      | table | text => simp [record, Node.paths, Node.endsAt]
      | cte c =>
          have hbody : c.body ∈ (Node.cte c).parents := by simp [Node.parents]
          have hbelow := hrecords c.body hbody (.cte c :: above) scopes size hcomplete
            (Nat.lt_trans (hsmaller _ hbody) hsize) i
          rw [Node.paths, List.find?_cons_of_neg (by simp [Node.endsAt])]
          exact hbelow
      | createTable id t query =>
          have hquery : query ∈ (Node.createTable id t query).parents := by simp [Node.parents]
          have hbelow := hrecords query hquery (.createTable id t query :: above) scopes size
            hcomplete (Nat.lt_trans (hsmaller _ hquery) hsize) i
          rw [Node.paths, List.find?_cons_of_neg (by simp [Node.endsAt])]
          exact hbelow
      | select s =>
          rw [record_select]
          split
          case isTrue hmet =>
            -- everything below has a scope already, from an earlier path
            cases hfind : ((Node.select s).paths above).find? (Node.endsAt i) with
            | none => simp
            | some path =>
                obtain ⟨s', -, rfl, hs'⟩ := Node.exists_select_of_find?_paths hfind
                have hmem : s'.id ∈ scopes := hcomplete (.select s) hn rfl
                  (Std.TreeMap.mem_iff_contains.2 hmet) hsize (.select s') hs' rfl
                rw [Std.TreeMap.getElem?_eq_some_getElem hmem, Option.some_or]
          case isFalse hnew =>
            have hnone : scopes[s.id]? = none :=
              Std.TreeMap.getElem?_eq_none fun hmem => hnew (Std.TreeMap.mem_iff_contains.1 hmem)
            have hinside : CompleteBelow plan (fun m => m.isSelect = true)
                (· ∈ scopes.insert s.id (.along (.select s :: above))) (sizeOf (Node.select s)) := by
              convert hcomplete.enter hids hn hsize using 2 with j
              rw [Std.TreeMap.mem_insert, Nat.compare_eq_eq, eq_comm]
              rfl
            have hbelow := getElem?_foldl_record hids (.select s :: above) i (Node.select s).parents
              hparent hrecords hsmaller _ hinside
            refine hbelow.trans ?_
            rw [Node.paths_eq, Std.TreeMap.getElem?_insert]
            by_cases hid : s.id = i
            · rw [if_pos (Nat.compare_eq_eq.2 hid),
                List.find?_cons_of_pos (by simpa [Node.endsAt] using hid), ← hid, hnone]
              rfl
            · rw [if_neg (mt Nat.compare_eq_eq.1 hid),
                List.find?_cons_of_neg (by simpa [Node.endsAt] using hid)]

/-- Below the end of a path, **the scope of a statement** is the one along the first path that ends
at it. -/
theorem getElem?_record (hids : plan.IdsIdentify) (above : List Node) (i : NodeId) :
    (record (.along above) plan ∅)[i]? =
      ((plan.paths above).find? (Node.endsAt i)).map Scope.along := by
  have hnone : CompleteBelow plan (fun m => m.isSelect = true) (· ∈ (∅ : Scopes))
      (sizeOf plan + 1) := by
    intro y _ _ hmet
    simp at hmet
  have hrecord := recordsFirst hids plan (Node.mem_subnodes_self plan) above ∅ _ hnone
    (Nat.lt_succ_self _) i
  rwa [Std.TreeMap.getElem?_emptyc, Option.none_or] at hrecord

theorem getElem?_ofPlan (hids : plan.IdsIdentify) (i : NodeId) :
    (ofPlan plan)[i]? = ((plan.paths []).find? (Node.endsAt i)).map Scope.along :=
  getElem?_record hids [] i

theorem mem_ofPlan_iff (hids : plan.IdsIdentify) (i : NodeId) :
    i ∈ ofPlan plan ↔ ∃ s, .select s ∈ plan.subnodes ∧ s.id = i := by
  constructor
  · intro hmem
    have hscope := Std.TreeMap.getElem?_eq_some_getElem hmem
    rw [getElem?_ofPlan hids] at hscope
    obtain ⟨path, hfind, -⟩ := Option.map_eq_some_iff.1 hscope
    obtain ⟨s, -, hid, hs⟩ := Node.exists_select_of_find?_paths hfind
    exact ⟨s, hs, hid⟩
  · rintro ⟨s, hs, rfl⟩
    obtain ⟨scope, hscope⟩ := exists_scope hids hs
    rw [Std.TreeMap.mem_iff_isSome_getElem?, hscope]
    rfl

end Scopes

/-- **Scopes are lexical along first paths.**  Where identities tell the nodes of a plan apart, scopes
are recorded for its statements and for nothing else, and a statement gets the scope along the first
path that ends at it: a name stands for the last CTE of that name in the innermost statement on the
path, the statement itself included, that defines one. -/
theorem scopes_follow_first_paths {plan : Node} (hids : plan.IdsIdentify) :
    (∀ i, i ∈ Scopes.ofPlan plan ↔ ∃ s, .select s ∈ plan.subnodes ∧ s.id = i) ∧
      ∀ s, .select s ∈ plan.subnodes → ∃ path scope, plan.IsFirstPath path (.select s) ∧
        (Scopes.ofPlan plan).find s = .ok scope ∧
        ∀ name, scope[name]? = path.findSome? (Node.definition? name) := by
  refine ⟨Scopes.mem_ofPlan_iff hids, ?_⟩
  intro s hs
  obtain ⟨scope, hscope⟩ := Scopes.exists_scope hids hs
  have hfirst := hscope
  rw [Scopes.getElem?_ofPlan hids] at hfirst
  obtain ⟨path, hfind, rfl⟩ := Option.map_eq_some_iff.1 hfirst
  exact ⟨path, _, Node.isFirstPath_of_find?_paths hids hs hfind, Node.find_eq_ok.2 hscope,
    Scope.getElem?_along path⟩

/-- `SELECT c.x AS x FROM r c`. -/
def Select.readerOfR : Statement :=
  .plain 4 [⟨.column ⟨"c", "x"⟩ true, "x"⟩] (.table 3 ⟨none, "r"⟩) "c"

/-- `WITH r AS (SELECT u.x AS x FROM u u), r AS (SELECT v.x AS x FROM v v)
SELECT d.x AS x FROM readerOfR d`. -/
def Select.redefiningR : Statement :=
  { Select.plain 11 [⟨.column ⟨"d", "x"⟩ true, "x"⟩] (.select .readerOfR) "d" with
    ctes := [⟨7, "r", .select (.plain 6 [⟨.column ⟨"u", "x"⟩ true, "x"⟩] (.table 5 ⟨none, "u"⟩) "u")⟩,
      ⟨10, "r", .select (.plain 9 [⟨.column ⟨"v", "x"⟩ true, "x"⟩] (.table 8 ⟨none, "v"⟩) "v")⟩] }

/-- `r AS (SELECT t.x AS x FROM t t)`. -/
def Cte.outerR : Cte Node :=
  ⟨2, "r", .select (.plain 1 [⟨.column ⟨"t", "x"⟩ true, "x"⟩] (.table 0 ⟨none, "t"⟩) "t")⟩

/-- `WITH outerR SELECT a.x AS x, b.x AS y FROM redefiningR a CROSS JOIN readerOfR b`, where
`readerOfR` is one statement that is read at two places. -/
def Select.readingRTwice : Statement :=
  { Select.plain 12 [⟨.column ⟨"a", "x"⟩ true, "x"⟩, ⟨.column ⟨"b", "x"⟩ true, "y"⟩]
      (.select .redefiningR) "a" with
    ctes := [.outerR]
    joins := [⟨.select .readerOfR, "b", .cross, none⟩] }

/-- The statement that is read twice gets the scope of its first place, where `r` is redefined, and
there the second of the two new definitions counts. -/
theorem scopes_follow_first_paths_readingRTwice :
    (Node.select .readingRTwice).IdsIdentify ∧
      ∃ path scope, (Node.select .readingRTwice).IsFirstPath path (.select .readerOfR) ∧
        (Scopes.ofPlan (.select .readingRTwice)).find .readerOfR = .ok scope ∧
        (∀ name, scope[name]? = path.findSome? (Node.definition? name)) ∧
        (path.findSome? (Node.definition? "r")).map Cte.id = some 10 := by
  have hids : (Node.select .readingRTwice).IdsIdentify := by
    have hsub : (Node.select .readingRTwice).subnodes ⊆ .select .readingRTwice ::
        ((Node.select .redefiningR).subnodes ++ (Node.cte .outerR).subnodes) := by
      intro m hm
      have hparents : (Node.select .readingRTwice).parents =
          [.select .redefiningR, .select .readerOfR, .cte .outerR] := rfl
      have hshared : .select .readerOfR ∈ (Node.select .redefiningR).subnodes :=
        Node.mem_subnodes_of_mem_parents List.mem_cons_self
      rw [Node.mem_subnodes_iff, hparents] at hm
      simp only [List.mem_cons, List.not_mem_nil, or_false, exists_eq_or_imp, exists_eq_left] at hm
      rw [List.mem_cons, List.mem_append]
      rcases hm with hm | hm | hm | hm
      · exact .inl hm
      · exact .inr (.inl hm)
      · exact .inr (.inl (Node.mem_subnodes_trans hm hshared))
      · exact .inr (.inr hm)
    exact Node.idsIdentify_of_subset hsub (by decide)
  have hreader : .select .readerOfR ∈ (Node.select .readingRTwice).subnodes := by
    refine Node.mem_subnodes_of_mem_parents ?_
    simp [Node.parents, Select.readingRTwice]
  obtain ⟨path, scope, hfirst, hfind, hscope⟩ := (scopes_follow_first_paths hids).2 _ hreader
  have hruns : ((Scopes.ofPlan (.select .readingRTwice)).find .readerOfR).toOption.map
      (fun scope => scope["r"]?.map Cte.id) = some (some 10) := by
    decide +kernel
  refine ⟨hids, path, scope, hfirst, hfind, hscope, ?_⟩
  rw [hfind] at hruns
  rw [← hscope]
  exact Option.some.inj hruns

end QueryPlan
