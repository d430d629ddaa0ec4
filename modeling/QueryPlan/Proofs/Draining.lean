import QueryPlan.Proofs.Identities
import QueryPlan.Proofs.Settling

/-!
# The rounds come to an end by themselves

The propagation is given a number of rounds that suffices.  Here the loop is described without such
a number (`Drains`), together with what every look at a CTE finds required of it (`Look`).

A CTE is looked at in a round because its set has another size than when it was last looked at, and
then the set is larger.  During the round it can only grow further.  So a look finds more than every
look at the same CTE in an earlier round (`Drains.pairwise`), and there are no more looks at a CTE
than names in its last set (`Drains.length_filter_le`).  As the sets hold only names of the plan,
there is no infinite series of rounds (`acc_round`), also where CTEs read themselves or each other.
-/

namespace QueryPlan

/-! ## The columns that can be seen -/

namespace Node

/-- To see the columns of the first node one has to see those of the second. -/
inductive SeesThrough (scope : Scope) : Node → Node → Prop
  | cte (c : Cte Node) : SeesThrough scope (.cte c) c.body
  | createTable (id : NodeId) (t : TableName) (query : Node) :
      SeesThrough scope (.createTable id t query) query
  | named {n : Node} {c : Cte Node} : n.namedCte? scope = some c → SeesThrough scope n c.body

/-- The select list that can be seen at a node, by those of the nodes it is seen through. -/
def columnsThrough? (scope : Scope) (below : Node → Option (List NamedExpr)) :
    Node → Option (List NamedExpr)
  | .select s => some s.columns
  | .cte c => below c.body
  | .createTable _ _ query => below query
  | .table id t => ((Node.table id t).namedCte? scope).bind fun c => below c.body
  | .text .. => none

section Seeing

variable {plan : Node} {scope : Scope} (hscope : scope.OfPlan plan)
  (hctes : ∀ c, .cte c ∈ plan.subnodes → c.body.isSelect = true)

include hscope hctes

theorem exists_select_of_namedCte? {n : Node} {c : Cte Node} (h : n.namedCte? scope = some c) :
    ∃ s, c.body = .select s := by
  have hbody := hctes c (mem_subnodes_of_namedCte? hscope h)
  cases hnode : c.body with
  | select s => exact ⟨s, rfl⟩
  | table | text | cte | createTable => rw [hnode] at hbody; cases hbody

/-- **To look for the columns of a node comes to an end.**  What a CTE wraps is a statement, so a
name is followed once. -/
theorem acc_seesThrough (n : Node) : Acc (fun m n => SeesThrough scope n m) n := by
  induction n using induct_parents with
  | h n ih =>
      constructor
      intro m hm
      cases hm with
      | cte c => exact ih c.body (by simp [parents])
      | createTable id t => exact ih m (by simp [parents])
      | named hc =>
          rcases exists_select_of_namedCte? hscope hctes hc with ⟨s, hbody⟩
          rw [hbody]
          constructor
          rintro m (_ | _ | hnamed)
          cases hnamed

/-- No column is missed because too few names are followed. -/
theorem exposedColumns?_eq_columnsThrough? (n : Node) :
    n.exposedColumns? scope = n.columnsThrough? scope (exposedColumns? scope) := by
  cases n with
  | select s => exact exposedColumns?_of_unwrapped rfl
  | cte c => exact exposedColumns?_congr rfl
  | createTable id t query => exact exposedColumns?_congr rfl
  | text id sql =>
      rw [exposedColumns?]
      unfold exposedColumnsWithin?
      cases Std.TreeMap.size scope <;> rfl
  | table id t =>
      rw [columnsThrough?]
      cases hc : (Node.table id t).namedCte? scope with
      | none =>
          rw [exposedColumns?]
          unfold exposedColumnsWithin?
          simp only [unwrapped, hc]
          cases Std.TreeMap.size scope <;> rfl
      | some c =>
          rcases exists_select_of_namedCte? hscope hctes hc with ⟨s, hbody⟩
          have hwraps : c.body.unwrapped = .select s := by rw [hbody]; rfl
          rw [Option.bind_some, exposedColumns?_of_unwrapped hwraps]
          exact exposedColumns?_of_namedCte? hc hwraps

end Seeing

end Node

namespace Propagation

/-! ## Looks and rounds -/

/-- A look at a CTE, and what is required of it then. -/
structure Look where
  cte : Cte Node
  names : NameSet

/-- Looking at CTEs, in order. -/
inductive Looks (scopes : Scopes) : List (Cte Node) → Propagation → List Look → Propagation → Prop
  | nil {p : Propagation} : Looks scopes [] p [] p
  | cons {c : Cte Node} {cs : List (Cte Node)} {p p₁ p' : Propagation} {looks : List Look} :
      c.body.propagate scopes (p.enterCte c) = .ok p₁ → Looks scopes cs p₁ looks p' →
      Looks scopes (c :: cs) p (⟨c, p.required.names c.id⟩ :: looks) p'

/-- One round: some sets have grown, and their CTEs are looked at. -/
def Round (scopes : Scopes) (p : Propagation) (looks : List Look) (p' : Propagation) : Prop :=
  p.staleCtes ≠ [] ∧ Looks scopes p.staleCtes p looks p'

/-- Rounds until no set has grown. -/
inductive Drains (scopes : Scopes) : Propagation → List Look → Propagation → Prop
  | done {p : Propagation} : p.staleCtes = [] → Drains scopes p [] p
  | round {p p₁ p' : Propagation} {looks looks' : List Look} : Round scopes p looks p₁ →
      Drains scopes p₁ looks' p' → Drains scopes p (looks ++ looks') p'

section Looking

variable {plan : Node} {scopes : Scopes} {p p' : Propagation} {cs : List (Cte Node)}
  {looks : List Look}

theorem exists_looks_iff :
    (∃ looks, Looks scopes cs p looks p') ↔ propagateCtes scopes cs p = .ok p' := by
  constructor
  · rintro ⟨looks, h⟩
    induction h with
    | nil => rfl
    | cons hc _ ih => exact propagateCtes_cons_eq_ok.2 ⟨_, hc, ih⟩
  · intro h
    induction cs generalizing p with
    | nil =>
        have hp : p = p' := Except.ok.inj h
        subst hp
        exact ⟨[], .nil⟩
    | cons c cs ih =>
        rcases propagateCtes_cons_eq_ok.1 h with ⟨p₁, hc, hrest⟩
        rcases ih hrest with ⟨looks, hlooks⟩
        exact ⟨_, .cons hc hlooks⟩

/-- Each CTE is looked at once, in order. -/
theorem Looks.map_cte (h : Looks scopes cs p looks p') : looks.map Look.cte = cs := by
  induction h with
  | nil => rfl
  | cons _ _ ih => rw [List.map_cons, ih]

/-- What a look at a CTE leaves: what was required of the CTE has been seen, what has been seen stays
required, and its size has been noted. -/
structure Look.Between (plan : Node) (p p' : Propagation) (look : Look) : Prop where
  ofPlan : .cte look.cte ∈ plan.subnodes
  sees : ∀ {x : String}, p.Requires look.cte.id x → x ∈ look.names
  kept : ∀ {x : String}, x ∈ look.names → p'.Requires look.cte.id x
  noted : look.names.size ≤ (p'.seenSize[look.cte.id]?).getD 0

/-- Along a series of looks the state is run, and each look is made in between. -/
theorem Looks.between (hids : plan.IdsIdentify) (hscopes : scopes.OfPlan plan)
    (hinv : Invariant plan scopes p)
    (hcs : ∀ c ∈ cs, .cte c ∈ plan.subnodes ∧ p.Fed (.cte c)) (h : Looks scopes cs p looks p') :
    Run plan scopes p p' ∧ ∀ look ∈ looks, look.Between plan p p' := by
  induction h with
  | nil => exact ⟨.refl, fun _ h => absurd h List.not_mem_nil⟩
  | @cons c cs p p₁ p' looks hc hrest ih =>
      rcases hcs c List.mem_cons_self with ⟨hplan, hfed⟩
      have henter : Step plan scopes p (p.enterCte c) := .enter hplan
      have hbody : Run plan scopes (p.enterCte c) p₁ :=
        (Node.visit_propagate hids hscopes _ (Node.body_mem_subnodes hplan) hfed.enterCte hc).run
      have hfirst : Run plan scopes p p₁ := .head henter hbody
      rcases ih (Run.invariant hids hscopes hfirst hinv) (by
        intro d hd
        rcases hcs d (List.mem_cons_of_mem _ hd) with ⟨hplan, hfed⟩
        exact ⟨hplan, hfed.mono fun _ _ => Run.grows hfirst⟩) with ⟨hlast, hlooks⟩
      refine ⟨hfirst.trans hlast, ?_⟩
      intro look hlook
      rcases List.mem_cons.1 hlook with rfl | hlook
      · refine ⟨hplan, fun hx => hx, fun hx => Run.grows (hfirst.trans hlast) hx, ?_⟩
        have hle := Run.seenSize_le hids (henter.consistent hids hinv.consistent)
          (hbody.trans hlast) hplan
        have hmarked : (p.enterCte c).seenSize[(Node.cte c).id]? = some (p.count c.id) := by
          rw [seenSize_enterCte]
          exact if_pos rfl
        rwa [hmarked, Option.getD_some] at hle
      · have hbetween := hlooks look hlook
        exact { hbetween with sees := fun hx => hbetween.sees (Run.grows hfirst hx) }

end Looking

section Rounds

variable {plan : Node} {scopes : Scopes} {p p' : Propagation} {looks : List Look}
  (hids : plan.IdsIdentify) (hscopes : scopes.OfPlan plan)

/-- No two CTEs that are looked at in one round have the same identity. -/
theorem pairwise_staleCtes (h : RefersTo plan p) :
    p.staleCtes.Pairwise fun c d => c.id ≠ d.id := by
  refine List.Pairwise.filter _ (List.pairwise_map.2 ?_)
  refine List.Pairwise.imp_of_mem ?_ Std.TreeMap.distinct_keys_toList
  intro entry entry' hentry hentry' hne heq
  have hfirst := (h _ _ (Std.TreeMap.mem_toList_iff_getElem?_eq_some.1 hentry)).1
  have hsecond := (h _ _ (Std.TreeMap.mem_toList_iff_getElem?_eq_some.1 hentry')).1
  rw [← hfirst, ← hsecond, heq] at hne
  exact hne Std.ReflCmp.compare_self

include hids hscopes

theorem Round.between (hinv : Invariant plan scopes p) (h : Round scopes p looks p') :
    Run plan scopes p p' ∧ ∀ look ∈ looks, look.Between plan p p' :=
  h.2.between hids hscopes hinv fun _ hc => hinv.fed_of_stale hc

/-- A look in a round finds more than has been noted before the round. -/
theorem Round.seenSize_lt (hinv : Invariant plan scopes p) (h : Round scopes p looks p')
    {look : Look} (hlook : look ∈ looks) :
    (p.seenSize[look.cte.id]?).getD 0 < look.names.size := by
  have hstale : look.cte ∈ p.staleCtes := by
    rw [← h.2.map_cte]
    exact List.mem_map_of_mem hlook
  refine Nat.lt_of_lt_of_le (hinv.seenSize_lt_of_stale hstale) ?_
  rw [← Std.TreeSet.length_toList (t := look.names)]
  refine size_le_of_subset ?_
  intro x hx
  exact Std.TreeSet.mem_toList.2 (((h.between hids hscopes hinv).2 look hlook).sees hx)

theorem Round.effort_lt (hinv : Invariant plan scopes p) (h : Round scopes p looks p') :
    p.effort plan < p'.effort plan := by
  rcases h with ⟨hne, hlooks⟩
  have hround := exists_looks_iff.1 ⟨looks, hlooks⟩
  cases hcs : p.staleCtes with
  | nil => exact absurd hcs hne
  | cons c cs =>
      have hmem : ∀ d ∈ c :: cs, .cte d ∈ plan.subnodes ∧ p.Fed (.cte d) := by
        intro d hd
        rw [← hcs] at hd
        exact hinv.fed_of_stale hd
      have hstale : c ∈ p.staleCtes := hcs ▸ List.mem_cons_self
      rw [hcs] at hround
      exact effort_lt_of_propagateCtes hids hscopes hinv.consistent hmem
        (mem_staleCtes.1 hstale).2 hround

/-- **There is no infinite series of rounds.** -/
theorem acc_round (hinv : Invariant plan scopes p) :
    Acc (fun p' p => ∃ looks, Round scopes p looks p') p := by
  induction hleft : plan.subnodes.length * plan.planNames.length - p.effort plan
    using Nat.strong_induction_on generalizing p with
  | _ left ih =>
      constructor
      rintro p' ⟨looks, hround⟩
      have hinv' := Run.invariant hids hscopes (hround.between hids hscopes hinv).1 hinv
      have heffort := hround.effort_lt hids hscopes hinv
      have hbound := effort_le_mul hinv'.consistent hinv'.namesOfPlan
      exact ih _ (by omega) hinv' rfl

end Rounds

/-! ## The whole loop -/

/-- The second look sees all that the first one has seen, and more. -/
def Look.SeesLess (look look' : Look) : Prop :=
  (∀ x ∈ look.names, x ∈ look'.names) ∧ ∃ x ∈ look'.names, x ∉ look.names

theorem Look.SeesLess.size_lt {look look' : Look} (h : look.SeesLess look') :
    look.names.size < look'.names.size := by
  rcases h with ⟨hsub, x, hx, hnew⟩
  by_contra hle
  exact hnew (mem_of_subset_of_size_le hsub (Nat.not_lt.1 hle) hx)

/-- Strictly increasing positive numbers are as many as the bound at most. -/
theorem length_le_of_pairwise_lt {sizes : List Nat} {least most : Nat} (hleast : least ≤ most)
    (hpairs : sizes.Pairwise (· < ·)) (hsizes : ∀ k ∈ sizes, least < k ∧ k ≤ most) :
    least + sizes.length ≤ most := by
  induction sizes generalizing least with
  | nil => exact hleast
  | cons k sizes ih =>
      rcases List.pairwise_cons.1 hpairs with ⟨hfirst, hpairs⟩
      rcases hsizes k List.mem_cons_self with ⟨hlow, hhigh⟩
      have hrest := ih hhigh hpairs fun j hj =>
        ⟨hfirst j hj, (hsizes j (List.mem_cons_of_mem _ hj)).2⟩
      rw [List.length_cons]
      omega

namespace Drains

variable {plan : Node} {scopes : Scopes} {p p' : Propagation} {looks : List Look}
  (hids : plan.IdsIdentify) (hscopes : scopes.OfPlan plan) (hinv : Invariant plan scopes p)
  (h : Drains scopes p looks p')

include hids hscopes hinv h

/-- Each look of the loop is made in between, with more than has been noted before the loop. -/
theorem between : Run plan scopes p p' ∧ ∀ look ∈ looks, look.Between plan p p' ∧
    (p.seenSize[look.cte.id]?).getD 0 < look.names.size := by
  induction h with
  | done => exact ⟨.refl, fun _ h => absurd h List.not_mem_nil⟩
  | @round p p₁ p' looks looks' hround _ ih =>
      rcases hround.between hids hscopes hinv with ⟨hfirst, hlooks⟩
      have hinv₁ := Run.invariant hids hscopes hfirst hinv
      rcases ih hinv₁ with ⟨hrest, hlooks'⟩
      refine ⟨hfirst.trans hrest, ?_⟩
      intro look hlook
      rcases List.mem_append.1 hlook with hlook | hlook
      · have hbetween := hlooks look hlook
        have hle := hrest.seenSize_le hids hinv₁.consistent hbetween.ofPlan
        exact ⟨{ hbetween with
            kept := fun hx => hrest.grows (hbetween.kept hx)
            noted := Nat.le_trans hbetween.noted hle },
          hround.seenSize_lt hids hscopes hinv hlook⟩
      · rcases hlooks' look hlook with ⟨hbetween, hlt⟩
        have hle := hfirst.seenSize_le hids hinv.consistent hbetween.ofPlan
        exact ⟨{ hbetween with sees := fun hx => hbetween.sees (hfirst.grows hx) },
          Nat.lt_of_le_of_lt hle hlt⟩

/-- **A look sees more than every earlier look at the same CTE.** -/
theorem pairwise : looks.Pairwise fun look look' =>
    look.cte.id = look'.cte.id → look.SeesLess look' := by
  induction h with
  | done => exact .nil
  | @round p p₁ p' looks looks' hround hrest ih =>
      rcases hround.between hids hscopes hinv with ⟨hfirst, hlooks⟩
      have hinv₁ := Run.invariant hids hscopes hfirst hinv
      have hlooks' := (hrest.between hids hscopes hinv₁).2
      refine List.pairwise_append.2 ⟨?_, ih hinv₁, ?_⟩
      · -- within a round no CTE is looked at twice
        have hapart := pairwise_staleCtes hinv.refersTo
        rw [← hround.2.map_cte, List.pairwise_map] at hapart
        exact hapart.imp fun hne heq => absurd heq hne
      · intro look hlook look' hlook' hid
        have hearlier := hlooks look hlook
        rcases hlooks' look' hlook' with ⟨hlater, hlt⟩
        have hsub : ∀ x ∈ look.names, x ∈ look'.names := by
          intro x hx
          exact hlater.sees (hid ▸ hearlier.kept hx)
        refine ⟨hsub, ?_⟩
        by_contra hno
        have hback : ∀ x ∈ look'.names, x ∈ look.names.toList := by
          intro x hx
          by_contra hnew
          exact hno ⟨x, hx, fun hmem => hnew (Std.TreeSet.mem_toList.2 hmem)⟩
        have hle := size_le_of_subset hback
        rw [Std.TreeSet.length_toList] at hle
        have hnoted := hearlier.noted
        rw [hid] at hnoted
        omega

/-- **A CTE is looked at no more often than its last set has names.** -/
theorem length_filter_le (i : NodeId) :
    (looks.filter fun look => look.cte.id == i).length ≤ p'.count i := by
  have hlooks := (h.between hids hscopes hinv).2
  have hpairs : ((looks.filter fun look => look.cte.id == i).map fun look =>
      look.names.size).Pairwise (· < ·) := by
    rw [List.pairwise_map]
    refine ((h.pairwise hids hscopes hinv).filter _).imp_of_mem ?_
    intro look look' hlook hlook' hless
    have hid := beq_iff_eq.1 (List.mem_filter.1 hlook).2
    have hid' := beq_iff_eq.1 (List.mem_filter.1 hlook').2
    exact (hless (hid.trans hid'.symm)).size_lt
  have hbound := length_le_of_pairwise_lt (Nat.zero_le (p'.count i)) hpairs ?_
  · rwa [List.length_map, Nat.zero_add] at hbound
  · intro k hk
    rcases List.mem_map.1 hk with ⟨look, hlook, rfl⟩
    rcases List.mem_filter.1 hlook with ⟨hmem, hid⟩
    rcases hlooks look hmem with ⟨hbetween, hlt⟩
    refine ⟨Nat.lt_of_le_of_lt (Nat.zero_le _) hlt, ?_⟩
    rw [count, ← Std.TreeSet.length_toList (t := p'.required.names i)]
    refine size_le_of_subset ?_
    intro x hx
    rw [Std.TreeSet.mem_toList, ← beq_iff_eq.1 hid]
    exact hbetween.kept hx

end Drains

/-- A number of rounds that ends with nothing left to look at is the whole loop. -/
theorem exists_drains {scopes : Scopes} {rounds : Rounds} {p p' : Propagation}
    (h : settle scopes rounds p = .ok p') (hdrained : p'.staleCtes = []) :
    ∃ looks, Drains scopes p looks p' := by
  induction rounds generalizing p with
  | «over» =>
      have hp : p = p' := Except.ok.inj h
      subst hp
      exact ⟨[], .done hdrained⟩
  | next rest ih =>
      rw [settle] at h
      split at h
      · have hp : p = p' := Except.ok.inj h
        subst hp
        exact ⟨[], .done hdrained⟩
      · rename_i hne
        rcases bind_eq_ok.1 h with ⟨p₁, hround, h⟩
        rcases exists_looks_iff.2 hround with ⟨looks, hlooks⟩
        rcases ih () h with ⟨looks', hrest⟩
        exact ⟨looks ++ looks', .round ⟨hne, hlooks⟩ hrest⟩

end Propagation

/-- **The propagation terminates**, also where CTEs read themselves or each other.  The columns of a
node are found by a descent that ends, and no bound on its steps is felt.  When the root has been
visited, there is no infinite series of rounds; the rounds end when no set has grown, and the
requirements are what they end with.  Every look at a CTE sees more than every earlier one, so there
are no more of them than names required of the CTE in the end, and in no round is anything required
but names of the plan. -/
theorem propagation_drains {plan : Node} (hids : plan.IdsIdentify)
    (hctes : ∀ c, .cte c ∈ plan.subnodes → c.body.isSelect = true) :
    (∀ scope : Scope, scope.OfPlan plan → ∀ n,
      Acc (fun m n => Node.SeesThrough scope n m) n ∧
      n.exposedColumns? scope = n.columnsThrough? scope (Node.exposedColumns? scope)) ∧
    ∃ found, Requirements.ofPlan plan plan = .ok found ∧ ∀ required, found = some required →
      ∃ p₁ looks p, plan.propagate (Scopes.ofPlan plan) (Propagation.start plan) = .ok p₁ ∧
        Acc (fun p' p => ∃ looks, Propagation.Round (Scopes.ofPlan plan) p looks p') p₁ ∧
        Propagation.Drains (Scopes.ofPlan plan) p₁ looks p ∧ p.required = required ∧
        (looks.Pairwise fun look look' => look.cte.id = look'.cte.id → look.SeesLess look') ∧
        (∀ i, (looks.filter fun look => look.cte.id == i).length ≤ (required.names i).size) ∧
        ∀ p', Relation.ReflTransGen
            (fun p p' => ∃ looks, Propagation.Round (Scopes.ofPlan plan) p looks p') p₁ p' →
          ∀ i, ∀ x ∈ p'.required.names i, x ∈ plan.planNames := by
  have hroot := Node.mem_subnodes_self plan
  have hscopes : (Scopes.ofPlan plan).OfPlan plan := Scopes.ofPlan_ofPlan
  refine ⟨?_, ?_⟩
  · intro scope hscope n
    exact ⟨Node.acc_seesThrough hscope hctes n,
      Node.exposedColumns?_eq_columnsThrough? hscope hctes n⟩
  rcases Requirements.exists_ofPlan hids hroot with ⟨found, hfound⟩
  refine ⟨found, hfound, ?_⟩
  rintro required rfl
  rcases Requirements.exists_propagation hfound with ⟨-, p, hp, rfl⟩
  have hdrained := (Propagation.finished_ofPlan hids hroot hp).drained
  rcases bind_eq_ok.1 hp with ⟨p₁, hp₁, hsettle⟩
  rcases Propagation.exists_drains hsettle hdrained with ⟨looks, hdrains⟩
  rcases Propagation.visit_start hids hroot hp₁ with ⟨-, hinv⟩
  refine ⟨p₁, looks, p, hp₁, Propagation.acc_round hids hscopes hinv, hdrains, rfl,
    hdrains.pairwise hids hscopes hinv, hdrains.length_filter_le hids hscopes hinv, ?_⟩
  intro p' hrounds
  have hinv' : Propagation.Invariant plan (Scopes.ofPlan plan) p' := by
    induction hrounds with
    | refl => exact hinv
    | tail _ hround ih =>
        rcases hround with ⟨looks, hround⟩
        exact Propagation.Run.invariant hids hscopes (hround.between hids hscopes ih).1 ih
  exact hinv'.namesOfPlan

/-- `WITH a AS (SELECT b.y AS x, b.x AS y FROM b b), b AS (SELECT a.x AS x, a.y AS y FROM a a)
SELECT a.x AS x FROM a a`. -/
def Select.crossedCtes : Statement :=
  { Select.plain 7 [⟨.column ⟨"a", "x"⟩ true, "x"⟩] (.table 6 ⟨none, "a"⟩) "a" with
    ctes := [⟨2, "a", .select (.plain 1 [⟨.column ⟨"b", "y"⟩ true, "x"⟩,
        ⟨.column ⟨"b", "x"⟩ true, "y"⟩] (.table 0 ⟨none, "b"⟩) "b")⟩,
      ⟨5, "b", .select (.plain 4 [⟨.column ⟨"a", "x"⟩ true, "x"⟩,
        ⟨.column ⟨"a", "y"⟩ true, "y"⟩] (.table 3 ⟨none, "a"⟩) "a")⟩] }

/-- Each of the two CTEs is looked at twice at most, since two names are required of it in the
end. -/
theorem propagation_drains_crossedCtes :
    ∃ required, Requirements.ofPlan (.select .crossedCtes) (.select .crossedCtes) =
        .ok (some required) ∧
      (required.names 2).toList = ["x", "y"] ∧ (required.names 5).toList = ["x", "y"] ∧
      ∃ p₁ looks p, Propagation.Drains (Scopes.ofPlan (.select .crossedCtes)) p₁ looks p ∧
        p.required = required ∧
        (looks.filter fun look => look.cte.id == 2).length ≤ 2 ∧
        (looks.filter fun look => look.cte.id == 5).length ≤ 2 := by
  have hids : (Node.select .crossedCtes).IdsIdentify := Node.idsIdentify_of_nodup (by decide)
  have hctes : ∀ c, .cte c ∈ (Node.select .crossedCtes).subnodes → c.body.isSelect = true := by
    intro c hc
    have hall : ((Node.select .crossedCtes).subnodes.all fun n =>
        n.cte?.all fun c => c.body.isSelect) = true := rfl
    exact List.all_eq_true.1 hall _ hc
  rcases propagation_drains hids hctes with ⟨-, found, hfound, hdrains⟩
  cases hfound
  rcases hdrains _ rfl with ⟨p₁, looks, p, -, -, hloop, hrequired, -, hlooks, -⟩
  exact ⟨_, rfl, rfl, rfl, p₁, looks, p, hloop, hrequired, hlooks 2, hlooks 5⟩

end QueryPlan
