import Mathlib.Data.List.Induction
import QueryPlan.Proofs.JoinedValues

/-!
# Joined rows as tuples

A joined row is written as a tuple that has, for every source from left to right, a row of the
source, or nothing where a join has filled in nulls.  Unlike in an environment, a row of nulls and
no row are different things here, and two sources may have one name.

* `Tuple.Arises` — what a join can put out, case by case; `Arises.entry_cases` says where an entry
  of a tuple comes from.
* `JoinInput.run` joins one source after the other, for any rows of the sources and any conditions;
  `JoinInput.entry_of_mem_run` says where the entries of its tuples come from.
* `joinedRows_eq_map_tuples` — with the rows and conditions of a statement, the tuples are its
  joined rows.
-/

namespace QueryPlan

/-! ## Joining tuples -/

/-- A joined row: a row of every source from left to right, or nothing where nulls are filled in. -/
abbrev Tuple (ρ : Type) := List (Option ρ)

def JoinKind.isOuter : JoinKind → Bool
  | .leftOuter | .fullOuter => true
  | .inner | .cross => false

namespace Tuple

section Join

variable {ρ : Type} (rows : List ρ) (holds : Tuple ρ → Bool)

/-- A tuple with each row that matches it. -/
def matched (t : Tuple ρ) : List (Tuple ρ) :=
  (rows.map fun row => t ++ [some row]).filter holds

/-- A tuple with each row that matches it, or with nothing if none does. -/
def matchedOrNull (t : Tuple ρ) : List (Tuple ρ) :=
  if (matched rows holds t).isEmpty then [t ++ [none]] else matched rows holds t

/-- The rows that match no tuple, each with nothing for the sources before it. -/
def unmatched (width : Nat) (ts : List (Tuple ρ)) : List (Tuple ρ) :=
  (rows.filter fun row => !ts.any fun t => holds (t ++ [some row])).map fun row =>
    List.replicate width none ++ [some row]

/-- The rows of a further source joined to tuples for the sources before it. -/
def join (kind : JoinKind) (width : Nat) (ts : List (Tuple ρ)) : List (Tuple ρ) :=
  match kind with
  | .inner | .cross => ts.flatMap (matched rows holds)
  | .leftOuter => ts.flatMap (matchedOrNull rows holds)
  | .fullOuter => ts.flatMap (matchedOrNull rows holds) ++ unmatched rows holds width ts

end Join

variable {ρ : Type} {rows : List ρ} {holds : Tuple ρ → Bool} {kind : JoinKind} {width : Nat}
  {ts : List (Tuple ρ)} {t u : Tuple ρ}

/-- What a join can put out. -/
inductive Arises (rows : List ρ) (kind : JoinKind) (width : Nat) (ts : List (Tuple ρ)) :
    Tuple ρ → Prop
  | pair {u : Tuple ρ} {row : ρ} : u ∈ ts → row ∈ rows →
      Arises rows kind width ts (u ++ [some row])
  | rightNull {u : Tuple ρ} : kind.isOuter = true → u ∈ ts →
      Arises rows kind width ts (u ++ [none])
  | leftNull {row : ρ} : kind = .fullOuter → row ∈ rows →
      Arises rows kind width ts (List.replicate width none ++ [some row])

theorem mem_matched :
    t ∈ matched rows holds u ↔ ∃ row ∈ rows, t = u ++ [some row] ∧ holds t = true := by
  simp only [matched, List.mem_filter, List.mem_map]
  constructor
  · rintro ⟨⟨row, hrow, rfl⟩, hholds⟩
    exact ⟨row, hrow, rfl, hholds⟩
  · rintro ⟨row, hrow, rfl, hholds⟩
    exact ⟨⟨row, hrow, rfl⟩, hholds⟩

theorem mem_matchedOrNull (h : t ∈ matchedOrNull rows holds u) :
    t ∈ matched rows holds u ∨ t = u ++ [none] := by
  unfold matchedOrNull at h
  split at h
  · exact .inr (List.mem_singleton.1 h)
  · exact .inl h

theorem arises_of_mem_matched (hu : u ∈ ts) (h : t ∈ matched rows holds u) :
    Arises rows kind width ts t := by
  rcases mem_matched.1 h with ⟨row, hrow, rfl, -⟩
  exact .pair hu hrow

theorem arises_of_mem_matchedOrNull (hkind : kind.isOuter = true) (hu : u ∈ ts)
    (h : t ∈ matchedOrNull rows holds u) : Arises rows kind width ts t := by
  rcases mem_matchedOrNull h with hmatched | rfl
  · exact arises_of_mem_matched hu hmatched
  · exact .rightNull hkind hu

/-- **A join puts out nothing else.** -/
theorem arises_of_mem_join (h : t ∈ join rows holds kind width ts) :
    Arises rows kind width ts t := by
  cases kind with
  | inner | cross =>
      rcases List.mem_flatMap.1 h with ⟨u, hu, hmatched⟩
      exact arises_of_mem_matched hu hmatched
  | leftOuter =>
      rcases List.mem_flatMap.1 h with ⟨u, hu, hmatched⟩
      exact arises_of_mem_matchedOrNull rfl hu hmatched
  | fullOuter =>
      rcases List.mem_append.1 h with hleft | hright
      · rcases List.mem_flatMap.1 hleft with ⟨u, hu, hmatched⟩
        exact arises_of_mem_matchedOrNull rfl hu hmatched
      · rcases List.mem_map.1 hright with ⟨row, hrow, rfl⟩
        exact .leftNull rfl (List.mem_of_mem_filter hrow)

/-! ## Where an entry comes from -/

theorem getElem?_concat_eq_some {α : Type} {l : List α} {x y : α} {i : Nat} :
    (l ++ [x])[i]? = some y ↔ l[i]? = some y ∨ i = l.length ∧ x = y := by
  grind

end Tuple

/-- A join at a place fills in nulls at another place: an outer join at its own, a full outer join
at those before it. -/
def JoinKind.Fills (kind : JoinKind) (place i : Nat) : Prop :=
  i = place ∧ kind.isOuter = true ∨ i < place ∧ kind = .fullOuter

namespace Tuple.Arises

variable {ρ : Type} {rows : List ρ} {kind : JoinKind} {width : Nat} {ts : List (Tuple ρ)}
  {t : Tuple ρ} (h : Arises rows kind width ts t) (hwidth : ∀ u ∈ ts, u.length = width)

include h hwidth

theorem length_eq : t.length = width + 1 := by
  cases h with
  | pair hu | rightNull _ hu => simp [hwidth _ hu]
  | leftNull => simp

/-- An entry was there before, or the join fills it in, or it is a row of the source. -/
theorem entry_cases {i : Nat} {y : Option ρ} (hy : t[i]? = some y) :
    (∃ u ∈ ts, u[i]? = some y) ∨ y = none ∧ kind.Fills width i ∨
      ∃ row ∈ rows, y = some row ∧ i = width := by
  cases h with
  | pair hu hrow =>
      rcases getElem?_concat_eq_some.1 hy with hbefore | ⟨hi, rfl⟩
      · exact .inl ⟨_, hu, hbefore⟩
      · exact .inr (.inr ⟨_, hrow, rfl, hi.trans (hwidth _ hu)⟩)
  | rightNull hkind hu =>
      rcases getElem?_concat_eq_some.1 hy with hbefore | ⟨hi, rfl⟩
      · exact .inl ⟨_, hu, hbefore⟩
      · exact .inr (.inl ⟨rfl, .inl ⟨hi.trans (hwidth _ hu), hkind⟩⟩)
  | leftNull hkind hrow =>
      rcases getElem?_concat_eq_some.1 hy with hbefore | ⟨hi, rfl⟩
      · rw [List.getElem?_replicate] at hbefore
        split at hbefore
        case isTrue hlt =>
          cases hbefore
          exact .inr (.inl ⟨rfl, .inr ⟨hlt, hkind⟩⟩)
        case isFalse => cases hbefore
      · exact .inr (.inr ⟨_, hrow, rfl, by simpa using hi⟩)

end Tuple.Arises

/-! ## A series of joins -/

/-- What is chosen for every place: the rows of the source, and the tuples for which the condition
of its join holds. -/
structure JoinInput (ρ : Type) where
  rows : Nat → List ρ
  holds : Nat → Tuple ρ → Bool

namespace JoinInput

/-- Joins sources from a place on, from left to right, to tuples for those before it. -/
def run {ρ : Type} (c : JoinInput ρ) : Nat → List JoinKind → List (Tuple ρ) → List (Tuple ρ)
  | _, [], ts => ts
  | place, kind :: kinds, ts =>
      c.run (place + 1) kinds (Tuple.join (c.rows place) (c.holds place) kind place ts)

section Run

variable {ρ : Type} {c : JoinInput ρ} {t : Tuple ρ}

theorem length_of_mem_join {kind : JoinKind} {place : Nat} {ts : List (Tuple ρ)}
    (hts : ∀ u ∈ ts, u.length = place) :
    ∀ u ∈ Tuple.join (c.rows place) (c.holds place) kind place ts, u.length = place + 1 :=
  fun _ hu => (Tuple.arises_of_mem_join hu).length_eq hts

theorem length_of_mem_run {kinds : List JoinKind} : ∀ {place : Nat} {ts : List (Tuple ρ)},
    (∀ u ∈ ts, u.length = place) → t ∈ c.run place kinds ts → t.length = place + kinds.length := by
  induction kinds with
  | nil => exact fun hts ht => hts t ht
  | cons kind kinds ih =>
      intro place ts hts ht
      rw [ih (length_of_mem_join hts) ht, List.length_cons]
      omega

/-- **Where the entries of joined rows come from.**  An entry was there before, or some join fills
it in, or it is a row of the source at its place. -/
theorem entry_of_mem_run {i : Nat} {y : Option ρ} {kinds : List JoinKind} :
    ∀ {place : Nat} {ts : List (Tuple ρ)}, (∀ u ∈ ts, u.length = place) →
    t ∈ c.run place kinds ts → t[i]? = some y →
    (∃ u ∈ ts, u[i]? = some y) ∨
      (y = none ∧ ∃ k, ∃ kind : JoinKind, kinds[k]? = some kind ∧ kind.Fills (place + k) i) ∨
      ∃ row ∈ c.rows i, y = some row := by
  induction kinds with
  | nil => exact fun _ ht hy => .inl ⟨t, ht, hy⟩
  | cons kind kinds ih =>
      intro place ts hts ht hy
      rcases ih (length_of_mem_join hts) ht hy with
        ⟨u, hu, hbefore⟩ | ⟨hnull, k, kind', hkind, hfills⟩ | hrow
      · rcases (Tuple.arises_of_mem_join hu).entry_cases hts hbefore with
          hbefore | ⟨hnull, hfills⟩ | ⟨row, hrow, hy, rfl⟩
        · exact .inl hbefore
        · exact .inr (.inl ⟨hnull, 0, kind, rfl, hfills⟩)
        · exact .inr (.inr ⟨row, hrow, hy⟩)
      · rw [Nat.add_assoc, Nat.add_comm 1] at hfills
        exact .inr (.inl ⟨hnull, k + 1, kind', hkind, hfills⟩)
      · exact .inr (.inr hrow)

end Run

end JoinInput

namespace Select

variable {σ : Type} (s : Select σ)

/-- The kinds of the joins of a statement, with that of `FROM`, which is joined to nothing. -/
def kinds : List JoinKind :=
  s.chain.map Join.kind

/-- The joined rows of a statement for a choice of rows and conditions. -/
def tuples {ρ : Type} (c : JoinInput ρ) : List (Tuple ρ) :=
  c.run 0 s.kinds [[]]

variable {s}

theorem length_of_mem_tuples {ρ : Type} {c : JoinInput ρ} {t : Tuple ρ} (ht : t ∈ s.tuples c) :
    t.length = s.chain.length := by
  rw [c.length_of_mem_run (by simp) ht, kinds, List.length_map, Nat.zero_add]

/-- In the tuples of a statement, a join fills in nulls or there is a row of the source. -/
theorem entry_of_mem_tuples {ρ : Type} {c : JoinInput ρ} {t : Tuple ρ} (ht : t ∈ s.tuples c)
    {i : Nat} {y : Option ρ} (hy : t[i]? = some y) :
    (y = none ∧ ∃ k, ∃ kind : JoinKind, s.kinds[k]? = some kind ∧ kind.Fills k i) ∨
      ∃ row ∈ c.rows i, y = some row := by
  rcases c.entry_of_mem_run (by simp) ht hy with
    ⟨u, hu, hbefore⟩ | ⟨hnull, k, kind, hkind, hfills⟩ | hrow
  · rw [List.mem_singleton.1 hu] at hbefore
    cases hbefore
  · rw [Nat.zero_add] at hfills
    exact .inl ⟨hnull, k, kind, hkind, hfills⟩
  · exact .inr hrow

end Select

/-! ## The tuples are the joined rows -/

namespace Tuple

variable {V : Type}

/-- The environment of a tuple, in which each source is read under its name. -/
def env (names : List String) (t : Tuple (Row V)) : Env V :=
  (names.zip t).foldl (fun env p => env.bind p.1 (p.2.getD [])) fun _ => []

theorem env_concat {names : List String} {t : Tuple (Row V)} (h : t.length = names.length)
    (name : String) (x : Option (Row V)) :
    env (names ++ [name]) (t ++ [x]) = (env names t).bind name (x.getD []) := by
  rw [env, env, List.zip_append h.symm, List.foldl_append]
  rfl

/-- Where there are only nulls, there is nothing to read. -/
theorem env_replicate (names : List String) :
    env names (List.replicate names.length (none : Option (Row V))) = fun _ => [] := by
  induction names using List.reverseRecOn with
  | nil => rfl
  | append_singleton names name ih =>
      rw [List.length_append, List.length_singleton, List.replicate_succ', env_concat (by simp), ih]
      funext n
      simp [Env.bind]

/-- A source is read as the tuple has it. -/
theorem env_getElem? {names : List String} : ∀ {t : Tuple (Row V)}, t.length = names.length →
    names.Nodup → ∀ {i : Nat} {name : String} {x : Option (Row V)}, names[i]? = some name →
    t[i]? = some x → env names t name = x.getD [] := by
  induction names using List.reverseRecOn with
  | nil =>
      intro _ _ _ _ _ _ hname
      cases hname
  | append_singleton names last ih =>
      intro t hlength hnodup i name x hname hx
      rcases List.eq_nil_or_concat' t with rfl | ⟨t, y, rfl⟩
      · cases hx
      · replace hlength : t.length = names.length := by simpa using hlength
        rw [List.nodup_append] at hnodup
        rw [env_concat hlength]
        rcases getElem?_concat_eq_some.1 hname with hbefore | ⟨rfl, rfl⟩
        · have hne : name ≠ last :=
            hnodup.2.2 name (List.mem_of_getElem? hbefore) last (List.mem_singleton_self last)
          rcases List.getElem?_eq_some_iff.1 hbefore with ⟨hlt, -⟩
          rw [Env.bind_of_ne _ _ hne]
          refine ih hlength hnodup.1 hbefore ?_
          exact (getElem?_concat_eq_some.1 hx).resolve_right (by omega)
        · rw [Env.bind_self]
          rcases getElem?_concat_eq_some.1 hx with hbefore | ⟨-, rfl⟩
          · rcases List.getElem?_eq_some_iff.1 hbefore with ⟨hlt, -⟩
            omega
          · rfl

end Tuple

namespace Join

variable {σ V : Type} {I : Interpretation V} {A : Across V} {j : Join σ} {names : List String}
  {rows : List (Row V)}

/-- The tuples, with the names of their sources, for which the condition of a join holds. -/
def holdsFor (I : Interpretation V) (A : Across V) (j : Join σ) (names : List String)
    (t : Tuple (Row V)) : Bool :=
  j.accepts I A (t.env names)

theorem pairs_env {t : Tuple (Row V)} (h : t.length = names.length) :
    j.pairs I A rows (t.env names) =
      (Tuple.matched rows (j.holdsFor I A (names ++ [j.sourceName])) t).map
        (Tuple.env (names ++ [j.sourceName])) := by
  have hbind : (t.env names).bind j.sourceName =
      fun row => Tuple.env (names ++ [j.sourceName]) (t ++ [some row]) :=
    funext fun row => (Tuple.env_concat h j.sourceName (some row)).symm
  rw [pairs, Tuple.matched, hbind, List.filter_map, List.filter_map, List.map_map]
  rfl

theorem pairsOrNull_env {t : Tuple (Row V)} (h : t.length = names.length) :
    j.pairsOrNull I A rows (t.env names) =
      (Tuple.matchedOrNull rows (j.holdsFor I A (names ++ [j.sourceName])) t).map
        (Tuple.env (names ++ [j.sourceName])) := by
  rw [pairsOrNull, Tuple.matchedOrNull, pairs_env h, List.isEmpty_map]
  split
  · rw [List.map_singleton, Tuple.env_concat h]
    rfl
  · rfl

variable {ts : List (Tuple (Row V))}

theorem unmatched_env (hts : ∀ t ∈ ts, t.length = names.length) :
    j.unmatched I A rows (ts.map (Tuple.env names)) =
      (Tuple.unmatched rows (j.holdsFor I A (names ++ [j.sourceName])) names.length ts).map
        (Tuple.env (names ++ [j.sourceName])) := by
  have hmatches : ∀ row, (ts.map (Tuple.env names)).any
      (fun env => j.accepts I A (env.bind j.sourceName row)) =
        ts.any fun t => j.holdsFor I A (names ++ [j.sourceName]) (t ++ [some row]) := by
    intro row
    rw [Bool.eq_iff_iff, List.any_map, List.any_eq_true, List.any_eq_true]
    refine exists_congr fun t => and_congr_right fun ht => ?_
    rw [holdsFor, Tuple.env_concat (hts t ht)]
    rfl
  have hunder : ∀ row : Row V, row.under j.sourceName = Tuple.env (names ++ [j.sourceName])
      (List.replicate names.length none ++ [some row]) := by
    intro row
    rw [Tuple.env_concat (by simp), Tuple.env_replicate]
    rfl
  simp only [unmatched, Tuple.unmatched, hmatches, List.map_map]
  exact List.map_congr_left fun row _ => hunder row

/-- Joining rows to environments of tuples gives the environments of the joined tuples. -/
theorem extend_env (hts : ∀ t ∈ ts, t.length = names.length) :
    j.extend I A rows (ts.map (Tuple.env names)) =
      (Tuple.join rows (j.holdsFor I A (names ++ [j.sourceName])) j.kind names.length ts).map
        (Tuple.env (names ++ [j.sourceName])) := by
  unfold extend Tuple.join
  cases j.kind with
  | inner | cross =>
      simp only [List.flatMap_map, List.map_flatMap]
      exact List.flatMap_congr fun t ht => pairs_env (hts t ht)
  | leftOuter =>
      simp only [List.flatMap_map, List.map_flatMap]
      exact List.flatMap_congr fun t ht => pairsOrNull_env (hts t ht)
  | fullOuter =>
      simp only [List.flatMap_map, List.map_flatMap, List.map_append, unmatched_env hts]
      rw [List.flatMap_congr fun t ht => pairsOrNull_env (hts t ht)]

end Join

namespace Select

variable {σ V : Type} (I : Interpretation V) (A : Across V) (rowsOf : σ → List (Row V))
  {s : Select σ}

/-- The rows of the sources of a statement and its own conditions. -/
def joinInput (s : Select σ) : JoinInput (Row V) where
  rows place := (s.chain[place]?.map fun j => rowsOf j.source).getD []
  holds place t := s.chain[place]?.any fun j => j.holdsFor I A (s.sourceNames.take (place + 1)) t

/-- Joining the sources of a statement from a place on. -/
theorem foldl_extend_env {js : List (Join σ)} :
    ∀ {before : List (Join σ)} {ts : List (Tuple (Row V))}, s.chain = before ++ js →
    (∀ t ∈ ts, t.length = before.length) →
    js.foldl (fun envs j => j.extend I A (rowsOf j.source) envs)
        (ts.map (Tuple.env (before.map Join.sourceName))) =
      ((s.joinInput I A rowsOf).run before.length (js.map Join.kind) ts).map
        (Tuple.env s.sourceNames) := by
  induction js with
  | nil =>
      intro before ts hchain _
      rw [sourceNames_eq_map_chain, hchain, List.append_nil]
      rfl
  | cons j js ih =>
      intro before ts hchain hts
      have hnames : s.sourceNames.take (before.length + 1) =
          before.map Join.sourceName ++ [j.sourceName] := by
        rw [sourceNames_eq_map_chain, hchain, List.map_append, List.map_cons, List.append_cons]
        exact List.take_left' (by simp)
      have hrows : (s.joinInput I A rowsOf).rows before.length = rowsOf j.source := by
        simp [joinInput, hchain]
      have hholds : (s.joinInput I A rowsOf).holds before.length =
          j.holdsFor I A (before.map Join.sourceName ++ [j.sourceName]) := by
        funext t
        simp only [joinInput, hnames]
        simp [hchain]
      have hlength : ∀ u ∈ Tuple.join ((s.joinInput I A rowsOf).rows before.length)
          ((s.joinInput I A rowsOf).holds before.length) j.kind before.length ts,
          u.length = (before ++ [j]).length := by
        rw [List.length_append]
        exact JoinInput.length_of_mem_join hts
      have hrest := ih (hchain.trans (List.append_cons before j js)) hlength
      rw [List.map_append, List.length_append] at hrest
      rw [List.foldl_cons, Join.extend_env (by simpa using hts), List.map_cons, JoinInput.run,
        List.length_map, ← hrows, ← hholds]
      exact hrest

/-- **The tuples are the joined rows.** -/
theorem joinedRows_eq_map_tuples :
    s.joinedRows I A rowsOf =
      (s.tuples (s.joinInput I A rowsOf)).map (Tuple.env s.sourceNames) := by
  have hstart : ∀ t ∈ [([] : Tuple (Row V))], t.length = ([] : List (Join σ)).length := by simp
  rw [joinedRows_eq_foldl]
  exact foldl_extend_env I A rowsOf (List.nil_append _).symm hstart

end Select

end QueryPlan
