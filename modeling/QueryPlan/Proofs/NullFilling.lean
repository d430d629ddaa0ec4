import QueryPlan.Proofs.Tuples

/-!
# Which sources a join can fill with nulls

`Select.NullFillable` says that there are rows and conditions under which some joined row has nulls
filled in for the source at a place.

* `nullFillable_iff_fills` — nothing is filled in but by the outer join of the source itself and by
  a later full outer join, and each of them does so: let every source have one row, and every
  condition hold except that of the join in question (`JoinInput.failingAt`).
* `row_mem_of_not_nullFillable` — at other places every joined row has a row of the source.
* `nullFillable_iff_or_fullAfter` — `Select.nullFilled` sees all sources that can be filled, apart
  from those that only a later full outer join fills.
-/

namespace QueryPlan

/-! ## Filling in nulls -/

namespace Tuple

variable {ρ : Type} {rows : List ρ} {holds : Tuple ρ → Bool} {kind : JoinKind} {width i : Nat}
  {ts : List (Tuple ρ)} {u : Tuple ρ}

/-- Every kind of join keeps the rows that match. -/
theorem pair_mem_join {row : ρ} (hu : u ∈ ts) (hrow : row ∈ rows)
    (hholds : holds (u ++ [some row]) = true) :
    u ++ [some row] ∈ join rows holds kind width ts := by
  have hmatched : u ++ [some row] ∈ matched rows holds u := mem_matched.2 ⟨row, hrow, rfl, hholds⟩
  have houter : u ++ [some row] ∈ matchedOrNull rows holds u := by
    rwa [matchedOrNull, if_neg (by simp [List.ne_nil_of_mem hmatched])]
  cases kind with
  | inner | cross => exact List.mem_flatMap.2 ⟨u, hu, hmatched⟩
  | leftOuter => exact List.mem_flatMap.2 ⟨u, hu, houter⟩
  | fullOuter => exact List.mem_append_left _ (List.mem_flatMap.2 ⟨u, hu, houter⟩)

theorem rightNull_mem_join (hkind : kind.isOuter = true) (hu : u ∈ ts)
    (hnone : ∀ t, holds t = false) : u ++ [none] ∈ join rows holds kind width ts := by
  have houter : u ++ [none] ∈ matchedOrNull rows holds u := by
    simp [matchedOrNull, matched, hnone]
  cases kind with
  | inner | cross => cases hkind
  | leftOuter => exact List.mem_flatMap.2 ⟨u, hu, houter⟩
  | fullOuter => exact List.mem_append_left _ (List.mem_flatMap.2 ⟨u, hu, houter⟩)

theorem leftNull_mem_join {row : ρ} (hrow : row ∈ rows) (hnone : ∀ t, holds t = false) :
    List.replicate width none ++ [some row] ∈ join rows holds .fullOuter width ts := by
  refine List.mem_append_right _ (List.mem_map.2 ⟨row, ?_, rfl⟩)
  simp [hrow, hnone]

/-- A join that fills in nulls does so if its condition never holds. -/
theorem exists_null_of_fills {row : ρ} (hu : u ∈ ts) (hwidth : u.length = width) (hrow : row ∈ rows)
    (hnone : ∀ t, holds t = false) (hfills : kind.Fills width i) :
    ∃ t ∈ join rows holds kind width ts, t[i]? = some none := by
  rcases hfills with ⟨rfl, hkind⟩ | ⟨hlt, rfl⟩
  · refine ⟨_, rightNull_mem_join hkind hu hnone, getElem?_concat_eq_some.2 (.inr ?_)⟩
    exact ⟨hwidth.symm, rfl⟩
  · refine ⟨_, leftNull_mem_join hrow hnone, getElem?_concat_eq_some.2 (.inl ?_)⟩
    simp [hlt]

end Tuple

namespace JoinInput

/-- One row for every source, and conditions that always hold, except for that of one join. -/
def failingAt (place : Nat) : JoinInput Unit where
  rows _ := [()]
  holds k _ := k != place

variable {failing : Nat}

theorem pair_mem_failingAt {kind : JoinKind} {place : Nat} {ts : List (Tuple Unit)} {u : Tuple Unit}
    (hu : u ∈ ts) (hplace : place ≠ failing) :
    u ++ [some ()] ∈
      Tuple.join ((failingAt failing).rows place) ((failingAt failing).holds place) kind place ts :=
  Tuple.pair_mem_join hu List.mem_cons_self (by simp [failingAt, hplace])

/-- The joins after the failing one keep the nulls that are there. -/
theorem exists_null_of_null {i : Nat} {kinds : List JoinKind} : ∀ {place : Nat}
    {ts : List (Tuple Unit)} {u : Tuple Unit}, failing < place → u ∈ ts → u[i]? = some none →
    ∃ t ∈ (failingAt failing).run place kinds ts, t[i]? = some none := by
  induction kinds with
  | nil => exact fun _ hu hnull => ⟨_, hu, hnull⟩
  | cons kind kinds ih =>
      intro place ts u hplace hu hnull
      exact ih (Nat.lt_succ_of_lt hplace) (pair_mem_failingAt hu (Nat.ne_of_gt hplace))
        (Tuple.getElem?_concat_eq_some.2 (.inl hnull))

/-- **A join that fills in nulls does so for some rows and conditions.** -/
theorem exists_null_of_fills {i : Nat} {kind : JoinKind} {kinds : List JoinKind} :
    ∀ {k place : Nat} {ts : List (Tuple Unit)} {u : Tuple Unit}, u ∈ ts → u.length = place →
    kinds[k]? = some kind → place + k = failing → kind.Fills failing i →
    ∃ t ∈ (failingAt failing).run place kinds ts, t[i]? = some none := by
  induction kinds with
  | nil =>
      intro _ _ _ _ _ _ hkind
      cases hkind
  | cons first kinds ih =>
      intro k place ts u hu hlength hkind hplace hfills
      cases k with
      | zero =>
          obtain rfl : place = failing := hplace
          cases hkind
          have hnone : ∀ t, (failingAt place).holds place t = false := by simp [failingAt]
          rcases Tuple.exists_null_of_fills hu hlength (List.mem_singleton_self ()) hnone hfills
            with ⟨t, ht, hnull⟩
          rw [run]
          exact exists_null_of_null (Nat.lt_succ_self place) ht hnull
      | succ k =>
          exact ih (pair_mem_failingAt hu (by omega)) (by simp [hlength]) hkind (by omega) hfills

end JoinInput

namespace Select

variable {σ : Type} {s : Select σ} {i : Nat}

/-- Some choice of rows and conditions gives a joined row with nulls for the source at a place. -/
def NullFillable (s : Select σ) (place : Nat) : Prop :=
  ∃ (ρ : Type) (c : JoinInput ρ), ∃ t ∈ s.tuples c, t[place]? = some none

/-- A source can be filled with nulls by its own join or by a later one, and by no other. -/
theorem nullFillable_iff_fills :
    s.NullFillable i ↔ ∃ k, ∃ kind : JoinKind, s.kinds[k]? = some kind ∧ kind.Fills k i := by
  constructor
  · rintro ⟨ρ, c, t, ht, hnull⟩
    rcases entry_of_mem_tuples ht hnull with ⟨-, hfills⟩ | ⟨row, -, hrow⟩
    · exact hfills
    · cases hrow
  · rintro ⟨k, kind, hkind, hfills⟩
    have hnull := JoinInput.exists_null_of_fills (List.mem_singleton_self []) rfl hkind
      (Nat.zero_add k) hfills
    exact ⟨Unit, .failingAt k, hnull⟩

/-- Where nulls cannot be filled in, every joined row has a row of the source. -/
theorem row_mem_of_not_nullFillable {V : Type} {I : Interpretation V} {A : Across V}
    {rowsOf : σ → List (Row V)} (hnames : s.sourceNames.Nodup) (hnull : ¬ s.NullFillable i)
    {name : String} {source : σ} (hsource : s.sources[i]? = some (name, source)) {env : Env V}
    (henv : env ∈ s.joinedRows I A rowsOf) : env name ∈ rowsOf source := by
  rw [joinedRows_eq_map_tuples] at henv
  rcases List.mem_map.1 henv with ⟨t, ht, rfl⟩
  rw [sources_eq_map_chain, List.getElem?_map] at hsource
  rcases Option.map_eq_some_iff.1 hsource with ⟨j, hj, heq⟩
  obtain ⟨rfl, rfl⟩ := Prod.mk.inj heq
  have hlength : t.length = s.sourceNames.length := by
    rw [length_of_mem_tuples ht, sourceNames_eq_map_chain, List.length_map]
  have hname : s.sourceNames[i]? = some j.sourceName := by
    rw [sourceNames_eq_map_chain, List.getElem?_map, hj]
    rfl
  have hlt : i < t.length := hlength ▸ (List.getElem?_eq_some_iff.1 hname).1
  have hentry := List.getElem?_eq_getElem hlt
  rw [Tuple.env_getElem? hlength hnames hname hentry]
  rcases entry_of_mem_tuples ht hentry with ⟨-, hfills⟩ | ⟨row, hmem, hrow⟩
  · exact absurd (nullFillable_iff_fills.2 hfills) hnull
  · rw [hrow]
    simpa [joinInput, hj] using hmem

/-! ## What is seen of it -/

/-- Whether there is a full outer join after the source at a place. -/
def fullAfter (s : Select σ) (place : Nat) : Bool :=
  (s.joins.drop place).any fun j => j.kind == .fullOuter

theorem kinds_succ (k : Nat) : s.kinds[k + 1]? = s.joins[k]?.map Join.kind :=
  List.getElem?_map

theorem fullAfter_eq_true_iff :
    s.fullAfter i = true ↔ ∃ k, i < k ∧ s.kinds[k]? = some .fullOuter := by
  simp only [fullAfter, List.any_eq_true, beq_iff_eq]
  constructor
  · rintro ⟨j, hj, hkind⟩
    rcases List.mem_iff_getElem?.1 hj with ⟨m, hm⟩
    rw [List.getElem?_drop] at hm
    exact ⟨i + m + 1, by omega, by rw [kinds_succ, hm, Option.map_some, hkind]⟩
  · rintro ⟨_ | k, hlt, hfull⟩
    · cases hlt
    · rw [kinds_succ] at hfull
      rcases Option.map_eq_some_iff.1 hfull with ⟨j, hj, hkind⟩
      refine ⟨j, List.mem_of_getElem? (i := k - i) ?_, hkind⟩
      rwa [List.getElem?_drop, Nat.add_sub_cancel' (by omega)]

/-- `nullFilled` looks at the join of the source itself; for that of `FROM`, which has none, it
looks at all joins. -/
theorem nullFilled_eq_true_iff :
    s.nullFilled i = true ↔ (∃ kind : JoinKind, s.kinds[i]? = some kind ∧ kind.isOuter = true) ∨
      i = 0 ∧ s.fullAfter i = true := by
  cases i with
  | zero => simp [nullFilled, fullAfter, kinds, chain, JoinKind.isOuter]
  | succ i =>
      rw [nullFilled, kinds_succ]
      cases s.joins[i]? with
      | none => simp
      | some j => cases hkind : j.kind <;> simp [hkind, JoinKind.isOuter]

/-- The sources that can be filled with nulls are those that `nullFilled` sees, and those before a
full outer join. -/
theorem nullFillable_iff :
    s.NullFillable i ↔ s.nullFilled i = true ∨ s.fullAfter i = true := by
  rw [nullFillable_iff_fills, nullFilled_eq_true_iff, fullAfter_eq_true_iff]
  constructor
  · rintro ⟨k, kind, hkind, ⟨rfl, houter⟩ | ⟨hlt, rfl⟩⟩
    · exact .inl (.inl ⟨kind, hkind, houter⟩)
    · exact .inr ⟨k, hlt, hkind⟩
  · rintro ((⟨kind, hkind, houter⟩ | ⟨-, k, hlt, hkind⟩) | ⟨k, hlt, hkind⟩)
    · exact ⟨i, kind, hkind, .inl ⟨rfl, houter⟩⟩
    · exact ⟨k, _, hkind, .inr ⟨hlt, rfl⟩⟩
    · exact ⟨k, _, hkind, .inr ⟨hlt, rfl⟩⟩

/-! ## Replaced sources -/

theorem Replaces.kinds_eq {s child merged : Statement} {place : Nat} {name : String}
    (h : s.Replaces place name child merged) : merged.kinds = s.kinds := by
  rw [h.merged, kinds, chain_setSource, chain_substitute]
  refine List.ext_getElem? fun k => ?_
  simp only [kinds, List.getElem?_map, List.getElem?_modify]
  cases s.chain[k]? with
  | none => split <;> rfl
  | some j => split <;> rfl

theorem nullFilled_of_kinds_eq {s t : Statement} (h : t.kinds = s.kinds) (place : Nat) :
    t.nullFilled place = s.nullFilled place := by
  rw [Bool.eq_iff_iff, nullFilled_eq_true_iff, nullFilled_eq_true_iff, fullAfter_eq_true_iff,
    fullAfter_eq_true_iff, h]

/-- A child that is replaced where nulls are seen to be filled in has column references only. -/
theorem columnRef?_of_replaceSources? {i : Nat} {name : String} {child merged : Statement}
    {places : List Nat} : ∀ {s : Statement}, replaceSources? places s = some merged →
    s.sources[i]? = some (name, .select child) → merged.sources[i]? ≠ s.sources[i]? →
    s.nullFilled i = true → ∀ c ∈ child.columns, ∃ r, c.expr.columnRef? = some r := by
  induction places with
  | nil =>
      intro s h
      cases h
  | cons place places ih =>
      intro s h hsource hchanged hfilled
      rcases replaceSources?_cons h with hskip | ⟨name', child', t, hstep, hrest⟩
      · exact ih hskip hsource hchanged hfilled
      · by_cases hi : i = place
        · subst hi
          rw [hstep.source_at] at hsource
          cases hsource
          exact hstep.null_filled hfilled
        · have hsame := hstep.sources_other hi
          rcases hrest with rfl | hrest
          · exact absurd hsame hchanged
          · exact ih hrest (hsame.trans hsource) (hsame.symm ▸ hchanged)
              (nullFilled_of_kinds_eq hstep.kinds_eq i ▸ hfilled)

end Select

/-- **`nullFilled` sees all but later full outer joins.**  The source at a place can be filled with
nulls, for some rows and conditions, if and only if `nullFilled` says so or there is a full outer
join after it.  So if the sources of a statement are replaced and the child at such a place is, its
columns are references, unless only a later full outer join fills it. -/
theorem nullFillable_iff_or_fullAfter (s : Statement) (place : Nat) :
    (s.NullFillable place ↔ s.nullFilled place = true ∨ s.fullAfter place = true) ∧
      ∀ merged name child, s.joinSources? = some merged →
        s.sources[place]? = some (name, .select child) →
        merged.sources[place]? ≠ s.sources[place]? → s.NullFillable place →
        (∀ c ∈ child.columns, ∃ r, c.expr.columnRef? = some r) ∨
          s.nullFilled place = false ∧ s.fullAfter place = true := by
  refine ⟨Select.nullFillable_iff, ?_⟩
  intro merged name child h hsource hchanged hfillable
  unfold Select.joinSources? at h
  split at h
  case isTrue =>
    cases hfilled : s.nullFilled place with
    | true => exact .inl (Select.columnRef?_of_replaceSources? h hsource hchanged hfilled)
    | false =>
        rw [Select.nullFillable_iff, hfilled] at hfillable
        exact .inr ⟨rfl, hfillable.resolve_left Bool.false_ne_true⟩
  case isFalse => cases h

/-- `SELECT b.x AS x, 'yes' AS flag FROM u b`. -/
def Select.flagged : Statement :=
  .plain 3 [⟨.column ⟨"b", "x"⟩ true, "x"⟩, ⟨.literal "yes", "flag"⟩] (.table 2 ⟨none, "u"⟩) "b"

/-- `SELECT l.x AS x, r.flag AS flag, w.x AS z
FROM t l INNER JOIN flagged r ON l.x = r.x FULL OUTER JOIN v w ON l.x = w.x`. -/
def Select.flaggedThenFull : Statement :=
  { Select.plain 5 [⟨.column ⟨"l", "x"⟩ true, "x"⟩, ⟨.column ⟨"r", "flag"⟩ true, "flag"⟩,
      ⟨.column ⟨"w", "x"⟩ true, "z"⟩] (.table 1 ⟨none, "t"⟩) "l" with
    joins := [
      ⟨.select .flagged, "r", .inner,
        some (.comparison (.column ⟨"l", "x"⟩ true) .eq (.column ⟨"r", "x"⟩ true))⟩,
      ⟨.table 4 ⟨none, "v"⟩, "w", .fullOuter,
        some (.comparison (.column ⟨"l", "x"⟩ true) .eq (.column ⟨"w", "x"⟩ true))⟩] }

/-- The tables `t` and `u` hold 1, and `v` holds 2. -/
def oneOneTwo : Node → List (Row Nat)
  | .table _ ⟨_, "v"⟩ => [[("x", 2)]]
  | _ => [[("x", 1)]]

/-- The row of `v` that nothing matches has no flag; once the flagged source is replaced, it has. -/
theorem nullFilling_missed_flaggedThenFull :
    Select.flaggedThenFull.NullFillable 1 ∧ Select.flaggedThenFull.nullFilled 1 = false ∧
      ∃ merged, Select.flaggedThenFull.joinSources? = some merged ∧
        merged.columns = [⟨.column ⟨"l", "x"⟩ true, "x"⟩, ⟨.literal "yes", "flag"⟩,
          ⟨.column ⟨"w", "x"⟩ true, "z"⟩] ∧
        ((∀ c ∈ Select.flagged.columns, ∃ r, c.expr.columnRef? = some r) ∨
          Select.flaggedThenFull.nullFilled 1 = false ∧ Select.flaggedThenFull.fullAfter 1 = true) ∧
        ¬ Select.SameValues .numbers .counts oneOneTwo .flaggedThenFull merged := by
  have hfillable : Select.flaggedThenFull.NullFillable 1 :=
    (nullFillable_iff_or_fullAfter _ 1).1.2 (.inr rfl)
  refine ⟨hfillable, rfl, _, rfl, rfl, ?_, ?_⟩
  · refine (nullFillable_iff_or_fullAfter _ 1).2 _ "r" .flagged rfl rfl ?_ hfillable
    intro hsame
    exact absurd (congrArg (Option.map Prod.fst) hsame) (by decide)
  · rintro ⟨-, hvalues⟩
    have hlast := congrArg Values.columns (hvalues 1 (by decide +kernel))
    exact absurd hlast (by decide +kernel)

end QueryPlan
