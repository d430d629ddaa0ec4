import Mathlib.Data.List.Sort

/-!
# Lists, sorted, cut and matched

The list operations behind `ORDER BY`, `DISTINCT` and `LIMIT`, and the laws by which they change
places.  A sort here is `List.insertionSort`, which is stable; an order is any total and transitive
relation, so different members may be equivalent in it.

* `filter_insertionSort` — filtering and sorting commute.
* `distinctBy` keeps the first of several members with one image.  `distinctBy_insertionSort` — it
  commutes with sorting when members with one image are equivalent in the order.
* `cut` keeps the first members, as many as a limit allows.

Two more sections are about the list around one of its places (`exists_split_of_getElem?`), and
about lists that correspond member by member (`List.Forall₂`): this is what a
partial function gives that is applied to every member (`forall₂_of_mapM_eq_some`).
-/

namespace QueryPlan

variable {α β γ : Type}

/-! ## Filtering a sorted list -/

section Sorting

variable {r : α → α → Prop} [DecidableRel r]

/-- A member that comes before all others is inserted in front. -/
theorem orderedInsert_of_forall_rel {a : α} {l : List α} (h : ∀ b ∈ l, r a b) :
    l.orderedInsert r a = a :: l := by
  cases l with
  | nil => rfl
  | cons b l => exact List.orderedInsert_cons_of_le r l (h b (by simp))

/-- Sorting by an order in which all members are equivalent changes nothing. -/
theorem insertionSort_of_forall (h : ∀ a b, r a b) (l : List α) : l.insertionSort r = l :=
  (List.pairwise_of_forall h).insertionSort_eq

theorem insertionSort_congr {s : α → α → Prop} [DecidableRel s] (h : ∀ a b, r a b ↔ s a b)
    (l : List α) : l.insertionSort r = l.insertionSort s := by
  simpa using List.map_insertionSort r s id l fun a _ b _ => h a b

variable [IsTrans α r]

/-- In a sorted list it does not matter whether a member is inserted before or after filtering. -/
theorem filter_orderedInsert (p : α → Bool) (a : α) :
    ∀ l : List α, l.Pairwise r →
      (l.orderedInsert r a).filter p =
        if p a then (l.filter p).orderedInsert r a else l.filter p
  | [], _ => by by_cases ha : p a <;> simp [ha]
  | b :: l, h => by
      have ih := filter_orderedInsert p a l h.tail
      by_cases hab : r a b
      · -- everything that is kept of `b :: l` comes after `a`
        have hall : ∀ c ∈ (b :: l).filter p, r a c := by
          intro c hc
          rcases List.mem_cons.1 (List.mem_of_mem_filter hc) with rfl | hc
          · exact hab
          · exact Trans.trans hab (List.rel_of_pairwise_cons h hc)
        rw [List.orderedInsert_cons_of_le r l hab, orderedInsert_of_forall_rel hall]
        by_cases ha : p a
        · rw [List.filter_cons_of_pos ha, if_pos ha]
        · rw [List.filter_cons_of_neg (by simpa using ha), if_neg ha]
      · rw [List.orderedInsert_of_not_le r l hab]
        by_cases hb : p b
        · rw [List.filter_cons_of_pos hb, List.filter_cons_of_pos hb, ih]
          by_cases ha : p a
          · rw [if_pos ha, if_pos ha, List.orderedInsert_of_not_le r _ hab]
          · rw [if_neg ha, if_neg ha]
        · rw [List.filter_cons_of_neg (by simpa using hb), ih,
            List.filter_cons_of_neg (by simpa using hb)]

/-- **Filtering and sorting commute.** -/
theorem filter_insertionSort [Std.Total r] (p : α → Bool) (l : List α) :
    (l.insertionSort r).filter p = (l.filter p).insertionSort r := by
  induction l with
  | nil => rfl
  | cons a l ih =>
      rw [List.insertionSort_cons, filter_orderedInsert p a _ (List.pairwise_insertionSort r l), ih]
      by_cases ha : p a
      · rw [if_pos ha, List.filter_cons_of_pos ha, List.insertionSort_cons]
      · rw [if_neg ha, List.filter_cons_of_neg (by simpa using ha)]

end Sorting

/-! ## The first of several members with one image -/

section Distinct

variable [DecidableEq β]

/-- Keeps the first of several members that have the same image. -/
def distinctBy (f : α → β) : List α → List α
  | [] => []
  | a :: l => a :: (distinctBy f l).filter fun b => f b ≠ f a

theorem mem_of_mem_distinctBy {f : α → β} {a : α} : ∀ {l : List α}, a ∈ distinctBy f l → a ∈ l
  | b :: l, h => by
      rcases List.mem_cons.1 h with rfl | h
      · exact List.mem_cons_self
      · exact List.mem_cons_of_mem _ (mem_of_mem_distinctBy (List.mem_of_mem_filter h))

theorem distinctBy_map (f : α → β) (g : γ → α) (l : List γ) :
    distinctBy f (l.map g) = (distinctBy (fun c => f (g c)) l).map g := by
  induction l with
  | nil => rfl
  | cons c l ih => simp only [List.map_cons, distinctBy, ih, List.filter_map, Function.comp_def]

/-- What is kept depends only on which members have the same image. -/
theorem distinctBy_congr [DecidableEq γ] {f : α → β} {g : α → γ} : ∀ {l : List α},
    (∀ a ∈ l, ∀ b ∈ l, f a = f b ↔ g a = g b) → distinctBy f l = distinctBy g l
  | [], _ => rfl
  | a :: l, h => by
      have hl := distinctBy_congr fun b hb c hc =>
        h b (List.mem_cons_of_mem _ hb) c (List.mem_cons_of_mem _ hc)
      rw [distinctBy, distinctBy, hl]
      refine congrArg (a :: ·) (List.filter_congr ?_)
      intro b hb
      have hb := List.mem_cons_of_mem a (mem_of_mem_distinctBy hb)
      rw [decide_eq_decide]
      exact not_congr (h b hb a List.mem_cons_self)

theorem pairwise_distinctBy {r : α → α → Prop} (f : α → β) :
    ∀ {l : List α}, l.Pairwise r → (distinctBy f l).Pairwise r
  | [], _ => List.Pairwise.nil
  | a :: l, h => by
      refine List.pairwise_cons.2 ⟨fun b hb => ?_, (pairwise_distinctBy f h.tail).filter _⟩
      exact List.rel_of_pairwise_cons h (mem_of_mem_distinctBy (List.mem_of_mem_filter hb))

variable {r : α → α → Prop} [DecidableRel r] [IsTrans α r]

/-- Inserting into a sorted list and then removing repetitions: the inserted member replaces all
others with its image, wherever they stood. -/
theorem distinctBy_orderedInsert {f : α → β} (hf : ∀ a b, f a = f b → r a b) (a : α) :
    ∀ l : List α, l.Pairwise r →
      distinctBy f (l.orderedInsert r a) =
        ((distinctBy f l).filter fun b => f b ≠ f a).orderedInsert r a
  | [], _ => by simp [distinctBy]
  | b :: l, h => by
      by_cases hab : r a b
      · have hall : ∀ c ∈ (distinctBy f (b :: l)).filter fun c => f c ≠ f a, r a c := by
          intro c hc
          rcases List.mem_cons.1 (mem_of_mem_distinctBy (List.mem_of_mem_filter hc)) with rfl | hc
          · exact hab
          · exact Trans.trans hab (List.rel_of_pairwise_cons h hc)
        rw [List.orderedInsert_cons_of_le r l hab, orderedInsert_of_forall_rel hall, distinctBy]
      · -- `b` stays in front, and it cannot have the image of `a`
        have hne : f b ≠ f a := fun e => hab (hf a b e.symm)
        have ih := distinctBy_orderedInsert hf a l h.tail
        have hsorted : ((distinctBy f l).filter fun c => f c ≠ f a).Pairwise r :=
          (pairwise_distinctBy f h.tail).filter _
        rw [List.orderedInsert_of_not_le r l hab, distinctBy, ih,
          filter_orderedInsert _ a _ hsorted, if_pos (by simpa using hne.symm), distinctBy,
          List.filter_cons_of_pos (by simpa using hne), List.orderedInsert_of_not_le r _ hab,
          List.filter_filter, List.filter_filter]
        simp only [Bool.and_comm]

/-- **Removing repetitions and sorting commute**, if members with one image are equivalent. -/
theorem distinctBy_insertionSort [Std.Total r] {f : α → β} (hf : ∀ a b, f a = f b → r a b)
    (l : List α) :
    distinctBy f (l.insertionSort r) = (distinctBy f l).insertionSort r := by
  induction l with
  | nil => rfl
  | cons a l ih =>
      rw [List.insertionSort_cons,
        distinctBy_orderedInsert hf a _ (List.pairwise_insertionSort r l), ih, distinctBy,
        List.insertionSort_cons, filter_insertionSort]

end Distinct

/-- A list in increasing order is known by its members. -/
theorem eq_of_pairwise_lt (key : α → Nat) {l l' : List α} (hl : l.Pairwise fun a b => key a < key b)
    (hl' : l'.Pairwise fun a b => key a < key b) (hmem : ∀ a, a ∈ l ↔ a ∈ l') : l = l' := by
  have hnodup : ∀ {l : List α}, l.Pairwise (fun a b => key a < key b) → l.Nodup := by
    intro l hl
    refine hl.imp ?_
    rintro a b hlt rfl
    exact Nat.lt_irrefl _ hlt
  have hperm : l.Perm l' := (List.perm_ext_iff_of_nodup (hnodup hl) (hnodup hl')).2 hmem
  refine hperm.eq_of_pairwise ?_ hl hl'
  intro a b _ _ hab hba
  exact absurd hba (Nat.lt_asymm hab)

/-! ## Cutting off -/

/-- The first members of a list, as many as a limit allows. -/
def cut : Option Nat → List α → List α
  | none, l => l
  | some n, l => l.take n

theorem map_cut (f : α → β) (limit : Option Nat) (l : List α) :
    (cut limit l).map f = cut limit (l.map f) := by
  cases limit with
  | none => rfl
  | some n => exact List.map_take

theorem mem_of_mem_cut {limit : Option Nat} {l : List α} {a : α} (h : a ∈ cut limit l) : a ∈ l := by
  cases limit with
  | none => exact h
  | some n => exact List.mem_of_mem_take h

/-! ## Around a place -/

/-- A list is what comes before a place, the member there, and what comes after. -/
theorem exists_split_of_getElem? {l : List α} {i : Nat} {a : α} (h : l[i]? = some a) :
    ∃ before after, l = before ++ a :: after ∧ before.length = i := by
  rcases List.getElem?_eq_some_iff.1 h with ⟨hi, rfl⟩
  refine ⟨l.take i, l.drop (i + 1), ?_, ?_⟩
  · rw [← List.drop_eq_getElem_cons hi, List.take_append_drop]
  · exact List.length_take_of_le (Nat.le_of_lt hi)

/-- Where a member of a list is when the list has been filtered. -/
theorem getElem?_filter_countP {p : α → Bool} {l : List α} {i : Nat} {a : α} (h : l[i]? = some a)
    (ha : p a = true) : (l.filter p)[(l.take i).countP p]? = some a := by
  obtain ⟨before, after, rfl, rfl⟩ := exists_split_of_getElem? h
  rw [List.take_left, List.countP_eq_length_filter, List.filter_append, List.filter_cons_of_pos ha,
    List.getElem?_append_right (Nat.le_refl _), Nat.sub_self, List.getElem?_cons_zero]

theorem exists_countP_of_getElem?_filter {p : α → Bool} {l : List α} {j : Nat} {a : α}
    (h : (l.filter p)[j]? = some a) :
    ∃ i, l[i]? = some a ∧ p a = true ∧ (l.take i).countP p = j := by
  induction l generalizing j with
  | nil => simp at h
  | cons b l ih =>
      by_cases hb : p b = true
      · rw [List.filter_cons_of_pos hb] at h
        cases j with
        | zero =>
            obtain rfl : b = a := by simpa using h
            exact ⟨0, rfl, hb, rfl⟩
        | succ j =>
            obtain ⟨i, hi, ha, rfl⟩ := ih (by simpa using h)
            exact ⟨i + 1, by simpa using hi, ha, by simp [hb]⟩
      · rw [List.filter_cons_of_neg hb] at h
        obtain ⟨i, hi, ha, rfl⟩ := ih h
        exact ⟨i + 1, by simpa using hi, ha, by simp [hb]⟩

theorem eraseIdx_split (before : List α) (a : α) (after : List α) :
    (before ++ a :: after).eraseIdx before.length = before ++ after := by
  rw [List.eraseIdx_append_of_length_le (Nat.le_refl _), Nat.sub_self]
  rfl

theorem modify_split (f : α → α) (before : List α) (a : α) (after : List α) :
    (before ++ a :: after).modify before.length f = before ++ f a :: after := by
  induction before with
  | nil => rfl
  | cons b before ih =>
      rw [List.cons_append, List.length_cons, List.modify_succ_cons, ih, List.cons_append]

/-- A change at one place cannot be seen where nothing that it changes is looked at. -/
theorem filterMap_modify {f : α → α} {g : α → Option β} (h : ∀ a, g (f a) = g a) (i : Nat)
    (l : List α) : (l.modify i f).filterMap g = l.filterMap g := by
  induction l generalizing i with
  | nil => rw [List.modify_nil]
  | cons a l ih =>
      cases i with
      | zero => rw [List.modify_zero_cons, List.filterMap_cons, List.filterMap_cons, h]
      | succ i => rw [List.modify_succ_cons, List.filterMap_cons, List.filterMap_cons, ih]

/-- A change at one place can be made before or after a map that respects it. -/
theorem map_modify {f : α → α} {g : β → β} {φ : α → β} (h : ∀ a, φ (f a) = g (φ a)) (i : Nat)
    (l : List α) : (l.modify i f).map φ = (l.map φ).modify i g := by
  induction l generalizing i with
  | nil => rw [List.modify_nil, List.map_nil, List.modify_nil]
  | cons a l ih =>
      cases i with
      | zero => rw [List.modify_zero_cons, List.map_cons, List.map_cons, List.modify_zero_cons, h]
      | succ i => rw [List.modify_succ_cons, List.map_cons, List.map_cons, List.modify_succ_cons, ih]

/-- If keys tell members apart, a change at one place is a change of the members with its key. -/
theorem modify_eq_map_of_nodup {κ : Type*} [DecidableEq κ] {key : α → κ} {l : List α}
    (hnodup : (l.map key).Nodup) {i : Nat} {a : α} (ha : l[i]? = some a) (f : α → α) :
    l.modify i f = l.map fun b => if key b = key a then f b else b := by
  rcases exists_split_of_getElem? ha with ⟨before, after, rfl, rfl⟩
  rw [List.map_append, List.map_cons, List.nodup_middle, List.nodup_cons, ← List.map_append]
    at hnodup
  -- the other members have other keys, so the map leaves them alone
  have hother : ∀ l : List α, l ⊆ before ++ after →
      l.map (fun b => if key b = key a then f b else b) = l := by
    intro l hl
    refine (List.map_congr_left ?_).trans (List.map_id l)
    intro b hb
    refine if_neg ?_
    intro heq
    exact hnodup.1 (heq ▸ List.mem_map_of_mem (hl hb))
  rw [modify_split, List.map_append, List.map_cons, if_pos rfl,
    hother before (List.subset_append_left _ _), hother after (List.subset_append_right _ _)]

/-! ## Matched lists -/

section Matching

variable {R : α → β → Prop}

theorem exists_right_of_forall₂ : ∀ {l : List α} {l' : List β}, List.Forall₂ R l l' →
    ∀ a ∈ l, ∃ b ∈ l', R a b
  | _, _, .nil, _, h => by simp at h
  | _, _, .cons hab hl, a, h => by
      rcases List.mem_cons.1 h with rfl | h
      · exact ⟨_, List.mem_cons_self, hab⟩
      · obtain ⟨b, hb, hR⟩ := exists_right_of_forall₂ hl a h
        exact ⟨b, List.mem_cons_of_mem _ hb, hR⟩

theorem exists_left_of_forall₂ {l : List α} {l' : List β} (h : List.Forall₂ R l l') :
    ∀ b ∈ l', ∃ a ∈ l, R a b :=
  exists_right_of_forall₂ h.flip

theorem exists_getElem?_of_forall₂ : ∀ {l : List α} {l' : List β}, List.Forall₂ R l l' →
    ∀ {i : Nat} {b : β}, l'[i]? = some b → ∃ a, l[i]? = some a ∧ R a b
  | _, _, .nil, _, _, h => by simp at h
  | _, _, .cons hab _, 0, _, h => ⟨_, rfl, Option.some.inj h ▸ hab⟩
  | _, _, .cons _ hrest, _ + 1, _, h => exists_getElem?_of_forall₂ hrest h

/-- If matched members have one value, so have the lists. -/
theorem map_eq_of_forall₂ {v : β → γ} {w : α → γ} : ∀ {l : List α} {l' : List β},
    List.Forall₂ R l l' → (∀ a ∈ l, ∀ b, R a b → v b = w a) → l'.map v = l.map w
  | _, _, .nil, _ => rfl
  | _, _, .cons hab hl, h => by
      rw [List.map_cons, List.map_cons, h _ List.mem_cons_self _ hab,
        map_eq_of_forall₂ hl fun a ha => h a (List.mem_cons_of_mem _ ha)]

/-- Members that are matched with one member are matched. -/
theorem forall₂_of_common {S : α → γ → Prop} {l : List α} {l₁ : List β} {l₂ : List γ}
    (h₁ : List.Forall₂ R l l₁) (h₂ : List.Forall₂ S l l₂) :
    List.Forall₂ (fun b c => ∃ a, R a b ∧ S a c) l₁ l₂ := by
  induction h₁ generalizing l₂ with
  | nil =>
      cases h₂
      exact .nil
  | cons hR _ ih =>
      cases h₂ with
      | cons hS hrest => exact .cons ⟨_, hR, hS⟩ (ih hrest)

theorem map_eq_of_map_eq {v : α → β} {w : α → γ} {l l' : List α}
    (hl : ∀ a ∈ l, ∀ b, v a = v b → w a = w b) (h : l.map v = l'.map v) : l.map w = l'.map w := by
  have hmatch : List.Forall₂ (fun a b => v a = v b) l l' := by
    rw [← List.forall₂_eq_eq_eq] at h
    rwa [List.forall₂_map_left_iff, List.forall₂_map_right_iff] at h
  exact (map_eq_of_forall₂ hmatch fun a ha b hab => (hl a ha b hab).symm).symm

theorem eq_of_map_eq {v : α → β} {l l' : List α} (hl : ∀ a ∈ l, ∀ b, v a = v b → a = b)
    (h : l.map v = l'.map v) : l = l' := by
  have hsame := map_eq_of_map_eq (w := id) hl h
  rwa [List.map_id, List.map_id] at hsame

theorem map_zipWith_of_forall₂ {δ : Type} {f : α → β → γ} {v : γ → δ} {w : α → δ} :
    ∀ {l : List α} {l' : List β}, List.Forall₂ R l l' → (∀ a b, R a b → v (f a b) = w a) →
      (List.zipWith f l l').map v = l.map w
  | _, _, .nil, _ => rfl
  | _, _, .cons hab hl, h => by
      rw [List.zipWith_cons_cons, List.map_cons, List.map_cons, h _ _ hab,
        map_zipWith_of_forall₂ hl h]

theorem map_zipWith_right_of_forall₂ {δ : Type} {f : α → β → γ} {v : γ → δ} {w : β → δ} {l : List α}
    {l' : List β} (hl : List.Forall₂ R l l') (h : ∀ a b, R a b → v (f a b) = w b) :
    (List.zipWith f l l').map v = l'.map w := by
  rw [List.zipWith_comm]
  exact map_zipWith_of_forall₂ hl.flip fun b a hab => h a b hab

/-- What is found under a key is matched by what is found under it in the other list. -/
theorem exists_lookup_of_forall₂ {κ : Type*} [BEq κ] {l : List (κ × α)} {l' : List (κ × β)}
    (h : List.Forall₂ (fun p p' => p'.1 = p.1 ∧ R p.2 p'.2) l l') {k : κ} {a : α}
    (hk : l.lookup k = some a) : ∃ b, l'.lookup k = some b ∧ R a b := by
  induction h with
  | nil => cases hk
  | @cons p p' l l' hmatch _ ih =>
      rcases hmatch with ⟨hkey, hvalue⟩
      rw [List.lookup_cons] at hk ⊢
      rw [hkey]
      cases hbeq : k == p.1 with
      | true =>
          rw [hbeq] at hk
          cases hk
          exact ⟨p'.2, rfl, hvalue⟩
      | false =>
          rw [hbeq] at hk
          exact ih hk

/-- Where keys are different, what stands under a key is found under it. -/
theorem lookup_eq_some_of_mem {κ : Type*} [BEq κ] [LawfulBEq κ] {l : List (κ × α)} {k : κ} {a : α}
    (hkeys : (l.map Prod.fst).Nodup) (h : (k, a) ∈ l) : l.lookup k = some a := by
  induction l with
  | nil => cases h
  | cons p l ih =>
      rw [List.map_cons, List.nodup_cons] at hkeys
      rw [List.lookup_cons]
      rcases List.mem_cons.1 h with rfl | hmem
      · rw [beq_self_eq_true]
      · have hne : k ≠ p.1 := fun heq => hkeys.1 (heq ▸ List.mem_map_of_mem hmem)
        rw [beq_false_of_ne hne]
        exact ih hkeys.2 hmem

theorem forall₂_of_mapM_eq_some {g : α → Option β} : ∀ {l : List α} {l' : List β},
    l.mapM g = some l' → List.Forall₂ (fun a b => g a = some b) l l'
  | [], l', h => by
      simp only [List.mapM_nil, Option.pure_def, Option.some.injEq] at h
      exact h ▸ .nil
  | a :: l, l', h => by
      rw [List.mapM_cons] at h
      obtain ⟨b, hb, h⟩ := Option.bind_eq_some_iff.1 h
      obtain ⟨bs, hbs, h⟩ := Option.bind_eq_some_iff.1 h
      simp only [Option.pure_def, Option.some.injEq] at h
      exact h ▸ .cons hb (forall₂_of_mapM_eq_some hbs)

theorem isSome_mapM_iff {g : α → Option β} : ∀ {l : List α},
    (l.mapM g).isSome = true ↔ ∀ a ∈ l, (g a).isSome = true
  | [] => by simp
  | a :: l => by
      rw [List.mapM_cons, List.forall_mem_cons, ← isSome_mapM_iff]
      cases g a with
      | none => simp
      | some b => cases l.mapM g <;> simp

end Matching

end QueryPlan
