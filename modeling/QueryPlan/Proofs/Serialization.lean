import QueryPlan.Digest
import QueryPlan.Proofs.Erasure
import QueryPlan.Proofs.JsonText
import QueryPlan.Proofs.Substitution

/-!
# The serialised form of a plan

Two plans have one serialised form exactly if they are equal up to the identities of their nodes
(`serialize_identifies`).  The text of a JSON value determines the value, so it remains to show that
the JSON form of an expression determines the expression (`Expr.toJson_injective`) and that the JSON
form of a node determines the node up to identities (`Node.eraseIds_eq_of_toJson_eq`).

An absent part is written as `null`, which is the form of nothing else: even the expression `Null` is a
string (`Json.ofOption_injective`).
-/

namespace QueryPlan

/-! ## Names of forms -/

@[simp] theorem Comparison.tag_inj {a b : Comparison} : a.tag = b.tag ↔ a = b := by
  cases a <;> cases b <;> decide

@[simp] theorem Connective.tag_inj {a b : Connective} : a.tag = b.tag ↔ a = b := by
  cases a <;> cases b <;> decide

@[simp] theorem ArithmeticOp.tag_inj {a b : ArithmeticOp} : a.tag = b.tag ↔ a = b := by
  cases a <;> cases b <;> decide

@[simp] theorem AggregateFunction.tag_inj {a b : AggregateFunction} : a.tag = b.tag ↔ a = b := by
  cases a <;> cases b <;> decide

@[simp] theorem WindowFunction.tag_inj {a b : WindowFunction} : a.tag = b.tag ↔ a = b := by
  cases a <;> cases b <;> decide

@[simp] theorem Grain.tag_inj {a b : Grain} : a.tag = b.tag ↔ a = b := by
  cases a <;> cases b <;> decide

@[simp] theorem JoinKind.tag_inj {a b : JoinKind} : a.tag = b.tag ↔ a = b := by
  cases a <;> cases b <;> decide

/-! ## Parts -/

@[simp] theorem Json.tagged_inj {form form' : String} {j j' : Json} :
    Json.tagged form j = Json.tagged form' j' ↔ form = form' ∧ j = j' := by
  simp [tagged]

@[simp] theorem Json.tagged_ne_str {form s : String} {j : Json} : Json.tagged form j ≠ .str s := by
  simp [tagged]

@[simp] theorem Json.str_ne_tagged {form s : String} {j : Json} : .str s ≠ Json.tagged form j :=
  Json.tagged_ne_str.symm

/-- Absence can be told from presence. -/
theorem Json.ofOption_injective {α : Type} {f : α → Json} (hnull : ∀ a, f a ≠ .null)
    (hf : Function.Injective f) : Function.Injective (Json.ofOption f) := by
  intro a b h
  cases a with
  | none =>
      cases b with
      | none => rfl
      | some b => exact absurd h.symm (hnull b)
  | some a =>
      cases b with
      | none => exact absurd h (hnull a)
      | some b => rw [hf h]

theorem Json.str_injective : Function.Injective Json.str :=
  fun _ _ h => Json.str.inj h

theorem Json.ofStrings_injective : Function.Injective Json.ofStrings :=
  fun _ _ h => List.map_injective_iff.2 Json.str_injective (Json.arr.inj h)

theorem ColumnRef.toJson_injective : Function.Injective ColumnRef.toJson := by
  rintro ⟨table, column⟩ ⟨table', column'⟩ h
  simpa [toJson] using h

/-! ## Expressions -/

namespace Expr

theorem toJson_ne_null (e : Expr) : e.toJson ≠ .null := by
  cases e <;> simp [toJson, Json.tagged]

theorem eq_of_sortKeyJson {k k' : SortKey Expr}
    (hexpr : k.expr.toJson = k'.expr.toJson → k.expr = k'.expr)
    (h : sortKeyJson k.expr.toJson k.descending = sortKeyJson k'.expr.toJson k'.descending) :
    k = k' := by
  simp only [sortKeyJson, Json.obj.injEq, List.cons.injEq, Prod.mk.injEq, Json.bool.injEq, true_and,
    and_true] at h
  obtain ⟨expr, descending⟩ := k
  obtain ⟨expr', descending'⟩ := k'
  exact congrArg₂ SortKey.mk (hexpr h.1) h.2

/-- **Expressions can be told from their JSON forms.** -/
theorem toJson_injective : Function.Injective toJson := by
  intro e
  induction e using induct_children with
  | step e ih =>
      have hlist : ∀ {as as' : List Expr}, as ⊆ e.children → as.map toJson = as'.map toJson →
          as = as' := fun hsub hsame => eq_of_map_eq (fun a ha _ hab => ih a (hsub ha) hab) hsame
      intro e' h
      -- the names of the forms leave one constructor for the other expression
      cases e with
      | column r q =>
          cases e' <;> simp [toJson] at h
          rw [ColumnRef.toJson_injective h.1, h.2]
      | name | literal =>
          cases e' <;> simp [toJson] at h
          rw [h]
      | null =>
          cases e' <;> simp [toJson] at h
          rfl
      | raw sql inputs grouped =>
          cases e' <;> simp [toJson] at h
          have hinputs := Json.ofOption_injective (by simp [Json.ofStrings]) Json.ofStrings_injective
            h.2.1
          rw [h.1, hinputs, h.2.2]
      | comparison l op r | arithmetic l op r =>
          cases e' <;> simp [toJson] at h
          obtain ⟨hl, hop, hr⟩ := h
          rw [ih l (by simp [children]) hl, hop, ih r (by simp [children]) hr]
      | logical f args | call f args | aggregate f args =>
          cases e' <;> simp [toJson] at h
          rw [h.1, hlist (by simp [children]) h.2]
      | isNull a =>
          cases e' <;> simp [toJson] at h
          rw [ih a (by simp [children]) h]
      | cast a type =>
          cases e' <;> simp [toJson] at h
          rw [ih a (by simp [children]) h.1, h.2]
      | truncate grain a =>
          cases e' <;> simp [toJson] at h
          rw [h.1, ih a (by simp [children]) h.2]
      | between a low high =>
          cases e' <;> simp [toJson] at h
          obtain ⟨ha, hlow, hhigh⟩ := h
          rw [ih a (by simp [children]) ha, ih low (by simp [children]) hlow,
            ih high (by simp [children]) hhigh]
      | window f args ps os =>
          cases e' <;> simp [toJson] at h
          obtain ⟨hf, hargs, hps, hos⟩ := h
          have hkeys := eq_of_map_eq (fun k hk k' => eq_of_sortKeyJson
            (ih k.expr (by simp [children, List.mem_map_of_mem hk]) ·)) hos
          rw [hf, hlist (by simp [children]) hargs, hlist (by simp [children]) hps, hkeys]

end Expr

/-! ## Nodes -/

theorem TableName.toJson_injective : Function.Injective TableName.toJson := by
  rintro ⟨schema, name⟩ ⟨schema', name'⟩ h
  simp only [toJson, Json.obj.injEq, List.cons.injEq, Prod.mk.injEq, Json.str.injEq, true_and,
    and_true] at h
  rw [Json.ofOption_injective (by simp) Json.str_injective h.1, h.2]

theorem NamedExpr.toJson_injective : Function.Injective NamedExpr.toJson := by
  rintro ⟨expr, name⟩ ⟨expr', name'⟩ h
  simp only [toJson, Json.obj.injEq, List.cons.injEq, Prod.mk.injEq, Json.str.injEq, true_and,
    and_true] at h
  rw [Expr.toJson_injective h.1, h.2]

theorem SortKey.toJson_injective : Function.Injective SortKey.toJson :=
  fun _ _ => Expr.eq_of_sortKeyJson fun h => Expr.toJson_injective h

theorem Expr.ofOption_toJson_injective : Function.Injective (Json.ofOption Expr.toJson) :=
  Json.ofOption_injective Expr.toJson_ne_null Expr.toJson_injective

namespace Node

theorem forget_eq_of_joinJson {j j' : Join Node}
    (hsource : j.source.toJson = j'.source.toJson → j.source.eraseIds = j'.source.eraseIds)
    (h : joinJson j.source.toJson j = joinJson j'.source.toJson j') :
    j.forget eraseIds = j'.forget eraseIds := by
  simp only [joinJson, Json.obj.injEq, List.cons.injEq, Prod.mk.injEq, Json.str.injEq,
    JoinKind.tag_inj, true_and, and_true] at h
  obtain ⟨hread, hname, hkind, hcondition⟩ := h
  rw [Join.forget, Join.forget, hsource hread, hname, hkind,
    Expr.ofOption_toJson_injective hcondition]

theorem forget_eq_of_cteToJson {c c' : Cte Node}
    (hcte : (Node.cte c).toJson = (Node.cte c').toJson → (Node.cte c).eraseIds = (Node.cte c').eraseIds)
    (h : Cte.toJson c = Cte.toJson c') : c.forget eraseIds = c'.forget eraseIds := by
  have hsame := hcte (by rw [toJson, toJson, h])
  rw [eraseIds_cte, eraseIds_cte] at hsame
  exact Node.cte.inj hsame

/-- **Plans can be told from their JSON forms**, up to identities. -/
theorem eraseIds_eq_of_toJson_eq {p q : Node} (h : p.toJson = q.toJson) :
    p.eraseIds = q.eraseIds := by
  induction p using induct_parents generalizing q with
  | h p ih =>
      cases p with
      | table i t =>
          cases q <;> simp [toJson] at h
          rw [eraseIds, eraseIds, TableName.toJson_injective h]
      | text i sql =>
          cases q <;> simp [toJson] at h
          rw [eraseIds, eraseIds, h]
      | cte c =>
          cases q <;> simp [toJson, Cte.toJson] at h
          rw [eraseIds, eraseIds, h.1, ih c.body (by simp [parents]) h.2]
      | createTable i t query =>
          cases q <;> simp [toJson] at h
          rw [eraseIds, eraseIds, TableName.toJson_injective h.1, ih query (by simp [parents]) h.2]
      | select s =>
          cases q with
          | select s' =>
              simp only [toJson, Select.toJson, Json.tagged_inj, Json.obj.injEq, List.cons.injEq,
                Prod.mk.injEq, Json.arr.injEq, Json.str.injEq, Json.bool.injEq, ctesToJson_eq,
                joinsToJson_eq, true_and, and_true] at h
              obtain ⟨hcolumns, hsource, hname, hctes, hjoins, hgroup, horder, hfilter, hlimit,
                hdistinct⟩ := h
              have hsource' := ih s.source (by simp [parents]) hsource
              have hjoins' : s.joins.map (Join.forget eraseIds) = s'.joins.map (Join.forget eraseIds) :=
                map_eq_of_map_eq (fun j hj j' => forget_eq_of_joinJson
                  (ih j.source (by simp [parents, List.mem_map_of_mem hj]) ·)) hjoins
              have hctes' : s.ctes.map (Cte.forget eraseIds) = s'.ctes.map (Cte.forget eraseIds) :=
                map_eq_of_map_eq (fun c hc c' => forget_eq_of_cteToJson
                  (ih (.cte c) (by simp [parents, hc]) ·)) hctes
              have hlimit' := Json.ofOption_injective (by simp) (fun _ _ => Json.nat.inj) hlimit
              rw [eraseIds_select, eraseIds_select, Select.forget, Select.forget, hsource', hjoins',
                hctes', hname, hlimit', hdistinct,
                List.map_injective_iff.2 NamedExpr.toJson_injective hcolumns,
                List.map_injective_iff.2 NamedExpr.toJson_injective hgroup,
                List.map_injective_iff.2 SortKey.toJson_injective horder,
                Expr.ofOption_toJson_injective hfilter]
          | _ => simp [toJson] at h

theorem serialize_eq_iff {p q : Node} : p.serialize = q.serialize ↔ p.eraseIds = q.eraseIds :=
  ⟨fun h => eraseIds_eq_of_toJson_eq (Json.text_injective h), serialize_eq_of_eraseIds_eq⟩

end Node

/-! ## Digests -/

/-- Two byte strings are different and have one digest. -/
def Digest.Collide (x y : Array UInt8) : Prop :=
  x ≠ y ∧ Digest.ofBytes x = Digest.ofBytes y

theorem Digest.ofText_eq_iff {s t : String} :
    Digest.ofText s = Digest.ofText t ↔ s = t ∨ Digest.Collide s.toUTF8.data t.toUTF8.data := by
  have hbytes : s.toUTF8.data = t.toUTF8.data ↔ s = t := by
    rw [← ByteArray.ext_iff]
    exact String.toByteArray_inj
  constructor
  · intro h
    by_cases hsame : s = t
    · exact .inl hsame
    · exact .inr ⟨fun hdata => hsame (hbytes.1 hdata), h⟩
  · rintro (rfl | hcollide)
    · rfl
    · exact hcollide.2

/-- **The serialised form identifies a plan.**  Two plans have one text exactly if they are equal up to
the identities of their nodes, and two expressions exactly if they are equal.  So plans that differ
have one digest only if the digests of their texts collide. -/
theorem serialize_identifies :
    (∀ p q : Node, p.serialize = q.serialize ↔ p.eraseIds = q.eraseIds) ∧
      (∀ d e : Expr, d.toJson.text = e.toJson.text ↔ d = e) ∧
      ∀ p q : Node, Digest.ofText p.serialize = Digest.ofText q.serialize ↔
        p.eraseIds = q.eraseIds ∨
          Digest.Collide p.serialize.toUTF8.data q.serialize.toUTF8.data := by
  refine ⟨fun p q => Node.serialize_eq_iff, fun d e => ⟨fun h => ?_, fun h => by rw [h]⟩, ?_⟩
  · exact Expr.toJson_injective (Json.text_injective h)
  · intro p q
    rw [Digest.ofText_eq_iff, Node.serialize_eq_iff]

end QueryPlan
