import QueryPlan.Expr.Render
import QueryPlan.Proofs.Substitution

/-!
# String literals keep to themselves

Whatever a string literal holds, the SQL text of an expression has exactly the literals that were
put into the expression.  `scanLiterals` reads a text by the rule of SQL alone: a quote opens a
literal, two quotes inside one stand for one quote, and a single one closes it.  It knows nothing of
expressions.

* `scanLiterals_doubled` — a literal is read back, from runs of quotes at either end as well, unless
  it is followed by one more quote.
* `Scans` — a text can be scanned on its own, whatever follows, unless that starts with a quote.
  Texts are put together with something between them that does not (`Scans.append`), so two literals
  are never taken for one.
* `Expr.scans_render` — hence expressions, by induction over their children.
-/

namespace QueryPlan

/-- The literals of an SQL text, in order; nothing if the text ends inside a literal.  The first
argument holds what has been read of the literal at hand, the latest character first. -/
def scanLiterals : Option (List Char) → List Char → Option (List String)
  | none, [] => some []
  | some _, [] => none
  | none, c :: cs => if c = '\'' then scanLiterals (some []) cs else scanLiterals none cs
  | some read, '\'' :: '\'' :: cs => scanLiterals (some ('\'' :: read)) cs
  | some read, c :: cs =>
      if c = '\'' then (scanLiterals none cs).map (String.ofList read.reverse :: ·)
      else scanLiterals (some (c :: read)) cs

/-- The literals of an SQL text that does not end inside a literal. -/
def literalsOf? (text : String) : Option (List String) :=
  scanLiterals none text.toList

/-! ## Texts without quotes, and literals -/

/-- A text without a quote. -/
def Plain (text : String) : Prop :=
  '\'' ∉ text.toList

@[simp] theorem quote_not_mem_comparison (op : Comparison) : '\'' ∉ op.symbol.toList := by
  cases op <;> simp [Comparison.symbol]

@[simp] theorem quote_not_mem_connective (op : Connective) : '\'' ∉ op.symbol.toList := by
  cases op <;> simp [Connective.symbol]

@[simp] theorem quote_not_mem_arithmetic (op : ArithmeticOp) : '\'' ∉ op.symbol.toList := by
  cases op <;> simp [ArithmeticOp.symbol]

@[simp] theorem quote_not_mem_aggregate (f : AggregateFunction) : '\'' ∉ f.keyword.toList := by
  cases f <;> simp [AggregateFunction.keyword]

@[simp] theorem quote_not_mem_window (f : WindowFunction) : '\'' ∉ f.keyword.toList := by
  cases f <;> simp [WindowFunction.keyword]

@[simp] theorem doubleQuotes_keyword (g : Grain) : doubleQuotes g.keyword = g.keyword := by
  cases g <;> simp [doubleQuotes, Grain.keyword]

theorem scanLiterals_plain {cs : List Char} (h : '\'' ∉ cs) (rest : List Char) :
    scanLiterals none (cs ++ rest) = scanLiterals none rest := by
  induction cs with
  | nil => rfl
  | cons c cs ih =>
      simp only [List.mem_cons, not_or] at h
      rw [List.cons_append, scanLiterals, if_neg (Ne.symm h.1), ih h.2]

/-- **A literal is read back**: every quote in it has been doubled, so the first single one is the one
that closes it. -/
theorem scanLiterals_doubled (cs read : List Char) {rest : List Char}
    (hrest : rest.head? ≠ some '\'') :
    scanLiterals (some read)
        (cs.flatMap (fun c => if c = '\'' then [c, c] else [c]) ++ '\'' :: rest) =
      (scanLiterals none rest).map (String.ofList (read.reverse ++ cs) :: ·) := by
  induction cs generalizing read with
  | nil =>
      rw [List.flatMap_nil, List.nil_append, List.append_nil, scanLiterals, if_pos rfl]
      rintro cs - rfl
      exact hrest rfl
  | cons c cs ih =>
      by_cases hc : c = '\''
      · subst hc
        simp only [List.flatMap_cons, if_true, List.cons_append, List.nil_append, scanLiterals, ih]
        simp
      · simp only [List.flatMap_cons, if_neg hc, List.cons_append, List.nil_append]
        rw [scanLiterals, if_neg hc, ih]
        · simp
        · rintro _ rfl
          exact absurd rfl hc

/-! ## Texts that are scanned on their own -/

/-- A text holds the given literals and ends outside of them, whatever follows, unless it is a
quote. -/
def Scans (text : String) (values : List String) : Prop :=
  ∀ rest : List Char, rest.head? ≠ some '\'' →
    scanLiterals none (text.toList ++ rest) = (scanLiterals none rest).map (values ++ ·)

namespace Scans

variable {t u gap : String} {vs ws : List String}

theorem literalsOf?_eq (h : Scans t vs) : literalsOf? t = some vs := by
  have hend := h [] (by simp)
  simpa [literalsOf?, scanLiterals] using hend

theorem plain (h : Plain t) : Scans t [] := by
  intro rest _
  rw [scanLiterals_plain h]
  simp

theorem literal (v : String) : Scans ("'" ++ doubleQuotes v ++ "'") [v] := by
  intro rest hrest
  have hread := scanLiterals_doubled v.toList [] hrest
  simpa [doubleQuotes, scanLiterals] using hread

/-- Text without quotes may stand in front. -/
theorem plain_append (ht : Plain t) (hu : Scans u vs) : Scans (t ++ u) vs := by
  intro rest hrest
  rw [String.toList_append, List.append_assoc, scanLiterals_plain ht, hu rest hrest]

/-- Two texts may follow one another if something without quotes stands between them. -/
theorem append (ht : Scans t vs) (hgap : Plain gap) (hne : gap ≠ "") (hu : Scans u ws) :
    Scans (t ++ gap ++ u) (vs ++ ws) := by
  intro rest hrest
  -- the text behind the first one starts as the gap does
  have hstart : (gap.toList ++ (u.toList ++ rest)).head? ≠ some '\'' := by
    cases hchars : gap.toList with
    | nil => exact absurd (by simpa using hchars) hne
    | cons c cs =>
        rw [Plain, hchars, List.mem_cons, not_or] at hgap
        simpa using Ne.symm hgap.1
  rw [String.toList_append, String.toList_append, List.append_assoc, List.append_assoc,
    ht _ hstart, scanLiterals_plain hgap, hu rest hrest, Option.map_map]
  simp [Function.comp_def]

/-- Text without quotes may follow. -/
theorem append_plain (ht : Scans t vs) (hu : Plain u) : Scans (t ++ u) vs := by
  by_cases hempty : u = ""
  · simpa [hempty] using ht
  · have happend := ht.append hu hempty (plain (t := "") (by simp [Plain]))
    simpa using happend

/-- Text without quotes may stand around. -/
theorem enclose {opening closing : String} (hopening : Plain opening) (h : Scans t vs)
    (hclosing : Plain closing) : Scans (opening ++ t ++ closing) vs :=
  (plain_append hopening h).append_plain hclosing

theorem intercalate {α : Type} {write : α → String} {values : α → List String} (hgap : Plain gap)
    (hne : gap ≠ "") {as : List α} (h : ∀ a ∈ as, Scans (write a) (values a)) :
    Scans (gap.intercalate (as.map write)) (as.flatMap values) := by
  induction as with
  | nil => exact plain (by simp [Plain])
  | cons a as ih =>
      rw [List.forall_mem_cons] at h
      cases as with
      | nil => simpa using h.1
      | cons b bs =>
          rw [List.map_cons, List.map_cons, String.intercalate_cons_cons, List.flatMap_cons]
          exact h.1.append hgap hne (ih h.2)

end Scans

/-! ## Expressions -/

namespace Expr

/-- The value that an expression itself writes between quotes. -/
def ownLiteral? : Expr → Option String
  | .literal v => some v
  | .truncate grain _ => some grain.keyword
  | _ => none

/-- The values that are written between quotes in an expression, in pre-order. -/
def literals (e : Expr) : List String :=
  e.walk.filterMap ownLiteral?

/-- What an expression itself writes as it stands: names, types and uninterpreted SQL. -/
def ownWords : Expr → List String
  | .column r qualified => if qualified then [r.table, r.column] else [r.column]
  | .name n => [n]
  | .raw sql _ _ => [sql]
  | .call f _ => [f]
  | .cast _ type => [type]
  | _ => []

/-- No name, type or uninterpreted SQL in an expression holds a quote. -/
def WordsPlain (e : Expr) : Prop :=
  ∀ a ∈ e.walk, ∀ word ∈ a.ownWords, Plain word

theorem literals_eq (e : Expr) :
    e.literals = e.ownLiteral?.toList ++ e.children.flatMap literals := by
  rw [literals, walk_eq, List.filterMap_cons, List.filterMap_flatMap]
  cases e.ownLiteral? <;> rfl

theorem WordsPlain.own {e : Expr} (h : e.WordsPlain) : ∀ word ∈ e.ownWords, Plain word :=
  h e (mem_walk_self e)

theorem WordsPlain.child {d e : Expr} (h : e.WordsPlain) (hd : d ∈ e.children) : d.WordsPlain :=
  fun a ha => h a (mem_walk_of_mem_children hd ha)

/-- The argument of an operator, in parentheses where it needs them. -/
theorem scans_argument {a : Expr} (h : Scans a.render a.literals) :
    Scans (a.parenthesize a.render) a.literals := by
  unfold parenthesize
  split_ifs
  · exact .enclose (by simp [Plain]) h (by simp [Plain])
  · exact h

/-- The arguments of an operator, with its symbol between them. -/
theorem scans_operands {l r : Expr} {gap : String} (hl : Scans l.render l.literals)
    (hgap : Plain gap) (hne : gap ≠ "") (hr : Scans r.render r.literals) :
    Scans (l.parenthesize l.render ++ gap ++ r.parenthesize r.render) (l.literals ++ r.literals) :=
  (scans_argument hl).append hgap hne (scans_argument hr)

theorem scans_list {as : List Expr} (h : ∀ a ∈ as, Scans a.render a.literals) :
    Scans (", ".intercalate (as.map render)) (as.flatMap literals) :=
  Scans.intercalate (by simp [Plain]) (by simp) h

theorem scans_keys {ks : List (SortKey Expr)} (h : ∀ k ∈ ks, Scans k.expr.render k.expr.literals) :
    Scans (", ".intercalate (ks.map fun k => sortText k.expr.render k.descending))
      (ks.flatMap fun k => k.expr.literals) := by
  refine Scans.intercalate (by simp [Plain]) (by simp) ?_
  intro k hk
  unfold sortText
  split_ifs
  · exact (h k hk).append_plain (by simp [Plain])
  · exact h k hk

/-- The two parts of a window clause have a gap between them if both are there. -/
theorem scans_windowFrame {ps : List Expr} {os : List (SortKey Expr)}
    (hps : ∀ p ∈ ps, Scans p.render p.literals)
    (hos : ∀ k ∈ os, Scans k.expr.render k.expr.literals) :
    Scans (windowFrame (ps.map render) (os.map fun k => sortText k.expr.render k.descending))
      (ps.flatMap literals ++ os.flatMap fun k => k.expr.literals) := by
  have hpartition : Plain "PARTITION BY " := by simp [Plain]
  have horder : Plain "ORDER BY " := by simp [Plain]
  have hgap : Plain " " := by simp [Plain]
  have hpartitions := Scans.plain_append hpartition (scans_list hps)
  have horders := Scans.plain_append horder (scans_keys hos)
  unfold windowFrame
  by_cases hp : ps = []
  · by_cases ho : os = []
    · subst hp ho
      exact .plain (by simp [Plain])
    · simpa [hp, ho] using horders
  · by_cases ho : os = []
    · simpa [hp, ho] using hpartitions
    · simpa [hp, ho] using hpartitions.append hgap (by simp) horders

/-- **The literals of an expression are those of its text.** -/
theorem scans_render (e : Expr) (h : e.WordsPlain) : Scans e.render e.literals := by
  induction e using induct_children with
  | step e ih =>
      have hwords := h.own
      have hchild : ∀ d ∈ e.children, Scans d.render d.literals :=
        fun d hd => ih d hd (h.child hd)
      have hclosing : Plain ")" := by simp [Plain]
      rw [literals_eq]
      cases e with
      | column r q =>
          have hplain : Plain (column r q).render := by
            cases q <;> simpa [Plain, ownWords, render, ColumnRef.render] using hwords
          simpa [ownLiteral?, children] using Scans.plain hplain
      | name n =>
          have hplain : Plain n := hwords n (by simp [ownWords])
          simpa [render, ownLiteral?, children] using Scans.plain hplain
      | raw sql =>
          have hplain : Plain sql := hwords sql (by simp [ownWords])
          simpa [render, ownLiteral?, children] using Scans.plain hplain
      | literal v => simpa [render, ownLiteral?, children] using Scans.literal v
      | null =>
          have hplain : Plain "NULL" := by simp [Plain]
          simpa [render, ownLiteral?, children] using Scans.plain hplain
      | comparison l op r | arithmetic l op r =>
          have hgap : Plain (" " ++ op.symbol ++ " ") := by simp [Plain]
          have hboth := scans_operands (hchild l (by simp [children])) hgap (by simp)
            (hchild r (by simp [children]))
          simpa [render, ownLiteral?, children, String.append_assoc] using hboth
      | logical op args =>
          have hgap : Plain (" " ++ op.symbol ++ " ") := by simp [Plain]
          have hargs := Scans.intercalate hgap (by simp) fun a ha => scans_argument (hchild a ha)
          simpa [render, ownLiteral?, children] using hargs
      | isNull a =>
          have hsuffix : Plain " IS NULL" := by simp [Plain]
          have harg := scans_argument (hchild a List.mem_cons_self)
          simpa [render, ownLiteral?, children] using harg.append_plain hsuffix
      | call f args =>
          have hopening : Plain (f ++ "(") := by
            simpa [Plain, ownWords] using hwords
          have hcall := Scans.enclose hopening (scans_list hchild) hclosing
          simpa [render, ownLiteral?, children] using hcall
      | aggregate f args =>
          have hargs : Scans (if args.isEmpty then "*" else ", ".intercalate (args.map render))
              (args.flatMap literals) := by
            have hstar : Plain "*" := by simp [Plain]
            have hlist := scans_list hchild
            cases args with
            | nil => simpa using Scans.plain hstar
            | cons a as => simpa [children] using hlist
          have hopening :
              Plain (f.keyword ++ "(" ++ if f = .countDistinct then "DISTINCT " else "") := by
            split_ifs <;> simp [Plain]
          have hcall := Scans.enclose hopening hargs hclosing
          simpa [render, ownLiteral?, children] using hcall
      | window f args ps os =>
          simp only [children, List.mem_append, List.mem_map, or_imp, forall_and,
            forall_exists_index, and_imp, forall_apply_eq_imp_iff₂] at hchild
          obtain ⟨⟨hargs, hps⟩, hos⟩ := hchild
          have hgap : Plain ") OVER (" := by simp [Plain]
          have hopening : Plain (f.keyword ++ "(") := by simp [Plain]
          have hcall := Scans.enclose hopening
            ((scans_list hargs).append hgap (by simp) (scans_windowFrame hps hos)) hclosing
          simpa [render, ownLiteral?, children, String.append_assoc, List.flatMap_map,
            Function.comp_def] using hcall
      | cast a type =>
          have hopening : Plain "CAST(" := by simp [Plain]
          have hsuffix : Plain (" AS " ++ type ++ ")") := by simpa [Plain, ownWords] using hwords
          have hcast := Scans.enclose hopening (hchild a List.mem_cons_self) hsuffix
          simpa [render, ownLiteral?, children, String.append_assoc] using hcast
      | truncate grain a =>
          have hopening : Plain "DATE_TRUNC(" := by simp [Plain]
          have hgap : Plain ", " := by simp [Plain]
          have hcall := Scans.enclose hopening ((Scans.literal grain.keyword).append hgap (by simp)
            (hchild a List.mem_cons_self)) hclosing
          have htext : (truncate grain a).render = "DATE_TRUNC(" ++
              ("'" ++ doubleQuotes grain.keyword ++ "'" ++ ", " ++ a.render) ++ ")" := by
            rw [← String.toList_inj]
            simp [render]
          simpa [htext, ownLiteral?, children] using hcall
      | between a low high =>
          have hgap : Plain " BETWEEN " := by simp [Plain]
          have hgap' : Plain " AND " := by simp [Plain]
          have hbetween := (scans_operands (hchild a (by simp [children])) hgap (by simp)
            (hchild low (by simp [children]))).append hgap' (by simp)
            (scans_argument (hchild high (by simp [children])))
          simpa [render, ownLiteral?, children, String.append_assoc] using hbetween

end Expr

/-- **String literals do not break out of the text.**  If no name, type or uninterpreted SQL of an
expression holds a quote, its text ends outside of literals, and its literals are, in pre-order, the
string literals of the expression and the periods to which dates are truncated. -/
theorem literals_of_render {e : Expr} (h : e.WordsPlain) : literalsOf? e.render = some e.literals :=
  (e.scans_render h).literalsOf?_eq

/-- `COALESCE('''', 'it''s''', DATE_TRUNC('day', '''')) = t.x`. -/
def Expr.quotesOnly : Expr :=
  .comparison (.call "COALESCE" [.literal "'", .literal "it's'", .truncate .day (.literal "'")]) .eq
    (.column ⟨"t", "x"⟩ true)

/-- Literals that are nothing but a quote, or end in one, are told from those that follow. -/
theorem literals_of_render_quotesOnly :
    Expr.quotesOnly.WordsPlain ∧
      literalsOf? Expr.quotesOnly.render = some ["'", "it's'", "day", "'"] := by
  have hplain : Expr.quotesOnly.WordsPlain := by
    simp [Expr.WordsPlain, Expr.quotesOnly, Expr.walk, Expr.ownWords, Plain]
  exact ⟨hplain, literals_of_render hplain⟩

end QueryPlan
