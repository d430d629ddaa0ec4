/-!
# SQL expressions

The expression trees that occur inside a query plan.  An expression is plain data and two of them
are equal exactly when they are built alike, flags included (`Expr.beq_iff`).

* `Expr` has one constructor per SQL form.  `Expr.raw` holds a fragment of SQL that this library
  does not look into; its inputs are either declared or unknown.
* `Expr.children` lists the direct sub-expressions from left to right, and `Expr.walk` all
  sub-expressions in pre-order.
* `Expr.conjoin` joins two optional predicates.
-/

namespace QueryPlan

/-- A column of a source, named by the source and the column. -/
structure ColumnRef where
  table : String
  column : String
deriving DecidableEq, Repr

inductive Comparison where
  | eq | notEq | lt | ltEq | gt | gtEq
deriving DecidableEq, Repr

inductive Connective where
  | and | or
deriving DecidableEq, Repr

inductive ArithmeticOp where
  | add | subtract | multiply | divide
deriving DecidableEq, Repr

inductive AggregateFunction where
  | sum | count | countDistinct | min | max | avg
deriving DecidableEq, Repr

inductive WindowFunction where
  | rowNumber | rank | firstValue | lastValue | lag | sum | avg | min | max
deriving DecidableEq, Repr

/-- The periods to which a date can be truncated. -/
inductive Grain where
  | day | week | month | quarter | year
deriving DecidableEq, Repr

/-- One key of a sort order, ascending unless `descending` is set. -/
structure SortKey (ε : Type) where
  expr : ε
  descending : Bool
deriving DecidableEq, Repr

/-- An SQL expression. -/
inductive Expr where
  /-- A column of a source; the source is printed when `qualified` is set. -/
  | column (ref : ColumnRef) (qualified : Bool)
  /-- An output name of the statement; which source provides it is not known. -/
  | name (name : String)
  /-- Uninterpreted SQL.  `inputs` is `none` when the columns it reads are unknown, and `grouped`
  asks for parentheses where an operator takes it as an argument. -/
  | raw (sql : String) (inputs : Option (List String)) (grouped : Bool)
  | literal (value : String)
  | null
  | comparison (left : Expr) (op : Comparison) (right : Expr)
  | logical (op : Connective) (args : List Expr)
  | isNull (arg : Expr)
  | arithmetic (left : Expr) (op : ArithmeticOp) (right : Expr)
  | call (function : String) (args : List Expr)
  | aggregate (function : AggregateFunction) (args : List Expr)
  | window (function : WindowFunction) (args : List Expr) (partitionBy : List Expr)
      (orderBy : List (SortKey Expr))
  | cast (arg : Expr) (type : String)
  | truncate (grain : Grain) (arg : Expr)
  | between (arg : Expr) (low : Expr) (high : Expr)

instance : Inhabited Expr := ⟨.null⟩

namespace Expr

/-! ## Equality -/

mutual
/-- Whether two expressions are built alike. -/
def beq : Expr → Expr → Bool
  | .column r q, .column r' q' => r == r' && q == q'
  | .name n, .name n' => n == n'
  | .raw s i g, .raw s' i' g' => s == s' && i == i' && g == g'
  | .literal v, .literal v' => v == v'
  | .null, .null => true
  | .comparison l o r, .comparison l' o' r' => beq l l' && o == o' && beq r r'
  | .logical o as, .logical o' as' => o == o' && beqList as as'
  | .isNull a, .isNull a' => beq a a'
  | .arithmetic l o r, .arithmetic l' o' r' => beq l l' && o == o' && beq r r'
  | .call f as, .call f' as' => f == f' && beqList as as'
  | .aggregate f as, .aggregate f' as' => f == f' && beqList as as'
  | .window f as ps os, .window f' as' ps' os' =>
      f == f' && beqList as as' && beqList ps ps' && beqKeys os os'
  | .cast a t, .cast a' t' => beq a a' && t == t'
  | .truncate g a, .truncate g' a' => g == g' && beq a a'
  | .between a l h, .between a' l' h' => beq a a' && beq l l' && beq h h'
  | _, _ => false

/-- Whether two lists of expressions are built alike. -/
def beqList : List Expr → List Expr → Bool
  | [], [] => true
  | a :: as, b :: bs => beq a b && beqList as bs
  | _, _ => false

/-- Whether two lists of sort keys are built alike. -/
def beqKeys : List (SortKey Expr) → List (SortKey Expr) → Bool
  | [], [] => true
  | ⟨a, d⟩ :: as, ⟨b, d'⟩ :: bs => beq a b && d == d' && beqKeys as bs
  | _, _ => false
end

mutual
theorem beq_self : ∀ a : Expr, beq a a = true
  | .column .. | .name _ | .raw .. | .literal _ | .null => by simp [beq]
  | .comparison l _ r | .arithmetic l _ r => by simp [beq, beq_self l, beq_self r]
  | .logical _ as | .call _ as | .aggregate _ as => by simp [beq, beqList_self as]
  | .isNull a | .cast a _ | .truncate _ a => by simp [beq, beq_self a]
  | .window _ as ps os => by simp [beq, beqList_self as, beqList_self ps, beqKeys_self os]
  | .between a l h => by simp [beq, beq_self a, beq_self l, beq_self h]

theorem beqList_self : ∀ as : List Expr, beqList as as = true
  | [] => by simp [beqList]
  | a :: as => by simp [beqList, beq_self a, beqList_self as]

theorem beqKeys_self : ∀ as : List (SortKey Expr), beqKeys as as = true
  | [] => by simp [beqKeys]
  | ⟨a, _⟩ :: as => by simp [beqKeys, beq_self a, beqKeys_self as]
end

mutual
theorem eq_of_beq : ∀ {a b : Expr}, beq a b = true → a = b
  | .column .., b, h | .name _, b, h | .raw .., b, h | .literal _, b, h | .null, b, h => by
      cases b <;> simp_all [beq]
  | .comparison l _ r, b, h | .arithmetic l _ r, b, h => by
      cases b <;> simp [beq] at h
      obtain ⟨⟨hl, ho⟩, hr⟩ := h
      rw [eq_of_beq hl, ho, eq_of_beq hr]
  | .logical _ as, b, h | .call _ as, b, h | .aggregate _ as, b, h => by
      cases b <;> simp [beq] at h
      obtain ⟨ho, has⟩ := h
      rw [ho, eq_of_beqList has]
  | .isNull a, b, h => by
      cases b <;> simp [beq] at h
      rw [eq_of_beq h]
  | .window _ as ps os, b, h => by
      cases b <;> simp [beq] at h
      obtain ⟨⟨⟨hf, has⟩, hps⟩, hos⟩ := h
      rw [hf, eq_of_beqList has, eq_of_beqList hps, eq_of_beqKeys hos]
  | .cast a _, b, h => by
      cases b <;> simp [beq] at h
      rw [eq_of_beq h.1, h.2]
  | .truncate _ a, b, h => by
      cases b <;> simp [beq] at h
      rw [h.1, eq_of_beq h.2]
  | .between a l r, b, h => by
      cases b <;> simp [beq] at h
      obtain ⟨⟨ha, hl⟩, hr⟩ := h
      rw [eq_of_beq ha, eq_of_beq hl, eq_of_beq hr]

theorem eq_of_beqList : ∀ {as bs : List Expr}, beqList as bs = true → as = bs
  | [], bs, h => by cases bs <;> simp_all [beqList]
  | a :: as, bs, h => by
      cases bs <;> simp [beqList] at h
      rw [eq_of_beq h.1, eq_of_beqList h.2]

theorem eq_of_beqKeys : ∀ {as bs : List (SortKey Expr)}, beqKeys as bs = true → as = bs
  | [], bs, h => by cases bs <;> simp_all [beqKeys]
  | ⟨a, d⟩ :: as, bs, h => by
      rcases bs with _ | ⟨⟨b, d'⟩, bs⟩ <;> simp [beqKeys] at h
      obtain ⟨⟨hab, hd⟩, hbs⟩ := h
      rw [eq_of_beq hab, hd, eq_of_beqKeys hbs]
end

theorem beq_iff {a b : Expr} : beq a b = true ↔ a = b :=
  ⟨eq_of_beq, fun h => h ▸ beq_self a⟩

instance : DecidableEq Expr := fun _ _ => decidable_of_iff _ beq_iff

/-! ## Views of one node -/

/-- The column a reference reads; nothing for any other expression. -/
def columnRef? : Expr → Option ColumnRef
  | .column r _ => some r
  | _ => none

/-- The output name that a name reference gives; nothing for any other expression. -/
def name? : Expr → Option String
  | .name n => some n
  | _ => none

/-- The text and declared inputs of uninterpreted SQL; nothing for any other expression. -/
def raw? : Expr → Option (String × Option (List String))
  | .raw sql inputs _ => some (sql, inputs)
  | _ => none

/-- Direct sub-expressions, from left to right. -/
def children : Expr → List Expr
  | .column .. | .name _ | .raw .. | .literal _ | .null => []
  | .comparison l _ r | .arithmetic l _ r => [l, r]
  | .logical _ as | .call _ as | .aggregate _ as => as
  | .isNull a | .cast a _ | .truncate _ a => [a]
  | .window _ as ps os => as ++ ps ++ os.map SortKey.expr
  | .between a l h => [a, l, h]

/-! ## All sub-expressions -/

mutual
/-- The expression and all its sub-expressions in pre-order. -/
def walk : Expr → List Expr
  | e@(.column ..) | e@(.name _) | e@(.raw ..) | e@(.literal _) | e@.null => [e]
  | e@(.comparison l _ r) | e@(.arithmetic l _ r) => e :: (walk l ++ walk r)
  | e@(.logical _ as) | e@(.call _ as) | e@(.aggregate _ as) => e :: walkList as
  | e@(.isNull a) | e@(.cast a _) | e@(.truncate _ a) => e :: walk a
  | e@(.window _ as ps os) => e :: (walkList as ++ walkList ps ++ walkKeys os)
  | e@(.between a l h) => e :: (walk a ++ walk l ++ walk h)

/-- All sub-expressions of a list of expressions. -/
def walkList : List Expr → List Expr
  | [] => []
  | a :: as => walk a ++ walkList as

/-- All sub-expressions of a list of sort keys. -/
def walkKeys : List (SortKey Expr) → List Expr
  | [] => []
  | k :: ks => walk k.expr ++ walkKeys ks
end

@[simp] theorem walkList_eq : ∀ as : List Expr, walkList as = as.flatMap walk
  | [] => rfl
  | a :: as => by rw [walkList, walkList_eq as, List.flatMap_cons]

@[simp] theorem walkKeys_eq : ∀ ks : List (SortKey Expr),
    walkKeys ks = (ks.map SortKey.expr).flatMap walk
  | [] => rfl
  | k :: ks => by rw [walkKeys, walkKeys_eq ks, List.map_cons, List.flatMap_cons]

/-- A walk visits the expression first and then walks its children in order. -/
theorem walk_eq (e : Expr) : walk e = e :: e.children.flatMap walk := by
  cases e <;> simp [walk, children]

/-! ## Predicates -/

/-- Conjunction of two optional predicates.  A conjunction on the left takes the right one as one
more argument; it is not nested. -/
def conjoin : Option Expr → Option Expr → Option Expr
  | none, r => r
  | l, none => l
  | some (.logical .and args), some r => some (.logical .and (args ++ [r]))
  | some l, some r => some (.logical .and [l, r])

end Expr

end QueryPlan
