import QueryPlan.Expr.Basic

/-!
# Replacing parts of expressions

`Expr.transform` replaces sub-expressions from the top down.  Where the given function offers a
replacement, that is used as it stands and is not looked into again.  Two instances matter:
`Expr.bindColumns` puts expressions in place of column references, and `Expr.setQualified`
decides for all column references whether their source is printed.
-/

namespace QueryPlan

namespace Expr

mutual
/-- Replaces, from the top down, every sub-expression for which `f` offers a replacement. -/
def transform (f : Expr → Option Expr) : Expr → Expr
  | e@(.column ..) | e@(.name _) | e@(.raw ..) | e@(.literal _) | e@.null => (f e).getD e
  | e@(.comparison l op r) => (f e).getD (.comparison (transform f l) op (transform f r))
  | e@(.logical op as) => (f e).getD (.logical op (transformList f as))
  | e@(.isNull a) => (f e).getD (.isNull (transform f a))
  | e@(.arithmetic l op r) => (f e).getD (.arithmetic (transform f l) op (transform f r))
  | e@(.call g as) => (f e).getD (.call g (transformList f as))
  | e@(.aggregate g as) => (f e).getD (.aggregate g (transformList f as))
  | e@(.window g as ps os) =>
      (f e).getD (.window g (transformList f as) (transformList f ps) (transformKeys f os))
  | e@(.cast a type) => (f e).getD (.cast (transform f a) type)
  | e@(.truncate grain a) => (f e).getD (.truncate grain (transform f a))
  | e@(.between a low high) =>
      (f e).getD (.between (transform f a) (transform f low) (transform f high))

/-- `transform` on every member of a list. -/
def transformList (f : Expr → Option Expr) : List Expr → List Expr
  | [] => []
  | a :: as => transform f a :: transformList f as

/-- `transform` on every sort key. -/
def transformKeys (f : Expr → Option Expr) : List (SortKey Expr) → List (SortKey Expr)
  | [] => []
  | k :: ks => { k with expr := transform f k.expr } :: transformKeys f ks
end

@[simp] theorem transformList_eq_map (f : Expr → Option Expr) (as : List Expr) :
    transformList f as = as.map (transform f) := by
  induction as with
  | nil => rfl
  | cons a as ih => rw [transformList, ih, List.map_cons]

@[simp] theorem transformKeys_eq_map (f : Expr → Option Expr) (ks : List (SortKey Expr)) :
    transformKeys f ks = ks.map fun k => { k with expr := transform f k.expr } := by
  induction ks with
  | nil => rfl
  | cons k ks ih => rw [transformKeys, ih, List.map_cons]

mutual
/-- The sub-expressions at which `transform f` asks `f`, in order: a walk that does not go below a
replaced expression. -/
def consulted (f : Expr → Option Expr) : Expr → List Expr
  | e@(.column ..) | e@(.name _) | e@(.raw ..) | e@(.literal _) | e@.null => [e]
  | e@(.comparison l _ r) | e@(.arithmetic l _ r) =>
      e :: if (f e).isSome then [] else consulted f l ++ consulted f r
  | e@(.logical _ as) | e@(.call _ as) | e@(.aggregate _ as) =>
      e :: if (f e).isSome then [] else consultedList f as
  | e@(.isNull a) | e@(.cast a _) | e@(.truncate _ a) =>
      e :: if (f e).isSome then [] else consulted f a
  | e@(.window _ as ps os) =>
      e ::
        if (f e).isSome then []
        else consultedList f as ++ consultedList f ps ++ consultedKeys f os
  | e@(.between a low high) =>
      e :: if (f e).isSome then [] else consulted f a ++ consulted f low ++ consulted f high

/-- `consulted` over a list. -/
def consultedList (f : Expr → Option Expr) : List Expr → List Expr
  | [] => []
  | a :: as => consulted f a ++ consultedList f as

/-- `consulted` over sort keys. -/
def consultedKeys (f : Expr → Option Expr) : List (SortKey Expr) → List Expr
  | [] => []
  | k :: ks => consulted f k.expr ++ consultedKeys f ks
end

/-- Puts `f r` in place of every reference to a column `r` for which `f` gives an expression. -/
def bindColumns (f : ColumnRef → Option Expr) (e : Expr) : Expr :=
  e.transform fun d => d.columnRef?.bind f

/-- Sets for every column reference whether its source is printed. -/
def setQualified (qualified : Bool) (e : Expr) : Expr :=
  e.transform fun
    | .column r _ => some (.column r qualified)
    | _ => none

end Expr

/-- A finite map from columns to the expressions that replace them. -/
structure Substitution where
  entries : List (ColumnRef × Expr) := []
  /-- No column has two replacements. -/
  nodup_columns : (entries.map Prod.fst).Nodup := by exact .nil

namespace Substitution

/-- The expression that replaces a column, if there is one. -/
def get? (σ : Substitution) (r : ColumnRef) : Option Expr :=
  σ.entries.lookup r

/-- Adds a replacement; an earlier one for the same column is forgotten. -/
def insert (σ : Substitution) (r : ColumnRef) (e : Expr) : Substitution where
  entries := (r, e) :: σ.entries.filter fun p => p.1 ≠ r
  nodup_columns := by
    refine List.nodup_cons.2 ⟨by simp, ?_⟩
    exact σ.nodup_columns.sublist (List.filter_sublist.map Prod.fst)

/-- The substitution that holds the given replacements; of two for one column the later counts. -/
def ofList (ps : List (ColumnRef × Expr)) : Substitution :=
  ps.foldl (fun σ p => σ.insert p.1 p.2) {}

def contains (σ : Substitution) (r : ColumnRef) : Bool :=
  (σ.get? r).isSome

def size (σ : Substitution) : Nat :=
  σ.entries.length

def isEmpty (σ : Substitution) : Bool :=
  σ.entries.isEmpty

end Substitution

/-- Puts the replacements of `σ` in place of the columns they are for. -/
def Expr.substitute (σ : Substitution) (e : Expr) : Expr :=
  e.bindColumns σ.get?

end QueryPlan
