import QueryPlan.Expr.Basic

/-!
# SQL text of expressions

`Expr.render` prints an expression.  Operators put parentheses around an argument exactly when
`Expr.needsParens` asks for them; argument lists of functions never do.  A quote inside a string
literal is written twice, so a literal never ends early.
-/

namespace QueryPlan

/-- The reference with its source, `table.column`. -/
def ColumnRef.render (r : ColumnRef) : String :=
  r.table ++ "." ++ r.column

def Comparison.symbol : Comparison → String
  | .eq => "="
  | .notEq => "<>"
  | .lt => "<"
  | .ltEq => "<="
  | .gt => ">"
  | .gtEq => ">="

def Connective.symbol : Connective → String
  | .and => "AND"
  | .or => "OR"

def ArithmeticOp.symbol : ArithmeticOp → String
  | .add => "+"
  | .subtract => "-"
  | .multiply => "*"
  | .divide => "/"

/-- The function's SQL name; counting distinct values is `COUNT` with a marked argument list. -/
def AggregateFunction.keyword : AggregateFunction → String
  | .sum => "SUM"
  | .count | .countDistinct => "COUNT"
  | .min => "MIN"
  | .max => "MAX"
  | .avg => "AVG"

def WindowFunction.keyword : WindowFunction → String
  | .rowNumber => "ROW_NUMBER"
  | .rank => "RANK"
  | .firstValue => "FIRST_VALUE"
  | .lastValue => "LAST_VALUE"
  | .lag => "LAG"
  | .sum => "SUM"
  | .avg => "AVG"
  | .min => "MIN"
  | .max => "MAX"

def Grain.keyword : Grain → String
  | .day => "day"
  | .week => "week"
  | .month => "month"
  | .quarter => "quarter"
  | .year => "year"

/-- Writes every single quote twice. -/
def doubleQuotes (s : String) : String :=
  String.ofList (s.toList.flatMap fun c => if c = '\'' then [c, c] else [c])

namespace Expr

/-- Whether an operator that takes this expression as an argument puts parentheses around it. -/
def needsParens : Expr → Bool
  | .comparison .. | .logical .. | .arithmetic .. | .between .. => true
  | .raw _ _ grouped => grouped
  | _ => false

/-- Parentheses around the text of an operator's argument, where the argument needs them. -/
def parenthesize (e : Expr) (text : String) : String :=
  if e.needsParens then "(" ++ text ++ ")" else text

/-- The part of a window clause that says how rows are divided and ordered. -/
def windowFrame (partitions orders : List String) : String :=
  let partitionBy :=
    if partitions.isEmpty then "" else "PARTITION BY " ++ ", ".intercalate partitions
  let gap := if partitions.isEmpty || orders.isEmpty then "" else " "
  let orderBy := if orders.isEmpty then "" else "ORDER BY " ++ ", ".intercalate orders
  partitionBy ++ gap ++ orderBy

/-- A sort key with its direction; ascending is not written. -/
def sortText (key : String) (descending : Bool) : String :=
  if descending then key ++ " DESC" else key

mutual
/-- The SQL text of an expression. -/
def render : Expr → String
  | .column r qualified => if qualified then r.render else r.column
  | .name n => n
  | .raw sql _ _ => sql
  | .literal v => "'" ++ doubleQuotes v ++ "'"
  | .null => "NULL"
  | .comparison l op r =>
      l.parenthesize l.render ++ " " ++ op.symbol ++ " " ++ r.parenthesize r.render
  | .logical op args => (" " ++ op.symbol ++ " ").intercalate (renderArgs args)
  | .isNull a => a.parenthesize a.render ++ " IS NULL"
  | .arithmetic l op r =>
      l.parenthesize l.render ++ " " ++ op.symbol ++ " " ++ r.parenthesize r.render
  | .call f args => f ++ "(" ++ ", ".intercalate (renderList args) ++ ")"
  | .aggregate f args =>
      f.keyword ++ "(" ++ (if f = .countDistinct then "DISTINCT " else "") ++
        (if args.isEmpty then "*" else ", ".intercalate (renderList args)) ++ ")"
  | .window f args ps os =>
      f.keyword ++ "(" ++ ", ".intercalate (renderList args) ++ ") OVER (" ++
        windowFrame (renderList ps) (renderKeys os) ++ ")"
  | .cast a type => "CAST(" ++ a.render ++ " AS " ++ type ++ ")"
  | .truncate grain a => "DATE_TRUNC('" ++ grain.keyword ++ "', " ++ a.render ++ ")"
  | .between a low high =>
      a.parenthesize a.render ++ " BETWEEN " ++ low.parenthesize low.render ++ " AND " ++
        high.parenthesize high.render

/-- The texts of a function's arguments. -/
def renderList : List Expr → List String
  | [] => []
  | a :: as => a.render :: renderList as

/-- The texts of a connective's arguments, in parentheses where needed. -/
def renderArgs : List Expr → List String
  | [] => []
  | a :: as => a.parenthesize a.render :: renderArgs as

/-- The texts of sort keys. -/
def renderKeys : List (SortKey Expr) → List String
  | [] => []
  | k :: ks => sortText k.expr.render k.descending :: renderKeys ks
end

@[simp] theorem renderList_eq_map (as : List Expr) : renderList as = as.map render := by
  induction as with
  | nil => rfl
  | cons a as ih => rw [renderList, ih, List.map_cons]

@[simp] theorem renderArgs_eq_map (as : List Expr) :
    renderArgs as = as.map fun a => a.parenthesize a.render := by
  induction as with
  | nil => rfl
  | cons a as ih => rw [renderArgs, ih, List.map_cons]

@[simp] theorem renderKeys_eq_map (ks : List (SortKey Expr)) :
    renderKeys ks = ks.map fun k => sortText k.expr.render k.descending := by
  induction ks with
  | nil => rfl
  | cons k ks ih => rw [renderKeys, ih, List.map_cons]

end Expr

end QueryPlan
