import QueryPlan.Expr.Render
import QueryPlan.Plan.Basic

/-!
# SQL text of plans

`Node.render` prints a plan as one line of SQL.  Inside `FROM`, a table or a CTE is named, and any
other source stands in parentheses; the name of the source follows.
-/

namespace QueryPlan

def JoinKind.keyword : JoinKind → String
  | .leftOuter => "LEFT OUTER JOIN"
  | .fullOuter => "FULL OUTER JOIN"
  | .inner => "INNER JOIN"
  | .cross => "CROSS JOIN"

/-- A clause, with its keyword, that is left out when it has no items. -/
def listClause (keyword : String) (items : List String) : String :=
  if items.isEmpty then "" else keyword ++ ", ".intercalate items

/-- A clause, with its keyword, that is left out when it has no content. -/
def optionClause (keyword : String) (content : Option String) : String :=
  match content with
  | none => ""
  | some text => keyword ++ text

namespace Select

variable {σ : Type}

/-- `SELECT` with its list, up to `FROM`. -/
def headText (s : Select σ) : String :=
  "SELECT " ++ (if s.distinct then "DISTINCT " else "") ++
    ", ".intercalate (s.columns.map fun c => c.expr.render ++ " AS " ++ c.name)

/-- Everything after the sources: filter, grouping, order and limit. -/
def tailText (s : Select σ) : String :=
  optionClause " WHERE " (s.filter.map Expr.render) ++
    listClause " GROUP BY " (s.groupExprs.map Expr.render) ++
    listClause " ORDER BY " (s.orderBy.map fun k => Expr.sortText k.expr.render k.descending) ++
    optionClause " LIMIT " (s.limit.map Nat.repr)

end Select

namespace Node

/-- A source inside `FROM`, from the SQL text of the node. -/
def sourceText (n : Node) (rendered sourceName : String) : String :=
  match n with
  | .table _ t => t.render ++ " " ++ sourceName
  | .cte c => c.name ++ " " ++ sourceName
  | _ => "(" ++ rendered ++ ") " ++ sourceName

mutual
/-- The SQL text of a plan. -/
def render : Node → String
  | .table _ t => "SELECT * FROM " ++ t.render
  | .text _ sql => sql
  | .select s =>
      (if s.ctes.isEmpty then "" else "WITH " ++ ", ".intercalate (renderCtes s.ctes) ++ " ") ++
        s.headText ++ " FROM " ++ s.source.sourceText s.source.render s.sourceName ++
        renderJoins s.joins ++ s.tailText
  | .cte c => c.body.render
  | .createTable _ t query => "CREATE TABLE " ++ t.render ++ " AS " ++ query.render

/-- The definitions of a list of CTEs. -/
def renderCtes : List (Cte Node) → List String
  | [] => []
  | c :: cs => (c.name ++ " AS (" ++ c.body.render ++ ")") :: renderCtes cs

/-- The joins of a statement, each with a blank in front. -/
def renderJoins : List (Join Node) → String
  | [] => ""
  | j :: js =>
      " " ++ j.kind.keyword ++ " " ++ j.source.sourceText j.source.render j.sourceName ++
        optionClause " ON " (j.condition.map Expr.render) ++ renderJoins js
end

end Node

end QueryPlan
