import QueryPlan.Expr.Serial
import QueryPlan.Plan.Basic

/-!
# JSON form of plans

A node is an object with one field, named for its kind; the CTEs of a statement are written without
that mark.  Identities are left out, so two plans have one text exactly when they are equal up to
the identities of their nodes.
-/

namespace QueryPlan

def TableName.toJson (t : TableName) : Json :=
  .obj [("schema_name", .ofOption .str t.schema), ("table_name", .str t.name)]

def NamedExpr.toJson (c : NamedExpr) : Json :=
  .obj [("expr", c.expr.toJson), ("column_alias", .str c.name)]

def SortKey.toJson (k : SortKey Expr) : Json :=
  Expr.sortKeyJson k.expr.toJson k.descending

def JoinKind.tag : JoinKind → String
  | .leftOuter => "LeftOuter"
  | .fullOuter => "FullOuter"
  | .inner => "Inner"
  | .cross => "Cross"

mutual
/-- The JSON form of a node. -/
def Node.toJson : Node → Json
  | .table _ t => .tagged "Table" (.obj [("sql_table", t.toJson)])
  | .text _ sql => .tagged "SelectText" (.obj [("select_query", .str sql)])
  | .select s => .tagged "SelectStatement" (Select.toJson s)
  | .cte c => .tagged "Cte" (Cte.toJson c)
  | .createTable _ t query =>
      .tagged "CreateTableAs" (.obj [("sql_table", t.toJson), ("parent", query.toJson)])

/-- The JSON form of a select statement, without the mark of its kind. -/
def Select.toJson : Statement → Json
  | s => .obj
      [("select_columns", .arr (s.columns.map NamedExpr.toJson)),
        ("from_source", s.source.toJson),
        ("from_source_alias", .str s.sourceName),
        ("cte_sources", .arr (Node.ctesToJson s.ctes)),
        ("join_descs", .arr (Node.joinsToJson s.joins)),
        ("group_bys", .arr (s.groupBy.map NamedExpr.toJson)),
        ("order_bys", .arr (s.orderBy.map SortKey.toJson)),
        ("where", .ofOption Expr.toJson s.filter),
        ("limit", .ofOption .nat s.limit),
        ("distinct", .bool s.distinct)]

/-- The JSON form of a CTE, without the mark of its kind. -/
def Cte.toJson : Cte Node → Json
  | c => .obj [("cte_alias", .str c.name), ("select_statement", c.body.toJson)]

/-- The JSON forms of a list of CTEs. -/
def Node.ctesToJson : List (Cte Node) → List Json
  | [] => []
  | c :: cs => Cte.toJson c :: Node.ctesToJson cs

/-- The JSON forms of a list of joins. -/
def Node.joinsToJson : List (Join Node) → List Json
  | [] => []
  | j :: js =>
      .obj
        [("right_source", j.source.toJson), ("right_source_alias", .str j.sourceName),
          ("join_type", .str j.kind.tag), ("on_condition", .ofOption Expr.toJson j.condition)] ::
        Node.joinsToJson js
end

/-- The serialised form of a plan, which determines it up to the identities of its nodes. -/
def Node.serialize (n : Node) : String :=
  n.toJson.text

end QueryPlan
