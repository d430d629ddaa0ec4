import QueryPlan.Expr.Basic
import QueryPlan.Text.Json

/-!
# JSON form of expressions

Every form of expression is an object with one field, named for the form, that holds its parts in a
fixed order; `Null` has no parts and is a bare string.
-/

namespace QueryPlan

/-- A value marked with the name of its form. -/
def Json.tagged (form : String) (content : Json) : Json :=
  .obj [(form, content)]

def ColumnRef.toJson (r : ColumnRef) : Json :=
  .obj [("table_alias", .str r.table), ("column_name", .str r.column)]

def Comparison.tag : Comparison → String
  | .eq => "Eq"
  | .notEq => "NotEq"
  | .lt => "Lt"
  | .ltEq => "LtEq"
  | .gt => "Gt"
  | .gtEq => "GtEq"

def Connective.tag : Connective → String
  | .and => "And"
  | .or => "Or"

def ArithmeticOp.tag : ArithmeticOp → String
  | .add => "Add"
  | .subtract => "Subtract"
  | .multiply => "Multiply"
  | .divide => "Divide"

def AggregateFunction.tag : AggregateFunction → String
  | .sum => "Sum"
  | .count => "Count"
  | .countDistinct => "CountDistinct"
  | .min => "Min"
  | .max => "Max"
  | .avg => "Avg"

def WindowFunction.tag : WindowFunction → String
  | .rowNumber => "RowNumber"
  | .rank => "Rank"
  | .firstValue => "FirstValue"
  | .lastValue => "LastValue"
  | .lag => "Lag"
  | .sum => "Sum"
  | .avg => "Avg"
  | .min => "Min"
  | .max => "Max"

def Grain.tag : Grain → String
  | .day => "Day"
  | .week => "Week"
  | .month => "Month"
  | .quarter => "Quarter"
  | .year => "Year"

namespace Expr

/-- A sort key, from the JSON form of its expression. -/
def sortKeyJson (key : Json) (descending : Bool) : Json :=
  .obj [("expr", key), ("descending", .bool descending)]

mutual
/-- The JSON form of an expression. -/
def toJson : Expr → Json
  | .column r qualified =>
      .tagged "ColumnReference" (.obj
        [("col_ref", r.toJson), ("render_table_alias", .bool qualified)])
  | .name n => .tagged "ColumnAliasReference" (.obj [("column_alias", .str n)])
  | .raw sql inputs grouped =>
      .tagged "String" (.obj
        [("sql", .str sql), ("used_columns", .ofOption .ofStrings inputs),
          ("requires_parenthesis", .bool grouped)])
  | .literal v => .tagged "StringLiteral" (.str v)
  | .null => .str "Null"
  | .comparison l op r =>
      .tagged "Comparison" (.obj [("left", l.toJson), ("op", .str op.tag), ("right", r.toJson)])
  | .logical op args =>
      .tagged "Logical" (.obj [("op", .str op.tag), ("args", .arr (toJsonList args))])
  | .isNull a => .tagged "IsNull" a.toJson
  | .arithmetic l op r =>
      .tagged "Arithmetic" (.obj [("left", l.toJson), ("op", .str op.tag), ("right", r.toJson)])
  | .call f args => .tagged "Function" (.obj [("name", .str f), ("args", .arr (toJsonList args))])
  | .aggregate f args =>
      .tagged "Aggregate" (.obj [("function", .str f.tag), ("args", .arr (toJsonList args))])
  | .window f args ps os =>
      .tagged "Window" (.obj
        [("function", .str f.tag), ("args", .arr (toJsonList args)),
          ("partition_by", .arr (toJsonList ps)), ("order_by", .arr (toJsonKeys os))])
  | .cast a type => .tagged "Cast" (.obj [("arg", a.toJson), ("to", .str type)])
  | .truncate grain a => .tagged "DateTrunc" (.obj [("grain", .str grain.tag), ("arg", a.toJson)])
  | .between a low high =>
      .tagged "Between" (.obj [("expr", a.toJson), ("start", low.toJson), ("end", high.toJson)])

/-- The JSON forms of the members of a list. -/
def toJsonList : List Expr → List Json
  | [] => []
  | a :: as => a.toJson :: toJsonList as

/-- The JSON forms of sort keys. -/
def toJsonKeys : List (SortKey Expr) → List Json
  | [] => []
  | k :: ks => sortKeyJson k.expr.toJson k.descending :: toJsonKeys ks
end

@[simp] theorem toJsonList_eq_map (as : List Expr) : toJsonList as = as.map toJson := by
  induction as with
  | nil => rfl
  | cons a as ih => rw [toJsonList, ih, List.map_cons]

@[simp] theorem toJsonKeys_eq_map (ks : List (SortKey Expr)) :
    toJsonKeys ks = ks.map fun k => sortKeyJson k.expr.toJson k.descending := by
  induction ks with
  | nil => rfl
  | cons k ks ih => rw [toJsonKeys, ih, List.map_cons]

end Expr

end QueryPlan
