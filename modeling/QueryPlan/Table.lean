/-!
# Table names

A table is named by itself or by a schema and itself, as `table` or `schema.table`.
`TableName.ofText?` reads such a text: it takes one or two parts divided by a dot, none of them
empty.  `TableName.render` writes a name; it does not check its parts.
-/

namespace QueryPlan

/-- The name of a table, with its schema if one is given. -/
structure TableName where
  schema : Option String
  name : String
deriving DecidableEq, Repr

/-- The parts of a text between its dots; there is one more of them than there are dots. -/
def dotParts : List Char → List (List Char)
  | [] => [[]]
  | c :: cs =>
    match dotParts cs with
    | [] => [[c]]
    | part :: parts => if c = '.' then [] :: part :: parts else (c :: part) :: parts

namespace TableName

/-- The name as it is written in SQL. -/
def render (t : TableName) : String :=
  match t.schema with
  | some schema => schema ++ "." ++ t.name
  | none => t.name

/-- Reads `table` or `schema.table`. -/
def ofText? (text : String) : Option TableName :=
  match dotParts text.toList with
  | [table] => if table.isEmpty then none else some ⟨none, String.ofList table⟩
  | [schema, table] =>
    if schema.isEmpty || table.isEmpty then none
    else some ⟨some (String.ofList schema), String.ofList table⟩
  | _ => none

end TableName

end QueryPlan
