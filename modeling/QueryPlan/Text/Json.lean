/-!
# JSON values and their text

`Json.text` writes a value without blanks, the fields of an object in their order.  In strings the
quote, the backslash and the control characters below U+0020 are escaped and every other character
stands for itself.
-/

namespace QueryPlan

/-- A JSON value whose numbers are natural.  An object lists its fields in the order in which they
are written. -/
inductive Json where
  | null
  | bool (b : Bool)
  | nat (n : Nat)
  | str (s : String)
  | arr (items : List Json)
  | obj (fields : List (String × Json))

namespace Json

/-- The lower-case hexadecimal digit of a number below sixteen. -/
def hexDigit (n : Nat) : Char :=
  if n < 10 then Char.ofNat (48 + n) else Char.ofNat (87 + n)

/-- How a character is written inside a string. -/
def escape (c : Char) : List Char :=
  match c with
  | '"' => ['\\', '"']
  | '\\' => ['\\', '\\']
  | '\x08' => ['\\', 'b']
  | '\t' => ['\\', 't']
  | '\n' => ['\\', 'n']
  | '\x0c' => ['\\', 'f']
  | '\r' => ['\\', 'r']
  | c =>
    if c.toNat < 0x20 then
      ['\\', 'u', '0', '0', hexDigit (c.toNat / 16), hexDigit (c.toNat % 16)]
    else [c]

/-- A string between quotes. -/
def quote (s : String) : String :=
  String.ofList ('"' :: s.toList.flatMap escape ++ ['"'])

mutual
/-- The text of a value. -/
def text : Json → String
  | .null => "null"
  | .bool b => if b then "true" else "false"
  | .nat n => n.repr
  | .str s => quote s
  | .arr items => "[" ++ ",".intercalate (textList items) ++ "]"
  | .obj fields => "\x7b" ++ ",".intercalate (textFields fields) ++ "\x7d"

/-- The texts of the items of an array. -/
def textList : List Json → List String
  | [] => []
  | j :: js => j.text :: textList js

/-- The texts of the fields of an object. -/
def textFields : List (String × Json) → List String
  | [] => []
  | (k, j) :: fs => (quote k ++ ":" ++ j.text) :: textFields fs
end

@[simp] theorem textList_eq_map : ∀ js : List Json, textList js = js.map text
  | [] => rfl
  | j :: js => by rw [textList, textList_eq_map js, List.map_cons]

@[simp] theorem textFields_eq_map : ∀ fs : List (String × Json),
    textFields fs = fs.map fun f => quote f.1 ++ ":" ++ f.2.text
  | [] => rfl
  | (k, j) :: fs => by rw [textFields, textFields_eq_map fs, List.map_cons]

/-- The value of an optional part, `null` when it is absent. -/
def ofOption {α : Type} (f : α → Json) : Option α → Json
  | none => .null
  | some a => f a

/-- An array of strings. -/
def ofStrings (ss : List String) : Json :=
  .arr (ss.map .str)

end Json

end QueryPlan
