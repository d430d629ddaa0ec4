import QueryPlan.Text.Unprintable

/-!
# Quoted text

How a name is shown inside a message: between double quotes, with quotes, backslashes and
characters that are not shown by themselves escaped.  `quotedList` and `quotedSet` show several
names between brackets or braces.
-/

namespace QueryPlan

/-- How a character is shown inside a quoted text. -/
def quotedChar (c : Char) : List Char :=
  match c with
  | '\x00' => ['\\', '0']
  | '\t' => ['\\', 't']
  | '\n' => ['\\', 'n']
  | '\r' => ['\\', 'r']
  | '"' => ['\\', '"']
  | '\\' => ['\\', '\\']
  | c =>
    if isUnprintable c then
      ['\\', 'u', '\x7b'] ++ Nat.toDigits 16 c.toNat ++ ['\x7d']
    else [c]

/-- A text between double quotes. -/
def quoted (s : String) : String :=
  String.ofList ('"' :: s.toList.flatMap quotedChar ++ ['"'])

/-- Several texts, quoted, between brackets. -/
def quotedList (ss : List String) : String :=
  "[" ++ ", ".intercalate (ss.map quoted) ++ "]"

/-- Several texts, quoted, between braces. -/
def quotedSet (ss : List String) : String :=
  "\x7b" ++ ", ".intercalate (ss.map quoted) ++ "\x7d"

end QueryPlan
