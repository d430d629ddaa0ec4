/-!
# Reading JSON text

Readers take the front of a text and return what stands behind it; they give nothing when the text
does not start as they expect.

* `scanString` takes a string apart into characters and numbered code units.  `readString` decodes
  them and insists that surrogates come in pairs; `skipString` does not.
* `readNatural` reads an integer without sign, fraction and exponent.
* `skipValueWithin` passes over any value.  Numbers may be of any size, and values nested to any
  depth; every step passes over a character, so more steps than characters always suffice.
-/

namespace QueryPlan.JsonReader

/-! ## Blanks and digits -/

/-- The characters that may stand between the parts of a JSON text. -/
def isBlank (c : Char) : Bool :=
  c == ' ' || c == '\n' || c == '\t' || c == '\r'

def skipBlanks (cs : List Char) : List Char :=
  cs.dropWhile isBlank

/-- The value of a hexadecimal digit. -/
def hexValue? (c : Char) : Option Nat :=
  if '0' ≤ c ∧ c ≤ '9' then some (c.toNat - 48)
  else if 'a' ≤ c ∧ c ≤ 'f' then some (c.toNat - 87)
  else if 'A' ≤ c ∧ c ≤ 'F' then some (c.toNat - 55)
  else none

/-- The value of four hexadecimal digits. -/
def hexUnit? (a b c d : Char) : Option Nat := do
  return (((← hexValue? a) * 16 + (← hexValue? b)) * 16 + (← hexValue? c)) * 16 + (← hexValue? d)

/-! ## Strings -/

/-- A part of a string: a character, or a code unit that is given by number. -/
inductive Piece where
  | char (c : Char)
  | unit (n : Nat)
deriving DecidableEq, Repr

/-- The character that a letter stands for after a backslash. -/
def escaped? : Char → Option Char
  | '"' => some '"'
  | '\\' => some '\\'
  | '/' => some '/'
  | 'b' => some '\x08'
  | 'f' => some '\x0c'
  | 'n' => some '\n'
  | 'r' => some '\r'
  | 't' => some '\t'
  | _ => none

/-- The parts of a string whose opening quote has been passed, and the text after it. -/
def scanString : List Char → Option (List Piece × List Char)
  | [] => none
  | '"' :: rest => some ([], rest)
  | '\\' :: 'u' :: a :: b :: c :: d :: rest => do
      let n ← hexUnit? a b c d
      let (pieces, rest) ← scanString rest
      return (.unit n :: pieces, rest)
  | '\\' :: c :: rest => do
      let c ← escaped? c
      let (pieces, rest) ← scanString rest
      return (.char c :: pieces, rest)
  | c :: rest =>
    if c.toNat < 0x20 || c == '\\' then none
    else do
      let (pieces, rest) ← scanString rest
      return (.char c :: pieces, rest)

/-- The character that two surrogates stand for. -/
def pairChar (high low : Nat) : Char :=
  Char.ofNat (0x10000 + (high - 0xD800) * 0x400 + (low - 0xDC00))

/-- The text of a string; nothing if a surrogate stands alone. -/
def decode : List Piece → Option (List Char)
  | [] => some []
  | .char c :: ps => do return c :: (← decode ps)
  | [.unit n] => if 0xD800 ≤ n ∧ n < 0xE000 then none else some [Char.ofNat n]
  | .unit n :: .char c :: ps =>
    if 0xD800 ≤ n ∧ n < 0xE000 then none else do return Char.ofNat n :: c :: (← decode ps)
  | .unit n :: .unit m :: ps =>
    if 0xD800 ≤ n ∧ n < 0xDC00 then
      if 0xDC00 ≤ m ∧ m < 0xE000 then do return pairChar n m :: (← decode ps) else none
    else if 0xDC00 ≤ n ∧ n < 0xE000 then none
    else do return Char.ofNat n :: (← decode (.unit m :: ps))

/-- The text of a string whose opening quote has been passed, and what stands behind it. -/
def readString (cs : List Char) : Option (String × List Char) := do
  let (pieces, rest) ← scanString cs
  let chars ← decode pieces
  return (String.ofList chars, rest)

def skipString (cs : List Char) : Option (List Char) :=
  (scanString cs).map Prod.snd

/-! ## Numbers -/

/-- Splits off the digits at the front. -/
def digits (cs : List Char) : List Char × List Char :=
  (cs.takeWhile Char.isDigit, cs.dropWhile Char.isDigit)

/-- Passes over the digits of an integer, which has no needless zero in front. -/
def skipInteger (cs : List Char) : Option (List Char) :=
  match digits cs with
  | ([], _) => none
  | ('0' :: _ :: _, _) => none
  | (_, rest) => some rest

/-- Passes over the digits at the front, of which there must be some. -/
def skipDigits (cs : List Char) : Option (List Char) :=
  match digits cs with
  | ([], _) => none
  | (_, rest) => some rest

/-- Passes over a fraction, if there is one. -/
def skipFraction : List Char → Option (List Char)
  | '.' :: rest => skipDigits rest
  | cs => some cs

/-- Passes over an exponent, if there is one. -/
def skipExponent : List Char → Option (List Char)
  | 'e' :: '+' :: rest | 'e' :: '-' :: rest | 'E' :: '+' :: rest | 'E' :: '-' :: rest =>
      skipDigits rest
  | 'e' :: rest | 'E' :: rest => skipDigits rest
  | cs => some cs

/-- Passes over a number. -/
def skipNumber (cs : List Char) : Option (List Char) := do
  let rest ← skipInteger (if cs.head? = some '-' then cs.tail else cs)
  let rest ← skipFraction rest
  skipExponent rest

/-- The number that decimal digits stand for. -/
def naturalOfDigits (ds : List Char) : Nat :=
  ds.foldl (fun n d => 10 * n + (d.toNat - 48)) 0

/-- An integer below a limit, written with digits only. -/
def readNatural (limit : Nat) (cs : List Char) : Option (Nat × List Char) := do
  let rest ← skipInteger cs
  let n := naturalOfDigits (digits cs).1
  match rest.head? with
  | some '.' | some 'e' | some 'E' => none
  | _ => if n < limit then return (n, rest) else none

/-! ## Values -/

/-- Passes over a given character, with blanks in front of it. -/
def expect (c : Char) (cs : List Char) : Option (List Char) :=
  match skipBlanks cs with
  | d :: rest => if d = c then some rest else none
  | [] => none

mutual
/-- Passes over a value, with blanks in front of it; the first argument bounds the steps. -/
def skipValueWithin : Nat → List Char → Option (List Char)
  | 0, _ => none
  | steps + 1, cs =>
    match skipBlanks cs with
    | '"' :: rest => skipString rest
    | '[' :: rest => (expect ']' rest).or (skipItems steps rest)
    | '\x7b' :: rest => (expect '\x7d' rest).or (skipFields steps rest)
    | 'n' :: 'u' :: 'l' :: 'l' :: rest => some rest
    | 't' :: 'r' :: 'u' :: 'e' :: rest => some rest
    | 'f' :: 'a' :: 'l' :: 's' :: 'e' :: rest => some rest
    | cs => skipNumber cs

/-- Passes over the items of an array, of which there is at least one, and its closing bracket. -/
def skipItems : Nat → List Char → Option (List Char)
  | 0, _ => none
  | steps + 1, cs => do
    let rest ← skipValueWithin steps cs
    match expect ',' rest with
    | some rest => skipItems steps rest
    | none => expect ']' rest

/-- Passes over the fields of an object, of which there is at least one, and its closing brace. -/
def skipFields : Nat → List Char → Option (List Char)
  | 0, _ => none
  | steps + 1, cs => do
    let rest ← expect '"' cs
    let rest ← skipString rest
    let rest ← expect ':' rest
    let rest ← skipValueWithin steps rest
    match expect ',' rest with
    | some rest => skipFields steps rest
    | none => expect '\x7d' rest
end

end QueryPlan.JsonReader
