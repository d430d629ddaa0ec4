import QueryPlan.Error
import QueryPlan.Text.Blank
import QueryPlan.Text.Json.Reader

/-!
# Reading a configuration

`Config.ofText` reads a configuration from JSON.  An object gives the fields by name, in any order:
a field that is absent has its default, an unknown one is passed over, and a known one may not be
repeated.  An array gives the fields in their order, from the first on.  A level is written as its
name, or as an object whose only field is that name with the value `null`.  The first fault from the
left is the one that is reported.
-/

namespace QueryPlan

/-- Reads a level: its name or its rank, with blanks around it and the letter in either case. -/
def Level.parse (text : String) : Except Error Level :=
  let written := String.ofList ((trimBlanks text.toList).map Char.toUpper)
  match Level.ofNameOrRank? written with
  | some level => .ok level
  | none => .error (.config (.levelText written))

namespace Config

open JsonReader

/-- A reader that says what is wrong when it fails. -/
abbrev Reader (α : Type) := List Char → Except ReadFault (α × List Char)

/-- What is wrong when something else is expected at the front of a text. -/
def misplaced (expected : String) (cs : List Char) : ReadFault :=
  match skipBlanks cs with
  | [] => .malformed
  | '"' :: rest =>
    match readString rest with
    | some (value, _) => .misplacedString value expected
    | none => .malformed
  | _ => .misplaced expected

/-- The given result, or the fault if there is none. -/
def orFault {α : Type} (fault : ReadFault) : Option α → Except ReadFault α
  | some a => .ok a
  | none => .error fault

def readRounds : Reader Nat := fun cs =>
  orFault (misplaced "an integer" cs) (readNatural UInt64.size (skipBlanks cs))

def readFlag : Reader Bool := fun cs =>
  match skipBlanks cs with
  | 't' :: 'r' :: 'u' :: 'e' :: rest => .ok (true, rest)
  | 'f' :: 'a' :: 'l' :: 's' :: 'e' :: rest => .ok (false, rest)
  | _ => .error (misplaced "a boolean" cs)

/-- Passes over `null`. -/
def readNull : Reader Unit := fun cs =>
  match skipBlanks cs with
  | 'n' :: 'u' :: 'l' :: 'l' :: rest => .ok ((), rest)
  | _ => .error (misplaced "null" cs)

/-- Reads the name of a level whose opening quote has been passed. -/
def readLevelName : Reader Level := fun cs => do
  let (name, rest) ← orFault .malformed (readString cs)
  let level ← orFault (.unknownLevel name) (Level.ofName? name)
  return (level, rest)

def readLevel : Reader Level := fun cs =>
  match skipBlanks cs with
  | '"' :: rest => readLevelName rest
  | '\x7b' :: rest => do
      let rest ← orFault (.misplaced "a name") (expect '"' rest)
      let (level, rest) ← readLevelName rest
      let rest ← orFault .malformed (expect ':' rest)
      let ((), rest) ← readNull rest
      let rest ← orFault .malformed (expect '\x7d' rest)
      return (level, rest)
  | _ => .error .malformed

/-- The fields that have been read. -/
structure Partial where
  level : Option Level := none
  maxRounds : Option Nat := none
  validateInput : Option Bool := none

/-- The configuration with the fields that have been read and the defaults of the others. -/
def Partial.complete (p : Partial) : Config :=
  let default : Config := {}
  { level := p.level.getD default.level
    maxRounds := p.maxRounds.getD default.maxRounds
    validateInput := p.validateInput.getD default.validateInput }

/-- Reads the value of a field that may be given once. -/
def readOnce {α : Type} (name : String) (given : Option α) (read : Reader α) : Reader α :=
  fun cs =>
    match given with
    | some _ => .error (.repeatedField name)
    | none => do
        let rest ← orFault .malformed (expect ':' cs)
        read rest

/-- Reads the value of the field with the given name; the first argument bounds the steps. -/
def readField (steps : Nat) (p : Partial) (name : String) : Reader Partial := fun cs =>
  if name = "level" then do
    let (level, rest) ← readOnce name p.level readLevel cs
    return ({ p with level := some level }, rest)
  else if name = "max_reduction_rounds" then do
    let (maxRounds, rest) ← readOnce name p.maxRounds readRounds cs
    return ({ p with maxRounds := some maxRounds }, rest)
  else if name = "validate_input" then do
    let (validateInput, rest) ← readOnce name p.validateInput readFlag cs
    return ({ p with validateInput := some validateInput }, rest)
  else do
    let rest ← orFault .malformed (expect ':' cs)
    let rest ← orFault .malformed (skipValueWithin steps rest)
    return (p, rest)

/-- Reads the fields of an object, of which there is at least one, and its closing brace; the first
argument bounds the steps. -/
def readFields : Nat → Partial → Reader Partial
  | 0, _, _ => .error .malformed
  | steps + 1, p, cs => do
      let rest ← orFault .malformed (expect '"' cs)
      let (name, rest) ← orFault .malformed (readString rest)
      let (p, rest) ← readField steps p name rest
      match expect ',' rest with
      | some rest => readFields steps p rest
      | none => do
          let rest ← orFault .malformed (expect '\x7d' rest)
          return (p, rest)

/-- Reads the next item of an array, with the comma in front of it. -/
def readItem {α : Type} (read : Reader α) : Reader α := fun cs => do
  let rest ← orFault .malformed (expect ',' cs)
  read rest

/-- Reads the items of an array that gives the fields in order, and its closing bracket. -/
def readItems : Reader Partial := fun cs =>
  match expect ']' cs with
  | some rest => .ok ({}, rest)
  | none => do
    let (level, rest) ← readLevel cs
    let p : Partial := { level := some level }
    match expect ']' rest with
    | some rest => return (p, rest)
    | none =>
      let (maxRounds, rest) ← readItem readRounds rest
      let p := { p with maxRounds := some maxRounds }
      match expect ']' rest with
      | some rest => return (p, rest)
      | none =>
        let (validateInput, rest) ← readItem readFlag rest
        let rest ← orFault .malformed (expect ']' rest)
        return ({ p with validateInput := some validateInput }, rest)

/-- Reads the fields of a configuration from an object or an array.  Every step passes over a
character, so the length of the text bounds their number. -/
def readPartial : Reader Partial := fun cs =>
  match skipBlanks cs with
  | '\x7b' :: rest =>
    match expect '\x7d' rest with
    | some rest => .ok ({}, rest)
    | none => readFields (rest.length + 1) {} rest
  | '[' :: rest => readItems rest
  | _ => .error (misplaced "a configuration" cs)

/-- Reads a configuration and nothing after it but blanks. -/
def read (text : String) : Except ReadFault Config := do
  let (p, rest) ← readPartial text.toList
  if (skipBlanks rest).isEmpty then return p.complete else .error .malformed

/-- Reads a configuration from JSON and refuses one that cannot be carried out. -/
def ofText (text : String) : Except Error Config :=
  match read text with
  | .ok c => do
      c.check
      return c
  | .error fault => .error (.config (.unreadable fault))

end Config

/-- Reads a JSON text that is an integer below a limit. -/
def readCount (limit : Nat) (text : String) : Except Error Nat :=
  match JsonReader.readNatural limit (JsonReader.skipBlanks text.toList) with
  | some (n, rest) =>
    if (JsonReader.skipBlanks rest).isEmpty then .ok n
    else .error (.hashing ReadFault.malformed.message)
  | none => .error (.hashing (ReadFault.misplaced "an integer").message)

end QueryPlan
