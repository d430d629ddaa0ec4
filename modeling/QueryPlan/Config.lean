import QueryPlan.Level
import QueryPlan.Text.Json

/-!
# Configuration

`Config` holds the choices of a caller, and `Config.text` writes them as JSON.  The reader stands
in a module of its own; what it can find wrong is a `ReadFault`.  The wording of a `ReadFault` is
not part of the format: other readers of the same texts word it differently.
-/

namespace QueryPlan

/-- What a caller can choose. -/
structure Config where
  level : Level := .o4
  /-- How often a statement may be merged with the sub-query it reads. -/
  maxRounds : Nat := 64
  /-- Whether the plan is checked before any pass runs. -/
  validateInput : Bool := true
deriving DecidableEq, Repr

namespace Config

def toJson (c : Config) : Json :=
  .obj
    [("level", .str c.level.name), ("max_reduction_rounds", .nat c.maxRounds),
      ("validate_input", .bool c.validateInput)]

/-- The configuration as JSON text. -/
def text (c : Config) : String :=
  c.toJson.text

end Config

/-- What can be wrong with the text of a configuration. -/
inductive ReadFault where
  /-- The text is not JSON, or goes on after its value. -/
  | malformed
  | repeatedField (name : String)
  | unknownLevel (name : String)
  /-- A string stands where something else is expected. -/
  | misplacedString (value expected : String)
  /-- A value of another kind stands where something else is expected. -/
  | misplaced (expected : String)
deriving DecidableEq, Repr

/-- A fault in words.  They are the words of this library, and differ from those of other JSON
readers, which also say at which line and column the fault lies.  All that depends on them is
whether they hold the word `level`, for which `Error.advice` looks. -/
def ReadFault.message : ReadFault → String
  | .malformed => "malformed JSON"
  | .repeatedField name => "duplicate field '" ++ name ++ "'"
  | .unknownLevel name =>
      "unknown variant '" ++ name ++ "', expected one of " ++
        ", ".intercalate (Level.all.map Level.name)
  | .misplacedString value expected =>
      "invalid type: string '" ++ value ++ "', expected " ++ expected
  | .misplaced expected => "invalid type, expected " ++ expected

end QueryPlan
