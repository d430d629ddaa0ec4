import QueryPlan.Config
import QueryPlan.Plan.Basic

/-!
# Errors

An error is a cause.  Its wording is produced in one place, `Error.message`, and `Error.advice`
gives advice to the reader of the message.

* A `PlanFault` is a plan or table name that breaks a rule of construction.
* A `ConfigFault` is a choice that cannot be carried out or read.
* A `Defect` is a state that no well-formed input leads to.  It carries the statement at which it
  was met and the state of the pass, both as text.
* Either can be put into a context that says what was being done.
-/

namespace QueryPlan

/-- A rule of construction that a plan breaks. -/
inductive PlanFault where
  | tableNameSyntax (text : String)
  | emptyTableName (node : NodeId)
  | noColumns (node : NodeId)
  | repeatedColumn (node : NodeId) (name : String)
  | emptySourceName (node : NodeId)
  | repeatedSource (node : NodeId) (name : String)
  | repeatedCte (node : NodeId) (name : String)
  | cteBody (name : String) (found : String)
  | createTableBody (table : TableName) (found : String)
  /-- A fault that a caller states in its own words. -/
  | stated (text : String)
deriving DecidableEq, Repr

/-- A choice that cannot be carried out or read. -/
inductive ConfigFault where
  | noRounds
  | levelText (text : String)
  | unreadable (fault : ReadFault)
  /-- A fault that a caller states in its own words. -/
  | stated (text : String)
deriving DecidableEq, Repr

/-- A state that no well-formed input leads to. -/
structure Defect where
  pass : String
  node : NodeId
  message : String
  nodeText : String
  state : String
deriving DecidableEq, Repr

inductive Error where
  | config (fault : ConfigFault)
  | plan (fault : PlanFault)
  | hashing (text : String)
  | defect (defect : Defect)
  /-- An error met while doing something. -/
  | context (doing : String) (cause : Error)
  /-- A failure outside this library, known by its text only, met while doing something. -/
  | foreign (doing : String) (cause : String)
deriving DecidableEq, Repr

/-! ## Wording -/

/-- A text between single quotes, as it stands. -/
def inQuotes (text : String) : String :=
  "'" ++ text ++ "'"

def PlanFault.message : PlanFault → String
  | .tableNameSyntax text => "invalid table name " ++ inQuotes text
  | .emptyTableName node => "table node " ++ nodeLabel node ++ " has an empty name"
  | .noColumns node => "select node " ++ nodeLabel node ++ " has no select columns"
  | .repeatedColumn node name =>
      "select node " ++ nodeLabel node ++ " repeats column alias " ++ inQuotes name
  | .emptySourceName node => "select node " ++ nodeLabel node ++ " has an empty source alias"
  | .repeatedSource node name =>
      "select node " ++ nodeLabel node ++ " repeats source alias " ++ inQuotes name
  | .repeatedCte node name =>
      "select node " ++ nodeLabel node ++ " defines CTE alias " ++ inQuotes name ++ " twice"
  | .cteBody name found =>
      "CTE " ++ inQuotes name ++ " must wrap a select statement, found " ++ found
  | .createTableBody table found =>
      "CREATE TABLE " ++ table.render ++ " must wrap a select statement, found " ++ found
  | .stated text => text

def ConfigFault.message : ConfigFault → String
  | .noRounds => "max_reduction_rounds must be greater than 0"
  | .levelText text => "unknown optimization level " ++ inQuotes text
  | .unreadable fault => "invalid optimizer config: " ++ fault.message
  | .stated text => text

def Defect.text (d : Defect) : String :=
  "Internal invariant failed in " ++ d.pass ++ " at node " ++ nodeLabel d.node ++ ": " ++
    d.message ++ "\nnode: " ++ d.nodeText ++ "\nstate: " ++ d.state

/-- Whether a word occurs in a text. -/
def hasWord (word : List Char) : List Char → Bool
  | [] => word.isEmpty
  | c :: cs => word.isPrefixOf (c :: cs) || hasWord word cs

namespace Error

def message : Error → String
  | .config fault => "Invalid configuration: " ++ fault.message
  | .plan fault => "Invalid plan: " ++ fault.message
  | .hashing text => "Hashing error: " ++ text
  | .defect d => d.text
  | .context doing cause => "Error in " ++ doing ++ ": " ++ cause.message
  | .foreign doing cause => "Error in " ++ doing ++ ": " ++ cause

/-- The messages of the errors below this one, the nearest first. -/
def causes : Error → List String
  | .context _ cause => cause.message :: cause.causes
  | .foreign _ cause => [cause]
  | _ => []

/-- The defect that an error is or reports, whatever its context. -/
def defect? : Error → Option Defect
  | .defect d => some d
  | .context _ cause => cause.defect?
  | _ => none

def isDefect (e : Error) : Bool :=
  e.defect?.isSome

/-- Advice for common errors. -/
def advice : Error → List String
  | .plan fault =>
      if hasWord "alias".toList fault.message.toList then
        ["Check that every source in a SELECT has a distinct alias",
          "Check that select column aliases are unique within a statement"]
      else ["Verify the plan produced by the dataflow-to-SQL converter"]
  | .config fault =>
      if hasWord "level".toList fault.message.toList then
        ["Supported optimization levels: O0, O1, O2, O3, O4"]
      else []
  | .defect _ =>
      ["This is a bug in the optimizer, not in the query",
        "Retry with optimization level O0 to bypass the rewrite passes"]
  | _ => []

end Error

/-- Reads `table` or `schema.table`. -/
def TableName.parse (text : String) : Except Error TableName :=
  match TableName.ofText? text with
  | some t => .ok t
  | none => .error (.plan (.tableNameSyntax text))

/-- Refuses a configuration that would never merge anything. -/
def Config.check (c : Config) : Except Error Unit :=
  if c.maxRounds = 0 then .error (.config .noRounds) else .ok ()

end QueryPlan
