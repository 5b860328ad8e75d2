import ResourcePruner.Audit.Instant
import ResourcePruner.Json.Parser
import ResourcePruner.Json.Printer
import ResourcePruner.Path

/-!
# Events

What is recorded of a run: each event names an action, says whether it succeeded, and carries named
data. Paths among the data are recorded as their texts.

Data nest only so deep. Each level takes two of the thousand calls that may be open at once, so that
lists and objects can be recorded up to `Datum.maxDepth` levels and printed up to `Event.maxDepth`.
The bounds are those of a recorder that is called from near the outermost call; for every two calls
that it is further in, they are lower by one.
-/

namespace ResourcePruner

/-- Data of an event before it is recorded. -/
inductive Datum where
  | json (value : Json)
  | path (path : Path)
  | list (items : List Datum)
  | object (fields : List (Text × Datum))

namespace Datum

/-- A text. -/
def text (t : Text) : Datum := json (.str t)

/-- A whole number. -/
def nat (n : Nat) : Datum := json (.int n)

/-- Several paths. -/
def paths (items : List Path) : Datum := list (items.map path)

mutual

/-- Data as they are recorded, however deep they nest. -/
def plain : Datum → Json
  | json value => value
  | path p => .str p.text
  | list items => .arr (plainItems items)
  | object fields => .obj (plainFields fields)

/-- The items of a list as they are recorded. -/
def plainItems : List Datum → List Json
  | [] => []
  | item :: rest => plain item :: plainItems rest

/-- The fields of an object as they are recorded. -/
def plainFields : List (Text × Datum) → List (Text × Json)
  | [] => []
  | (name, item) :: rest => (name, plain item) :: plainFields rest

end

/-- How deep data nest at most that are recorded. -/
def maxDepth : Nat := 495

end Datum

/-- A recorded action. -/
structure Event where
  timestamp : Text
  runId : Text
  action : Text
  ok : Bool
  errorCode : Option Text
  metadata : List (Text × Json)

namespace Event

/-- How deep the data of an event nest at most that is printed. -/
def maxDepth : Nat := 493

/-- An event as a value of the log. -/
def toJson (event : Event) : Json :=
  .obj
    [("timestamp", .str event.timestamp), ("run_id", .str event.runId),
      ("action", .str event.action), ("ok", .bool event.ok),
      ("error_code", (event.errorCode.map Json.str).getD .null),
      ("metadata", .obj event.metadata)]

/-- An event as a line of the log. -/
def line (event : Event) : Text :=
  event.toJson.compact ++ "\n"

end Event

end ResourcePruner
