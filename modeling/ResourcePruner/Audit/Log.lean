import ResourcePruner.Audit.Event
import ResourcePruner.Disk.Files
import ResourcePruner.Text.Blank

/-!
# The audit log

The log is a file with one event to a line. It is only ever added to. A reader takes the lines that
are values, other lines being passed over, keeps those from a moment on if it is asked to, and
yields the last of them.
-/

namespace ResourcePruner.Audit

/-- Adds an event to the log. -/
def append (disk : Disk) (log : Path) (event : Event) : Except Disk.Error Disk :=
  disk.append log (Utf8.encode event.line)

/-- Why a log cannot be read, or an event not be recorded. -/
inductive LogFault where
  /-- An entry has no fields to compare; the fault names the type of its value. -/
  | noFields (type : Text)
  /-- A whole number has more digits than are read. -/
  | numberTooLong (digits : Nat)
  /-- A value that holds others is inside more of them than are read; if nothing was read, than are
  recorded. -/
  | tooDeep (innermost : Option Json.Container)
  | unreadable (error : Disk.Error)
  | undecodable (fault : Utf8.Fault)
  deriving DecidableEq

/-- The name of a value's type. -/
def typeName : Json → Text
  | .null => "NoneType"
  | .bool _ => "bool"
  | .int _ => "int"
  | .real _ => "float"
  | .str _ => "str"
  | .arr _ => "list"
  | .obj _ => "dict"

/-- Whether an entry was recorded at a moment or later; an entry without a timestamp never was. -/
def isSince (since : Text) (entry : Json) : Except LogFault Bool :=
  match entry with
  | .obj fields =>
    match Json.lookup "timestamp" fields with
    | some (.str timestamp) => .ok (!(timestamp < since))
    | _ => .ok false
  | other => .error (.noFields (typeName other))

/-- The entry of a line, if the line is a value and recorded since the given moment. -/
def entryOfLine (since : Option Text) (line : Text) : Except LogFault (Option Json) :=
  match Json.parse (Text.trim line) with
  | .error .malformed => .ok none
  | .error (.tooLong digits) => .error (.numberTooLong digits)
  | .error (.tooDeep innermost) => .error (.tooDeep (some innermost))
  | .ok entry =>
    match since with
    | none => .ok (some entry)
    | some moment => (isSince moment entry).map fun recent => if recent then some entry else none

/-- The entries of a log's text. -/
def entries (since : Option Text) (text : Text) : Except LogFault (List Json) :=
  ((Text.splitAt '\n' (Text.withUniformBreaks text)).mapM (entryOfLine since)).map
    (·.filterMap id)

/-- The last entries of the log, at most `limit` of them. A log that is missing has none. -/
def read (disk : Disk) (log : Path) (since : Option Text) (limit : Int) :
    Except LogFault (List Json) := do
  if limit < 1 then
    return []
  if !(← (disk.isPresent log).mapError .unreadable) then
    return []
  let bytes ← (disk.read log).mapError .unreadable
  let text ← (Utf8.decode? bytes).mapError .undecodable
  let found ← entries since text
  return found.drop (found.length - limit.toNat)

end ResourcePruner.Audit
