import ResourcePruner.Config.Setting
import ResourcePruner.Toml.Lexeme

/-!
# TOML documents

A document is a sequence of statements, one to a line: a pair of key and value, the header of a
table, or the header of a further table of a list. `Toml.parse` yields the fields of the document
or the first fault of the text.

Beside the fields, the reader keeps which tables have been declared, so that none is declared twice,
and which values were written in one piece, so that nothing is added to them later.
-/

namespace ResourcePruner.Toml

open Setting (Fields)

/-- A key, from the document down. -/
abbrev Key := List Text

/-- What is known of the keys of a document beside its fields. -/
structure Ledger where
  /-- Tables that no header may declare and no dotted key may extend any more. -/
  declared : List Key
  /-- Arrays and inline tables: nothing may be added to them or below them. -/
  frozen : List Key
  /-- Tables made by the dotted keys of the current section, declared once it ends. -/
  pending : List Key

namespace Ledger

/-- The ledger of an empty document. -/
def empty : Ledger := ⟨[], [], []⟩

/-- Whether a key leads to a value written in one piece or into one. -/
def isFrozen (ledger : Ledger) (key : Key) : Bool :=
  ledger.frozen.any (·.isPrefixOf key)

/-- Whether a table has been declared. -/
def isDeclared (ledger : Ledger) (key : Key) : Bool :=
  ledger.declared.contains key

/-- Records the declaration of a table. -/
def declare (ledger : Ledger) (key : Key) : Ledger :=
  { ledger with declared := key :: ledger.declared }

/-- Records a value written in one piece. -/
def freeze (ledger : Ledger) (key : Key) : Ledger :=
  { ledger with frozen := key :: ledger.frozen }

/-- Forgets all about a key and the keys below it. -/
def release (ledger : Ledger) (key : Key) : Ledger :=
  { ledger with
    declared := ledger.declared.filter fun other => !key.isPrefixOf other
    frozen := ledger.frozen.filter fun other => !key.isPrefixOf other }

/-- Ends the current section. -/
def endSection (ledger : Ledger) : Ledger :=
  { ledger with declared := ledger.pending ++ ledger.declared, pending := [] }

end Ledger

/-- Whether a value is written in one piece, so that nothing may be added to it. -/
def isCompound : Setting → Bool
  | .list _ => true
  | .table _ => true
  | _ => false

/-- Adds a pair of key and value to the fields of an inline table. -/
def defineInline? (frozen : List Key) (key : Key) (value : Setting) (fields : Fields) :
    Option Fields :=
  if frozen.any (·.isPrefixOf key) then none
  else Setting.changeAt false (Setting.define? (key.getLastD []) value) key.dropLast fields

/-- How deep arrays and inline tables may stand inside one another: their steps add up to this at
most. -/
def maxDepth : Nat := 989

/-- How many steps deeper the items of an array stand than the array itself. -/
def arrayStep : Nat := 2

/-- How many steps deeper the values of an inline table stand than the table itself. -/
def tableStep : Nat := 3

/-- What is left of the room for going deeper after so many steps. -/
def deeper (step room : Nat) : Except Fault Nat :=
  if step ≤ room then .ok (room - step) else .error .tooDeep

mutual

/-- The value that a text starts with, where `room` is left for going deeper. -/
def readValue : (fuel room : Nat) → Text → Except Fault (Setting × Text)
  | 0, _, _ => .error .malformed
  | fuel + 1, room, text =>
    match text with
    | .char '"' :: _ => (required (readString text)).map fun (value, left) => (.text value, left)
    | .char '\'' :: _ => (required (readString text)).map fun (value, left) => (.text value, left)
    | .char '[' :: rest => do
      let room ← deeper arrayStep room
      let (items, left) ← readItems fuel room (← required (skipFiller rest))
      return (.list items, left)
    | .char '{' :: rest => do
      let room ← deeper tableStep room
      match skipSpace rest with
      | .char '}' :: left => return (.table [], left)
      | more =>
        let (fields, left) ← readInlineFields fuel room [] [] more
        return (.table fields, left)
    | _ => (afterScalar text).map fun left => (.other, left)

/-- The items that are left of an array, with its closing bracket. -/
def readItems : (fuel room : Nat) → Text → Except Fault (List Setting × Text)
  | 0, _, _ => .error .malformed
  | fuel + 1, room, text =>
    match text with
    | .char ']' :: left => .ok ([], left)
    | _ => do
      let (item, left) ← readValue fuel room text
      match ← required (skipFiller left) with
      | .char ']' :: left => return ([item], left)
      | .char ',' :: left =>
        let (items, left) ← readItems fuel room (← required (skipFiller left))
        return (item :: items, left)
      | _ => .error .malformed

/-- The fields that are left of an inline table, with its closing brace, after the given ones. -/
def readInlineFields : (fuel room : Nat) → (frozen : List Key) → Fields → Text →
    Except Fault (Fields × Text)
  | 0, _, _, _, _ => .error .malformed
  | fuel + 1, room, frozen, fields, text => do
    let (key, left) ← required (readKey text)
    let (value, left) ← readValue fuel room (skipSpace (← required (afterSymbol '=' left)))
    let fields ← required (defineInline? frozen key value fields)
    match skipSpace left with
    | .char '}' :: left => return (fields, left)
    | .char ',' :: left =>
      readInlineFields fuel room (if isCompound value then key :: frozen else frozen) fields
        (skipSpace left)
    | _ => .error .malformed

end

/-- The pair of key and value that a text starts with. -/
def readPair (text : Text) : Except Fault ((Key × Setting) × Text) := do
  let (key, left) ← required (readKey text)
  let left := skipSpace (← required (afterSymbol '=' left))
  let (value, left) ← readValue (2 * left.length + 2) maxDepth left
  return ((key, value), left)

/-- A document as far as it has been read: its fields, its ledger, and the table that the last
header named. -/
structure State where
  fields : Fields
  ledger : Ledger
  header : Key

/-- Gives a key of the current section a value. -/
def State.define? (state : State) (key : Key) (value : Setting) : Option State := do
  let above := (List.range key.length).filterMap fun i =>
    if i = 0 then none else some (state.header ++ key.take i)
  if above.any state.ledger.isDeclared then none
  let table := state.header ++ key.dropLast
  if state.ledger.isFrozen table then none
  let fields ←
    Setting.changeAt true (Setting.define? (key.getLastD []) value) table state.fields
  let ledger := { state.ledger with pending := above ++ state.ledger.pending }
  let whole := state.header ++ key
  return { state with fields, ledger := if isCompound value then ledger.freeze whole else ledger }

/-- Begins the section of a table. -/
def State.openTable? (state : State) (key : Key) : Option State := do
  let ledger := state.ledger.endSection
  if ledger.isDeclared key || ledger.isFrozen key then none
  let fields ← Setting.changeAt true some key state.fields
  return { fields, ledger := ledger.declare key, header := key }

/-- Begins the section of a further table of a list. -/
def State.openListTable? (state : State) (key : Key) : Option State := do
  let ledger := state.ledger.endSection
  if ledger.isFrozen key then none
  let fields ←
    Setting.changeAt true (Setting.appendTable? (key.getLastD [])) key.dropLast state.fields
  return { fields, ledger := (ledger.release key).declare key, header := key }

/-- The statement that a text starts with; an empty one is a statement, too. -/
def readStatement (state : State) (text : Text) : Except Fault (State × Text) :=
  match text with
  | [] => .ok (state, [])
  | .char '\n' :: _ => .ok (state, text)
  | .char '#' :: _ => .ok (state, text)
  | .char '[' :: .char '[' :: rest => required do
    let (key, left) ← readKey (skipSpace rest)
    let state ← state.openListTable? key
    return (state, ← afterSymbol ']' (← afterSymbol ']' left))
  | .char '[' :: rest => required do
    let (key, left) ← readKey (skipSpace rest)
    let state ← state.openTable? key
    return (state, ← afterSymbol ']' left)
  | _ => do
    let ((key, value), left) ← readPair text
    return (← required (state.define? key value), left)

/-- Reads the statements of a text line by line, at most `fuel` of them. -/
def readStatements : (fuel : Nat) → State → Text → Except Fault State
  | 0, _, _ => .error .malformed
  | fuel + 1, state, text => do
    let (state, left) ← readStatement state (skipSpace text)
    match ← required (skipComment (skipSpace left)) with
    | [] => return state
    | .char '\n' :: rest => readStatements fuel state rest
    | _ => .error .malformed

/-- A text in which a carriage return before a line feed has been left out. -/
def withLineFeeds : Text → Text
  | .char '\r' :: .char '\n' :: rest => '\n' :: withLineFeeds rest
  | c :: rest => c :: withLineFeeds rest
  | [] => []

/-- The fields of a document. -/
def parse (text : Text) : Except Fault Fields :=
  (readStatements (text.length + 1) ⟨[], .empty, []⟩ (withLineFeeds text)).map State.fields

end ResourcePruner.Toml
