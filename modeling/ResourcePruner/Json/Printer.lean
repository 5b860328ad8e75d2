import ResourcePruner.Json.Value
import ResourcePruner.Text.Digits
import ResourcePruner.Text.Order

/-!
# Printing JSON

Two layouts of one value: on one line, and indented with one item to a line. In both, the fields of
an object stand in the order of their names and every symbol but the visible ones of ASCII is
escaped, those beyond the first plane as two surrogates.
-/

namespace ResourcePruner.Json

/-- A number of at most 16 bits as an escape. -/
def unitEscape (n : Nat) : Text :=
  "\\u" ++ Text.fixedDigits 16 4 n

/-- A symbol as it stands in a string. -/
def escapeSymbol (s : Symbol) : Text :=
  if s = '"' then "\\\""
  else if s = '\\' then "\\\\"
  else if s = '\n' then "\\n"
  else if s = '\r' then "\\r"
  else if s = '\t' then "\\t"
  else if s = '\x08' then "\\b"
  else if s = '\x0c' then "\\f"
  else if 0x20 ≤ s.code && s.code < 0x7F then [s]
  else if s.code < 0x10000 then unitEscape s.code
  else
    let n := s.code - 0x10000
    unitEscape (0xD800 + n / 0x400) ++ unitEscape (0xDC00 + n % 0x400)

/-- The content of a string between quotes. -/
def printString (text : Text) : Text :=
  "\"" ++ text.flatMap escapeSymbol ++ "\""

/-- A whole number in decimal. -/
def printInt : Int → Text
  | .ofNat n => Text.decimal n
  | .negSucc n => '-' :: Text.decimal (n + 1)

/-- Fields in the order of their names. -/
def sortFields {α : Type} (fields : List (Text × α)) : List (Text × α) :=
  (fields.foldl (fun sorted (name, value) => sorted.insert name value) OrderedMap.empty).entries

/-- Texts with a separator between them. -/
def separated (separator : Text) : List Text → Text
  | [] => []
  | [item] => item
  | item :: rest => item ++ separator ++ separated separator rest

mutual

/-- A value on one line. -/
def compact : Json → Text
  | null => "null"
  | bool true => "true"
  | bool false => "false"
  | int n => printInt n
  | real spelling => spelling
  | str text => printString text
  | arr items => "[" ++ separated ", " (compactItems items) ++ "]"
  | obj fields =>
    let printed := (sortFields (compactFields fields)).map fun (name, value) =>
      printString name ++ ": " ++ value
    "\x7b" ++ separated ", " printed ++ "\x7d"

/-- The items of an array, each printed. -/
def compactItems : List Json → List Text
  | [] => []
  | item :: rest => compact item :: compactItems rest

/-- The fields of an object, each value printed. -/
def compactFields : List (Text × Json) → List (Text × Text)
  | [] => []
  | (name, value) :: rest => (name, compact value) :: compactFields rest

end

/-- A line break and the indentation of a depth. -/
def newline (depth : Nat) : Text :=
  '\n' :: List.replicate (2 * depth) ' '

/-- Printed items between brackets, each on a line of its own; nothing between them if there are
none. -/
def block (opening closing : Symbol) (depth : Nat) (items : List Text) : Text :=
  if items.isEmpty then
    [opening, closing]
  else
    opening :: newline (depth + 1) ++ separated (',' :: newline (depth + 1)) items ++
      newline depth ++ [closing]

mutual

/-- A value with one item to a line, `depth` levels deep. -/
def indentedAt (depth : Nat) : Json → Text
  | null => "null"
  | bool true => "true"
  | bool false => "false"
  | int n => printInt n
  | real spelling => spelling
  | str text => printString text
  | arr items => block '[' ']' depth (indentedItems (depth + 1) items)
  | obj fields =>
    block '{' '}' depth <|
      (sortFields (indentedFields (depth + 1) fields)).map fun (name, value) =>
        printString name ++ ": " ++ value

/-- The items of an array, each printed. -/
def indentedItems (depth : Nat) : List Json → List Text
  | [] => []
  | item :: rest => indentedAt depth item :: indentedItems depth rest

/-- The fields of an object, each value printed. -/
def indentedFields (depth : Nat) : List (Text × Json) → List (Text × Text)
  | [] => []
  | (name, value) :: rest => (name, indentedAt depth value) :: indentedFields depth rest

end

/-- A value with one item to a line. -/
def indented (value : Json) : Text :=
  indentedAt 0 value

end ResourcePruner.Json
