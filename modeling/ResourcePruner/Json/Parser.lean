import ResourcePruner.Json.Value
import ResourcePruner.Text.Digits

/-!
# Reading JSON

A reader takes a value from the start of a text and yields it with what is left. Beyond the grammar
of the format it accepts the three numbers that are not finite; a name that an object has twice
keeps its last value. A whole number with more digits than are read, and an array or object inside
too many others, are refused with causes of their own.
-/

namespace ResourcePruner.Json

/-- A value that holds others. -/
inductive Container where
  | array
  | object
  deriving DecidableEq, Repr

/-- Why a text is not read as a value. -/
inductive Fault where
  | malformed
  /-- A whole number has more digits than are read. -/
  | tooLong (digits : Nat)
  /-- A value that holds others is inside more of them than are read. -/
  | tooDeep (innermost : Container)
  deriving DecidableEq

/-- What reading from the start of a text yields. -/
abbrev Reading (α : Type) := Except Fault (α × Text)

/-- A text without the blanks that may stand between its tokens. -/
def skipBlanks (text : Text) : Text :=
  text.dropWhile fun s => s = ' ' || s = '\t' || s = '\n' || s = '\r'

/-- The symbol that a one-letter escape stands for. -/
def shortEscape? : Symbol → Option Symbol
  | .char '"' => some '"'
  | .char '\\' => some '\\'
  | .char '/' => some '/'
  | .char 'b' => some '\x08'
  | .char 'f' => some '\x0c'
  | .char 'n' => some '\n'
  | .char 'r' => some '\r'
  | .char 't' => some '\t'
  | _ => none

/-- The rest of a string after its opening quote, the halves of surrogate pairs still apart. -/
def stringSymbols : Text → Reading Text
  | [] => .error .malformed
  | .char '"' :: rest => .ok ([], rest)
  | .char '\\' :: .char 'u' :: a :: b :: c :: d :: rest =>
    match Text.hexNumber? [a, b, c, d] with
    | none => .error .malformed
    | some n => (stringSymbols rest).map fun (symbols, left) => (.ofCode n :: symbols, left)
  | .char '\\' :: e :: rest =>
    match shortEscape? e with
    | none => .error .malformed
    | some s => (stringSymbols rest).map fun (symbols, left) => (s :: symbols, left)
  | s :: rest =>
    if s.code < 0x20 || s = '\\' then .error .malformed
    else (stringSymbols rest).map fun (symbols, left) => (s :: symbols, left)

/-- The character that two halves of a surrogate pair make; none when the first one is no first half
or the second one no second half. -/
def pairedChar? : Symbol → Symbol → Option Char
  | .half n, .half m =>
    if n.val < 0x400 && 0x400 ≤ m.val then
      some (Char.ofNat (0x10000 + n.val * 0x400 + (m.val - 0x400)))
    else
      none
  | _, _ => none

/-- A text in which a first half of a surrogate pair and a second one after it are one character. -/
def joinPairs : Text → Text
  | [] => []
  | [s] => [s]
  | s :: t :: rest =>
    match pairedChar? s t with
    | some c => .char c :: joinPairs rest
    | none => s :: joinPairs (t :: rest)

/-- The rest of a string after its opening quote. -/
def readString (text : Text) : Reading Text :=
  (stringSymbols text).map fun (symbols, left) => (joinPairs symbols, left)

/-- The digits that a text starts with, and what is left. -/
def spanDigits (text : Text) : Text × Text :=
  (text.takeWhile Text.isDigit, text.dropWhile Text.isDigit)

/-- The fraction that a text starts with, and what is left. -/
def spanFraction : Text → Text × Text
  | .char '.' :: rest =>
    match spanDigits rest with
    | ([], _) => ([], '.' :: rest)
    | (digits, left) => ('.' :: digits, left)
  | text => ([], text)

/-- The exponent that a text starts with, and what is left. -/
def spanExponent : Text → Text × Text
  | [] => ([], [])
  | e :: rest =>
    if e = 'e' || e = 'E' then
      let sign := rest.take 1 |>.filter fun (s : Symbol) => s = '+' || s = '-'
      match spanDigits (rest.drop sign.length) with
      | ([], _) => ([], e :: rest)
      | (digits, left) => (e :: sign ++ digits, left)
    else
      ([], e :: rest)

/-- The digits of a whole number that a text starts with: a zero, or digits that start with none. -/
def wholeDigits : Text → Text × Text
  | .char '0' :: rest => ("0", rest)
  | text => spanDigits text

/-- The number that a text starts with. -/
def readNumber (text : Text) : Reading Json :=
  let negative := (Text.ofString "-").isPrefixOf text
  let (whole, afterWhole) := wholeDigits (if negative then text.drop 1 else text)
  if whole = [] then
    .error .malformed
  else
    let (fraction, afterFraction) := spanFraction afterWhole
    let (exponent, left) := spanExponent afterFraction
    if fraction = [] && exponent = [] then
      if Text.maxDigits < whole.length then
        .error (.tooLong whole.length)
      else
        let n := Text.decimalNumber whole
        .ok (.int (if negative then -n else n), left)
    else
      let sign : Text := if negative then "-" else ""
      .ok (.real (sign ++ whole ++ fraction ++ exponent), left)

/-- The words that stand for a value. -/
def words : List (Text × Json) :=
  [("null", .null), ("true", .bool true), ("false", .bool false),
    ("NaN", .real "NaN"), ("Infinity", .real "Infinity"),
    ("-Infinity", .real "-Infinity")]

/-- The word or number that a text starts with. -/
def readAtom (text : Text) : Reading Json :=
  match words.find? fun (word, _) => word.isPrefixOf text with
  | some (word, value) => .ok (value, text.drop word.length)
  | none => readNumber text

/-- Fields in which a name has a value, in the place of any earlier one. -/
def setField (name : Text) (value : Json) : List (Text × Json) → List (Text × Json)
  | [] => [(name, value)]
  | (key, old) :: rest =>
    if key = name then (key, value) :: rest else (key, old) :: setField name value rest

/-- How many arrays and objects are read inside one another. -/
def maxDepth : Nat := 992

mutual

/-- The value that a text starts with, which is inside all but `room` of the arrays and objects that
may hold one another. -/
def readValue : (fuel room : Nat) → Text → Reading Json
  | 0, _, _ => .error .malformed
  | fuel + 1, room, text =>
    match text with
    | .char '"' :: rest => (readString rest).map fun (value, left) => (.str value, left)
    | .char '[' :: rest =>
      match room with
      | 0 => .error (.tooDeep .array)
      | room + 1 =>
        match skipBlanks rest with
        | .char ']' :: left => .ok (.arr [], left)
        | more => (readItems fuel room more).map fun (items, left) => (.arr items, left)
    | .char '{' :: rest =>
      match room with
      | 0 => .error (.tooDeep .object)
      | room + 1 =>
        match skipBlanks rest with
        | .char '}' :: left => .ok (.obj [], left)
        | more => (readFields fuel room [] more).map fun (fields, left) => (.obj fields, left)
    | _ => readAtom text

/-- The items that are left of an array, with its closing bracket. -/
def readItems : (fuel room : Nat) → Text → Reading (List Json)
  | 0, _, _ => .error .malformed
  | fuel + 1, room, text =>
    match readValue fuel room text with
    | .error fault => .error fault
    | .ok (item, left) =>
      match skipBlanks left with
      | .char ']' :: left => .ok ([item], left)
      | .char ',' :: left =>
        (readItems fuel room (skipBlanks left)).map fun (items, left) => (item :: items, left)
      | _ => .error .malformed

/-- The fields that are left of an object, with its closing brace, after the given ones. -/
def readFields : (fuel room : Nat) → (before : List (Text × Json)) → Text →
    Reading (List (Text × Json))
  | 0, _, _, _ => .error .malformed
  | fuel + 1, room, before, text =>
    match text with
    | .char '"' :: rest =>
      match readString rest with
      | .error fault => .error fault
      | .ok (name, left) =>
        match skipBlanks left with
        | .char ':' :: left =>
          match readValue fuel room (skipBlanks left) with
          | .error fault => .error fault
          | .ok (value, left) =>
            let fields := setField name value before
            match skipBlanks left with
            | .char '}' :: left => .ok (fields, left)
            | .char ',' :: left => readFields fuel room fields (skipBlanks left)
            | _ => .error .malformed
        | _ => .error .malformed
    | _ => .error .malformed

end

/-- The value that a text holds, with nothing but blanks around it. -/
def parse (text : Text) : Except Fault Json :=
  match readValue (2 * text.length + 2) maxDepth (skipBlanks text) with
  | .error fault => .error fault
  | .ok (value, left) => if skipBlanks left = [] then .ok value else .error .malformed

/-- The value that a text holds. -/
def parse? (text : Text) : Option Json :=
  match parse text with
  | .ok value => some value
  | .error _ => none

end ResourcePruner.Json
