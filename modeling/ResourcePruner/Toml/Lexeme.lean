import ResourcePruner.Text.Digits

/-!
# The smallest parts of a TOML document

Blanks, comments, keys, strings, and the numbers, dates and truth values that are recognised without
being told apart. Each reader takes its part from the start of a text and yields what is left; there
is no result when the text does not start with such a part. Line ends are single line feeds.
-/

namespace ResourcePruner.Toml

/-- Why a document is not read. -/
inductive Fault where
  /-- The text breaks a rule of the format. -/
  | malformed
  /-- A whole number has more digits than are read. -/
  | tooLong (digits : Nat)
  /-- An array or a table is inside more of them than are read. -/
  | tooDeep
  deriving DecidableEq

/-- A result, its absence being a breach of the format. -/
def required {α : Type} (result : Option α) : Except Fault α :=
  result.elim (.error .malformed) .ok

/-- Whether a symbol is a blank within a line. -/
def isSpace (s : Symbol) : Bool := s = ' ' || s = '\t'

/-- Whether a symbol is a blank or a line end. -/
def isSpaceOrBreak (s : Symbol) : Bool := isSpace s || s = '\n'

/-- Whether a symbol is a control character other than the tab. -/
def isControl (s : Symbol) : Bool := (s.code < 0x20 && s ≠ '\t') || s = '\x7f'

/-- A text without the blanks at its start. -/
def skipSpace (text : Text) : Text := text.dropWhile isSpace

/-- A text without the comment that it starts with; a comment holds no control character. -/
def skipComment : Text → Option Text
  | .char '#' :: rest =>
    let comment := rest.takeWhile (· ≠ .char '\n')
    if comment.any isControl then none else some (rest.drop comment.length)
  | text => some text

/-- A text without the blanks, line ends and comments at its start, of which there are at most
`fuel`. -/
def skipFillerWithin : (fuel : Nat) → Text → Option Text
  | 0, text => some text
  | fuel + 1, text =>
    match text.dropWhile isSpaceOrBreak with
    | .char '#' :: rest => (skipComment ('#' :: rest)).bind (skipFillerWithin fuel)
    | left => some left

/-- A text without the blanks, line ends and comments at its start. -/
def skipFiller (text : Text) : Option Text :=
  skipFillerWithin text.length text

/-! ## Strings -/

/-- The character of the given number, if it is one. -/
def charOfNumber? (n : Nat) : Option Char :=
  if n.isValidChar then some (Char.ofNat n) else none

/-- The character whose number the first `width` symbols of a text give in hexadecimal digits. -/
def readHexChar (width : Nat) (text : Text) : Option (Text × Text) := do
  let digits := text.take width
  if digits.length = width then
    let c ← charOfNumber? (← Text.hexNumber? digits)
    return ([.char c], text.drop width)
  else
    none

/-- What follows a backslash in a string that may span lines: a line end, with blanks around it, is
left out together with all blanks and line ends after it. -/
def readLineJoin (text : Text) : Option (Text × Text) :=
  match skipSpace text with
  | .char '\n' :: rest => some ([], rest.dropWhile isSpaceOrBreak)
  | _ => none

/-- What follows a backslash in a string: the symbols that it stands for. -/
def readEscape (multiline : Bool) : Text → Option (Text × Text)
  | .char 'b' :: rest => some (['\x08'], rest)
  | .char 't' :: rest => some (['\t'], rest)
  | .char 'n' :: rest => some (['\n'], rest)
  | .char 'f' :: rest => some (['\x0c'], rest)
  | .char 'r' :: rest => some (['\r'], rest)
  | .char '"' :: rest => some (['"'], rest)
  | .char '\\' :: rest => some (['\\'], rest)
  | .char 'u' :: rest => readHexChar 4 rest
  | .char 'U' :: rest => readHexChar 8 rest
  | text => if multiline then readLineJoin text else none

/-- A string with escapes after its opening quotes. -/
def readBasicWithin (multiline : Bool) : (fuel : Nat) → Text → Option (Text × Text)
  | 0, _ => none
  | _ + 1, [] => none
  | fuel + 1, .char '"' :: rest =>
    if !multiline then
      some ([], rest)
    else if (Text.ofString "\"\"").isPrefixOf rest then
      some ([], rest.drop 2)
    else
      (readBasicWithin multiline fuel rest).map fun (text, left) => ('"' :: text, left)
  | fuel + 1, .char '\\' :: rest => do
    let (meant, left) ← readEscape multiline rest
    let (text, left) ← readBasicWithin multiline fuel left
    return (meant ++ text, left)
  | fuel + 1, s :: rest =>
    if isControl s && !(multiline && s = '\n') then
      none
    else
      (readBasicWithin multiline fuel rest).map fun (text, left) => (s :: text, left)

/-- A string with escapes after its opening quotes. -/
def readBasic (multiline : Bool) (text : Text) : Option (Text × Text) :=
  readBasicWithin multiline (text.length + 1) text

/-- A string without escapes after its opening quote. -/
def readLiteral (text : Text) : Option (Text × Text) :=
  let content := text.takeWhile (· ≠ .char '\'')
  match text.drop content.length with
  | _ :: left => if content.any isControl then none else some (content, left)
  | [] => none

/-- Up to two more quote marks before the three that end a string belong to the string. -/
def addMarks (mark : Symbol) (text : Text) (left : Text) : Text × Text :=
  let marks := (left.takeWhile (· = mark)).take 2
  (text ++ marks, left.drop marks.length)

/-- A text without the line end that it starts with. -/
def dropFirstBreak : Text → Text
  | .char '\n' :: rest => rest
  | text => text

/-- A string that may span lines after its three opening quotes. -/
def readMultiline (mark : Symbol) (text : Text) : Option (Text × Text) :=
  let text := dropFirstBreak text
  if mark = '"' then
    (readBasic true text).map fun (content, left) => addMarks mark content left
  else do
    let length ← Text.indexOf? (List.replicate 3 mark) text
    let content := text.take length
    if content.any fun s => isControl s && s ≠ '\n' then
      none
    else
      return addMarks mark content (text.drop (length + 3))

/-- The string that a text starts with. -/
def readString : Text → Option (Text × Text)
  | .char '"' :: .char '"' :: .char '"' :: rest => readMultiline '"' rest
  | .char '\'' :: .char '\'' :: .char '\'' :: rest => readMultiline '\'' rest
  | .char '"' :: rest => readBasic false rest
  | .char '\'' :: rest => readLiteral rest
  | _ => none

/-! ## Keys -/

/-- Whether a symbol can be part of a key without quotes. -/
def isBareKeySymbol (s : Symbol) : Bool :=
  s.satisfies Char.isAlphanum || s = '-' || s = '_'

/-- One name of a key. -/
def readKeyPart : Text → Option (Text × Text)
  | .char '\'' :: rest => readLiteral rest
  | .char '"' :: rest => readBasic false rest
  | text =>
    match text.takeWhile isBareKeySymbol with
    | [] => none
    | part => some (part, text.dropWhile isBareKeySymbol)

/-- The names of a key, with dots between them. -/
def readKeyWithin : (fuel : Nat) → Text → Option (List Text × Text)
  | 0, _ => none
  | fuel + 1, text => do
    let (part, left) ← readKeyPart text
    match skipSpace left with
    | .char '.' :: rest =>
      let (parts, left) ← readKeyWithin fuel (skipSpace rest)
      return (part :: parts, left)
    | left => return ([part], left)

/-- The names of a key, with dots between them. -/
def readKey (text : Text) : Option (List Text × Text) :=
  readKeyWithin (text.length + 1) text

/-! ## Numbers, dates and truth values -/

/-- What is left after the digits that a text starts with, single underscores between them; no
result unless there is a digit. -/
def afterDigits (isDigit : Symbol → Bool) : Text → Option Text
  | s :: rest => if isDigit s then some (go rest) else none
  | [] => none
where
  /-- What is left after further digits, each with an underscore before it or not. -/
  go : Text → Text
    | .char '_' :: s :: rest => if isDigit s then go rest else '_' :: s :: rest
    | s :: rest => if isDigit s then go rest else s :: rest
    | [] => []

/-- What is left after a part that may be missing. -/
def optionally (part : Text → Option Text) (text : Text) : Text :=
  (part text).getD text

/-- What is left after a fraction. -/
def afterFraction : Text → Option Text
  | .char '.' :: rest => afterDigits Text.isDigit rest
  | _ => none

/-- A text without the sign that it starts with. -/
def dropSign : Text → Text
  | .char '+' :: rest => rest
  | .char '-' :: rest => rest
  | text => text

/-- What is left after an exponent. -/
def afterExponent : Text → Option Text
  | e :: rest => if e = 'e' || e = 'E' then afterDigits Text.isDigit (dropSign rest) else none
  | [] => none

/-- What is left after a number in base sixteen, two or eight. -/
def afterPrefixedNumber : Text → Option Text
  | .char '0' :: .char 'x' :: rest => afterDigits (fun s => (Text.hexValue? s).isSome) rest
  | .char '0' :: .char 'b' :: rest => afterDigits (fun s => s = '0' || s = '1') rest
  | .char '0' :: .char 'o' :: rest => afterDigits (·.satisfies fun c => '0' ≤ c && c ≤ '7') rest
  | _ => none

/-- What is left after a whole number in decimal. -/
def afterWhole (text : Text) : Option Text :=
  match dropSign text with
  | .char '0' :: rest => some rest
  | unsigned => afterDigits Text.isDigit unsigned

/-- The number of digits before the rest of a text. -/
def digitsBefore (rest text : Text) : Nat :=
  (text.take (text.length - rest.length)).countP Text.isDigit

/-- What is left after a decimal number. One without fraction and exponent is a whole number, which
must not have too many digits. -/
def afterDecimal (text : Text) : Except Fault Text := do
  let afterDigits ← required (afterWhole text)
  let left := optionally afterExponent (optionally afterFraction afterDigits)
  let digits := digitsBefore afterDigits text
  if left.length = afterDigits.length && Text.maxDigits < digits then
    throw (.tooLong digits)
  return left

/-- What is left after the words for infinity and for no number. -/
def afterSpecialNumber (text : Text) : Option Text :=
  let unsigned := dropSign text
  if (Text.ofString "inf").isPrefixOf unsigned || (Text.ofString "nan").isPrefixOf unsigned then
    some (unsigned.drop 3)
  else
    none

/-- The number that exactly two digits at the start of a text give, if it is at most `last`. -/
def readTwoDigits (last : Nat) : Text → Option (Nat × Text)
  | a :: b :: rest =>
    if Text.isDigit a && Text.isDigit b then
      let n := Text.decimalNumber [a, b]
      if n ≤ last then some (n, rest) else none
    else
      none
  | _ => none

/-- What is left after a given symbol. -/
def afterSymbol (expected : Symbol) : Text → Option Text
  | s :: rest => if s = expected then some rest else none
  | [] => none

/-- What is left after the fraction of a second. -/
def afterSecondFraction : Text → Option Text
  | .char '.' :: s :: rest =>
    if Text.isDigit s then some (rest.dropWhile Text.isDigit) else none
  | _ => none

/-- What is left after a time of day. -/
def afterTime (text : Text) : Option Text := do
  let (_, left) ← readTwoDigits 23 text
  let (_, left) ← readTwoDigits 59 (← afterSymbol ':' left)
  let (_, left) ← readTwoDigits 59 (← afterSymbol ':' left)
  return optionally afterSecondFraction left

/-- What is left after an offset from universal time. -/
def afterOffset : Text → Option Text
  | s :: rest =>
    if s = 'Z' || s = 'z' then
      some rest
    else if s = '+' || s = '-' then do
      let (_, left) ← readTwoDigits 23 rest
      let (_, left) ← readTwoDigits 59 (← afterSymbol ':' left)
      return left
    else
      none
  | [] => none

/-- What is left after a time of day that follows a date. -/
def afterTimeOfDate : Text → Option Text
  | s :: rest =>
    if s = 'T' || s = 't' || s = ' ' then (afterTime rest).map (optionally afterOffset) else none
  | [] => none

/-- Whether a year has a leap day. -/
def isLeapYear (year : Nat) : Bool :=
  year % 4 = 0 && (year % 100 ≠ 0 || year % 400 = 0)

/-- The number of days of a month. -/
def daysInMonth (year month : Nat) : Nat :=
  if month = 2 then (if isLeapYear year then 29 else 28)
  else if month = 4 || month = 6 || month = 9 || month = 11 then 30
  else 31

/-- The date that a text starts with in form, as year, month and day. -/
def readDate (text : Text) : Option ((Nat × Nat × Nat) × Text) := do
  let (century, left) ← readTwoDigits 99 text
  let (year, left) ← readTwoDigits 99 left
  let (month, left) ← readTwoDigits 12 (← afterSymbol '-' left)
  let (day, left) ← readTwoDigits 31 (← afterSymbol '-' left)
  if month = 0 || day = 0 then none else return ((100 * century + year, month, day), left)

/-- What is left after a date, a time, a number or a truth value. A date that the calendar does not
have is refused. -/
def afterScalar (text : Text) : Except Fault Text :=
  if (Text.ofString "true").isPrefixOf text then .ok (text.drop 4)
  else if (Text.ofString "false").isPrefixOf text then .ok (text.drop 5)
  else
    match readDate text with
    | some ((year, month, day), left) =>
      if year ≠ 0 && day ≤ daysInMonth year month then .ok (optionally afterTimeOfDate left)
      else .error .malformed
    | none =>
      match afterTime text <|> afterPrefixedNumber text <|> afterSpecialNumber text with
      | some left => .ok left
      | none => afterDecimal text

end ResourcePruner.Toml
