import ResourcePruner.Text.Digits
import ResourcePruner.Text.Printable

/-!
# Quoted text

The way a message shows a path or a value: between single quotes, or between double quotes when the
text holds a single quote and no double one, with every symbol that would not be seen escaped.
-/

namespace ResourcePruner.Text

/-- The escape of a symbol that is not shown as it is: its number in the fewest of two, four or
eight hexadecimal digits. -/
def numberEscape (s : Symbol) : Text :=
  if s.code < 0x100 then "\\x" ++ fixedDigits 16 2 s.code
  else if s.code < 0x10000 then "\\u" ++ fixedDigits 16 4 s.code
  else "\\U" ++ fixedDigits 16 8 s.code

/-- A symbol as it stands inside a quotation with the given quote mark. -/
def quotedSymbol (mark s : Symbol) : Text :=
  if s = mark || s = '\\' then ['\\', s]
  else if s = '\t' then "\\t"
  else if s = '\n' then "\\n"
  else if s = '\r' then "\\r"
  else if isPrintable s then [s]
  else numberEscape s

/-- A text between quote marks. -/
def quoted (text : Text) : Text :=
  let mark : Symbol := if text.contains '\'' && !text.contains '"' then '"' else '\''
  mark :: text.flatMap (quotedSymbol mark) ++ [mark]

end ResourcePruner.Text
