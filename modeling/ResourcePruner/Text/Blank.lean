import ResourcePruner.Text.Basic

/-!
# Blank characters

The characters that trimming removes: the blanks, tabs and line ends of ASCII with its four
information separators, and the separators beyond ASCII. Zero-width characters are not blank.
-/

namespace ResourcePruner.Text

/-- Whether a symbol is a blank character. -/
def isBlank (s : Symbol) : Bool :=
  inRanges [(0x09, 0x0D), (0x1C, 0x20), (0x85, 0x85), (0xA0, 0xA0), (0x1680, 0x1680),
    (0x2000, 0x200A), (0x2028, 0x2029), (0x202F, 0x202F), (0x205F, 0x205F), (0x3000, 0x3000)]
    s.code

/-- A text without the blanks at its start. -/
def trimStart (text : Text) : Text :=
  text.dropWhile isBlank

/-- A text without the blanks at its start and at its end. -/
def trim (text : Text) : Text :=
  (trimStart (trimStart text).reverse).reverse

end ResourcePruner.Text
