import ResourcePruner.Text.Basic

/-!
# Lines

A text falls into lines at the characters of `Text.isLineBreak`; a carriage return and a line feed
after it are one terminator. `Text.linesWithEnds` keeps each line's terminator, `Text.lines` drops
it, and `Text.withUniformBreaks` first turns the three ASCII conventions into the line feed.

Main statement: `Text.flatten_linesWithEnds`, no symbol is lost or moved by cutting into lines.
-/

namespace ResourcePruner.Text

/-- Whether a symbol ends a line. -/
def isLineBreak (s : Symbol) : Bool :=
  inRanges [(0x0A, 0x0D), (0x1C, 0x1E), (0x85, 0x85), (0x2028, 0x2029)] s.code

/-- The lines of a text, each with its own terminator. -/
def linesWithEnds : Text → List Text
  | [] => []
  | .char '\r' :: .char '\n' :: rest => "\r\n" :: linesWithEnds rest
  | s :: rest =>
    if isLineBreak s then
      [s] :: linesWithEnds rest
    else
      match linesWithEnds rest with
      | [] => [[s]]
      | line :: others => (s :: line) :: others

/-- The lines of a text without their terminators. -/
def lines : Text → List Text
  | [] => []
  | .char '\r' :: .char '\n' :: rest => [] :: lines rest
  | s :: rest =>
    if isLineBreak s then
      [] :: lines rest
    else
      match lines rest with
      | [] => [[s]]
      | line :: others => (s :: line) :: others

/-- A text in which a carriage return, alone or with a line feed after it, has become one line
feed. -/
def withUniformBreaks : Text → Text
  | [] => []
  | .char '\r' :: .char '\n' :: rest => '\n' :: withUniformBreaks rest
  | .char '\r' :: rest => '\n' :: withUniformBreaks rest
  | s :: rest => s :: withUniformBreaks rest

/-- The pieces of a text between the separators; there is always one more piece than separators. -/
def splitAt (separator : Symbol) : Text → List Text
  | [] => [[]]
  | s :: rest =>
    if s = separator then
      [] :: splitAt separator rest
    else
      match splitAt separator rest with
      | [] => [[s]]
      | piece :: others => (s :: piece) :: others

theorem flatten_linesWithEnds (text : Text) : (linesWithEnds text).flatten = text := by
  fun_induction linesWithEnds text with
  | case1 => rfl
  | case2 rest ih => exact congrArg (fun text => .char '\r' :: .char '\n' :: text) ih
  | case3 s rest _ _ ih => simp [ih]
  | case4 s rest _ _ none_left ih =>
    rw [none_left] at ih
    simpa using ih.symm
  | case5 s rest _ _ line others split_rest ih =>
    rw [split_rest] at ih
    simpa using ih

end ResourcePruner.Text
