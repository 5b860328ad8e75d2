import ResourcePruner.Text.Casing.Tables

/-!
# Capital and small forms

`Text.upperSymbol` and `Text.lower` apply the full case mappings: one character may become several,
and a capital sigma becomes the final form at the end of a word and the ordinary small one
elsewhere.
-/

namespace ResourcePruner.Text

/-- The symbol that the first run holding a symbol maps it to, itself when there is none. -/
def mapByRuns (runs : List CaseRun) (s : Symbol) : Symbol :=
  match runs.find? (·.maps s.code) with
  | some run => .ofCode (s.code + run.shift).toNat
  | none => s

/-- The capital form of a symbol. -/
def upperSymbol (s : Symbol) : Text :=
  if s.code < 0x80 then
    [.ofCode (Char.ofNat s.code).toUpper.toNat]
  else
    match upperExpansions.lookup s.code with
    | some forms => forms.map Symbol.ofCode
    | none => [mapByRuns upperRuns s]

/-- The small form of a symbol, context apart. The dotted capital I alone has one of two
characters. -/
def lowerSymbol (s : Symbol) : Text :=
  if s.code < 0x80 then
    [.ofCode (Char.ofNat s.code).toLower.toNat]
  else if s = '\u0130' then
    ['i', '\u0307']
  else
    [mapByRuns lowerRuns s]

/-- Whether a search for cased context skips a symbol. -/
def isCaseIgnorable (s : Symbol) : Bool :=
  if s.code < 0x80 then ("'.:^`" : Text).contains s else inRanges caseIgnorableRanges s.code

/-- Whether a symbol is a letter with case. -/
def isCased (s : Symbol) : Bool :=
  if s.code < 0x80 then s.satisfies Char.isAlpha else inRanges casedRanges s.code

/-- Whether the first symbol that is not skipped is a letter with case. -/
def startsCased (text : Text) : Bool :=
  match text.dropWhile isCaseIgnorable with
  | [] => false
  | s :: _ => isCased s

/-- The small form of a text; `afterCased` says whether a letter with case came last before it. -/
def lowerAfter (afterCased : Bool) : Text → Text
  | [] => []
  | s :: rest =>
    let form : Text :=
      if s = 'Σ' then
        if afterCased && !startsCased rest then "ς" else "σ"
      else
        lowerSymbol s
    form ++ lowerAfter (if isCaseIgnorable s then afterCased else isCased s) rest

/-- The small form of a text. -/
def lower (text : Text) : Text :=
  lowerAfter false text

end ResourcePruner.Text
