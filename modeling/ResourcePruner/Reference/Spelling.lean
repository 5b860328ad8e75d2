import ResourcePruner.Category
import ResourcePruner.Reference.Boundary
import ResourcePruner.Text.Casing
import ResourcePruner.Text.Lines

/-!
# How references are spelled

Markup names a resource as `@type/name` or through `@id/name`; code names it as `R.type.name` or
`R.id.name`, with dots in the name turned into underscores, and a layout also by the name of the
binding type generated for it. In markup a style is moreover referenced by the styles that inherit
from it.

`Reference.refers` says when a line references a resource. `Reference.anchors` are texts of which
every reference to a category holds at least one.
-/

namespace ResourcePruner

/-- The two ways in which files spell references. -/
inductive Dialect where
  | markup
  | code
  deriving DecidableEq, Repr

namespace Dialect

def all : List Dialect :=
  [markup, code]

/-- The name of a dialect. -/
def key : Dialect → Text
  | markup => "markup"
  | code => "code"

/-- The dialect of that name. -/
def ofKey? (key : Text) : Option Dialect :=
  all.find? (·.key = key)

end Dialect

namespace Reference

/-- What a reference by identifier begins with in markup. -/
def markupIdStem : Text := "@id/"

/-- What a reference by identifier begins with in code. -/
def codeIdStem : Text := "R.id."

/-- What the name of a generated binding type ends with. -/
def bindingSuffix : Text := "Binding"

/-- A name as an identifier of code: with underscores for dots. -/
def codeName (name : Text) : Text :=
  name.map fun (s : Symbol) => if s = '.' then '_' else s

/-- A word with its first symbol in capital form. -/
def capitalized : Text → Text
  | [] => []
  | s :: rest => Text.upperSymbol s ++ rest

/-- The name of the binding type generated for a layout: the words between its underscores, each
capitalized, and a suffix. -/
def bindingName (layout : Text) : Text :=
  (Text.splitAt '_' layout).flatMap capitalized ++ bindingSuffix

/-- Whether a line of markup makes a style inherit from the style `name`: by an explicit parent with
or without its type, or by a quoted dotted name that extends `name`. -/
def inheritsFrom (line name : Text) : Bool :=
  Text.occursIn ("parent=\"@style/" ++ name ++ "\"") line ||
    Text.occursIn ("parent=\"" ++ name ++ "\"") line ||
    Text.occursIn ("\"" ++ name ++ ".") line

/-- The tokens that reference a resource in a dialect. -/
def tokens (resource : Resource) : Dialect → List Text
  | .markup =>
    ["@" ++ resource.category.referenceType ++ "/" ++ resource.name,
      markupIdStem ++ resource.name]
  | .code =>
    let name := codeName resource.name
    let plain :=
      ["R." ++ resource.category.referenceType ++ "." ++ name, codeIdStem ++ name]
    if resource.category = .layout then plain ++ [bindingName resource.name] else plain

/-- The texts of which every line that references the category in a dialect holds one. -/
def anchors (category : Category) : Dialect → List Text
  | .markup =>
    let plain := ["@" ++ category.referenceType ++ "/", markupIdStem]
    if category = .style then plain ++ [Text.ofString "\""] else plain
  | .code =>
    let plain := ["R." ++ category.referenceType ++ ".", codeIdStem]
    if category = .layout then plain ++ [bindingSuffix] else plain

/-- Whether a line references a resource by inheritance, which only markup and styles know. -/
def refersByInheritance (dialect : Dialect) (line : Text) (resource : Resource) : Bool :=
  dialect = .markup && resource.category = .style && inheritsFrom line resource.name

/-- Whether a line references a resource: it is not a comment of code, and one of the resource's
tokens stands on it or a style inherits from the resource there. -/
def refers (dialect : Dialect) (line : Text) (resource : Resource) : Bool :=
  !(dialect = .code && isLineComment line) &&
    (containsAnyToken line (tokens resource dialect) || refersByInheritance dialect line resource)

end Reference

end ResourcePruner
