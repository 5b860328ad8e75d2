import ResourcePruner.Category

/-!
# Declarations on a line

A declaration is an opening tag with its name on one line, such as `<string name="title"`. Each
inline category is looked for on its own: after a declaration the search goes on behind the quote
that ends its name, and it stops at a tag whose name is not ended on the line. An empty name is no
declaration.
-/

namespace ResourcePruner

/-- An opening tag found on a line. -/
structure Declaration where
  resource : Resource
  /-- The position of the tag. -/
  position : Nat
  deriving DecidableEq

namespace Declaration

/-- The position of the quote that ends the name. -/
def valueEnd (declaration : Declaration) : Nat :=
  declaration.position + declaration.resource.category.openingTag.length +
    declaration.resource.name.length

/-- The declarations of one category in a text that begins at `position` of its line, the first
`skipped` symbols of it being spent. -/
def ofCategoryFrom (category : Category) : (skipped position : Nat) → Text → List Declaration
  | _, _, [] => []
  | skipped + 1, position, _ :: rest => ofCategoryFrom category skipped (position + 1) rest
  | 0, position, s :: rest =>
    let tag := category.openingTag
    if tag.isPrefixOf (s :: rest) then
      let value := (s :: rest).drop tag.length
      let name := value.takeWhile (· ≠ .char '"')
      if name.length = value.length then
        []
      else
        let others := ofCategoryFrom category (tag.length + name.length) (position + 1) rest
        if name = [] then others else ⟨⟨category, name⟩, position⟩ :: others
    else
      ofCategoryFrom category 0 (position + 1) rest

/-- The declarations of one category on a line, in order of position. -/
def ofCategory (category : Category) (line : Text) : List Declaration :=
  ofCategoryFrom category 0 0 line

/-- A declaration put before the first of those that do not stand before it. -/
def insertByPosition (declaration : Declaration) : List Declaration → List Declaration
  | [] => [declaration]
  | other :: rest =>
    if declaration.position ≤ other.position then
      declaration :: other :: rest
    else
      other :: insertByPosition declaration rest

/-- The declarations of the given categories on a line, in order of position. -/
def ofCategories (categories : List Category) (line : Text) : List Declaration :=
  (categories.flatMap (ofCategory · line)).foldr insertByPosition []

/-- The inline declarations on a line, in order of position. -/
def onLine (line : Text) : List Declaration :=
  ofCategories Category.inlineCategories line

/-- The resources declared on a line, in order of position. -/
def resourcesOn (line : Text) : List Resource :=
  (onLine line).map resource

/-- Whether the `>` at `tagEnd` ends a tag that closes itself, as `/>` does. -/
def isSelfClosing (line : Text) (tagEnd : Nat) : Bool :=
  0 < tagEnd && (line.drop (tagEnd - 1)).head? = some '/'

/-- Whether the declaration ends on the line that it opens on: by a tag that closes itself, or by
the closing tag of its category after the opening one. -/
def closesOn (line : Text) (declaration : Declaration) : Bool :=
  match Text.indexFrom? ">" line declaration.valueEnd with
  | none => false
  | some tagEnd =>
    isSelfClosing line tagEnd ||
      (Text.indexFrom? declaration.resource.category.closingTag line tagEnd).isSome

end Declaration

end ResourcePruner
