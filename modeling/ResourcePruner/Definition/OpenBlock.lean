import ResourcePruner.Declaration

/-!
# Declarations that stay open over lines

`OpenBlock.after` reads a line from left to right and says which declaration is still open at its
end. While a declaration is open, what stands inside it opens nothing: declarations are taken up
again behind the place where it ends.
-/

namespace ResourcePruner

/-- A declaration still open at the end of a line. While `inTag` holds, its opening tag has not
ended yet, so that a `/>` can still end the declaration. -/
structure OpenBlock where
  /-- The name of the declaring element. -/
  element : Text
  /-- The name of the resource declared. -/
  name : Text
  closingTag : Text
  inTag : Bool
  deriving DecidableEq

namespace OpenBlock

/-- The block that a declaration opens. -/
def ofDeclaration (declaration : Declaration) : OpenBlock where
  element := declaration.resource.category.key
  name := declaration.resource.name
  closingTag := declaration.resource.category.closingTag
  inTag := true

/-- Looks from `cursor` on for the closing tag of a block whose opening tag has ended. Yields the
block if it stays open, and the position reached. -/
def seekClosingTag (line : Text) (block : OpenBlock) (cursor : Nat) : Option OpenBlock × Nat :=
  match Text.indexFrom? block.closingTag line cursor with
  | none => (some block, line.length)
  | some close => (none, close + block.closingTag.length)

/-- Looks from `cursor` on for the end of a block. Yields the block if it stays open, and the
position reached. -/
def seekEnd (line : Text) (block : OpenBlock) (cursor : Nat) : Option OpenBlock × Nat :=
  if block.inTag then
    match Text.indexFrom? ">" line cursor with
    | none => (some block, line.length)
    | some tagEnd =>
      if Declaration.isSelfClosing line tagEnd then
        (none, tagEnd + 1)
      else
        seekClosingTag line { block with inTag := false } (tagEnd + 1)
  else
    seekClosingTag line block cursor

/-- The block open at the end of a line, when `pending` is open at `cursor` and the declarations
still to come are `found`. -/
def afterFrom (line : Text) (pending : Option OpenBlock) (cursor : Nat) :
    (found : List Declaration) → Option OpenBlock
  | [] => pending.bind fun block => (seekEnd line block cursor).1
  | declaration :: others =>
    let reached :=
      match pending with
      | none => (none, cursor)
      | some block => seekEnd line block cursor
    match reached with
    | (some block, _) => some block
    | (none, position) =>
      if declaration.position < position then
        afterFrom line none position others
      else
        afterFrom line (some (ofDeclaration declaration)) declaration.valueEnd others

/-- The block open at the end of a line on which the declarations `found` stand, when `pending` is
open before it. -/
def after (line : Text) (found : List Declaration) (pending : Option OpenBlock) :
    Option OpenBlock :=
  afterFrom line pending 0 found

end OpenBlock

end ResourcePruner
