import ResourcePruner.Config.Basic

/-!
# Names from file names

A file of a layout or drawable directory is a resource that is named by its file name without the
extension. An image that stretches has a further `.9` before its extension, which is no part of the
name either.
-/

namespace ResourcePruner.Index

/-- The extension of definition files and of layouts. -/
def definitionExtension : Text := ".xml"

/-- What comes before the extension of an image that stretches. -/
def stretchMark : Text := ".9"

/-- A text without its last `count` characters; none of it remains when `count` is zero. -/
def dropEnding (count : Nat) (text : Text) : Text :=
  if count = 0 then [] else text.take (text.length - count)

/-- The name that a file name gives without an extension. -/
def stem (fileName extension : Text) : Text :=
  let whole := dropEnding extension.length fileName
  if stretchMark.isSuffixOf whole then dropEnding stretchMark.length whole else whole

/-- The name of the resource that a file is, by the first extension that its name, in small letters,
ends with and is longer than; none when there is no such extension or nothing remains. -/
def derivedName? (fileName : Text) (extensions : List Text) : Option Text :=
  let lowered := Text.lower fileName
  match
    extensions.find? fun extension =>
      extension.isSuffixOf lowered && extension.length < fileName.length
  with
  | none => none
  | some extension =>
    let name := stem fileName extension
    if name = [] then none else some name

/-- The extensions of drawables: those of images, and that of definition files. -/
def drawableExtensions (settings : IndexSettings) : List Text :=
  (settings.imageExtensions ++ [definitionExtension]).eraseDups

end ResourcePruner.Index
