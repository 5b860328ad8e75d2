import ResourcePruner.Text.Order

/-!
# Resources and their categories

A resource has a category and a name. Five categories are declared inline, by a tag in a definition
file; a layout and a drawable are whole files. The order of `Category.all` is the order of every
table and report.
-/

namespace ResourcePruner

/-- The kinds of resource. -/
inductive Category where
  | string
  | dimen
  | color
  | stringArray
  | style
  | layout
  | drawable
  deriving DecidableEq, Repr

namespace Category

/-- Every category, in table order. -/
def all : List Category :=
  [string, dimen, color, stringArray, style, layout, drawable]

theorem mem_all (category : Category) : category ∈ all := by
  cases category <;> simp [all]

/-- The place of a category in the table. -/
def rank : Category → Nat
  | string => 0
  | dimen => 1
  | color => 2
  | stringArray => 3
  | style => 4
  | layout => 5
  | drawable => 6

theorem rank_injective {a b : Category} (same : a.rank = b.rank) : a = b := by
  cases a <;> cases b <;> simp_all [rank]

/-- The name of the declaring element, which also names the category in tables. -/
def key : Category → Text
  | string => "string"
  | dimen => "dimen"
  | color => "color"
  | stringArray => "string-array"
  | style => "style"
  | layout => "layout"
  | drawable => "drawable"

/-- The category of that key. -/
def ofKey? (key : Text) : Option Category :=
  all.find? (·.key = key)

/-- The type word of a reference; an array of strings is referenced as a plain array. -/
def referenceType : Category → Text
  | stringArray => "array"
  | category => category.key

/-- Whether the category is declared by tags inside definition files. -/
def isInline : Category → Bool
  | layout | drawable => false
  | _ => true

/-- The categories declared by tags, in table order. -/
def inlineCategories : List Category :=
  all.filter isInline

/-- What the names of the directories that hold the category begin with. -/
def directoryStem : Category → Text
  | layout => "layout"
  | drawable => "drawable"
  | _ => "values"

/-- The stems of all categories, each once. -/
def directoryStems : List Text :=
  (all.map directoryStem).eraseDups

/-- What a declaration of the category begins with, up to the quote before the name. -/
def openingTag (category : Category) : Text :=
  "<" ++ category.key ++ " name=\""

/-- What closes a declaration of the category. -/
def closingTag (category : Category) : Text :=
  "</" ++ category.key ++ ">"

end Category

/-- A named resource of some category. -/
structure Resource where
  category : Category
  name : Text
  deriving DecidableEq

namespace Resource

/-- Table order: by category, then by name in the order of its symbols. -/
def Precedes (a b : Resource) : Prop :=
  a.category.rank < b.category.rank ∨ a.category.rank = b.category.rank ∧ a.name < b.name

instance : LT Resource := ⟨Precedes⟩

instance (a b : Resource) : Decidable (a < b) :=
  inferInstanceAs (Decidable (_ ∨ _))

theorem lt_iff {a b : Resource} :
    a < b ↔ a.category.rank < b.category.rank ∨
      a.category.rank = b.category.rank ∧ a.name < b.name :=
  Iff.rfl

theorem lt_irrefl (a : Resource) : ¬ a < a := by
  rw [lt_iff]
  rintro (h | ⟨-, h⟩)
  · exact Nat.lt_irrefl _ h
  · exact StrictOrder.irrefl _ h

theorem lt_trans {a b c : Resource} (ab : a < b) (bc : b < c) : a < c := by
  rw [lt_iff] at *
  rcases ab with ab | ⟨ab, names_ab⟩ <;> rcases bc with bc | ⟨bc, names_bc⟩
  · exact .inl (Nat.lt_trans ab bc)
  · exact .inl (bc ▸ ab)
  · exact .inl (ab ▸ bc)
  · exact .inr ⟨ab.trans bc, StrictOrder.trans names_ab names_bc⟩

theorem lt_of_not_lt {a b : Resource} (not_less : ¬ a < b) (different : a ≠ b) : b < a := by
  rw [lt_iff] at *
  simp only [not_or, not_and, Nat.not_lt] at not_less
  rcases Nat.lt_or_eq_of_le not_less.1 with less | same
  · exact .inl less
  · refine .inr ⟨same, ?_⟩
    refine StrictOrder.connected (not_less.2 same.symm) fun names_same => different ?_
    cases a
    cases b
    simp only [Resource.mk.injEq]
    exact ⟨Category.rank_injective same.symm, names_same⟩

/-- The way a message names a resource: its category and its name with a slash between them. -/
def label (resource : Resource) : Text :=
  resource.category.key ++ "/" ++ resource.name

end Resource

end ResourcePruner
