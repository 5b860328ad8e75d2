import ResourcePruner.Path
import ResourcePruner.Utf8

/-!
# Listings of directories

A listing holds what lies in a directory in the order of the names, each entry with the listing of
what lies in it. A listing is proper when its names are plain and increase, and when nothing but a
directory holds anything.

Main statements, the equations of the view `Listing.get?`: `Listing.get?_put` and
`Listing.get?_remove`.
-/

namespace ResourcePruner

/-- Why no disk can have a path. -/
inductive PathFault where
  /-- A name holds the character that no name may hold. -/
  | nulCharacter
  /-- A name holds halves of surrogate pairs that stand for no bytes. -/
  | unencodable (fault : Utf8.EncodeFault)
  deriving DecidableEq, Repr

/-- What is said of a path that no disk can have. -/
def PathFault.message : PathFault → Text
  | nulCharacter => "embedded null byte"
  | unencodable fault => fault.message

/-- Why no disk can have a path of that text. -/
def pathFault? (text : Text) : Option PathFault :=
  match Utf8.nameFault? text with
  | some fault => some (.unencodable fault)
  | none => if text.contains '\x00' then some .nulCharacter else none

/-- Whether a text can name an entry of a directory, being spelled as a directory lists it. -/
def isPlainName (name : Text) : Bool :=
  name ≠ "" && name ≠ "." && name ≠ ".." && !name.contains '/' && (pathFault? name).isNone &&
    Utf8.canonicalName name = name

/-- What can lie at a place. -/
inductive Entry where
  | file (content : Bytes)
  /-- A symbolic link and the path that it spells. -/
  | link (target : Text)
  | directory
  deriving DecidableEq

/-- What lies in a directory: an entry with what lies in it, and the entries after it. -/
inductive Listing where
  | nil
  | cons (name : Text) (entry : Entry) (inside rest : Listing)
  deriving DecidableEq

namespace Listing

/-- What lies at a place below the directory. -/
def get? : Listing → Place → Option Entry
  | nil, _ => none
  | cons _ _ _ _, [] => none
  | cons name entry inside rest, first :: more =>
    if first = name then (if more = [] then some entry else inside.get? more)
    else rest.get? (first :: more)

/-- The listing of what lies at a place. -/
def within : Listing → Place → Listing
  | listing, [] => listing
  | nil, _ :: _ => nil
  | cons name _ inside rest, first :: more =>
    if first = name then inside.within more else rest.within (first :: more)

/-- The entries of the directory itself, by name. -/
def entries : Listing → List (Text × Entry)
  | nil => []
  | cons name entry _ rest => (name, entry) :: rest.entries

/-- All that lies in the directory at a place, each directory before what lies in it. -/
def contents (place : Place) : Listing → List (Place × Entry)
  | nil => []
  | cons name entry inside rest =>
    let here := place ++ [name]
    (here, entry) :: inside.contents here ++ rest.contents place

/-- A listing with an entry at a place, instead of what lay there. -/
def put (entry : Entry) : Listing → Place → Listing
  | listing, [] => listing
  | nil, first :: more => if more = [] then cons first entry nil nil else nil
  | cons name old inside rest, first :: more =>
    if first = name then
      if more = [] then cons name entry nil rest else cons name old (inside.put entry more) rest
    else if first < name then
      if more = [] then cons first entry nil (cons name old inside rest)
      else cons name old inside rest
    else
      cons name old inside (rest.put entry (first :: more))

/-- A listing without what lies at a place and below it. -/
def remove : Listing → Place → Listing
  | _, [] => nil
  | nil, _ :: _ => nil
  | cons name entry inside rest, first :: more =>
    if first = name then
      if more = [] then rest else cons name entry (inside.remove more) rest
    else
      cons name entry inside (rest.remove (first :: more))

/-- Whether names are plain and increase, and only directories hold anything. -/
def IsProper : Listing → Prop
  | nil => True
  | cons name entry inside rest =>
    isPlainName name = true ∧ (entry = .directory ∨ inside = nil) ∧
      (∀ e ∈ rest.entries, name < e.1) ∧ inside.IsProper ∧ rest.IsProper

@[simp] theorem get?_nil (place : Place) : nil.get? place = none := by
  simp [get?]

@[simp] theorem get?_root (listing : Listing) : listing.get? [] = none := by
  cases listing <;> rfl

theorem get?_eq_none_of_above {listing : Listing} {first : Text} {more : Place}
    (above : ∀ e ∈ listing.entries, first < e.1) : listing.get? (first :: more) = none := by
  induction listing with
  | nil => simp
  | cons name entry inside rest _ rest_ih =>
    simp only [entries, List.mem_cons, forall_eq_or_imp] at above
    have other : first ≠ name := StrictOrder.ne_of_lt above.1
    simp only [get?, other, if_false]
    exact rest_ih above.2

/-- The names of a directory after an entry has been put into it are those before and the new
one. -/
theorem mem_entries_put {listing : Listing} {entry : Entry} {first : Text} {more : Place}
    {e : Text × Entry} (member : e ∈ (listing.put entry (first :: more)).entries) :
    e.1 = first ∨ ∃ e' ∈ listing.entries, e'.1 = e.1 := by
  induction listing with
  | nil =>
    by_cases last : more = []
    · simp [put, last, entries] at member
      exact .inl (congrArg Prod.fst member)
    · simp [put, last, entries] at member
  | cons name old inside rest _ rest_ih =>
    by_cases here : first = name
    · by_cases last : more = []
      · simp only [put, here, last, if_true, entries, List.mem_cons] at member ⊢
        rcases member with rfl | member
        · exact .inl rfl
        · exact .inr ⟨e, .inr member, rfl⟩
      · simp only [put, here, last, if_true, if_false, entries, List.mem_cons] at member ⊢
        exact .inr ⟨e, member, rfl⟩
    · by_cases before : first < name
      · by_cases last : more = []
        · simp only [put, here, before, last, if_true, if_false, entries, List.mem_cons] at member ⊢
          rcases member with rfl | member
          · exact .inl rfl
          · exact .inr ⟨e, member, rfl⟩
        · simp only [put, here, before, last, if_true, if_false, entries, List.mem_cons] at member ⊢
          exact .inr ⟨e, member, rfl⟩
      · simp only [put, here, before, if_false, entries, List.mem_cons] at member ⊢
        rcases member with rfl | member
        · exact .inr ⟨_, .inl rfl, rfl⟩
        · rcases rest_ih member with same | ⟨e', member', same⟩
          · exact .inl same
          · exact .inr ⟨e', .inr member', same⟩

theorem isProper_put {listing : Listing} {entry : Entry} {place : Place}
    (proper : listing.IsProper) (plain : place.getLast?.all isPlainName = true)
    (parent : place.dropLast = [] ∨ listing.get? place.dropLast = some .directory) :
    (listing.put entry place).IsProper := by
  induction listing generalizing place with
  | nil =>
    match place with
    | [] => trivial
    | [first] => simpa [put, IsProper, entries] using plain
    | first :: second :: more => simp [put, IsProper]
  | cons name old inside rest inside_ih rest_ih =>
    obtain ⟨name_plain, holds, above, inside_proper, rest_proper⟩ := proper
    match place with
    | [] => exact ⟨name_plain, holds, above, inside_proper, rest_proper⟩
    | first :: more =>
      rw [put]
      split
      · rename_i here
        split
        · exact ⟨name_plain, .inr rfl, above, trivial, rest_proper⟩
        · rename_i deeper
          obtain ⟨second, tail, rfl⟩ := List.exists_cons_of_ne_nil deeper
          simp only [List.dropLast_cons_cons, reduceCtorEq, false_or, get?, here, if_true] at parent
          rw [List.getLast?_cons_cons] at plain
          have is_directory : old = .directory := by
            by_cases last : (second :: tail).dropLast = []
            · simpa [last] using parent
            · refine holds.resolve_right fun empty => ?_
              simp [last, empty] at parent
          refine ⟨name_plain, .inl is_directory, above, inside_ih inside_proper plain ?_,
            rest_proper⟩
          by_cases last : (second :: tail).dropLast = []
          · exact .inl last
          · exact .inr (by simpa [last] using parent)
      · rename_i other
        split
        · rename_i before
          split
          · rename_i last
            subst last
            refine ⟨by simpa using plain, .inr rfl, ?_, trivial,
              name_plain, holds, above, inside_proper, rest_proper⟩
            simp only [entries, List.mem_cons, forall_eq_or_imp]
            exact ⟨before, fun e member => StrictOrder.trans before (above e member)⟩
          · exact ⟨name_plain, holds, above, inside_proper, rest_proper⟩
        · rename_i not_before
          refine ⟨name_plain, holds, fun e member => ?_, inside_proper,
            rest_ih rest_proper plain ?_⟩
          · rcases mem_entries_put member with same | ⟨e', member', same⟩
            · exact same ▸ StrictOrder.connected not_before other
            · exact same ▸ above e' member'
          · cases more with
            | nil => exact .inl rfl
            | cons second more =>
              simpa [get?, other] using parent

/-- Whatever lies in a listing lies in a directory. -/
theorem get?_dropLast {listing : Listing} {place : Place} {entry : Entry}
    (proper : listing.IsProper) (lies : listing.get? place = some entry) :
    place.dropLast = [] ∨ listing.get? place.dropLast = some .directory := by
  induction listing generalizing place with
  | nil => simp at lies
  | cons name old inside rest inside_ih rest_ih =>
    obtain ⟨name_plain, holds, above, inside_proper, rest_proper⟩ := proper
    match place with
    | [] => exact .inl rfl
    | [_] => exact .inl rfl
    | first :: second :: more =>
      right
      rw [List.dropLast_cons_cons]
      by_cases here : first = name
      · simp only [get?, here, if_true, reduceCtorEq, if_false] at lies ⊢
        by_cases last : (second :: more).dropLast = []
        · rw [if_pos last]
          refine congrArg some (holds.resolve_right fun empty => ?_)
          simp [empty] at lies
        · rw [if_neg last]
          exact (inside_ih inside_proper lies).resolve_left last
      · simp only [get?, here, if_false] at lies ⊢
        have := rest_ih rest_proper lies
        rw [List.dropLast_cons_cons] at this
        exact this.resolve_left (by simp)

theorem more_eq_nil_of_above {listing : Listing} {first : Text} {more : Place}
    (above : ∀ e ∈ listing.entries, first < e.1)
    (parent : (first :: more).dropLast = [] ∨
      listing.get? (first :: more).dropLast = some .directory) : more = [] := by
  cases more with
  | nil => rfl
  | cons second tail =>
    rw [List.dropLast_cons_cons, get?_eq_none_of_above above] at parent
    simp at parent

/-- After an entry has been put into a directory in which no directory had its name, it lies there,
and everywhere else lies what lay there before. -/
theorem get?_put {listing : Listing} {entry : Entry} {place : Place} (proper : listing.IsProper)
    (nonempty : place ≠ [])
    (parent : place.dropLast = [] ∨ listing.get? place.dropLast = some .directory)
    (vacant : listing.get? place ≠ some .directory) (other : Place) :
    (listing.put entry place).get? other =
      if other = place then some entry else listing.get? other := by
  induction listing generalizing place other with
  | nil =>
    obtain ⟨first, more, rfl⟩ := List.exists_cons_of_ne_nil nonempty
    obtain rfl := more_eq_nil_of_above (by simp [entries]) parent
    cases other with
    | nil => simp
    | cons probe further => by_cases same : probe = first <;> simp [put, get?, same]
  | cons name old inside rest inside_ih rest_ih =>
    obtain ⟨name_plain, holds, above, inside_proper, rest_proper⟩ := proper
    obtain ⟨first, more, rfl⟩ := List.exists_cons_of_ne_nil nonempty
    cases other with
    | nil => simp
    | cons probe further =>
      by_cases here : first = name
      · subst here
        cases more with
        | nil =>
          have empty := holds.resolve_left (by simpa [get?] using vacant)
          by_cases same : probe = first <;> by_cases deeper : further = [] <;>
            simp [put, get?, same, deeper, empty]
        | cons second tail =>
          simp only [List.dropLast_cons_cons, reduceCtorEq, false_or, get?, if_true, if_false]
            at parent vacant
          have inside_parent : (second :: tail).dropLast = [] ∨
              inside.get? (second :: tail).dropLast = some .directory := by
            by_cases last : (second :: tail).dropLast = []
            · exact .inl last
            · exact .inr (by simpa [last] using parent)
          by_cases same : probe = first
          · by_cases deeper : further = []
            · simp [put, get?, same, deeper]
            · simp [put, get?, same, deeper,
                inside_ih inside_proper (by simp) inside_parent vacant further]
          · simp [put, get?, same]
      · by_cases before : first < name
        · have all_above : ∀ e ∈ (cons name old inside rest).entries, first < e.1 := by
            simp only [entries, List.mem_cons, forall_eq_or_imp]
            exact ⟨before, fun e member => StrictOrder.trans before (above e member)⟩
          obtain rfl := more_eq_nil_of_above all_above parent
          simp only [put, here, before, if_true, if_false]
          by_cases same : probe = first
          · subst same
            by_cases deeper : further = []
            · simp [get?, deeper]
            · rw [get?_eq_none_of_above all_above]
              simp [get?, deeper]
          · rw [get?]
            simp [same]
        · have rest_parent : (first :: more).dropLast = [] ∨
              rest.get? (first :: more).dropLast = some .directory := by
            cases more with
            | nil => exact .inl rfl
            | cons second tail => simpa [get?, here] using parent
          have rest_vacant : rest.get? (first :: more) ≠ some .directory := by
            simpa [get?, here] using vacant
          by_cases same : probe = name
          · have different : ¬ (probe = first) := fun h => here (h.symm.trans same)
            simp [put, get?, here, before, same, Ne.symm here]
          · simp [put, get?, here, before, same,
              rest_ih rest_proper (by simp) rest_parent rest_vacant (probe :: further)]

theorem mem_entries_of_remove {listing : Listing} {place : Place} {e : Text × Entry}
    (member : e ∈ (listing.remove place).entries) : e ∈ listing.entries := by
  induction listing with
  | nil => cases place <;> simpa [remove] using member
  | cons name entry inside rest _ rest_ih =>
    cases place with
    | nil => simp [remove, entries] at member
    | cons first more =>
      rw [remove] at member
      split at member
      · split at member
        · exact List.mem_cons_of_mem _ member
        · exact member
      · rcases List.mem_cons.1 member with rfl | member
        · exact List.mem_cons_self ..
        · exact List.mem_cons_of_mem _ (rest_ih member)

theorem isProper_remove {listing : Listing} (proper : listing.IsProper) (place : Place) :
    (listing.remove place).IsProper := by
  induction listing generalizing place with
  | nil => cases place <;> trivial
  | cons name entry inside rest inside_ih rest_ih =>
    obtain ⟨name_plain, holds, above, inside_proper, rest_proper⟩ := proper
    cases place with
    | nil => trivial
    | cons first more =>
      rw [remove]
      split
      · split
        · exact rest_proper
        · refine ⟨name_plain, holds.imp id fun empty => ?_, above, inside_ih inside_proper _,
            rest_proper⟩
          subst empty
          cases more <;> rfl
      · exact ⟨name_plain, holds, fun e member => above e (mem_entries_of_remove member),
          inside_proper, rest_ih rest_proper _⟩

/-- After what lies at a place and below it has been removed, nothing lies there, and everywhere
else lies what lay there before. -/
theorem get?_remove {listing : Listing} (proper : listing.IsProper) (place other : Place) :
    (listing.remove place).get? other = if place <+: other then none else listing.get? other := by
  induction listing generalizing place other with
  | nil => cases place <;> simp [remove]
  | cons name entry inside rest inside_ih rest_ih =>
    obtain ⟨name_plain, holds, above, inside_proper, rest_proper⟩ := proper
    cases place with
    | nil => simp [remove]
    | cons first more =>
      cases other with
      | nil => simp
      | cons probe further =>
        simp only [List.cons_prefix_cons, remove]
        by_cases here : first = name
        · subst here
          cases more with
          | nil =>
            by_cases same : probe = first
            · subst same
              simp [get?_eq_none_of_above above]
            · simp [get?, same, Ne.symm same]
          | cons second tail =>
            by_cases same : probe = first
            · subst same
              by_cases deeper : further = []
              · simp [get?, deeper]
              · simp [get?, deeper, inside_ih inside_proper]
            · simp [get?, same, Ne.symm same]
        · rw [if_neg here]
          by_cases same : probe = name
          · have different : ¬ (first = probe) := fun h => here (h.trans same)
            simp [get?, same, here]
          · simp [get?, same, rest_ih rest_proper, List.cons_prefix_cons]

end Listing

end ResourcePruner
