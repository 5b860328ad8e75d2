import Mathlib.Data.List.Sort
import ResourcePruner.Proofs.Disk.Walk

/-!
# The order of a walk

A walk lists what it takes in the order of the ways that lead there (`Disk.pairwise_preorder`). So
two walks that take the same list it alike, be it on different disks
(`Disk.filter_preorder_eq`).
-/

namespace ResourcePruner

/-! ## Children in order -/

namespace Listing

theorem isProper_within {listing : Listing} (hproper : listing.IsProper) (place : Place) :
    (listing.within place).IsProper := by
  induction listing generalizing place with
  | nil => cases place <;> trivial
  | cons first old inside rest ihi ihr =>
      cases place with
      | nil => exact hproper
      | cons step more =>
          obtain ⟨-, -, -, hinside, hrest⟩ := hproper
          rw [within]
          split
          · exact ihi hinside more
          · exact ihr hrest (step :: more)

theorem pairwise_entries {listing : Listing} (hproper : listing.IsProper) :
    listing.entries.Pairwise fun a b => a.1 < b.1 := by
  induction listing with
  | nil => exact .nil
  | cons first old inside rest _ ihr =>
      obtain ⟨-, -, habove, -, hrest⟩ := hproper
      exact .cons habove (ihr hrest)

/-- All that is listed lies where it is listed. -/
theorem exists_of_mem_contents {listing : Listing} (hproper : listing.IsProper)
    {place other : Place}
    {entry : Entry} (hmem : (other, entry) ∈ listing.contents place) :
    ∃ below, other = place ++ below ∧ listing.get? below = some entry := by
  induction listing generalizing place with
  | nil => cases hmem
  | cons name old inside rest ihi ihr =>
      obtain ⟨-, -, habove, hinside, hrest⟩ := hproper
      rcases List.mem_append.mp hmem with hfirst | hlater
      · rcases List.mem_cons.mp hfirst with heq | hdeeper
        · cases heq
          exact ⟨[name], rfl, by simp [get?]⟩
        · obtain ⟨below, rfl, hlies⟩ := ihi hinside hdeeper
          have hne : below ≠ [] := by
            rintro rfl
            simp at hlies
          exact ⟨name :: below, by simp, by simp [get?, hne, hlies]⟩
      · obtain ⟨below, rfl, hlies⟩ := ihr hrest hlater
        cases below with
        | nil => simp at hlies
        | cons first more =>
            have hother : first ≠ name := by
              rintro rfl
              rw [get?_eq_none_of_above habove] at hlies
              cases hlies
            exact ⟨first :: more, rfl, by rw [get?, if_neg hother, hlies]⟩

/-- Nothing is listed twice. -/
theorem nodup_contents {listing : Listing} (hproper : listing.IsProper) (place : Place) :
    (listing.contents place).Nodup := by
  induction listing generalizing place with
  | nil => exact .nil
  | cons name entry inside rest ihi ihr =>
      have hlies : ∀ {other found}, (other, found) ∈ rest.contents place →
          ∀ below, other ≠ place ++ name :: below := by
        intro other found hmem below heq
        obtain ⟨way, hway, hlies⟩ := exists_of_mem_contents hproper.2.2.2.2 hmem
        obtain rfl := List.append_cancel_left (hway.symm.trans heq)
        rw [get?_eq_none_of_above hproper.2.2.1] at hlies
        cases hlies
      have hdeeper : ∀ {other found}, (other, found) ∈ inside.contents (place ++ [name]) →
          ∃ below, below ≠ [] ∧ other = place ++ name :: below := by
        intro other found hmem
        obtain ⟨below, rfl, hlies⟩ := exists_of_mem_contents hproper.2.2.2.1 hmem
        refine ⟨below, ?_, by simp⟩
        rintro rfl
        simp at hlies
      rw [contents, List.cons_append, List.nodup_cons, List.mem_append, List.nodup_append]
      refine ⟨?_, ihi hproper.2.2.2.1 _, ihr hproper.2.2.2.2 _, ?_⟩
      · rintro (hinside | hrest)
        · obtain ⟨below, hne, heq⟩ := hdeeper hinside
          exact hne (by simpa using heq)
        · exact hlies hrest [] rfl
      · rintro ⟨other, found⟩ hinside _ hrest rfl
        obtain ⟨below, -, heq⟩ := hdeeper hinside
        exact hlies hrest below heq

end Listing

namespace Disk

variable {disk : Disk}

theorem pairwise_children (disk : Disk) (place : Place) :
    (disk.children place).Pairwise fun a b => a.1 < b.1 :=
  Listing.pairwise_entries (Listing.isProper_within disk.proper place)

theorem get?_of_mem_contents {place : Place} {entry : Entry}
    (hmem : (place, entry) ∈ disk.contents) :
    disk.get? place = some entry := by
  obtain ⟨_, rfl, hlies⟩ := Listing.exists_of_mem_contents disk.proper hmem
  have hne : place ≠ [] := by
    rintro rfl
    simp at hlies
  rw [get?, if_neg hne]
  exact hlies

/-! ## Walks in order -/

/-- A walk takes `more` from a directory at the end of a way that it enters. -/
def IsTaken (enter : Text → Bool) (take : Place → List (List Text)) (way more : List Text) : Prop :=
  (∀ d ∈ way, enter d = true) ∧ ∃ place, more ∈ take place

/-- The one comes before the other in a walk: by the ways to the directories that they are taken
from, or in the order in which the directory yields them. -/
def Precedes (enter : Text → Bool) (take : Place → List (List Text))
    (order : List Text → List Text → Prop) (first second : List Text) : Prop :=
  ∃ way more way' more', first = way ++ more ∧ second = way' ++ more' ∧ IsTaken enter take way more
    ∧ IsTaken enter take way' more' ∧ (way < way' ∨ way = way' ∧ order more more')

theorem Precedes.cons {enter : Text → Bool} {take : Place → List (List Text)}
    {order : List Text → List Text → Prop} {first second : List Text} {name : Text}
    (hname : enter name = true) (hless : Precedes enter take order first second) :
    Precedes enter take order (name :: first) (name :: second) := by
  obtain ⟨way, more, way', more', rfl, rfl, ⟨hway, htake⟩, ⟨hway', htake'⟩, horder⟩ := hless
  refine ⟨name :: way, more, name :: way', more', rfl, rfl,
    ⟨List.forall_mem_cons.mpr ⟨hname, hway⟩, htake⟩,
    ⟨List.forall_mem_cons.mpr ⟨hname, hway'⟩, htake'⟩, ?_⟩
  rcases horder with hless | ⟨rfl, hless⟩
  · exact .inl (List.cons_lt_cons_iff.mpr (.inr ⟨rfl, hless⟩))
  · exact .inr ⟨rfl, hless⟩

/-- What a walk lists stands in the order of the ways, since a directory comes before those in it
and they come by name. -/
theorem pairwise_preorder {enter : Text → Bool} {take : Place → List (List Text)}
    {order : List Text → List Text → Prop} (htake : ∀ place, (take place).Pairwise order)
    (depth : Nat) (place : Place) :
    (disk.preorder enter take depth place).Pairwise (Precedes enter take order) := by
  induction depth generalizing place with
  | zero => exact .nil
  | succ depth ih =>
      have hbelow : ∀ {child : Text × Entry} {names : List Text},
          names ∈ (if child.2 = .directory && enter child.1 then
            (disk.preorder enter take depth (place ++ [child.1])).map (child.1 :: ·) else []) →
          ∃ way more, names = child.1 :: way ++ more ∧ IsTaken enter take
          (child.1 :: way) more := by
        intro child names hnames
        split at hnames
        · rename_i henter
          obtain ⟨-, henter⟩ := Bool.and_eq_true_iff.mp henter
          obtain ⟨inner, hinner, rfl⟩ := List.mem_map.mp hnames
          obtain ⟨way, more, rfl, -, hway, hmore⟩ := mem_preorder.mp hinner
          exact ⟨way, more, rfl, List.forall_mem_cons.mpr ⟨henter, hway.enter⟩, _, hmore⟩
        · cases hnames
      rw [preorder, List.pairwise_append, List.pairwise_flatMap]
      refine ⟨(htake place).imp_of_mem fun ha hb hless => ?_, ⟨fun child _ => ?_, ?_⟩,
        fun first hfirst second hsecond => ?_⟩
      · exact ⟨[], _, [], _, rfl, rfl, ⟨List.forall_mem_nil _, _, ha⟩,
          ⟨List.forall_mem_nil _, _, hb⟩, .inr ⟨rfl, hless⟩⟩
      · simp only
        split
        · rename_i henter
          obtain ⟨-, henter⟩ := Bool.and_eq_true_iff.mp henter
          exact List.pairwise_map.mpr ((ih _).imp fun hless => hless.cons henter)
        · exact .nil
      · refine (pairwise_children disk place).imp fun hless first hfirst second hsecond => ?_
        obtain ⟨way, more, rfl, htaken⟩ := hbelow hfirst
        obtain ⟨way', more', rfl, htaken'⟩ := hbelow hsecond
        exact ⟨_, more, _, more', rfl, rfl, htaken, htaken',
          .inl (List.cons_lt_cons_iff.mpr (.inl hless))⟩
      · obtain ⟨child, -, hsecond⟩ := List.mem_flatMap.mp hsecond
        obtain ⟨way, more, rfl, htaken⟩ := hbelow hsecond
        exact ⟨[], first, _, more, rfl, rfl, ⟨List.forall_mem_nil _, _, hfirst⟩, htaken,
          .inl (List.nil_lt_cons _ _)⟩

theorem pairwise_filesIn (disk : Disk) (place : Place) :
    (disk.filesIn place).Pairwise fun a b => ∃ n m, a = [n] ∧ b = [m] ∧ n < m :=
  List.pairwise_map.mpr (((pairwise_children disk place).filter _).imp
    fun hless => ⟨_, _, rfl, rfl, hless⟩)

/-- By the names but the last few, or else by the last one, the one comes before the other. -/
def ComesBefore (count : Nat) (first second : List Text) : Prop :=
  first.take (first.length - count) < second.take (second.length - count)
    ∨ first.take (first.length - count) = second.take (second.length - count)
      ∧ first.getLastD [] < second.getLastD []

instance (count : Nat) : Std.Asymm (ComesBefore count) where
  asymm _ _ := StrictOrder.asymm_lex StrictOrder.asymm

/-- From each directory so many names and one more are taken, in order of the last one. -/
structure TakesInOrder (take : Place → List (List Text)) (count : Nat) : Prop where
  pairwise : ∀ place, (take place).Pairwise fun a b => a.getLastD [] < b.getLastD []
  length : ∀ place, ∀ more ∈ take place, more.length = count + 1

theorem takesInOrder_filesIn (disk : Disk) : TakesInOrder disk.filesIn 0 where
  pairwise place := (pairwise_filesIn disk place).imp <| by
    rintro _ _ ⟨n, m, rfl, rfl, hless⟩
    exact hless
  length place more hmore := by
    obtain ⟨_, -, rfl⟩ := List.mem_map.mp hmore
    rfl

variable {enter : Text → Bool} {take take' : Place → List (List Text)} {count : Nat}

/-- What a walk lists is in order. -/
theorem TakesInOrder.pairwise_preorder (htake : TakesInOrder take count) (depth : Nat)
    (place : Place) :
    (disk.preorder enter take depth place).Pairwise (ComesBefore (count + 1)) := by
  refine (Disk.pairwise_preorder htake.pairwise depth place).imp ?_
  rintro _ _ ⟨way, more, way', more', rfl, rfl, ⟨-, _, hmore⟩, ⟨-, _, hmore'⟩, horder⟩
  have hway : ∀ {way more : List Text}, more.length = count + 1 →
      (way ++ more).take ((way ++ more).length - (count + 1)) = way
        ∧ (way ++ more).getLastD [] = more.getLastD [] := by
    intro way more hlength
    refine ⟨by simp [hlength], ?_⟩
    have hne : more ≠ [] := by
      rintro rfl
      cases hlength
    rw [List.getLastD_eq_getLast?, List.getLastD_eq_getLast?, List.getLast?_append_of_ne_nil _ hne]
  obtain ⟨hfirst, hlast⟩ := hway (htake.length _ _ hmore)
  obtain ⟨hfirst', hlast'⟩ := hway (htake.length _ _ hmore')
  rw [ComesBefore, hfirst, hlast, hfirst', hlast']
  exact horder

/-- Walks over two disks list what they both take alike. -/
theorem filter_preorder_eq {other : Disk} (htake : TakesInOrder take count)
    (htake' : TakesInOrder take' count) {depth depth' : Nat} {place place' : Place}
    {test : List Text → Bool}
    (hsame : ∀ names, test names = true → (names ∈ disk.preorder enter take depth place ↔
      names ∈ other.preorder enter take' depth' place')) :
    (disk.preorder enter take depth place).filter test
      = (other.preorder enter take' depth' place').filter test := by
  refine List.Pairwise.eq_of_mem_iff ((htake.pairwise_preorder depth place).filter _)
    ((htake'.pairwise_preorder depth' place').filter _) fun names => ?_
  rw [List.mem_filter, List.mem_filter]
  exact and_congr_left (hsame names)

/-- Walks over two disks that take the same list it alike. -/
theorem preorder_eq {other : Disk} (htake : TakesInOrder take count)
    (htake' : TakesInOrder take' count)
    {depth depth' : Nat} {place place' : Place}
    (hsame : ∀ names, names ∈ disk.preorder enter take depth place ↔
      names ∈ other.preorder enter take' depth' place') :
    disk.preorder enter take depth place = other.preorder enter take' depth' place' := by
  have hall : ∀ list : List (List Text), list.filter (fun _ => true) = list := fun list =>
    List.filter_eq_self.mpr fun _ _ => rfl
  rw [← hall (disk.preorder enter take depth place),
    ← hall (other.preorder enter take' depth' place')]
  exact filter_preorder_eq htake htake' fun names _ => hsame names

section

variable {other : Disk} {skipped : List Text} {place : Place}

theorem mem_filesBelow_congr {names : List Text}
    (hsame : other.get? (place ++ names) = disk.get? (place ++ names)) :
    names ∈ disk.filesBelow skipped place ↔ names ∈ other.filesBelow skipped place := by
  rw [mem_filesBelow, mem_filesBelow, hsame]

/-- The files below a place are listed alike on two disks, as far as they are the same. -/
theorem filter_filesBelow_eq {test : List Text → Bool} (hsame : ∀ names, test names = true →
      other.get? (place ++ names) = disk.get? (place ++ names)) :
    (disk.filesBelow skipped place).filter test = (other.filesBelow skipped place).filter test :=
  filter_preorder_eq (takesInOrder_filesIn disk) (takesInOrder_filesIn other) fun names htest =>
    mem_filesBelow_congr (hsame names htest)

theorem filesBelow_eq (hsame : ∀ names, other.get? (place ++ names) = disk.get? (place ++ names)) :
    disk.filesBelow skipped place = other.filesBelow skipped place :=
  preorder_eq (takesInOrder_filesIn disk) (takesInOrder_filesIn other) fun names =>
    mem_filesBelow_congr (hsame names)

end

end Disk

end ResourcePruner
