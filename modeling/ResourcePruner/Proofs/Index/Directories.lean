import ResourcePruner.Index.Build
import ResourcePruner.Proofs.Declarations
import ResourcePruner.Proofs.Disk.Walk

/-!
# What is indexed

Which files the index takes note of is told by the names that lead to them from the project root
(`Index.Indexes`), and what it makes of them by the stem of their directory, their name and their
content (`Index.resourcesOf`). The names determine the stem (`Index.Indexes.unique`), so that no
file is taken in two ways.
-/

namespace ResourcePruner

namespace Index

open Disk (descend isSkipped IsListed)

/-- The names lead from the project root to a directory that holds resources, of that stem. -/
def IsDefinitionDir (settings : IndexSettings) (stem : Text) (names : List Text) : Prop :=
  ∃ way inner, names = way ++ [settings.resourceDirName, inner]
    ∧ (∀ d ∈ way, isSkipped settings.skippedDirNames d = false ∧ d ≠ settings.resourceDirName)
    ∧ isSkipped settings.skippedDirNames settings.resourceDirName = false
    ∧ isSkipped settings.skippedDirNames inner = false ∧ stemOf? inner = some stem

/-- The names lead from such a directory to a file that is not left aside. -/
def IsWalked (settings : IndexSettings) (names : List Text) : Prop :=
  ∃ way name, names = way ++ [name] ∧ (∀ d ∈ way, isSkipped settings.skippedDirNames d = false)
    ∧ settings.excludedFiles.contains name = false

/-- The resources that a file of a directory of that stem is or declares. -/
def resourcesOf (settings : IndexSettings) (stem : Text) (file : Path) (content : Bytes) :
    List Resource :=
  if stem = Category.directoryStem .layout then
    (derivedName? file.name [definitionExtension]).toList.map fun name => ⟨.layout, name⟩
  else if stem = Category.directoryStem .drawable then
    (derivedName? file.name (drawableExtensions settings)).toList.map fun name => ⟨.drawable, name⟩
  else if isDefinitionFile file then declaredIn content
  else []

/-- The file is indexed when it lies at `place`; its path and that of its directory can be looked
up. -/
structure Indexes (settings : IndexSettings) (root goal : Path) (stem : Text) (file : Path)
    (place : Place) : Prop where
  exists_names : ∃ dirs names, IsDefinitionDir settings stem dirs ∧ IsWalked settings names
    ∧ file = descend root (dirs ++ names) ∧ place = goal.place ++ (dirs ++ names)
    ∧ Disk.IsLookedUp (descend root dirs)
  isLookedUp : stem ≠ Category.directoryStem .layout → stem ≠ Category.directoryStem .drawable →
    Disk.IsLookedUp file

/-! ## Names determine the directory -/

/-- What stands before and behind the first occurrence of an element is determined. -/
theorem eq_of_append_cons_eq {a : Text} {front front' rest rest' : List Text}
    (hfront : a ∉ front) (hfront' : a ∉ front') (heq : front ++ a :: rest = front' ++ a :: rest') :
    front = front' ∧ rest = rest' := by
  induction front generalizing front' with
  | nil =>
      cases front' with
      | nil => exact ⟨rfl, (List.cons.inj heq).2⟩
      | cons b more =>
          obtain rfl := (List.cons.inj heq).1
          exact absurd List.mem_cons_self hfront'
  | cons b more ih =>
      cases front' with
      | nil =>
          obtain rfl := (List.cons.inj heq).1
          exact absurd List.mem_cons_self hfront
      | cons c more' =>
          obtain ⟨rfl, htail⟩ := List.cons.inj heq
          obtain ⟨rfl, hrest⟩ := ih (fun h => hfront (List.mem_cons_of_mem _ h))
            (fun h => hfront' (List.mem_cons_of_mem _ h)) htail
          exact ⟨rfl, hrest⟩

theorem IsDefinitionDir.unique {settings : IndexSettings} {stem stem' : Text}
    {dirs dirs' names names' : List Text} (hdir : IsDefinitionDir settings stem dirs)
    (hdir' : IsDefinitionDir settings stem' dirs') (heq : dirs ++ names = dirs' ++ names') :
    stem = stem' ∧ dirs = dirs' ∧ names = names' := by
  obtain ⟨way, inner, rfl, hway, -, -, hstem⟩ := hdir
  obtain ⟨way', inner', rfl, hway', -, -, hstem'⟩ := hdir'
  simp only [List.append_assoc, List.cons_append, List.nil_append] at heq
  obtain ⟨rfl, hrest⟩ := eq_of_append_cons_eq (fun h => (hway _ h).2 rfl)
    (fun h => (hway' _ h).2 rfl) heq
  obtain ⟨rfl, rfl⟩ := List.cons.inj hrest
  rw [hstem] at hstem'
  exact ⟨Option.some.inj hstem', rfl, rfl⟩

variable {settings : IndexSettings} {root goal : Path} {stem stem' : Text} {file file' : Path}
  {place place' : Place}

/-- A file is indexed in one way only. -/
theorem Indexes.unique (hindexes : Indexes settings root goal stem file place)
    (hindexes' : Indexes settings root goal stem' file place') : stem = stem' ∧ place = place' := by
  obtain ⟨⟨dirs, names, hdir, -, rfl, rfl, -⟩, -⟩ := hindexes
  obtain ⟨⟨dirs', names', hdir', -, hfile, rfl, -⟩, -⟩ := hindexes'
  have heq := Disk.descend_injective hfile
  exact ⟨(hdir.unique hdir' heq).1, by rw [heq]⟩

/-- Two files are not indexed at the same place. -/
theorem Indexes.file_unique (hindexes : Indexes settings root goal stem file place)
    (hindexes' : Indexes settings root goal stem' file' place) : file = file' := by
  obtain ⟨⟨dirs, names, -, -, rfl, rfl, -⟩, -⟩ := hindexes
  obtain ⟨⟨dirs', names', -, -, rfl, hplace, -⟩, -⟩ := hindexes'
  rw [List.append_cancel_left hplace]

theorem Indexes.isAbsolute (hindexes : Indexes settings root goal stem file place)
    (habsolute : root.isAbsolute = true) : file.isAbsolute = true := by
  obtain ⟨⟨dirs, names, -, -, rfl, -, -⟩, -⟩ := hindexes
  exact habsolute

/-- While a file lies there, its path leads to it. -/
theorem Indexes.locates {disk : Disk} (hindexes : Indexes settings root goal stem file place)
    (hroot : disk.Locates root goal) {content : Bytes}
    (hlies : disk.get? place = some (.file content)) :
    ∃ end', disk.Locates file end' ∧ end'.place = place := by
  obtain ⟨⟨dirs, names, -, -, rfl, rfl, -⟩, -⟩ := hindexes
  exact ⟨_, hroot.descend_of_get? hlies rfl, Disk.place_descend goal (Disk.isListed_of_get? hlies)⟩

/-! ## Inline resources -/

theorem isInline_of_mem_resourcesOn {r : Resource} {line : Text}
    (hr : r ∈ Declaration.resourcesOn line) : r.category.isInline = true := by
  obtain ⟨d, hd, rfl⟩ := List.mem_map.mp hr
  exact (List.mem_filter.mp (Declaration.isOn_of_mem_onLine hd).1).2

theorem isInline_of_mem_resourcesOf {r : Resource} {content : Bytes}
    (hr : r ∈ resourcesOf settings stem file content) :
    r.category.isInline = true ↔
      stem ≠ Category.directoryStem .layout ∧ stem ≠ Category.directoryStem .drawable := by
  unfold resourcesOf at hr
  split at hr
  · rename_i hlayout
    obtain ⟨name, -, rfl⟩ := List.mem_map.mp hr
    simp [Category.isInline, hlayout]
  · rename_i hlayout
    split at hr
    · rename_i hdrawable
      obtain ⟨name, -, rfl⟩ := List.mem_map.mp hr
      simp [Category.isInline, hdrawable]
    · rename_i hdrawable
      split at hr
      · obtain ⟨line, -, hr⟩ := List.mem_flatMap.mp hr
        simp [isInline_of_mem_resourcesOn hr, hlayout, hdrawable]
      · cases hr

end Index

end ResourcePruner
