import ResourcePruner.Proofs.Disk.Below
import ResourcePruner.Proofs.Index.Order
import ResourcePruner.Proofs.Index.Standing

/-!
# What a catalog holds

Which file belongs to which resource is told by the names that lead to it and by its content
(`Index.Belongs`). If the directories that are listed and the definition files that are read can be
looked up by their paths, indexing goes without a warning, and its catalog is exact
(`Index.build_exact`): it lists each resource with the files that belong to it, and a file that is a
resource belongs to no other, so that its going takes nothing from the others.
-/

namespace ResourcePruner

namespace Index

open Disk (descend isSkipped IsLookedUp)
open ResourcePruner.Task (Runs)

/-! ## Files and resources -/

/-- What a file is or declares that lies in a directory of that stem. -/
inductive Yields (settings : IndexSettings) (file : Path) (content : Bytes) : Text → Resource → Prop
  | declared {line : Text} {r : Resource} (hdefinition : isDefinitionFile file = true)
      (hline : line ∈ searchedLines content) (hr : r ∈ Declaration.resourcesOn line) :
      Yields settings file content "values" r
  | layout {name : Text} (hname : derivedName? file.name [definitionExtension] = some name) :
      Yields settings file content "layout" ⟨.layout, name⟩
  | drawable {name : Text}
      (hname : derivedName? file.name (drawableExtensions settings) = some name) :
      Yields settings file content "drawable" ⟨.drawable, name⟩

/-- The stems with which the names of directories that hold resources begin. -/
theorem IsDefinitionDir.stem_cases {settings : IndexSettings} {stem : Text} {dirs : List Text}
    (hdir : IsDefinitionDir settings stem dirs) :
    stem = "values" ∨ stem = "layout" ∨ stem = "drawable" := by
  have hstems : Category.directoryStems = ["values", "layout", "drawable"] := by decide +kernel
  obtain ⟨way, inner, -, -, -, -, hstem⟩ := hdir
  have hmem := List.mem_of_find?_eq_some hstem
  rw [hstems] at hmem
  simpa using hmem

section

variable {settings : IndexSettings} {file : Path} {content : Bytes} {stem : Text} {dirs : List Text}
  {r : Resource}

theorem yields_values_iff :
    Yields settings file content "values" r ↔ isDefinitionFile file = true
      ∧ r ∈ declaredIn content := by
  rw [declaredIn, List.mem_flatMap]
  constructor
  · generalize hstem : ("values" : Text) = stem
    intro h
    cases h with
    | declared hdefinition hline hr => exact ⟨hdefinition, _, hline, hr⟩
    | layout hname => exact absurd hstem (by decide)
    | drawable hname => exact absurd hstem (by decide)
  · rintro ⟨hdefinition, line, hline, hr⟩
    exact .declared hdefinition hline hr

theorem yields_layout_iff :
    Yields settings file content "layout" r ↔
      ∃ name, derivedName? file.name [definitionExtension] = some name ∧ r = ⟨.layout, name⟩ := by
  constructor
  · generalize hstem : ("layout" : Text) = stem
    intro h
    cases h with
    | declared hdefinition hline hr => exact absurd hstem (by decide)
    | layout hname => exact ⟨_, hname, rfl⟩
    | drawable hname => exact absurd hstem (by decide)
  · rintro ⟨name, hname, rfl⟩
    exact .layout hname

theorem yields_drawable_iff :
    Yields settings file content "drawable" r ↔
      ∃ name, derivedName? file.name (drawableExtensions settings) = some name
        ∧ r = ⟨.drawable, name⟩ := by
  constructor
  · generalize hstem : ("drawable" : Text) = stem
    intro h
    cases h with
    | declared hdefinition hline hr => exact absurd hstem (by decide)
    | layout hname => exact absurd hstem (by decide)
    | drawable hname => exact ⟨_, hname, rfl⟩
  · rintro ⟨name, hname, rfl⟩
    exact .drawable hname

/-- A file that is a resource is no other one, and declares none. -/
theorem Yields.eq_or_isInline {r' : Resource} (hdir : IsDefinitionDir settings stem dirs)
    (hr : Yields settings file content stem r) (hr' : Yields settings file content stem r') :
    r = r' ∨ r.category.isInline = true ∧ r'.category.isInline = true := by
  rcases hdir.stem_cases with rfl | rfl | rfl
  · have hinline : ∀ {r}, Yields settings file content "values" r → r.category.isInline = true := by
      intro r hr
      obtain ⟨line, -, hmem⟩ := List.mem_flatMap.mp (yields_values_iff.mp hr).2
      exact isInline_of_mem_resourcesOn hmem
    exact .inr ⟨hinline hr, hinline hr'⟩
  · obtain ⟨name, hname, rfl⟩ := yields_layout_iff.mp hr
    obtain ⟨name', hname', rfl⟩ := yields_layout_iff.mp hr'
    exact .inl (by rw [Option.some.inj (hname.symm.trans hname')])
  · obtain ⟨name, hname, rfl⟩ := yields_drawable_iff.mp hr
    obtain ⟨name', hname', rfl⟩ := yields_drawable_iff.mp hr'
    exact .inl (by rw [Option.some.inj (hname.symm.trans hname')])

end

section

variable (settings : IndexSettings) (disk : Disk) (root : Path) (place : Place)

/-- The file lies below one directory that holds resources, outside skipped directories, is not left
aside, and is or declares the resource. -/
def BelongsIn (stem : Text) (dirs : List Text) (r : Resource) (file : Path) : Prop :=
  ∃ names content, IsWalked settings names ∧ file = descend root (dirs ++ names)
    ∧ disk.get? (place ++ (dirs ++ names)) = some (.file content)
    ∧ Yields settings file content stem r

/-- The file lies so below some directory that holds resources. -/
def Belongs (r : Resource) (file : Path) : Prop :=
  ∃ stem dirs, IsDefinitionDir settings stem dirs
    ∧ BelongsIn settings disk root place stem dirs r file

/-- What indexing lists and reads below the root can be looked up by path: the directories that hold
resources and those below them that are entered, and the definition files. -/
structure IsReachable : Prop where
  directory : ∀ stem dirs way, IsDefinitionDir settings stem dirs →
    (∀ d ∈ way, isSkipped settings.skippedDirNames d = false) →
    disk.get? (place ++ (dirs ++ way)) = some .directory → IsLookedUp (descend root (dirs ++ way))
  file : ∀ dirs names content, IsDefinitionDir settings "values" dirs → IsWalked settings names →
    disk.get? (place ++ (dirs ++ names)) = some (.file content) →
    isDefinitionFile (descend root (dirs ++ names)) = true →
      IsLookedUp (descend root (dirs ++ names))

/-- The catalog lists what belongs to each resource, and what it lists is kept apart. -/
structure IsExact (catalog : Catalog) : Prop where
  contains_iff : ∀ r, catalog.contains r = true ↔ ∃ file, Belongs settings disk root place r file
  record : ∀ r record, catalog.get? r = some record → record.uses = 0 ∧ record.files.Nodup
    ∧ record.files.Pairwise (Precedes settings root)
    ∧ ∀ file, file ∈ record.files ↔ Belongs settings disk root place r file
  /-- Only inline resources share a file. -/
  isInline : ∀ r r' file, catalog.Has r file → catalog.Has r' file → r ≠ r' →
    r.category.isInline = true ∧ r'.category.isInline = true
  /-- Unlinking files of a resource that is its files leaves those of any other as they are. -/
  reads : ∀ r r' record file more, ∀ gone : List Path, r.category.isInline = false → r ≠ r' →
    catalog.get? r = some record → gone.Sublist record.files → catalog.Has r' file →
    gone.foldlM Disk.unlink disk = .ok more → more.read file = disk.read file

end

/-! ## Indexing without a warning -/

section

variable {settings : IndexSettings} {s : Session} {root : Path} {place : Place} {stem : Text}
  {dirs : List Text}

theorem exists_walk {directory : Path} (hopen : s.disk.openDirectory directory = .ok place) :
    ∃ files, Runs (walk settings directory) s files s ∧ ∀ file, file ∈ files ↔
      ∃ names content, IsWalked settings names ∧ file = descend directory names
        ∧ s.disk.get? (place ++ names) = some (.file content) := by
  have hwalk : s.disk.walkFiles directory settings.skippedDirNames
      = .ok ((s.disk.filesBelow settings.skippedDirNames place).map (descend directory)) := by
    rw [Disk.walkFiles, hopen]
    rfl
  refine ⟨_, ?_, fun file => mem_walked hopen hwalk⟩
  refine Task.runs_disk_bind.mpr (Task.runs_bind.mpr ⟨.ok _, s, ?_, Task.runs_pure.mpr ⟨rfl, rfl⟩⟩)
  rw [hwalk]
  exact Task.runs_pure.mpr ⟨rfl, rfl⟩

/-- Along a list, what is added for each of its items without a change to the session is added. -/
theorem exists_foldlM {α : Type} {f : Catalog → α → Task Catalog} {P : α → Resource → Path → Prop}
    {list : List α}
    (hf : ∀ a ∈ list, ∀ c, ∃ c', Runs (f c a) s c' s ∧ Catalog.Adds (P a) (P a) c c')
    (c : Catalog) :
    ∃ c', Runs (list.foldlM f c) s c' s ∧ Catalog.Adds (fun r file => ∃ a ∈ list, P a r file)
      (fun r file => ∃ a ∈ list, P a r file) c c' := by
  induction list generalizing c with
  | nil => exact ⟨c, Task.runs_foldlM_nil.mpr ⟨rfl, rfl⟩, .refl (fun _ _ => nofun) c⟩
  | cons a rest ih =>
      obtain ⟨ha, hrest⟩ := List.forall_mem_cons.mp hf
      obtain ⟨next, hfirst, hadds⟩ := ha c
      obtain ⟨c', hruns, hmore⟩ := ih hrest next
      refine ⟨c', Task.runs_foldlM_cons.mpr ⟨next, s, hfirst, hruns⟩, ?_⟩
      exact (hadds.trans hmore).imp (fun r file h => by simpa using h) fun r file h => by
        simpa using h

theorem exists_addFiles {directory : Path} (hopen : s.disk.openDirectory directory = .ok place)
    (category : Category) (extensions : List Text) (c : Catalog) {P : Resource → Path → Prop}
    (hP : ∀ r file, P r file ↔ ∃ names content, IsWalked settings names
      ∧ file = descend directory names ∧ s.disk.get? (place ++ names) = some (.file content)
      ∧ ∃ name, derivedName? file.name extensions = some name ∧ r = ⟨category, name⟩) :
    ∃ c', Runs (addFiles settings c directory category extensions) s c' s
      ∧ Catalog.Adds P P c c' := by
  obtain ⟨files, hwalk, hmem⟩ := exists_walk hopen
  refine ⟨_, Task.runs_bind.mpr ⟨files, s, hwalk, Task.runs_pure.mpr ⟨rfl, rfl⟩⟩, ?_⟩
  refine (adds_derived files category extensions c).imp ?_ ?_
  · rintro r file ⟨hfile, hname⟩
    obtain ⟨names, content, hwalked, hpath, hlies⟩ := (hmem file).mp hfile
    exact (hP r file).mpr ⟨names, content, hwalked, hpath, hlies, hname⟩
  · intro r file h
    obtain ⟨names, content, hwalked, hpath, hlies, hname⟩ := (hP r file).mp h
    exact ⟨(hmem file).mpr ⟨names, content, hwalked, hpath, hlies⟩, hname⟩

theorem exists_addDefinitions {directory : Path}
    (hopen : s.disk.openDirectory directory = .ok place)
    (c : Catalog)
    (hread : ∀ names content, IsWalked settings names →
      s.disk.get? (place ++ names) = some (.file content) →
      isDefinitionFile (descend directory names) = true →
      s.disk.read (descend directory names) = .ok content) {P : Resource → Path → Prop}
    (hP : ∀ r file, P r file ↔ ∃ names content, IsWalked settings names
      ∧ file = descend directory names ∧ s.disk.get? (place ++ names) = some (.file content)
      ∧ isDefinitionFile file = true ∧ r ∈ declaredIn content) :
    ∃ c', Runs (addDefinitions settings c directory) s c' s ∧ Catalog.Adds P P c c' := by
  obtain ⟨files, hwalk, hmem⟩ := exists_walk hopen
  have hfile : ∀ file ∈ files.filter isDefinitionFile, ∀ c, ∃ c',
      Runs (do return (← addDefinitionFile c file).2) s c' s
        ∧ Catalog.Adds (fun r f => f = file ∧ P r file) (fun r f => f = file ∧ P r file) c c' := by
    intro file hfile c
    obtain ⟨hfile, hdefinition⟩ := List.mem_filter.mp hfile
    obtain ⟨names, content, hwalked, rfl, hlies⟩ := (hmem file).mp hfile
    have hbytes := hread names content hwalked hlies hdefinition
    have hr : ∀ r, P r (descend directory names) ↔ r ∈ declaredIn content := by
      intro r
      refine (hP r _).trans ⟨?_, fun hr => ⟨names, content, hwalked, rfl, hlies, hdefinition, hr⟩⟩
      rintro ⟨names', content', -, heq, hlies', -, hr⟩
      obtain rfl := Disk.descend_injective heq
      rw [hlies] at hlies'
      cases hlies'
      exact hr
    refine ⟨_, Task.runs_bind.mpr ⟨_, s, runs_addDefinitionFile_of_read hbytes c,
      Task.runs_pure.mpr ⟨rfl, rfl⟩⟩, (adds_declaredIn content _ c).imp ?_ ?_⟩
    · exact fun r f h => ⟨h.1, (hr r).mpr h.2⟩
    · exact fun r f h => ⟨h.1, (hr r).mp h.2⟩
  obtain ⟨c', hruns, hadds⟩ := exists_foldlM hfile c
  refine ⟨c', Task.runs_bind.mpr ⟨files, s, hwalk, hruns⟩, hadds.imp ?_ ?_⟩
  · rintro r f ⟨_, -, rfl, h⟩
    exact h
  · intro r f h
    obtain ⟨names, content, hwalked, hpath, hlies, hdefinition, -⟩ := (hP r f).mp h
    have hmem' := (hmem f).mpr ⟨names, content, hwalked, hpath, hlies⟩
    exact ⟨f, List.mem_filter.mpr ⟨hmem', hdefinition⟩, rfl, h⟩

/-- A directory adds the files that belong to its resources. -/
theorem exists_addDirectory (hopen : s.disk.openDirectory root = .ok place)
    (hreach : IsReachable settings s.disk root place) (hdir : IsDefinitionDir settings stem dirs)
    (hlies : s.disk.get? (place ++ dirs) = some .directory) (c : Catalog) :
    ∃ c', Runs (addDirectory settings c ⟨stem, descend root dirs⟩) s c' s
      ∧ Catalog.Adds (BelongsIn settings s.disk root place stem dirs)
        (BelongsIn settings s.disk root place stem dirs) c c' := by
  have hlooked : IsLookedUp (descend root dirs) := by
    have := hreach.directory stem dirs [] hdir (List.forall_mem_nil _) (by rwa [List.append_nil])
    rwa [List.append_nil] at this
  have hdown := Disk.openDirectory_descend hopen hlies hlooked
  have hbelow : ∀ {names r file}, (∃ content, IsWalked settings names
        ∧ file = descend (descend root dirs) names
        ∧ s.disk.get? (place ++ dirs ++ names) = some (.file content)
        ∧ Yields settings file content stem r) ↔ ∃ content, IsWalked settings names
        ∧ file = descend root (dirs ++ names)
        ∧ s.disk.get? (place ++ (dirs ++ names)) = some (.file content)
        ∧ Yields settings file content stem r := by
    intro names r file
    rw [Disk.descend_descend, List.append_assoc]
  unfold addDirectory
  rcases hdir.stem_cases with rfl | rfl | rfl
  · have hlayout : ("values" : Text) ≠ Category.directoryStem .layout := by decide
    have hdrawable : ("values" : Text) ≠ Category.directoryStem .drawable := by decide
    rw [if_neg hlayout, if_neg hdrawable]
    refine exists_addDefinitions hdown c (fun names content hwalked hfile hdefinition => ?_)
      fun r file => ?_
    · rw [Disk.descend_descend] at hdefinition ⊢
      rw [List.append_assoc] at hfile
      have hne : dirs ++ names ≠ [] := by
        obtain ⟨way, name, rfl, -⟩ := hwalked
        simp
      exact Disk.read_descend hopen hne hfile
        (hreach.file dirs names content hdir hwalked hfile hdefinition)
    · refine exists_congr fun names => hbelow.symm.trans (exists_congr fun content => ?_)
      rw [yields_values_iff]
  · rw [if_pos (show ("layout" : Text) = Category.directoryStem .layout by decide)]
    refine exists_addFiles hdown .layout [definitionExtension] c fun r file => ?_
    refine exists_congr fun names => hbelow.symm.trans (exists_congr fun content => ?_)
    rw [yields_layout_iff]
  · have hlayout : ("drawable" : Text) ≠ Category.directoryStem .layout := by decide
    rw [if_neg hlayout,
      if_pos (show ("drawable" : Text) = Category.directoryStem .drawable by decide)]
    refine exists_addFiles hdown .drawable (drawableExtensions settings) c fun r file => ?_
    refine exists_congr fun names => hbelow.symm.trans (exists_congr fun content => ?_)
    rw [yields_drawable_iff]

/-- Files below a directory are spelled by the names that lead to them. -/
theorem Belongs.isFileBelow {disk : Disk} {r : Resource} {file : Path}
    (hbelongs : Belongs settings disk root place r file) :
    ∃ names, disk.IsFileBelow root place names file := by
  obtain ⟨stem, dirs, -, names, content, ⟨way, name, rfl, -⟩, rfl, hlies, -⟩ := hbelongs
  exact ⟨_, rfl, by simp, content, hlies⟩

/-- Only inline resources share a file. -/
theorem Belongs.eq_or_isInline {disk : Disk} {r r' : Resource} {file : Path}
    (hr : Belongs settings disk root place r file)
    (hr' : Belongs settings disk root place r' file) :
    r = r' ∨ r.category.isInline = true ∧ r'.category.isInline = true := by
  obtain ⟨stem, dirs, hdir, names, content, -, rfl, hlies, hyields⟩ := hr
  obtain ⟨stem', dirs', hdir', names', content', -, heq, hlies', hyields'⟩ := hr'
  obtain ⟨rfl, rfl, rfl⟩ := hdir.unique hdir' (Disk.descend_injective heq)
  rw [hlies] at hlies'
  cases hlies'
  exact hyields.eq_or_isInline hdir hyields'

theorem IsExact.has_iff {disk : Disk} {catalog : Catalog}
    (hexact : IsExact settings disk root place catalog) {r : Resource} {file : Path} :
    catalog.Has r file ↔ Belongs settings disk root place r file := by
  constructor
  · rintro ⟨record, hget, hfile⟩
    exact ((hexact.record r record hget).2.2.2 file).mp hfile
  · intro hbelongs
    obtain ⟨record, hget⟩ :=
      Option.isSome_iff_exists.mp ((hexact.contains_iff r).mpr ⟨file, hbelongs⟩)
    exact ⟨record, hget, ((hexact.record r record hget).2.2.2 file).mpr hbelongs⟩

/-- A catalog with exactly the files that belong to resources is exact. -/
theorem isExact_of_adds {catalog : Catalog} {t : Session}
    (hstarts : s.disk.StartsInDirectory root) (hopen : s.disk.openDirectory root = .ok place)
    (hruns : Runs (build settings root) s catalog t)
    (hadds : Catalog.Adds (Belongs settings s.disk root place) (Belongs settings s.disk root place)
      .empty catalog) : IsExact settings s.disk root place catalog := by
  have hhas : ∀ r file, catalog.Has r file ↔ Belongs settings s.disk root place r file := by
    refine fun r file => ⟨fun h => ?_, fun h => hadds.complete r file (.inr h)⟩
    exact (hadds.sound r file h).resolve_left Catalog.not_has_empty
  have hbacked := hadds.isBacked Catalog.isBacked_empty
  have hinline : ∀ r r' file, catalog.Has r file → catalog.Has r' file → r ≠ r' →
      r.category.isInline = true ∧ r'.category.isInline = true :=
    fun r r' file h h' hne =>
      (((hhas r file).mp h).eq_or_isInline ((hhas r' file).mp h')).resolve_left hne
  refine ⟨fun r => ⟨fun hcontains => ?_, fun ⟨file, h⟩ => ?_⟩, fun r record hget => ?_, hinline, ?_⟩
  · obtain ⟨file, h⟩ := hbacked r hcontains
    exact ⟨file, (hhas r file).mp h⟩
  · exact Catalog.contains_of_has ((hhas r file).mpr h)
  · refine ⟨uses_build hruns hget, nodup_build hruns hget, pairwise_build hruns hget,
      fun file => ?_⟩
    rw [← hhas]
    refine ⟨fun hfile => ⟨record, hget, hfile⟩, fun ⟨other, hother, hfile⟩ => ?_⟩
    rw [hget] at hother
    cases hother
    exact hfile
  · intro r r' record file more gone hnot hne hget hgone hfile hunlinks
    have hmem : ∀ f ∈ gone, catalog.Has r f := fun f hf => ⟨record, hget, hgone.subset hf⟩
    have hother : file ∉ gone := by
      intro hin
      rw [(hinline r r' file (hmem file hin) hfile hne).1] at hnot
      cases hnot
    obtain ⟨names, hbelow⟩ := ((hhas r' file).mp hfile).isFileBelow
    exact Disk.read_of_unlinks hstarts hopen ((nodup_build hruns hget).sublist hgone)
      (fun f hf => ((hhas r f).mp (hmem f hf)).isFileBelow) hbelow hother hunlinks

/-- Where all that indexing asks for can be looked up, it changes nothing and its catalog is
exact. -/
theorem build_exact (hstarts : s.disk.StartsInDirectory root)
    (hopen : s.disk.openDirectory root = .ok place)
    (hreach : IsReachable settings s.disk root place) :
    ∃ catalog, Runs (build settings root) s catalog s
      ∧ IsExact settings s.disk root place catalog := by
  have hfound : ∃ directories, definitionDirs s.disk settings root = .ok directories := by
    rw [definitionDirs, hopen]
    exact ⟨_, rfl⟩
  obtain ⟨directories, hdirs⟩ := hfound
  have hadd : ∀ directory ∈ directories, ∀ c, ∃ c', Runs (addDirectory settings c directory) s c' s
      ∧ Catalog.Adds
        (fun r file => ∃ dirs, IsDefinitionDir settings directory.stem dirs
          ∧ directory.path = descend root dirs
          ∧ BelongsIn settings s.disk root place directory.stem dirs r file)
        (fun r file => ∃ dirs, IsDefinitionDir settings directory.stem dirs
          ∧ directory.path = descend root dirs
          ∧ BelongsIn settings s.disk root place directory.stem dirs r file) c c' := by
    rintro ⟨stem, path⟩ hdirectory c
    obtain ⟨dirs, hdir, rfl, hlies⟩ := (mem_definitionDirs hopen hdirs).mp hdirectory
    obtain ⟨c', hruns, hadds⟩ := exists_addDirectory hopen hreach hdir hlies c
    refine ⟨c', hruns, hadds.imp (fun r file h => ⟨dirs, hdir, rfl, h⟩) ?_⟩
    rintro r file ⟨dirs', -, heq, h⟩
    obtain rfl := Disk.descend_injective heq
    exact h
  obtain ⟨catalog, hfold, hadds⟩ := exists_foldlM hadd .empty
  have hruns : Runs (build settings root) s catalog s := by
    refine Task.runs_disk_bind.mpr (Task.runs_bind.mpr ⟨.ok directories, s, ?_, hfold⟩)
    rw [hdirs]
    exact Task.runs_pure.mpr ⟨rfl, rfl⟩
  refine ⟨catalog, hruns, isExact_of_adds hstarts hopen hruns (hadds.imp ?_ ?_)⟩
  · rintro r file ⟨directory, -, dirs, hdir, -, h⟩
    exact ⟨directory.stem, dirs, hdir, h⟩
  · rintro r file ⟨stem, dirs, hdir, h⟩
    -- The directory is one of those found, since a file lies below it.
    have hlies : s.disk.get? (place ++ dirs) = some .directory := by
      obtain ⟨names, content, ⟨way, name, rfl, -⟩, -, hfile, -⟩ := h
      rw [← List.append_assoc] at hfile
      exact Disk.get?_of_append (by simp) hfile
    exact ⟨⟨stem, descend root dirs⟩, (mem_definitionDirs hopen hdirs).mpr ⟨dirs, hdir, rfl, hlies⟩,
      dirs, hdir, rfl, h⟩

/-- It is enough to look at all that lies on the disk. -/
theorem isReachable_of_contents {disk : Disk}
    (hcontents : ∀ entry ∈ disk.contents, place <+: entry.1 →
      IsLookedUp (descend root (entry.1.drop place.length))) :
    IsReachable settings disk root place := by
  have hbelow : ∀ names entry, names ≠ [] → disk.get? (place ++ names) = some entry →
      IsLookedUp (descend root names) := by
    intro names entry hnames hlies
    have hlooked :=
      hcontents _ (Disk.mem_contents (by simp [hnames]) hlies) (List.prefix_append _ _)
    rwa [List.drop_left] at hlooked
  have hne : ∀ {stem dirs}, IsDefinitionDir settings stem dirs → ∀ more, dirs ++ more ≠ [] := by
    rintro stem dirs ⟨way, inner, rfl, -⟩ more
    simp
  exact ⟨fun stem dirs way hdir _ hlies => hbelow _ _ (hne hdir way) hlies,
    fun dirs names content hdir _ hlies _ => hbelow _ _ (hne hdir names) hlies⟩

end

/-! ## A project and an over-long path -/

namespace Sample

def root : Path := ⟨.root, ["p"]⟩

def title : Resource := ⟨.string, "title"⟩

def icon : Resource := ⟨.drawable, "icon"⟩

def strings : Bytes := Utf8.encode "<string name=\"title\">T</string>\n"

/-- A project with a declaration and an icon in two sizes. -/
def disk : Disk :=
  (((((((((Disk.empty []).put ["p"] .directory).put ["p", "res"] .directory).put
    ["p", "res", "drawable"] .directory).put
    ["p", "res", "drawable", "icon.9.png"] (.file [])).put
    ["p", "res", "drawable-land"] .directory).put
    ["p", "res", "drawable-land", "wide"] .directory).put
    ["p", "res", "drawable-land", "wide", "icon.XML"] (.file [])).put
    ["p", "res", "values"] .directory).put
    ["p", "res", "values", "a.xml"] (.file strings)

def session (disk : Disk) : Session where
  disk
  clock := ⟨2024, 3, 31, 9, 30, 0, 0, by decide, by decide⟩
  trail := .start none "run"
  catalog := .empty
  roots := none
  patience := none

end Sample

open Sample in
theorem build_exact_sample :
    (disk.StartsInDirectory root ∧ disk.openDirectory root = .ok ["p"]
      ∧ IsReachable .default disk root ["p"])
    ∧ ∃ catalog, Runs (build .default root) (session disk) catalog (session disk)
      ∧ IsExact .default disk root ["p"] catalog ∧ catalog.contains title = true
      ∧ catalog.Has icon ⟨.root, ["p", "res", "drawable", "icon.9.png"]⟩
      ∧ catalog.Has icon ⟨.root, ["p", "res", "drawable-land", "wide", "icon.XML"]⟩ := by
  have hstarts : disk.StartsInDirectory root := Disk.startsInDirectory_of_isAbsolute disk rfl
  have hopen : disk.openDirectory root = .ok ["p"] := rfl
  have hlooked : ∀ entry ∈ disk.contents, (["p"] : Place) <+: entry.1 →
      IsLookedUp (descend root (entry.1.drop 1)) := by
    simp only [IsLookedUp]
    decide +kernel
  have hreach : IsReachable .default disk root ["p"] := isReachable_of_contents hlooked
  obtain ⟨catalog, hruns, hexact⟩ := build_exact (s := session disk) hstarts hopen hreach
  have hdir : ∀ stem inner : Text, stemOf? inner = some stem →
      isSkipped IndexSettings.default.skippedDirNames inner = false →
      IsDefinitionDir .default stem ["res", inner] :=
    fun stem inner hstem hskipped => ⟨[], inner, rfl, nofun, by decide +kernel, hskipped, hstem⟩
  have htitle : Belongs .default disk root ["p"] title (descend root ["res", "values", "a.xml"]) :=
    ⟨"values", ["res", "values"], hdir _ _ (by decide +kernel) (by decide +kernel), ["a.xml"], _,
      ⟨[], "a.xml", rfl, nofun, by decide +kernel⟩, rfl, rfl,
      yields_values_iff.mpr (by decide +kernel)⟩
  have hicon : Belongs .default disk root ["p"] icon
      (descend root ["res", "drawable", "icon.9.png"]) :=
    ⟨"drawable", ["res", "drawable"], hdir _ _ (by decide +kernel) (by decide +kernel),
      ["icon.9.png"], _, ⟨[], "icon.9.png", rfl, nofun, by decide +kernel⟩, rfl, rfl,
      .drawable (by decide +kernel)⟩
  have hwide : Belongs .default disk root ["p"] icon
      (descend root ["res", "drawable-land", "wide", "icon.XML"]) :=
    ⟨"drawable", ["res", "drawable-land"], hdir _ _ (by decide +kernel) (by decide +kernel),
      ["wide", "icon.XML"], _,
      ⟨["wide"], "icon.XML", rfl, by decide +kernel, by decide +kernel⟩, rfl,
      rfl, .drawable (by decide +kernel)⟩
  exact ⟨⟨hstarts, hopen, hreach⟩, catalog, hruns, hexact,
    (hexact.contains_iff title).mpr ⟨_, htitle⟩, hexact.has_iff.mpr hicon, hexact.has_iff.mpr hwide⟩

namespace Sample

/-- A name that makes for a long path. -/
def detour : Text := List.replicate 200 (.char 'x')

/-- A path to the project that goes down and up again. -/
def longRoot : Path := ⟨.root, "p" :: (List.replicate 19 [detour, ".."]).flatten⟩

def longName : Text := List.replicate 246 (.char 'n') ++ definitionExtension

/-- A project with a declaration in a file that has a long name. -/
def deepDisk : Disk :=
  (((((Disk.empty []).put ["p"] .directory).put ["p", detour] .directory).put
    ["p", "res"] .directory).put ["p", "res", "values"] .directory).put
    ["p", "res", "values", longName] (.file strings)

end Sample

open Sample in
/-- A definition file whose path is too long is passed over. -/
theorem not_build_exact :
    deepDisk.StartsInDirectory longRoot ∧ deepDisk.openDirectory longRoot = .ok ["p"]
      ∧ ∃ catalog t, Runs (build .default longRoot) (session deepDisk) catalog t
        ∧ Belongs .default deepDisk longRoot ["p"] title
          (descend longRoot ["res", "values", longName])
        ∧ catalog.contains title = false ∧ ¬ IsExact .default deepDisk longRoot ["p"] catalog := by
  have hstarts : deepDisk.StartsInDirectory longRoot :=
    Disk.startsInDirectory_of_isAbsolute deepDisk rfl
  have hopen : deepDisk.openDirectory longRoot = .ok ["p"] := by decide +kernel
  have hbelongs : Belongs .default deepDisk longRoot ["p"] title
      (descend longRoot ["res", "values", longName]) :=
    ⟨"values", ["res", "values"],
      ⟨[], "values", rfl, nofun, by decide +kernel, by decide +kernel, by decide +kernel⟩,
      [longName], strings, ⟨[], longName, rfl, nofun, by decide +kernel⟩, rfl, by decide +kernel,
      yields_values_iff.mpr (by decide +kernel)⟩
  have hran : ((Task.exec (build .default longRoot) (session deepDisk)).1.toOption.map
      (·.contains title)) = some false := by
    decide +kernel
  cases hexec : Task.exec (build .default longRoot) (session deepDisk) with
  | mk result t =>
      rw [hexec] at hran
      cases result with
      | error failure => cases hran
      | ok catalog =>
          have hmissing : catalog.contains title = false := Option.some.inj hran
          refine ⟨hstarts, hopen, catalog, t, hexec, hbelongs, hmissing, fun hexact => ?_⟩
          rw [(hexact.contains_iff title).mpr ⟨_, hbelongs⟩] at hmissing
          cases hmissing

end Index

end ResourcePruner
