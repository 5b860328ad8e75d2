import ResourcePruner.Proofs.Catalog
import ResourcePruner.Proofs.Frame
import ResourcePruner.Proofs.Index.Directories

/-!
# The catalog that is built

Indexing enters a file under a resource exactly when the file lies at a place that is indexed and is
or declares that resource (`Index.build_sound`, `Index.build_complete`). What is read passes over
the log to which warnings are added on the way: nothing is said of a place where the log, or
anything else that is hidden, lies.
-/

namespace ResourcePruner

namespace Index

open Disk (descend isSkipped Extends Same)
open ResourcePruner.Task (Runs Steps IsLogged)

/-! ## Directories -/

theorem mem_categoryDirsIn {disk : Disk} {settings : IndexSettings} {place : Place} {name : Text} :
    name ∈ categoryDirsIn disk settings place ↔
      disk.get? (place ++ [name]) = some .directory
        ∧ isSkipped settings.skippedDirNames name = false ∧ (stemOf? name).isSome := by
  rw [categoryDirsIn, List.mem_map]
  constructor
  · rintro ⟨⟨name, entry⟩, hmem, rfl⟩
    obtain ⟨hchild, hkept⟩ := List.mem_filter.mp hmem
    simp only [Bool.and_eq_true, decide_eq_true_eq, Bool.not_eq_true'] at hkept
    obtain ⟨⟨rfl, hskipped⟩, hstem⟩ := hkept
    exact ⟨Disk.mem_children.mp hchild, hskipped, hstem⟩
  · rintro ⟨hlies, hskipped, hstem⟩
    refine ⟨(name, .directory), List.mem_filter.mpr ⟨Disk.mem_children.mpr hlies, ?_⟩, rfl⟩
    simp [hskipped, hstem]

theorem mem_definitionDirsIn {disk : Disk} {settings : IndexSettings} {place : Place}
    {names : List Text} :
    names ∈ definitionDirsIn disk settings place ↔
      ∃ inner, names = [settings.resourceDirName, inner]
        ∧ disk.get? (place ++ [settings.resourceDirName, inner]) = some .directory
        ∧ isSkipped settings.skippedDirNames settings.resourceDirName = false
        ∧ isSkipped settings.skippedDirNames inner = false ∧ (stemOf? inner).isSome := by
  rw [definitionDirsIn, List.mem_flatMap]
  constructor
  · rintro ⟨⟨name, entry⟩, hchild, hmem⟩
    simp only at hmem
    split at hmem
    · rename_i hresource
      simp only [isResourceDir, Bool.and_eq_true, decide_eq_true_eq, Bool.not_eq_true'] at hresource
      obtain ⟨⟨rfl, hskipped⟩, rfl⟩ := hresource
      obtain ⟨inner, hinner, rfl⟩ := List.mem_map.mp hmem
      obtain ⟨hlies, hskipped', hstem⟩ := mem_categoryDirsIn.mp hinner
      rw [List.append_assoc] at hlies
      exact ⟨inner, rfl, hlies, hskipped, hskipped', hstem⟩
    · cases hmem
  · rintro ⟨inner, rfl, hlies, hskipped, hskipped', hstem⟩
    have hsplit : place ++ [settings.resourceDirName, inner]
        = place ++ [settings.resourceDirName] ++ [inner] := by simp
    rw [hsplit] at hlies
    have habove := Disk.get?_of_append (List.cons_ne_nil _ _) hlies
    refine ⟨(settings.resourceDirName, .directory), Disk.mem_children.mpr habove, ?_⟩
    simp only [isResourceDir, hskipped, decide_true, Bool.not_false, Bool.and_self, if_true]
    exact List.mem_map.mpr ⟨inner, mem_categoryDirsIn.mpr ⟨hlies, hskipped', hstem⟩, rfl⟩

theorem IsDefinitionDir.stemOf? {settings : IndexSettings} {stem : Text} {names : List Text}
    (hdir : IsDefinitionDir settings stem names) :
    Index.stemOf? (names.getLastD []) = some stem := by
  obtain ⟨way, inner, rfl, -, -, -, hstem⟩ := hdir
  simpa using hstem

/-- The directories that hold resources, by the names that lead to them from a place. -/
theorem mem_definitionDirsBelow {disk : Disk} {settings : IndexSettings} {place : Place}
    {names : List Text} :
    names ∈ definitionDirsBelow disk settings place ↔
      (∃ stem, IsDefinitionDir settings stem names)
        ∧ disk.get? (place ++ names) = some .directory := by
  simp only [definitionDirsBelow, Disk.mem_preorder, mem_definitionDirsIn]
  constructor
  · rintro ⟨way, _, rfl, -, hway, inner, rfl, hlies, hskipped, hskipped', hstem⟩
    obtain ⟨stem, hstem⟩ := Option.isSome_iff_exists.mp hstem
    refine ⟨⟨stem, way, inner, rfl, fun d hd => ?_, hskipped, hskipped', hstem⟩, ?_⟩
    · simpa using hway.enter d hd
    · rwa [List.append_assoc] at hlies
  · rintro ⟨⟨stem, way, inner, rfl, hway, hskipped, hskipped', hstem⟩, hlies⟩
    rw [← List.append_assoc] at hlies
    have habove := Disk.get?_of_append (List.cons_ne_nil _ _) hlies
    refine ⟨way, _, rfl, Disk.length_way_lt_depthBound habove, ?_, inner, rfl, hlies, hskipped,
      hskipped', by rw [hstem]; rfl⟩
    exact Disk.isWay_of_get? (fun d hd => by simp [hway d hd]) habove

/-- The directories that hold resources, by the names that lead to them. -/
theorem mem_definitionDirs {disk : Disk} {settings : IndexSettings} {root : Path} {place : Place}
    {directories : List DefinitionDir} (hopen : disk.openDirectory root = .ok place)
    (hdirs : definitionDirs disk settings root = .ok directories) {directory : DefinitionDir} :
    directory ∈ directories ↔
      ∃ dirs, IsDefinitionDir settings directory.stem dirs ∧ directory.path = descend root dirs
        ∧ disk.get? (place ++ dirs) = some .directory := by
  rw [definitionDirs, hopen] at hdirs
  cases hdirs
  simp only [List.mem_filterMap, Option.map_eq_some_iff, mem_definitionDirsBelow]
  constructor
  · rintro ⟨names, ⟨⟨stem, hdir⟩, hlies⟩, stem', hstem, rfl⟩
    obtain rfl : stem = stem' := Option.some.inj (hdir.stemOf?.symm.trans hstem)
    exact ⟨names, hdir, rfl, hlies⟩
  · rintro ⟨names, hdir, hpath, hlies⟩
    exact ⟨names, ⟨⟨_, hdir⟩, hlies⟩, directory.stem, hdir.stemOf?, by rw [← hpath]⟩

/-! ## Steps -/

section

variable {R : Session → Session → Prop} [IsLogged R]

theorem steps_warnDirectory (error : Disk.Error) : Steps R (warnDirectory error) :=
  Task.steps_warn _ _ _ _

theorem steps_walk (settings : IndexSettings) (directory : Path) :
    Steps R (walk settings directory) := by
  refine Task.steps_disk.bind fun disk => (Task.steps_refusable _).bind fun found => ?_
  cases found with
  | ok files => exact .pure _
  | error error => exact (steps_warnDirectory error).bind fun _ => .pure _

theorem steps_addDefinitionFile (catalog : Catalog) (path : Path) :
    Steps R (addDefinitionFile catalog path) := by
  refine Task.steps_disk.bind fun disk => (Task.steps_refusable _).bind fun found => ?_
  cases found with
  | ok bytes => exact .pure _
  | error error => exact (Task.steps_warn _ _ _ _).bind fun _ => .pure _

theorem steps_addDefinitions (settings : IndexSettings) (catalog : Catalog) (directory : Path) :
    Steps R (addDefinitions settings catalog directory) :=
  (steps_walk settings directory).bind fun _ =>
    .foldlM (fun catalog file _ => (steps_addDefinitionFile catalog file).bind fun _ => .pure _) _

theorem steps_addFiles (settings : IndexSettings) (catalog : Catalog) (directory : Path)
    (category : Category) (extensions : List Text) :
    Steps R (addFiles settings catalog directory category extensions) :=
  (steps_walk settings directory).bind fun _ => .pure _

theorem steps_addDirectory (settings : IndexSettings) (catalog : Catalog)
    (directory : DefinitionDir) : Steps R (addDirectory settings catalog directory) := by
  unfold addDirectory
  refine .ite (fun _ => steps_addFiles _ _ _ _ _) fun _ => ?_
  exact .ite (fun _ => steps_addFiles _ _ _ _ _) fun _ => steps_addDefinitions _ _ _

theorem steps_build (settings : IndexSettings) (root : Path) : Steps R (build settings root) := by
  refine Task.steps_disk.bind fun disk => (Task.steps_refusable _).bind fun found => ?_
  cases found with
  | ok directories =>
      exact .foldlM (fun catalog directory _ => steps_addDirectory settings catalog directory) _
  | error error => exact (steps_warnDirectory error).bind fun _ => .pure _

end

/-! ## What is added -/

/-- Along a list, what is added for each of its items is added. -/
theorem adds_foldlM {scene : Scene} {s : Session} {α : Type} {f : Catalog → α → Task Catalog}
    {upper lower : α → Resource → Path → Prop} {list : List α}
    (hframes : ∀ catalog, ∀ a ∈ list, Steps (Frames scene Nowhere Same) (f catalog a))
    (hf : ∀ a ∈ list, ∀ {c t c' t'}, Frame scene Nowhere Same s t → Extends t'.disk scene.last →
      Runs (f c a) t c' t' → Catalog.Adds (upper a) (lower a) c c')
    {c c' : Catalog} {t t' : Session} (hframe : Frame scene Nowhere Same s t)
    (hlast : Extends t'.disk scene.last) (hruns : Runs (list.foldlM f c) t c' t') :
    Catalog.Adds (fun r file => ∃ a ∈ list, upper a r file)
      (fun r file => ∃ a ∈ list, lower a r file) c c' := by
  induction list generalizing c t with
  | nil =>
      obtain ⟨rfl, rfl⟩ := Task.runs_foldlM_nil.mp hruns
      exact .refl (fun _ _ => nofun) _
  | cons a rest ih =>
      obtain ⟨next, u, hfirst, hrest⟩ := Task.runs_foldlM_cons.mp hruns
      obtain ⟨ha, hf'⟩ := List.forall_mem_cons.mp hf
      have hframes' : ∀ catalog, ∀ a ∈ rest, Steps (Frames scene Nowhere Same) (f catalog a) :=
        fun catalog a ha => hframes catalog a (List.mem_cons_of_mem _ ha)
      have htu := (hframes c a List.mem_cons_self).runs hfirst hframe.has
      have hut := (Steps.foldlM hframes' next).runs hrest htu.has
      have hsu := hframe.trans htu
      exact ((ha hframe (hut.stays.trans hlast) hfirst).trans (ih hframes' hf' hsu hrest)).imp
        (fun r file h => by simpa using h) fun r file h => by simpa using h

/-- The files of a directory that are not left aside, by the names that lead to them. -/
theorem mem_walked {disk : Disk} {settings : IndexSettings} {directory : Path} {place : Place}
    {walked : List Path} (hopen : disk.openDirectory directory = .ok place)
    (hwalk : disk.walkFiles directory settings.skippedDirNames = .ok walked) {file : Path} :
    file ∈ walked.filter (fun file => !settings.excludedFiles.contains file.name) ↔
      ∃ names content, IsWalked settings names ∧ file = descend directory names
        ∧ disk.get? (place ++ names) = some (.file content) := by
  rw [List.mem_filter, Disk.mem_walkFiles hopen hwalk]
  constructor
  · rintro ⟨⟨way, name, content, rfl, hway, hlies⟩, hexcluded⟩
    rw [Disk.name_descend, Bool.not_eq_true'] at hexcluded
    rw [List.append_assoc] at hlies
    exact ⟨_, content, ⟨way, name, rfl, hway, hexcluded⟩, rfl, hlies⟩
  · rintro ⟨_, content, ⟨way, name, rfl, hway, hexcluded⟩, rfl, hlies⟩
    rw [← List.append_assoc] at hlies
    refine ⟨⟨way, name, content, rfl, hway, hlies⟩, ?_⟩
    rw [Disk.name_descend, hexcluded]
    rfl

/-- A walk lists the files of the directory to which its path leads, and none if it leads to no
directory. -/
theorem runs_walk {settings : IndexSettings} {directory goal : Path} {t t' : Session}
    {files : List Path} (habsolute : directory.isAbsolute = true)
    (hlocates : t.disk.Locates directory goal)
    (hdirectory : t.disk.get? goal.place = some .directory)
    (hruns : Runs (walk settings directory) t files t') {file : Path} :
    file ∈ files ↔
      Disk.IsLookedUp directory ∧ ∃ names content, IsWalked settings names
        ∧ file = descend directory names
        ∧ t.disk.get? (goal.place ++ names) = some (.file content) := by
  rw [walk] at hruns
  have hruns := Task.runs_refusable_bind (Task.runs_disk_bind.mp hruns)
  cases hwalk : t.disk.walkFiles directory settings.skippedDirNames with
  | ok walked =>
      rw [hwalk] at hruns
      obtain ⟨rfl, -⟩ := Task.runs_pure.mp hruns
      have hopen : ∃ place, t.disk.openDirectory directory = .ok place := by
        cases hopen : t.disk.openDirectory directory with
        | ok place => exact ⟨place, rfl⟩
        | error error =>
            rw [Disk.walkFiles, hopen] at hwalk
            cases hwalk
      obtain ⟨place, hopen⟩ := hopen
      obtain ⟨hlooked, other, hother, rfl, -⟩ := Disk.locates_of_openDirectory habsolute hopen
      obtain rfl := hother.unique hlocates
      exact (mem_walked hopen hwalk).trans (and_iff_right hlooked).symm
  | error error =>
      rw [hwalk] at hruns
      obtain ⟨_, _, -, hruns⟩ := Task.runs_bind.mp hruns
      obtain ⟨rfl, -⟩ := Task.runs_pure.mp hruns
      refine ⟨fun h => absurd h List.not_mem_nil, fun h => ?_⟩
      have hopen := Disk.openDirectory_of_locates habsolute h.1 hlocates hdirectory
      rw [Disk.walkFiles, hopen] at hwalk
      cases hwalk

section

variable (scene : Scene) (settings : IndexSettings) (disk : Disk) (root goal : Path)

/-- The file is indexed and belonged to the resource at some time, in the beginning unless it is
hidden. -/
def MayEnter (r : Resource) (file : Path) : Prop :=
  ∃ stem place, Indexes settings root goal stem file place
    ∧ (∃ between content, Extends between scene.last ∧ between.get? place = some (.file content)
      ∧ r ∈ resourcesOf settings stem file content)
    ∧ (scene.hidden place ∨ ∃ content, disk.get? place = some (.file content)
      ∧ r ∈ resourcesOf settings stem file content)

/-- The file is indexed and belongs to the resource. -/
def MustEnter (r : Resource) (file : Path) : Prop :=
  ∃ stem place content, Indexes settings root goal stem file place ∧ ¬ scene.hidden place
    ∧ disk.get? place = some (.file content) ∧ r ∈ resourcesOf settings stem file content

/-- The file is one of a directory and belongs to the resource. -/
def MustEnterFrom (stem : Text) (dirs : List Text) (r : Resource) (file : Path) : Prop :=
  ∃ names content, IsWalked settings names ∧ file = descend root (dirs ++ names)
    ∧ Disk.IsLookedUp (descend root dirs)
    ∧ (stem ≠ Category.directoryStem .layout → stem ≠ Category.directoryStem .drawable →
      Disk.IsLookedUp file)
    ∧ ¬ scene.hidden (goal.place ++ (dirs ++ names))
    ∧ disk.get? (goal.place ++ (dirs ++ names)) = some (.file content)
    ∧ r ∈ resourcesOf settings stem file content

end

section

variable {scene : Scene} {settings : IndexSettings} {root goal : Path} {s t t' : Session}
  {stem : Text} {dirs : List Text} {c c' : Catalog}

/-- A walk lists the files of the directory, wherever it was in the beginning. -/
theorem mem_walk_iff (habsolute : root.isAbsolute = true) (hroot : s.disk.Locates root goal)
    (hlies : s.disk.get? (goal.place ++ dirs) = some .directory) (hstays : Extends s.disk t.disk)
    {files : List Path} (hruns : Runs (walk settings (descend root dirs)) t files t')
    (file : Path) :
    file ∈ files ↔ Disk.IsLookedUp (descend root dirs) ∧ ∃ names content, IsWalked settings names
      ∧ file = descend root (dirs ++ names)
      ∧ t.disk.get? (goal.place ++ (dirs ++ names)) = some (.file content) := by
  have hplace := Disk.place_descend goal (Disk.isListed_of_get? hlies)
  have hdirectory := hstays.directory _ hlies
  have hlocates := (hroot.mono hstays).descend_of_get? hdirectory rfl
  rw [← hplace] at hdirectory
  have hdown : (descend root dirs).isAbsolute = true := habsolute
  rw [runs_walk hdown hlocates hdirectory hruns]
  simp only [Disk.descend_descend, hplace, List.append_assoc]

/-- Files that are resources themselves are added by the names that theirs give. -/
theorem adds_derived (files : List Path) (category : Category) (extensions : List Text)
    (c : Catalog) :
    Catalog.Adds
      (fun r f => f ∈ files ∧ ∃ name, derivedName? f.name extensions = some name
        ∧ r = ⟨category, name⟩)
      (fun r f => f ∈ files ∧ ∃ name, derivedName? f.name extensions = some name
        ∧ r = ⟨category, name⟩)
      c
      (files.foldl
        (fun catalog file =>
          match derivedName? file.name extensions with
          | none => catalog
          | some name => catalog.declare ⟨category, name⟩ file)
        c) := by
  have hdeclare : ∀ file ∈ files, ∀ catalog : Catalog, Catalog.Adds
      (fun r f => f = file ∧ ∃ name, derivedName? f.name extensions = some name
        ∧ r = ⟨category, name⟩)
      (fun r f => f = file ∧ ∃ name, derivedName? f.name extensions = some name
        ∧ r = ⟨category, name⟩)
      catalog
      (match derivedName? file.name extensions with
        | none => catalog
        | some name => catalog.declare ⟨category, name⟩ file) := by
    intro file _ catalog
    cases hderived : derivedName? file.name extensions with
    | none =>
        refine .refl ?_ catalog
        rintro r f ⟨rfl, name, hname, -⟩
        rw [hderived] at hname
        cases hname
    | some name =>
        refine (Catalog.Adds.declare catalog ⟨category, name⟩ file).imp ?_ ?_
        · rintro r f ⟨rfl, rfl⟩
          exact ⟨rfl, name, hderived, rfl⟩
        · rintro r f ⟨rfl, other, hother, rfl⟩
          rw [hderived] at hother
          cases hother
          exact ⟨rfl, rfl⟩
  refine (Catalog.Adds.foldl hdeclare c).imp ?_ ?_
  · rintro r f ⟨_, hfile, rfl, hname⟩
    exact ⟨hfile, hname⟩
  · rintro r f ⟨hfile, hname⟩
    exact ⟨f, hfile, rfl, hname⟩

/-- Files that are resources themselves are entered by their names. -/
theorem adds_addFiles (habsolute : root.isAbsolute = true) (hroot : s.disk.Locates root goal)
    (hdir : IsDefinitionDir settings stem dirs)
    (hlies : s.disk.get? (goal.place ++ dirs) = some .directory) {category : Category}
    {extensions : List Text}
    (hstem : stem = Category.directoryStem .layout ∨ stem = Category.directoryStem .drawable)
    (hresources : ∀ file content, resourcesOf settings stem file content
      = (derivedName? file.name extensions).toList.map fun name => ⟨category, name⟩)
    (hframe : Frame scene Nowhere Same s t) (hlast : Extends t'.disk scene.last)
    (hruns : Runs (addFiles settings c (descend root dirs) category extensions) t c' t') :
    Catalog.Adds (MayEnter scene settings s.disk root goal)
      (MustEnterFrom scene settings s.disk root goal stem dirs) c c' := by
  obtain ⟨files, u, hwalk, hruns⟩ := Task.runs_bind.mp hruns
  obtain ⟨rfl, rfl⟩ := Task.runs_pure.mp hruns
  have htu : Frame scene Nowhere Same t t' := .of_steps hframe.has hwalk (steps_walk settings _)
  have hmem := mem_walk_iff habsolute hroot hlies hframe.stays hwalk
  have hlast' := htu.stays.trans hlast
  have hname : ∀ {r file content}, r ∈ resourcesOf settings stem file content ↔
      ∃ name, derivedName? file.name extensions = some name ∧ r = ⟨category, name⟩ := by
    intro r file content
    rw [hresources, List.mem_map]
    simp only [Option.mem_toList, eq_comm (b := r)]
  refine (adds_derived files category extensions c).imp ?_ ?_
  · rintro r file ⟨hfile, hr⟩
    obtain ⟨hlooked, names, content, hwalked, rfl, hcontent⟩ := (hmem file).mp hfile
    refine ⟨stem, _, ⟨⟨dirs, names, hdir, hwalked, rfl, rfl, hlooked⟩, ?_⟩,
      ⟨t.disk, content, hlast', hcontent, hname.mpr hr⟩, ?_⟩
    · exact fun h1 h2 => absurd hstem (not_or.mpr ⟨h1, h2⟩)
    · by_cases hhidden : scene.hidden (goal.place ++ (dirs ++ names))
      · exact .inl hhidden
      · exact .inr ⟨content, (hframe.get?_file_iff hlast' hhidden).mp hcontent, hname.mpr hr⟩
  · rintro r file ⟨names, content, hwalked, rfl, hlooked, -, hshown, hcontent, hr⟩
    refine ⟨(hmem _).mpr ⟨hlooked, names, content, hwalked, rfl, ?_⟩, hname.mp hr⟩
    exact (hframe.get?_file_iff hlast' hshown).mpr hcontent

/-- A definition file that is read is entered under every resource that it declares. -/
theorem runs_addDefinitionFile {file : Path} {found : Bool}
    (hruns : Runs (addDefinitionFile c file) t (found, c') t') :
    (∃ bytes, t.disk.read file = .ok bytes
      ∧ c' = (declaredIn bytes).foldl (fun c r => c.declare r file) c)
    ∨ (∀ bytes, t.disk.read file ≠ .ok bytes) ∧ c' = c := by
  have hruns := Task.runs_refusable_bind (Task.runs_disk_bind.mp hruns)
  cases hread : t.disk.read file with
  | ok bytes =>
      rw [hread] at hruns
      obtain ⟨h, -⟩ := Task.runs_pure.mp hruns
      exact .inl ⟨bytes, rfl, congrArg Prod.snd h⟩
  | error error =>
      rw [hread] at hruns
      obtain ⟨_, _, -, hruns⟩ := Task.runs_bind.mp hruns
      obtain ⟨h, -⟩ := Task.runs_pure.mp hruns
      exact .inr ⟨nofun, congrArg Prod.snd h⟩

/-- Indexing a definition file that can be read adds what is declared in it. -/
theorem runs_addDefinitionFile_of_read {s : Session} {path : Path} {bytes : Bytes}
    (hread : s.disk.read path = .ok bytes) (catalog : Catalog) :
    Runs (addDefinitionFile catalog path) s
      (true, (declaredIn bytes).foldl (fun c r => c.declare r path) catalog) s := by
  refine Task.runs_disk_bind.mpr
    (Task.runs_bind.mpr ⟨.ok bytes, s, ?_, Task.runs_pure.mpr ⟨rfl, rfl⟩⟩)
  rw [hread]
  exact Task.runs_pure.mpr ⟨rfl, rfl⟩

theorem adds_declaredIn (bytes : Bytes) (file : Path) (c : Catalog) :
    Catalog.Adds (fun r f => f = file ∧ r ∈ declaredIn bytes)
      (fun r f => f = file ∧ r ∈ declaredIn bytes) c
      ((declaredIn bytes).foldl (fun c r => c.declare r file) c) := by
  have hdeclare : ∀ r ∈ declaredIn bytes, ∀ c : Catalog, _ :=
    fun r _ c => Catalog.Adds.declare c r file
  refine (Catalog.Adds.foldl hdeclare c).imp ?_ ?_
  · rintro r f ⟨_, hr, rfl, rfl⟩
    exact ⟨rfl, hr⟩
  · rintro r f ⟨rfl, hr⟩
    exact ⟨r, hr, rfl, rfl⟩

theorem adds_addDefinitionFile (habsolute : root.isAbsolute = true)
    (hroot : s.disk.Locates root goal) (hdir : IsDefinitionDir settings stem dirs)
    (hlayout : stem ≠ Category.directoryStem .layout)
    (hdrawable : stem ≠ Category.directoryStem .drawable) {names : List Text}
    (hwalked : IsWalked settings names) (hlooked : Disk.IsLookedUp (descend root dirs))
    (hdefinition : isDefinitionFile (descend root (dirs ++ names)) = true)
    (hlay : ∃ between content, Extends s.disk between ∧ Extends between t.disk
      ∧ between.get? (goal.place ++ (dirs ++ names)) = some (.file content))
    (hplace : scene.hidden (goal.place ++ (dirs ++ names))
      ∨ ∃ content, s.disk.get? (goal.place ++ (dirs ++ names)) = some (.file content))
    (hframe : Frame scene Nowhere Same s t) (hlast : Extends t.disk scene.last) {found : Bool}
    (hruns : Runs (addDefinitionFile c (descend root (dirs ++ names))) t (found, c') t') :
    Catalog.Adds (MayEnter scene settings s.disk root goal)
      (fun r f => f = descend root (dirs ++ names)
        ∧ MustEnterFrom scene settings s.disk root goal stem dirs r f) c c' := by
  have hdown : (descend root (dirs ++ names)).isAbsolute = true := habsolute
  have hresources : ∀ content,
      resourcesOf settings stem (descend root (dirs ++ names)) content = declaredIn content := by
    intro content
    rw [resourcesOf, if_neg hlayout, if_neg hdrawable, if_pos hdefinition]
  -- What is read where nothing is hidden is what lay there in the beginning.
  have hread : ∀ content, ¬ scene.hidden (goal.place ++ (dirs ++ names)) →
      s.disk.get? (goal.place ++ (dirs ++ names)) = some (.file content) →
      Disk.IsLookedUp (descend root (dirs ++ names)) →
      t.disk.read (descend root (dirs ++ names)) = .ok content := by
    intro content hshown hcontent hlooked'
    have hnow := (hframe.get?_file_iff hlast hshown).mpr hcontent
    have hlocates := (hroot.mono hframe.stays).descend_of_get? hnow rfl
    rw [← Disk.place_descend goal (Disk.isListed_of_get? hnow)] at hnow
    exact Disk.read_of_locates hdown hlooked' hlocates hnow
  rcases runs_addDefinitionFile hruns with ⟨bytes, hbytes, rfl⟩ | ⟨hnone, rfl⟩
  · obtain ⟨hlooked', found, hfound, hfile⟩ := Disk.locates_of_read hdown hbytes
    have hnow : t.disk.get? (goal.place ++ (dirs ++ names)) = some (.file bytes) := by
      obtain ⟨between, content, hsince, huntil, hcontent⟩ := hlay
      have hlocates := (hroot.mono hsince).descend_of_get? hcontent rfl
      rw [← Disk.place_descend goal (Disk.isListed_of_get? hcontent)]
      rwa [hfound.unique (hlocates.mono huntil)] at hfile
    refine (adds_declaredIn bytes _ c).imp ?_ ?_
    · rintro r f ⟨rfl, hr⟩
      refine ⟨stem, _, ⟨⟨dirs, names, hdir, hwalked, rfl, rfl, hlooked⟩, fun _ _ => hlooked'⟩,
        ⟨t.disk, bytes, hlast, hnow, by rwa [hresources]⟩, ?_⟩
      by_cases hhidden : scene.hidden (goal.place ++ (dirs ++ names))
      · exact .inl hhidden
      · obtain ⟨content, hcontent⟩ := hplace.resolve_left hhidden
        have hsame := hread content hhidden hcontent hlooked'
        rw [hbytes] at hsame
        cases hsame
        exact .inr ⟨bytes, hcontent, by rwa [hresources]⟩
    · rintro r f ⟨rfl, names', content, -, heq, -, -, hshown, hcontent, hr⟩
      obtain rfl := List.append_cancel_left (Disk.descend_injective heq)
      have hsame := hread content hshown hcontent hlooked'
      rw [hbytes] at hsame
      cases hsame
      exact ⟨rfl, by rwa [hresources] at hr⟩
  · refine .refl ?_ c'
    rintro r f ⟨rfl, names', content, -, heq, -, hlooked', hshown, hcontent, hr⟩
    obtain rfl := List.append_cancel_left (Disk.descend_injective heq)
    exact hnone content (hread content hshown hcontent (hlooked' hlayout hdrawable))

/-- Definition files are entered under what they declare. -/
theorem adds_addDefinitions (habsolute : root.isAbsolute = true)
    (hroot : s.disk.Locates root goal) (hdir : IsDefinitionDir settings stem dirs)
    (hlies : s.disk.get? (goal.place ++ dirs) = some .directory)
    (hlayout : stem ≠ Category.directoryStem .layout)
    (hdrawable : stem ≠ Category.directoryStem .drawable)
    (hframe : Frame scene Nowhere Same s t) (hlast : Extends t'.disk scene.last)
    (hruns : Runs (addDefinitions settings c (descend root dirs)) t c' t') :
    Catalog.Adds (MayEnter scene settings s.disk root goal)
      (MustEnterFrom scene settings s.disk root goal stem dirs) c c' := by
  obtain ⟨files, u, hwalk, hruns⟩ := Task.runs_bind.mp hruns
  have htu : Frame scene Nowhere Same t u := .of_steps hframe.has hwalk (steps_walk settings _)
  have hmem := mem_walk_iff habsolute hroot hlies hframe.stays hwalk
  have hframes : ∀ catalog file,
      Steps (Frames scene Nowhere Same) (do return (← addDefinitionFile catalog file).2) :=
    fun catalog file => (steps_addDefinitionFile catalog file).bind fun _ => .pure _
  have hut : Frame scene Nowhere Same u t' :=
    .of_steps htu.has hruns (.foldlM (fun catalog file _ => hframes catalog file) c)
  have hlast' := (htu.stays.trans hut.stays).trans hlast
  have hadds : Catalog.Adds
      (fun r f => ∃ file ∈ files.filter isDefinitionFile,
        MayEnter scene settings s.disk root goal r f)
      (fun r f => ∃ file ∈ files.filter isDefinitionFile,
        f = file ∧ MustEnterFrom scene settings s.disk root goal stem dirs r f) c c' := by
    refine adds_foldlM (fun catalog file _ => hframes catalog file) ?_ htu hlast hruns
    intro file hfile c v c' v' htv hlastv hruns
    obtain ⟨hfile, hdefinition⟩ := List.mem_filter.mp hfile
    obtain ⟨hlooked, names, content, hwalked, rfl, hcontent⟩ := (hmem file).mp hfile
    obtain ⟨⟨found, c''⟩, v'', hruns, hpure⟩ := Task.runs_bind.mp hruns
    obtain ⟨rfl, rfl⟩ := Task.runs_pure.mp hpure
    have hvv' : Frame scene Nowhere Same v v' :=
      .of_steps htv.has hruns (steps_addDefinitionFile _ _)
    refine adds_addDefinitionFile habsolute hroot hdir hlayout hdrawable hwalked hlooked hdefinition
      ⟨t.disk, content, hframe.stays, htv.stays, hcontent⟩ ?_ (hframe.trans htv)
      (hvv'.stays.trans hlastv) hruns
    by_cases hhidden : scene.hidden (goal.place ++ (dirs ++ names))
    · exact .inl hhidden
    · exact .inr ⟨content, (hframe.get?_file_iff hlast' hhidden).mp hcontent⟩
  refine hadds.imp ?_ ?_
  · rintro r f ⟨file, -, h⟩
    exact h
  · intro r f h
    obtain ⟨names, content, hwalked, rfl, hlooked, -, hshown, hcontent, hr⟩ := id h
    have hdefinition : isDefinitionFile (descend root (dirs ++ names)) = true := by
      cases hdefinition : isDefinitionFile (descend root (dirs ++ names)) with
      | true => rfl
      | false =>
          rw [resourcesOf, if_neg hlayout, if_neg hdrawable, hdefinition] at hr
          cases hr
    refine ⟨_, List.mem_filter.mpr ⟨(hmem _).mpr ⟨hlooked, names, content, hwalked, rfl, ?_⟩,
      hdefinition⟩, rfl, h⟩
    exact (hframe.get?_file_iff hlast' hshown).mpr hcontent

theorem adds_addDirectory (habsolute : root.isAbsolute = true)
    (hroot : s.disk.Locates root goal) (hdir : IsDefinitionDir settings stem dirs)
    (hlies : s.disk.get? (goal.place ++ dirs) = some .directory)
    (hframe : Frame scene Nowhere Same s t) (hlast : Extends t'.disk scene.last)
    (hruns : Runs (addDirectory settings c ⟨stem, descend root dirs⟩) t c' t') :
    Catalog.Adds (MayEnter scene settings s.disk root goal)
      (MustEnterFrom scene settings s.disk root goal stem dirs) c c' := by
  unfold addDirectory at hruns
  split at hruns
  · rename_i hstem
    refine adds_addFiles habsolute hroot hdir hlies (.inl hstem) (fun file content => ?_) hframe
      hlast hruns
    rw [resourcesOf, if_pos hstem]
  · rename_i hlayout
    split at hruns
    · rename_i hstem
      refine adds_addFiles habsolute hroot hdir hlies (.inr hstem) (fun file content => ?_) hframe
        hlast hruns
      rw [resourcesOf, if_neg hlayout, if_pos hstem]
    · rename_i hdrawable
      exact adds_addDefinitions habsolute hroot hdir hlies hlayout hdrawable hframe hlast hruns

end

/-! ## The catalog -/

section

variable {scene : Scene} {settings : IndexSettings} {root : Path} {s s' : Session}
  {catalog : Catalog}

/-- Nothing is found where the root is no directory. -/
theorem eq_empty_of_build (hnone : ∀ place, s.disk.openDirectory root ≠ .ok place)
    (hruns : Runs (build settings root) s catalog s') : catalog = .empty := by
  have hruns := Task.runs_refusable_bind (Task.runs_disk_bind.mp hruns)
  cases hopen : s.disk.openDirectory root with
  | error error =>
      rw [definitionDirs, hopen] at hruns
      obtain ⟨_, _, -, hruns⟩ := Task.runs_bind.mp hruns
      exact (Task.runs_pure.mp hruns).1
  | ok place => exact absurd hopen (hnone place)

/-- The catalog holds the files that are indexed below the root, if the root is a directory. -/
theorem adds_build (habsolute : root.isAbsolute = true) (hhas : scene.Has s)
    (hlast : Extends s'.disk scene.last) (hruns : Runs (build settings root) s catalog s') :
    (∃ goal, Disk.IsLookedUp root ∧ s.disk.Locates root goal
      ∧ s.disk.get? goal.place = some .directory ∧ Catalog.Adds
        (MayEnter scene settings s.disk root goal) (MustEnter scene settings s.disk root goal)
        .empty catalog)
    ∨ (∀ place, s.disk.openDirectory root ≠ .ok place) ∧ catalog = .empty := by
  cases hopen : s.disk.openDirectory root with
  | error error => exact .inr ⟨nofun, eq_empty_of_build (by simp [hopen]) hruns⟩
  | ok place =>
      have hruns := Task.runs_refusable_bind (Task.runs_disk_bind.mp hruns)
      obtain ⟨hlooked, goal, hroot, rfl, hlies⟩ := Disk.locates_of_openDirectory habsolute hopen
      cases hdirs : definitionDirs s.disk settings root with
      | error error =>
          rw [definitionDirs, hopen] at hdirs
          cases hdirs
      | ok directories =>
          rw [hdirs] at hruns
          have hmem : ∀ directory : DefinitionDir, directory ∈ directories ↔ _ :=
            fun directory => mem_definitionDirs hopen hdirs
          have hself : Frame scene Nowhere Same s s := Task.IsRun.refl (R := Frames _ _ _) s hhas
          have hadds : Catalog.Adds
              (fun r f => ∃ directory ∈ directories, MayEnter scene settings s.disk root goal r f)
              (fun r f => ∃ directory ∈ directories, ∃ dirs, directory.path = descend root dirs
                ∧ MustEnterFrom scene settings s.disk root goal directory.stem dirs r f)
              .empty catalog := by
            refine adds_foldlM
              (fun catalog directory _ => steps_addDirectory settings catalog directory)
              ?_ hself hlast hruns
            rintro ⟨stem, path⟩ hdirectory c t c' t' hframe hlast hruns
            obtain ⟨dirs, hdir, rfl, hlies⟩ := (hmem _).mp hdirectory
            refine (adds_addDirectory habsolute hroot hdir hlies hframe hlast hruns).imp
              (fun _ _ => id) ?_
            rintro r f ⟨dirs', heq, h⟩
            obtain rfl := Disk.descend_injective heq
            exact h
          refine .inl ⟨goal, hlooked, hroot, hlies, hadds.imp ?_ ?_⟩
          · rintro r f ⟨directory, -, h⟩
            exact h
          · rintro r f
              ⟨stem, place, content, ⟨⟨dirs, names, hdir, hwalked, rfl, rfl, hlooked'⟩, hread⟩,
              hshown, hcontent, hr⟩
            refine ⟨⟨stem, descend root dirs⟩, (hmem _).mpr ⟨dirs, hdir, rfl, ?_⟩, dirs, rfl, names,
              content, hwalked, rfl, hlooked', hread, hshown, hcontent, hr⟩
            rw [← List.append_assoc] at hcontent
            refine Disk.get?_of_append ?_ hcontent
            obtain ⟨way, name, rfl, -⟩ := hwalked
            exact List.append_ne_nil_of_right_ne_nil _ (List.cons_ne_nil _ _)

end

end Index

end ResourcePruner
