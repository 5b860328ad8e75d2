import ResourcePruner.Proofs.Index.Build

/-!
# Where the files of a catalog stand

Each file of a catalog that has been built stands at a place of its own, and is either one of inline
resources or one of others (`Index.liesOn_of_build`). Where nothing is hidden, the files of a
resource are those that are indexed and belong to it (`Index.has_build_iff`).
-/

namespace ResourcePruner

open Disk (Extends Stands Same)

/-- Every file of the catalog stands at a place of its own, and belongs either to inline resources
or to others. -/
structure Catalog.LiesOn (catalog : Catalog) (disk : Disk) : Prop where
  stands : ∀ r file, catalog.Has r file → ∃ place, disk.Stands file place
  file_eq : ∀ r r' file file' place, catalog.Has r file → catalog.Has r' file' →
    disk.Stands file place → disk.Stands file' place → file = file'
  isInline_eq : ∀ r r' file, catalog.Has r file → catalog.Has r' file →
    r.category.isInline = r'.category.isInline

namespace Catalog.LiesOn

variable {catalog : Catalog} {disk more : Disk}

theorem mono (hlies : catalog.LiesOn disk) (hstays : Extends disk more) : catalog.LiesOn more := by
  refine ⟨fun r file hfile => ?_, fun r r' file file' place hfile hfile' hstands hstands' => ?_,
    hlies.isInline_eq⟩
  · exact (hlies.stands r file hfile).imp fun place hstands => hstands.mono hstays
  · obtain ⟨before, hbefore⟩ := hlies.stands r file hfile
    obtain ⟨before', hbefore'⟩ := hlies.stands r' file' hfile'
    obtain rfl := (hbefore.mono hstays).unique hstands
    obtain rfl := (hbefore'.mono hstays).unique hstands'
    exact hlies.file_eq r r' file file' _ hfile hfile' hbefore hbefore'

/-- It makes no difference how the resources are counted. -/
theorem of_has {counted : Catalog} (hlies : catalog.LiesOn disk)
    (hcounted : ∀ r file, counted.Has r file → catalog.Has r file) : counted.LiesOn disk :=
  ⟨fun r file hfile => hlies.stands r file (hcounted r file hfile),
    fun r r' file file' place hfile hfile' =>
      hlies.file_eq r r' file file' place (hcounted r file hfile) (hcounted r' file' hfile'),
    fun r r' file hfile hfile' =>
      hlies.isInline_eq r r' file (hcounted r file hfile) (hcounted r' file hfile')⟩

end Catalog.LiesOn

namespace Index

open ResourcePruner.Task (Runs)

variable {settings : IndexSettings} {root goal : Path} {stem : Text} {file : Path} {place : Place}
  {r : Resource}

/-! ## What a file holds -/

/-- Inline resources are declared in definition files. -/
theorem mem_resourcesOf_iff (hinline : r.category.isInline = true) {content : Bytes} :
    r ∈ resourcesOf settings stem file content ↔ stem ≠ Category.directoryStem .layout
      ∧ stem ≠ Category.directoryStem .drawable ∧ isDefinitionFile file = true
      ∧ r ∈ declaredIn content := by
  refine ⟨fun hr => ?_, fun ⟨hlayout, hdrawable, hdefinition, hr⟩ => ?_⟩
  · obtain ⟨hlayout, hdrawable⟩ := (isInline_of_mem_resourcesOf hr).mp hinline
    rw [resourcesOf, if_neg hlayout, if_neg hdrawable] at hr
    split at hr
    · rename_i hdefinition
      exact ⟨hlayout, hdrawable, hdefinition, hr⟩
    · cases hr
  · rwa [resourcesOf, if_neg hlayout, if_neg hdrawable, if_pos hdefinition]

/-- What a file that declares no more than before belongs to, it belonged to before. -/
theorem resourcesOf_subset {before after : Bytes} (hsubset : declaredIn after ⊆ declaredIn before) :
    resourcesOf settings stem file after ⊆ resourcesOf settings stem file before := by
  unfold resourcesOf
  split
  · exact fun _ => id
  · split
    · exact fun _ => id
    · split
      · exact hsubset
      · exact fun _ => id

/-- A file is one resource at most, if it is one at all. -/
theorem eq_of_mem_resourcesOf {content content' : Bytes} {r' : Resource}
    (hr : r ∈ resourcesOf settings stem file content)
    (hr' : r' ∈ resourcesOf settings stem file content') (hfile : r.category.isInline = false) :
    r = r' := by
  have hone : ∀ {found : Option Text} {category : Category},
      r ∈ found.toList.map (fun name => (⟨category, name⟩ : Resource)) →
      r' ∈ found.toList.map (fun name => (⟨category, name⟩ : Resource)) → r = r' := by
    intro found category h h'
    obtain ⟨name, hname, rfl⟩ := List.mem_map.mp h
    obtain ⟨name', hname', rfl⟩ := List.mem_map.mp h'
    rw [Option.mem_toList] at hname hname'
    rw [hname] at hname'
    cases hname'
    rfl
  have hnot := (not_congr (isInline_of_mem_resourcesOf hr)).mp (by simp [hfile])
  unfold resourcesOf at hr hr'
  by_cases hlayout : stem = Category.directoryStem .layout
  · rw [if_pos hlayout] at hr hr'
    exact hone hr hr'
  · rw [if_neg hlayout] at hr hr'
    by_cases hdrawable : stem = Category.directoryStem .drawable
    · rw [if_pos hdrawable] at hr hr'
      exact hone hr hr'
    · exact absurd ⟨hlayout, hdrawable⟩ hnot

/-- An indexed file stands at its place if it lies or lay there. -/
theorem Indexes.stands {disk more : Disk} (hindexes : Indexes settings root goal stem file place)
    (habsolute : root.isAbsolute = true) (hroot : more.Locates root goal)
    (hstays : Extends disk more) {content : Bytes}
    (hlies : disk.get? place = some (.file content)) : more.Stands file place := by
  obtain ⟨⟨dirs, names, -, hwalked, rfl, rfl, -⟩, -⟩ := hindexes
  refine Stands.of_get? habsolute hroot hstays ?_ hlies
  obtain ⟨way, name, rfl, -⟩ := hwalked
  simp

/-- The file is indexed and stands at the place, and is or was one of the resource's. -/
def Enters (settings : IndexSettings) (root goal : Path) (disk : Disk) (r : Resource) (file : Path)
    (place : Place) : Prop :=
  ∃ stem content, Indexes settings root goal stem file place ∧ disk.Stands file place
    ∧ r ∈ resourcesOf settings stem file content

namespace Enters

variable {disk more : Disk} {r' : Resource} {file' : Path}

theorem stands (henters : Enters settings root goal disk r file place) :
    disk.Stands file place := by
  obtain ⟨_, _, -, hstands, -⟩ := henters
  exact hstands

theorem mono (henters : Enters settings root goal disk r file place) (hstays : Extends disk more) :
    Enters settings root goal more r file place := by
  obtain ⟨stem, content, hindexes, hstands, hr⟩ := henters
  exact ⟨stem, content, hindexes, hstands.mono hstays, hr⟩

/-- One file at most stands at a place, and it belongs either to inline resources or to one
other. -/
theorem unique (henters : Enters settings root goal disk r file place)
    (henters' : Enters settings root goal more r' file' place) :
    file = file' ∧ r.category.isInline = r'.category.isInline
      ∧ (r.category.isInline = false → r = r') := by
  obtain ⟨stem, content, hindexes, -, hr⟩ := henters
  obtain ⟨stem', content', hindexes', -, hr'⟩ := henters'
  obtain rfl := hindexes.file_unique hindexes'
  obtain ⟨rfl, -⟩ := hindexes.unique hindexes'
  refine ⟨rfl, ?_, eq_of_mem_resourcesOf hr hr'⟩
  rw [Bool.eq_iff_iff, isInline_of_mem_resourcesOf hr, isInline_of_mem_resourcesOf hr']

end Enters

/-! ## Where it lies -/

section

variable {scene : Scene} {s s' : Session} {catalog : Catalog}

/-- What a catalog that has been built holds was found by indexing a directory. -/
theorem enters_of_build (habsolute : root.isAbsolute = true) (hhas : scene.Has s)
    (hlast : Extends s'.disk scene.last) (hruns : Runs (build settings root) s catalog s')
    {file : Path} (hfile : catalog.Has r file) :
    ∃ goal place, s.disk.Locates root goal ∧ s.disk.get? goal.place = some .directory
      ∧ Enters settings root goal s'.disk r file place
      ∧ (scene.hidden place ∨ ∃ content, s.disk.get? place = some (.file content)) := by
  have hframe : Frame scene Nowhere Same s s' := .of_steps hhas hruns (steps_build settings root)
  rcases adds_build habsolute (hhas.upTo hlast) (.refl _) hruns with ⟨goal, -, hgoal, hlies, hadds⟩
    | ⟨-, rfl⟩
  · obtain ⟨stem, place, hindexes, ⟨between, content, huntil, hcontent, hr⟩, hplace⟩ :=
      (hadds.sound r file hfile).resolve_left Catalog.not_has_empty
    exact ⟨goal, place, hgoal, hlies,
      ⟨stem, content, hindexes,
        hindexes.stands habsolute (hgoal.mono hframe.stays) huntil hcontent, hr⟩,
      hplace.imp_right fun ⟨old, hold, _⟩ => ⟨old, hold⟩⟩
  · exact absurd hfile Catalog.not_has_empty

/-- The files of a catalog that has been built stand at places of their own. -/
theorem liesOn_of_build (habsolute : root.isAbsolute = true) (hhas : scene.Has s)
    (hlast : Extends s'.disk scene.last) (hruns : Runs (build settings root) s catalog s') :
    catalog.LiesOn s'.disk := by
  refine ⟨fun r file hfile => ?_, fun r r' file file' place hfile hfile' hstands hstands' => ?_,
    fun r r' file hfile hfile' => ?_⟩
  · obtain ⟨goal, place, -, -, hentered, -⟩ := enters_of_build habsolute hhas hlast hruns hfile
    exact ⟨place, hentered.stands⟩
  · obtain ⟨goal, here, hgoal, -, hentered, -⟩ := enters_of_build habsolute hhas hlast hruns hfile
    obtain ⟨goal', here', hgoal', -, hentered', -⟩ :=
      enters_of_build habsolute hhas hlast hruns hfile'
    obtain rfl := hgoal.unique hgoal'
    obtain rfl := hentered.stands.unique hstands
    obtain rfl := hentered'.stands.unique hstands'
    exact (hentered.unique hentered').1
  · obtain ⟨goal, here, hgoal, -, hentered, -⟩ := enters_of_build habsolute hhas hlast hruns hfile
    obtain ⟨goal', here', hgoal', -, hentered', -⟩ :=
      enters_of_build habsolute hhas hlast hruns hfile'
    obtain rfl := hgoal.unique hgoal'
    obtain rfl := hentered.stands.unique hentered'.stands
    exact (hentered.unique hentered').2.1

/-- Every resource of a catalog that has been built has a file. -/
theorem isBacked_build (habsolute : root.isAbsolute = true) (hhas : scene.Has s)
    (hlast : Extends s'.disk scene.last) (hruns : Runs (build settings root) s catalog s') :
    catalog.IsBacked := by
  rcases adds_build habsolute hhas hlast hruns with ⟨goal, -, -, -, hadds⟩ | ⟨-, rfl⟩
  · exact hadds.isBacked Catalog.isBacked_empty
  · exact Catalog.isBacked_empty

/-- Where nothing is hidden, the files of a resource are those that are indexed and belong to it. -/
theorem has_build_iff (habsolute : root.isAbsolute = true) (hhas : scene.Has s)
    (hlast : Extends s'.disk scene.last) (hroot : s.disk.Locates root goal)
    (hlooked : Disk.IsLookedUp root) (hdirectory : s.disk.get? goal.place = some .directory)
    (hshown : ∀ stem file place, Indexes settings root goal stem file place →
      ¬ scene.hidden place)
    (hruns : Runs (build settings root) s catalog s') :
    catalog.Has r file ↔ ∃ stem place content, Indexes settings root goal stem file place
      ∧ s.disk.get? place = some (.file content) ∧ r ∈ resourcesOf settings stem file content := by
  rcases adds_build habsolute hhas hlast hruns with ⟨goal', -, hgoal, -, hadds⟩ | ⟨hnone, -⟩
  · obtain rfl := hgoal.unique hroot
    constructor
    · intro hfile
      obtain ⟨stem, place, hindexes, -, hplace⟩ :=
        (hadds.sound r file hfile).resolve_left Catalog.not_has_empty
      obtain ⟨content, hcontent, hr⟩ := hplace.resolve_left (hshown _ _ _ hindexes)
      exact ⟨stem, place, content, hindexes, hcontent, hr⟩
    · rintro ⟨stem, place, content, hindexes, hcontent, hr⟩
      exact hadds.complete r file
        (.inr ⟨stem, place, content, hindexes, hshown _ _ _ hindexes, hcontent, hr⟩)
  · exact absurd (Disk.openDirectory_of_locates habsolute hlooked hroot hdirectory) (hnone _)

end

end Index

end ResourcePruner
