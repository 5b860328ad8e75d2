import ResourcePruner.Proofs.Index.Order
import ResourcePruner.Proofs.Prospect

/-!
# Indexing on two disks

The catalog of a project does not depend on the backups nor on the log, if neither lies where
resources are looked for (`Prospect.follows_build`).
-/

namespace ResourcePruner.Prospect

open Disk (descend)
open Index (IsDefinitionDir)
open ResourcePruner.Task (Follows Answers)

variable {prospect : Prospect} {alike : Catalog → Catalog → Prop} {settings : IndexSettings}
  {root goal : Path} {s d : Session}

/-- What lies below the root is the same on either disk but for the log, which is no directory and
not inside one that holds resources. -/
structure IndexesAlike (prospect : Prospect) (settings : IndexSettings) (root : Path) : Prop where
  steady : prospect.Steady root
  apart : ∀ goal, prospect.left.Locates root goal → prospect.right.Locates root goal → ∀ names,
    ¬ prospect.IsLog (goal.place ++ names) →
    prospect.left.get? (goal.place ++ names) = prospect.right.get? (goal.place ++ names)
  directories : ∀ goal, prospect.left.Locates root goal → prospect.right.Locates root goal →
    ∀ names, prospect.left.get? (goal.place ++ names) = some .directory
      ↔ prospect.right.get? (goal.place ++ names) = some .directory
  log : ∀ goal, prospect.left.Locates root goal → prospect.right.Locates root goal →
    ∀ stem dirs names, IsDefinitionDir settings stem dirs →
      ¬ prospect.IsLog (goal.place ++ (dirs ++ names))

theorem IndexesAlike.swap (halike : prospect.IndexesAlike settings root) :
    prospect.swap.IndexesAlike settings root where
  steady := halike.steady.swap
  apart goal hright hleft names hlog :=
    (halike.apart goal hleft hright names fun h => hlog (isLog_swap.mpr h)).symm
  directories goal hright hleft names := (halike.directories goal hleft hright names).symm
  log goal hright hleft stem dirs names hdir h :=
    halike.log goal hleft hright stem dirs names hdir (isLog_swap.mp h)

/-- A directory none of whose files is hidden is walked alike, and its files are shown. -/
theorem follows_walk (hagree : prospect.Agree alike s d) {directory : Path}
    (habsolute : directory.isAbsolute = true) (hleft : prospect.left.Locates directory goal)
    (hright : prospect.right.Locates directory goal)
    (hlies : prospect.left.get? goal.place = some .directory)
    (hshown : ∀ names, ¬ prospect.Hides (goal.place ++ names)) :
    Follows (prospect.Agree alike) (fun files files' => files' = files ∧ ∀ file ∈ files,
      prospect.Shows file)
      (Index.walk settings directory) (Index.walk settings directory) s d := by
  have hself : ¬ prospect.Hides goal.place := List.append_nil goal.place ▸ hshown []
  have hgoal := hagree.left.locates_iff.mpr hleft
  have hopen : d.disk.openDirectory directory = s.disk.openDirectory directory := by
    rw [Disk.openDirectory, Disk.openDirectory, Disk.reach_eq_of_locates habsolute hgoal
      ((hagree.get?_left hself).trans hlies) (hagree.right.locates_iff.mpr hright)
      ((hagree.get?_right hself).trans hlies)]
  have hanswers : Answers (fun files files' => files' = files ∧ ∀ file ∈ files, prospect.Shows file)
      (s.disk.walkFiles directory settings.skippedDirNames)
      (d.disk.walkFiles directory settings.skippedDirNames) := by
    refine (Answers.of_eq hopen.symm).map fun place _ hplace _ hsame => ?_
    subst hsame
    obtain ⟨hlooked, found, hfound, rfl, -⟩ := Disk.locates_of_openDirectory habsolute hplace
    obtain rfl := hfound.unique hgoal
    refine ⟨by rw [Disk.filesBelow_eq fun names => hagree.get?_eq (hshown names)],
      fun file hfile => ?_⟩
    obtain ⟨names, hnames, rfl⟩ := List.mem_map.mp hfile
    obtain ⟨_, _, content, -, -, hfile⟩ := Disk.mem_filesBelow.mp hnames
    exact hagree.shows_descend habsolute hlooked hleft hright (hshown names) hfile
  refine .disk_bind (.refusable_bind hanswers ?_ fun error error' => ?_)
  · rintro files _ ⟨rfl, hshows⟩
    exact .pure ⟨rfl, fun file hfile => hshows file (List.mem_filter.mp hfile).1⟩ hagree
  · exact (follows_warn hagree _ _ _ _ _ (by simp)).bind fun _ _ _ _ _ hagree =>
      .pure ⟨rfl, List.forall_mem_nil _⟩ hagree

theorem follows_addDefinitionFile (hagree : prospect.Agree alike s d) {file : Path}
    (hshows : prospect.Shows file) (catalog : Catalog) :
    Follows (prospect.Agree alike) Eq (Index.addDefinitionFile catalog file)
      (Index.addDefinitionFile catalog file) s d := by
  refine .disk_bind
    (.refusable_bind (.of_eq (hagree.read_eq hshows).symm) ?_ fun error error' => ?_)
  · rintro bytes _ rfl
    exact .pure rfl hagree
  · exact (follows_warn hagree _ _ _ _ _ (by simp)).bind fun _ _ _ _ _ hagree => .pure rfl hagree

/-- The resources of a directory are added alike. -/
theorem follows_addDirectory (hagree : prospect.Agree alike s d) {directory : Index.DefinitionDir}
    (habsolute : directory.path.isAbsolute = true)
    (hleft : prospect.left.Locates directory.path goal)
    (hright : prospect.right.Locates directory.path goal)
    (hlies : prospect.left.get? goal.place = some .directory)
    (hshown : ∀ names, ¬ prospect.Hides (goal.place ++ names)) (catalog : Catalog) :
    Follows (prospect.Agree alike) Eq (Index.addDirectory settings catalog directory)
      (Index.addDirectory settings catalog directory) s d := by
  have hwalk : ∀ {s d}, prospect.Agree alike s d → Follows (prospect.Agree alike)
      (fun files files' => files' = files ∧ ∀ file ∈ files, prospect.Shows file)
      (Index.walk settings directory.path) (Index.walk settings directory.path) s d :=
    fun hagree => follows_walk hagree habsolute hleft hright hlies hshown
  have hfiles : ∀ category extensions, Follows (prospect.Agree alike) Eq
      (Index.addFiles settings catalog directory.path category extensions)
      (Index.addFiles settings catalog directory.path category extensions) s d := by
    refine fun category extensions => (hwalk hagree).bind ?_
    rintro files _ s d ⟨rfl, -⟩ hagree
    exact .pure rfl hagree
  refine .ite (fun _ => hfiles _ _) fun _ => .ite (fun _ => hfiles _ _) fun _ => ?_
  refine (hwalk hagree).bind ?_
  rintro files _ s d ⟨rfl, hshows⟩ hagree
  refine .foldlM (fun file hfile => ?_) rfl hagree
  rintro catalog _ s d rfl hagree
  refine
    (follows_addDefinitionFile hagree (hshows file (List.mem_filter.mp hfile).1) catalog).bind ?_
  rintro added _ s d rfl hagree
  exact .pure rfl hagree

/-- On either disk the same catalog is built. -/
theorem follows_build (halike : prospect.IndexesAlike settings root)
    (hagree : prospect.Agree alike s d) :
    Follows (prospect.Agree alike) Eq (Index.build settings root) (Index.build settings root)
      s d := by
  have habsolute := halike.steady.isAbsolute
  have hanswers : Answers (fun directories directories' => directories' = directories ∧
        ∀ directory ∈ directories, ∃ goal, directory.path.isAbsolute = true
          ∧ prospect.left.Locates directory.path goal ∧ prospect.right.Locates directory.path goal
          ∧ prospect.left.get? goal.place = some .directory
          ∧ ∀ names, ¬ prospect.Hides (goal.place ++ names))
      (Index.definitionDirs s.disk settings root) (Index.definitionDirs d.disk settings root) := by
    refine (Disk.openDirectory_of_gist (hagree.gist_reach halike.steady)).map
      fun place _ hopen _ hsame => ?_
    subst hsame
    obtain ⟨-, goal, -, hleft, hright, rfl⟩ := hagree.locates_of_openDirectory halike.steady hopen
    have hdirectories : ∀ names, s.disk.get? (goal.place ++ names) = some .directory
        ↔ d.disk.get? (goal.place ++ names) = some .directory := by
      intro names
      rw [hagree.left.get?_eq_some_iff (by simp), hagree.right.get?_eq_some_iff (by simp),
        halike.directories goal hleft hright]
    constructor
    · rw [Index.definitionDirsBelow_eq hdirectories]
    · intro directory hdirectory
      obtain ⟨dirs, hdirs, hstem⟩ := List.mem_filterMap.mp hdirectory
      obtain ⟨stem, -, rfl⟩ := Option.map_eq_some_iff.mp hstem
      obtain ⟨⟨stem', hdir⟩, hlies⟩ := Index.mem_definitionDirsBelow.mp hdirs
      have hplace := Disk.place_descend goal (Disk.isListed_of_get? hlies)
      have hlies := (hagree.left.get?_eq_some_iff (by simp) _).mp hlies
      refine ⟨descend goal dirs, habsolute, hleft.descend_of_get? hlies rfl,
        hright.descend_of_get? ((halike.directories goal hleft hright dirs).mp hlies) rfl,
        hplace ▸ hlies, fun names => ?_⟩
      have hlog := halike.log goal hleft hright stem' dirs names hdir
      rw [hplace, List.append_assoc]
      exact not_hides hlog (halike.apart goal hleft hright _ hlog)
  refine .disk_bind (.refusable_bind hanswers ?_ fun error error' => ?_)
  · rintro directories _ ⟨rfl, hdirectories⟩
    refine .foldlM (fun directory hdirectory => ?_) rfl hagree
    rintro catalog _ s d rfl hagree
    obtain ⟨goal, habsolute, hleft, hright, hlies, hshown⟩ := hdirectories directory hdirectory
    exact follows_addDirectory hagree habsolute hleft hright hlies hshown catalog
  · exact (follows_warn hagree _ _ _ _ _ (by simp)).bind fun _ _ _ _ _ hagree => .pure rfl hagree

end ResourcePruner.Prospect
