import Mathlib.Data.List.Nodup
import ResourcePruner.Proofs.Removal.Outcome

/-!
# Which files are deleted

A stretch of a session erases a list of files if each of them lay where its path says and lies there
no longer, none is listed twice, and no other file has gone (`Erases`). Stretches add up
(`Erases.trans`): what was erased does not come back, so that it is not erased again. A pass erases
what it reports as deleted, also where it fails to delete all files of a resource
(`Removal.erases_removeUnused`).
-/

namespace ResourcePruner

open Disk (Extends Anyhow descend descend_injective)

/-- In the scene, exactly these files below the root, which leads to the place, are deleted. -/
structure Erases (scene : Scene) (root : Path) (goal : Place) (files : List Path) (s s' : Session) :
    Prop where
  frame : Frame scene
    (fun place => ∃ names, descend root names ∈ files ∧ goal ++ names = place) Anyhow
    s s'
  nodup : files.Nodup
  erased : ∀ file ∈ files, ∃ names content, file = descend root names
    ∧ ¬ scene.hidden (goal ++ names)
    ∧ s.disk.get? (goal ++ names) = some (.file content) ∧ s'.disk.Lacks (goal ++ names)

namespace Erases

variable {scene : Scene} {root : Path} {goal : Place} {files more : List Path} {s t u : Session}

/-- Where nothing may go, nothing is deleted. -/
theorem of_frame (hframe : Frame scene Nowhere Anyhow s t) : Erases scene root goal [] s t where
  frame := hframe.imp (fun _ => False.elim) fun _ _ _ _ => id
  nodup := .nil
  erased := nofun

theorem has (herases : Erases scene root goal files s t) : scene.Has t :=
  herases.frame.has

theorem of_after {r : Session} {hhas : scene.Has r}
    (herases : Erases (scene.after hhas) root goal files s t) : Erases scene root goal files s t :=
  ⟨herases.frame.of_after, herases.nodup, herases.erased⟩

/-- What is deleted later is not what was deleted before. -/
theorem trans (hfirst : Erases scene root goal files s t)
    (hsecond : Erases scene root goal more t u)
    (hlast : Extends u.disk scene.last) : Erases scene root goal (files ++ more) s u where
  frame := by
    refine Frame.trans (hfirst.frame.imp ?_ fun _ _ _ _ => id)
      (hsecond.frame.imp ?_ fun _ _ _ _ => id)
    · rintro place ⟨names, hmem, hplace⟩
      exact ⟨names, List.mem_append_left _ hmem, hplace⟩
    · rintro place ⟨names, hmem, hplace⟩
      exact ⟨names, List.mem_append_right _ hmem, hplace⟩
  nodup := by
    refine List.nodup_append.mpr ⟨hfirst.nodup, hsecond.nodup, ?_⟩
    rintro file hfile other hother rfl
    obtain ⟨names, _, rfl, -, -, hlacks⟩ := hfirst.erased file hfile
    obtain ⟨names', content, heq, -, hthere, -⟩ := hsecond.erased _ hother
    obtain rfl := descend_injective heq
    exact hlacks content hthere
  erased := by
    intro file hmem
    rcases List.mem_append.mp hmem with hfile | hfile
    · obtain ⟨names, content, hfile, hshown, hbefore, hlacks⟩ := hfirst.erased file hfile
      exact ⟨names, content, hfile, hshown, hbefore, hsecond.frame.lacks hlast hshown hlacks⟩
    · obtain ⟨names, content, hfile, hshown, hbefore, hlacks⟩ := hsecond.erased file hfile
      have hevolves := hfirst.frame.evolves (hsecond.frame.stays.trans hlast)
      obtain ⟨old, hold, -⟩ := hevolves.back _ content hshown hbefore
      exact ⟨names, old, hfile, hshown, hold, hlacks⟩

end Erases

namespace Removal

open ResourcePruner.Task (Runs Steps)

section

variable {scene : Scene} {store : Backup.Store} {root : Path} {goal : Place} {s s' : Session}
  {removal next : Removal}

/-- The file stands below the root, where its names lead, and is not hidden. -/
def StandsBelow (scene : Scene) (root : Path) (goal : Place) (file : Path) : Prop :=
  ∃ names, file = descend root names ∧ scene.first.Stands file (goal ++ names)
    ∧ ¬ scene.hidden (goal ++ names)

/-- Unlinking a file erases it. -/
theorem erases_unlink (hhas : scene.Has s) {file : Path} (hbelow : StandsBelow scene root goal file)
    {disk : Disk} (hunlink : s.disk.unlink file = .ok disk) :
    Erases scene root goal [file] s { s with disk } := by
  obtain ⟨names, rfl, hstands, hshown⟩ := hbelow
  obtain ⟨content, hfile, rfl⟩ := Disk.unlink_of_stands (hstands.mono hhas.extends_first) hunlink
  have hruns : Runs (Task.changeDisk (·.unlink (descend root names))) s ()
      { s with disk := s.disk.remove (goal ++ names) } := Task.runs_changeDisk.mpr ⟨_, hunlink, rfl⟩
  refine ⟨.of_steps hhas hruns (frames_unlink hstands ⟨names, List.mem_singleton_self _, rfl⟩),
    List.nodup_singleton _, List.forall_mem_singleton.mpr ⟨names, content, rfl, hshown, hfile, ?_⟩⟩
  intro found hfound
  rw [Disk.get?_remove_of_file hfile, if_pos rfl] at hfound
  cases hfound

/-- Deleting the files of a resource erases what is entered as deleted, if not all of them. -/
theorem erases_removeFiles (hhas : scene.Has s) (hlast : Extends s'.disk scene.last)
    (hbackups : scene.backups = some store.directory) {r : Resource} {record : Record}
    {left : List Path} (hleft : ∀ file ∈ left, StandsBelow scene root goal file)
    (hruns : Runs (removeFiles store r record left removal) s next s') :
    ∃ files, next.deletedFiles = removal.deletedFiles ++ files
      ∧ Erases scene root goal files s s' := by
  induction left generalizing removal s with
  | nil =>
      have hframe : Frame scene Nowhere Anyhow s s' :=
        .of_steps hhas hruns ((Task.steps_succeed _ _).bind fun _ => .pure _)
      obtain ⟨_, t, -, hpure⟩ := Task.runs_bind.mp hruns
      obtain ⟨rfl, -⟩ := Task.runs_pure.mp hpure
      exact ⟨[], (List.append_nil _).symm, .of_frame hframe⟩
  | cons file rest ih =>
      obtain ⟨hfirst, hrest⟩ := List.forall_mem_cons.mp hleft
      obtain ⟨names, rfl, hstands, -⟩ := id hfirst
      obtain ⟨found, hfound, -⟩ := hstands.locates
      obtain ⟨archived, t, harchive, hruns⟩ := Task.runs_bind.mp hruns
      have hframes : Steps (Frames scene Nowhere Anyhow) (store.archive (descend root names)) :=
        Backup.frames_archive hbackups hstands.isAbsolute hfound hstands.isDown_name
      have hst : Frame scene Nowhere Anyhow s t := .of_steps hhas harchive hframes.attempt
      have hfail : ∀ {other code failure},
          Runs (failFile r (descend root names) code failure other) t next s' →
          other.deletedFiles = removal.deletedFiles →
          ∃ files, next.deletedFiles = removal.deletedFiles ++ files
            ∧ Erases scene root goal files s s' := by
        intro other code failure hkept hother
        have hframe := hst.trans (.of_steps hst.has hkept (steps_failFile _ _ _ _ _))
        obtain rfl := eq_of_failFile hkept
        exact ⟨[], hother.trans (List.append_nil _).symm, .of_frame hframe⟩
      cases archived with
      | error failure => exact hfail hruns rfl
      | ok backup =>
          obtain ⟨unlinked, u, hunlink, hlater⟩ := Task.runs_bind.mp hruns
          rcases Task.runs_attempt_changeDisk hunlink with
            ⟨error, -, rfl, rfl⟩ | ⟨disk, hdisk, rfl, rfl⟩
          · exact hfail hlater rfl
          · obtain ⟨_, v, hnote, hlater⟩ := Task.runs_bind.mp hlater
            have hunlinked := erases_unlink hst.has hfirst hdisk
            have hnoted : Frame scene Nowhere Anyhow _ v :=
              .of_steps hunlinked.has hnote (Task.steps_succeed _ _)
            obtain ⟨files, hfiles, hothers⟩ := ih hnoted.has hrest hlater
            refine ⟨descend root names :: files, ?_, ?_⟩
            · rw [hfiles, List.append_assoc]
              rfl
            · have hbehind := (Erases.of_frame hnoted).trans hothers hlast
              exact (Erases.of_frame hst).trans (hunlinked.trans hbehind hlast) hlast

/-- So does deleting those of several resources. -/
theorem erases_removeEach (hhas : scene.Has s) (hlast : Extends s'.disk scene.last)
    (hbackups : scene.backups = some store.directory) {entries : List (Resource × Record)}
    (hentries : ∀ entry ∈ entries, ∀ file ∈ entry.2.files, StandsBelow scene root goal file)
    (hruns : Runs (entries.foldlM (removeNext store) removal) s next s') :
    ∃ files, next.deletedFiles = removal.deletedFiles ++ files
      ∧ Erases scene root goal files s s' := by
  induction entries generalizing removal s with
  | nil =>
      obtain ⟨rfl, rfl⟩ := Task.runs_foldlM_nil.mp hruns
      exact ⟨[], (List.append_nil _).symm, .of_frame (.refl hhas)⟩
  | cons entry rest ih =>
      obtain ⟨hentry, hrest⟩ := List.forall_mem_cons.mp hentries
      obtain ⟨middle, t, hfirst, hruns⟩ := Task.runs_foldlM_cons.mp hruns
      have hanywhere : ∀ other ∈ entry :: rest, ∀ file ∈ other.2.files,
          ∃ place, scene.first.Stands file place ∧ Anywhere place := by
        intro other hmem file hfile
        obtain ⟨names, -, hstands, -⟩ := hentries other hmem file hfile
        exact ⟨_, hstands, trivial⟩
      have hst : Frame scene Anywhere Anyhow s t := .of_steps hhas hfirst
        (frames_removeFiles hbackups _ _ (hanywhere entry List.mem_cons_self) _)
      have hts' : Frame scene Anywhere Anyhow t s' := .of_steps hst.has hruns
        (.foldlM (fun removal other hother => frames_removeFiles hbackups _ _
          (hanywhere other (List.mem_cons_of_mem _ hother)) removal) middle)
      obtain ⟨files, hfiles, herases⟩ :=
        erases_removeFiles hhas (hts'.stays.trans hlast) hbackups hentry hfirst
      obtain ⟨more, hmore, hothers⟩ := ih herases.has hrest hruns
      refine ⟨files ++ more, ?_, herases.trans hothers hlast⟩
      rw [hmore, hfiles, List.append_assoc]

/-! ## A pass -/

/-- No file is deleted for an inline resource. -/
theorem deletedFiles_settleInline {pruned : List (Path × List Resource)} {entry : Resource × Record}
    (hruns : Runs (settleInline pruned removal entry) s next s') :
    next.deletedFiles = removal.deletedFiles := by
  rcases settleInline_cases hruns with ⟨-, rfl⟩ | ⟨-, rfl⟩ <;> rfl

theorem deletedFiles_settle {pruned : List (Path × List Resource)}
    {entries : List (Resource × Record)}
    (hruns : Runs (entries.foldlM (settleInline pruned) removal) s next s') :
    next.deletedFiles = removal.deletedFiles := by
  induction entries generalizing removal s with
  | nil =>
      obtain ⟨rfl, -⟩ := Task.runs_foldlM_nil.mp hruns
      rfl
  | cons entry rest ih =>
      obtain ⟨middle, t, hfirst, hrest⟩ := Task.runs_foldlM_cons.mp hruns
      exact (ih hrest).trans (deletedFiles_settleInline hfirst)

/-- A pass erases what it enters as deleted. -/
theorem erases_removeUnused (hhas : scene.Has s) (hlast : Extends s'.disk scene.last)
    (hbackups : scene.backups = some store.directory) (hlies : s.catalog.LiesOn scene.first)
    (hbelow : ∀ r file, s.catalog.Has r file → r.category.isInline = false →
      StandsBelow scene root goal file)
    (hruns : Runs (removeUnused store) s removal s') :
    Erases scene root goal removal.deletedFiles s s' := by
  obtain ⟨pruned, settled, t, u, v, hprune, hsettle, hremove, rfl⟩ := runs_removeUnused hruns
  obtain ⟨hst, htu⟩ := frames_of_settled hhas hlies hprune hsettle
  have hentries : ∀ entry ∈ s.catalog.unused.filter fun entry => !entry.1.category.isInline,
      ∀ file ∈ entry.2.files, StandsBelow scene root goal file := by
    intro entry hentry file hfile
    obtain ⟨hunused, hkind⟩ := List.mem_filter.mp hentry
    exact hbelow entry.1 file (Catalog.has_of_mem_unused hunused hfile) (by simpa using hkind)
  have hlast' : Extends v.disk scene.last := hlast
  obtain ⟨files, hfiles, herases⟩ := erases_removeEach htu.has hlast' hbackups hentries hremove
  have hevict : Frame scene Nowhere Anyhow v
      { v with catalog := (v.catalog.evictAll (s.catalog.unused.map Prod.fst)).resetUses } :=
    Frames.of_disk rfl rfl (fun _ h => h) herases.has
  rw [deletedFiles_settle hsettle] at hfiles
  rw [show removal.deletedFiles = files from hfiles]
  have hbefore : Erases scene root goal [] s u := .of_frame (hst.trans htu.of_same)
  simpa using (hbefore.trans herases hlast).trans (.of_frame hevict) hlast

end

end Removal

end ResourcePruner
