import ResourcePruner.Backup.Store
import ResourcePruner.Proofs.Disk.Resolve
import ResourcePruner.Proofs.Frame

/-!
# Backups stay below the backup directory

All that archiving a file writes lies below the directory to which the store's path leads
(`Backup.frames_archive`): the path of the backup is resolved, so that the names behind the
directory only go down, and no links lie there since the directory was missing or empty at first.
-/

namespace ResourcePruner

open Disk (Extends IsChange descend)

/-- Paths below the backup directory lead to hidden places. -/
theorem Scene.hidden_of_locates {scene : Scene} {directory goal : Path}
    (hbackups : scene.backups = some directory) {disk : Disk} (hfits : scene.Fits disk)
    (hlast : Extends disk scene.last) {names : List Text} (hnames : ∀ name ∈ names, IsDown name)
    (hne : names ≠ []) (hlooked : Disk.IsLookedUp (descend directory names))
    (hlocates : disk.Locates (descend directory names) goal) : scene.hidden goal.place := by
  have hlooked' := hlooked.of_descend (scene.isAbsolute_backups directory hbackups)
  have hbelow :=
    (hfits.vacant directory hbackups).isBelow hfits.extends_base hlooked' hnames hne hlocates
  exact scene.hidden_backups directory _ hbackups (hbelow.mono hlast)

namespace Backup

open ResourcePruner.Task (Runs Steps exec)

variable {scene : Scene} {gone : Place → Prop} {change : Place → Bytes → Bytes → Prop}
  [IsChange change] {store : Store}

theorem isDown_markerName : IsDown markerName := by
  refine ⟨?_, ?_, ?_⟩ <;> decide

/-- Files are written below the backup directory. -/
theorem frames_write (hbackups : scene.backups = some store.directory) {names : List Text}
    (hnames : ∀ name ∈ names, IsDown name) (hne : names ≠ []) {s : Session} {content : Bytes}
    {disk : Disk}
    (hwrite : s.disk.write (descend store.directory names) content = .ok disk) :
    Frames scene gone change s { s with disk } := by
  have habsolute : (descend store.directory names).isAbsolute = true :=
    scene.isAbsolute_backups store.directory hbackups
  have hwriteWith : s.disk.writeWith (descend store.directory names) (fun _ => content)
      = .ok disk :=
    hwrite
  have hlooked := Disk.isLookedUp_of_writeWith hwriteWith
  refine Frames.of_writeWith habsolute hwriteWith fun hfits goal _ hlocates _ hlast => ?_
  have hstays := Disk.extends_of_writeWith habsolute hwriteWith
  have hlast' := hstays.trans hlast
  exact .inl (scene.hidden_of_locates hbackups hfits hlast' hnames hne hlooked hlocates)

theorem frames_claim (hbackups : scene.backups = some store.directory) :
    Steps (Frames scene gone change) store.claim := by
  refine (Task.steps_check _).bind fun found => ?_
  cases found with
  | true => exact .pure _
  | false =>
      have hmake : Steps (Frames scene gone change)
          (Task.onDisk (Disk.makeDirectories store.directory)) := by
        refine Task.frames_makeDirectories (scene.isAbsolute_backups _ hbackups)
          fun path hpath => ?_
        obtain rfl := Option.some.inj (hbackups.symm.trans hpath)
        exact ⟨rfl, .inl (List.prefix_refl _)⟩
      refine hmake.bind fun _ => Task.steps_changeDisk fun s disk hwrite => ?_
      exact frames_write hbackups (List.forall_mem_singleton.mpr isDown_markerName)
        (List.cons_ne_nil _ _)
        hwrite

theorem copy_cases {disk more : Disk} {source target : Path}
    (hcopy : disk.copy source target = .ok more) :
    ∃ content, disk.read source = .ok content ∧ disk.write target content = .ok more := by
  rw [Disk.copy] at hcopy
  cases hread : disk.read source with
  | error error =>
      rw [hread] at hcopy
      cases hcopy
  | ok content =>
      rw [hread] at hcopy
      cases hwrite : disk.write target content with
      | ok written =>
          simp only [bind, Except.bind, hwrite] at hcopy
          cases hcopy
          exact ⟨content, rfl, hwrite⟩
      | error error =>
          simp only [bind, Except.bind, hwrite] at hcopy
          split at hcopy <;> cases hcopy

/-- A copy to a path below the backup directory goes there, or to one more name below. -/
theorem copyTarget_descend (disk : Disk) (directory : Path) {source : Path}
    (hsource : IsDown source.name) {names : List Text} (hnames : ∀ name ∈ names, IsDown name)
    (hne : names ≠ []) : ∃ names', (∀ name ∈ names', IsDown name) ∧ names' ≠ []
      ∧ disk.copyTarget source (descend directory names) = descend directory names' := by
  unfold Disk.copyTarget
  split
  · refine ⟨names ++ [source.name], fun name hname => ?_, by simp, by simp [Path.child, descend]⟩
    rcases List.mem_append.mp hname with h | h
    · exact hnames name h
    · rw [List.mem_singleton.mp h]
      exact hsource
  · exact ⟨names, hnames, hne, rfl⟩

theorem frames_copyFile (hbackups : scene.backups = some store.directory) {source : Path}
    (hsource : IsDown source.name) {names : List Text} (hnames : ∀ name ∈ names, IsDown name)
    (hne : names ≠ []) :
    Steps (Frames scene gone change) (Store.copyFile source (descend store.directory names)) := by
  refine Task.steps_disk.bind fun disk => ?_
  obtain ⟨names', hnames', hne', hreached⟩ :=
    copyTarget_descend disk store.directory hsource hnames hne
  rw [hreached]
  refine Steps.ite (fun _ => Steps.throw _) fun _ => ?_
  refine Task.steps_changeDisk fun s more hcopy => ?_
  obtain ⟨content, -, hwrite⟩ := copy_cases hcopy
  exact frames_write hbackups hnames' hne' hwrite

theorem relativeTo_subset {root path : Path} {names : List Text}
    (hnames : relativeTo root path = .ok names) : names ≠ [] ∧ names ⊆ path.parts := by
  rw [relativeTo] at hnames
  split at hnames
  · split at hnames
    · cases hnames
    · rename_i hne
      cases hnames
      exact ⟨hne, List.drop_subset _ _⟩
  · cases hnames

/-- A backup goes behind the backup directory, under names of the resolved path. -/
theorem targetFor_cases {path target : Path} {s s' : Session}
    (hruns : Runs (store.targetFor path) s target s') :
    s' = s ∧ ∃ resolved names, s.disk.resolve path = .ok resolved ∧ names ≠ []
      ∧ names ⊆ resolved.parts ∧ target = descend store.directory names := by
  obtain ⟨root, -, hruns⟩ := Task.runs_resolve_bind.mp hruns
  obtain ⟨resolved, hresolved, hruns⟩ := Task.runs_resolve_bind.mp hruns
  rw [pathOf] at hruns
  cases hnames : relativeTo root resolved with
  | error refusal =>
      rw [hnames] at hruns
      exact absurd hruns Task.runs_throw
  | ok names =>
      rw [hnames] at hruns
      obtain ⟨rfl, rfl⟩ := Task.runs_pure.mp hruns
      obtain ⟨hne, hsubset⟩ := relativeTo_subset hnames
      exact ⟨rfl, resolved, names, hresolved, hne, hsubset, rfl⟩

/-- The backup of a file that a path leads to goes below the backup directory. -/
theorem runs_targetFor {path target : Path} {s s' : Session} (habsolute : path.isAbsolute = true)
    (hruns : Runs (store.targetFor path) s target s') :
    s' = s ∧ ∀ goal, s.disk.Locates path goal → ∃ names, (∀ name ∈ names, IsDown name)
      ∧ names ≠ [] ∧ target = descend store.directory names := by
  obtain ⟨rfl, resolved, names, hresolved, hne, hsubset, rfl⟩ := targetFor_cases hruns
  refine ⟨rfl, fun goal hpath => ⟨names, fun name hname => ?_, hne, rfl⟩⟩
  obtain rfl := Disk.eq_of_resolve (.refl _) habsolute hpath hresolved
  obtain ⟨n, -, hleads⟩ := hpath
  exact (hleads.isPlain Disk.isPlain_rootPath).2 name (hsubset hname)

theorem steps_targetFor {R : Session → Session → Prop} [Task.IsRun R] (path : Path) :
    Steps R (store.targetFor path) := by
  refine (Task.steps_resolve _).bind fun root => (Task.steps_resolve _).bind fun resolved => ?_
  cases pathOf root store.directory resolved with
  | ok target => exact .pure target
  | error refusal => exact .throw _

/-- Archiving changes nothing but the disk. -/
theorem steps_archive {R : Session → Session → Prop} [Task.IsRun R]
    (hdisk : ∀ s disk, R s { s with disk }) (store : Store) (path : Path) :
    Steps R (store.archive path) := by
  have hmake : ∀ path, Steps R (Task.onDisk (Disk.makeDirectories path)) := fun _ =>
    Task.steps_onDisk fun s => hdisk s _
  have hclaim : Steps R store.claim := by
    refine (Task.steps_check _).bind fun _ => .ite (fun _ => .pure _) fun _ => ?_
    exact (hmake _).bind fun _ => Task.steps_changeDisk fun s disk _ => hdisk s disk
  have hcopy : ∀ target, Steps R (Store.copyFile path target) := fun target =>
    Task.steps_disk.bind fun disk =>
      .ite (fun _ => Steps.bind (.throw _) fun _ => Task.steps_changeDisk fun s disk _ =>
        hdisk s disk)
        fun _ => Task.steps_changeDisk fun s disk _ => hdisk s disk
  exact (steps_targetFor path).bind fun _ => hclaim.bind fun _ => (hmake _).bind fun _ =>
    (hcopy _).bind fun _ => .pure _

/-- Archiving a file of the project writes below the backup directory. -/
theorem frames_archive (hbackups : scene.backups = some store.directory) {path goal : Path}
    (habsolute : path.isAbsolute = true) (hpath : scene.first.Locates path goal)
    (hname : IsDown path.name) : Steps (Frames scene gone change) (store.archive path) := by
  refine (steps_targetFor path).bind_runs fun {s target s'} htarget hhas => ?_
  obtain ⟨rfl, hbelow⟩ := runs_targetFor habsolute htarget
  obtain ⟨names, hnames, hne, rfl⟩ := hbelow goal (hpath.mono hhas.extends_first)
  have hparent : (descend store.directory names).parent.isAbsolute = true :=
    scene.isAbsolute_backups store.directory hbackups
  have hmake : Steps (Frames scene gone change)
      (Task.onDisk (Disk.makeDirectories (descend store.directory names).parent)) := by
    refine Task.frames_makeDirectories hparent fun path hpath => ?_
    obtain rfl := Option.some.inj (hbackups.symm.trans hpath)
    refine ⟨rfl, List.prefix_or_prefix_of_prefix (List.dropLast_prefix _) ?_⟩
    exact List.prefix_append _ _
  have hrest : Steps (Frames scene gone change) (do
      store.claim
      Task.onDisk (Disk.makeDirectories (descend store.directory names).parent)
      Store.copyFile path (descend store.directory names)
      return descend store.directory names) :=
    (frames_claim hbackups).bind fun _ => hmake.bind fun _ =>
      (frames_copyFile hbackups hname hnames hne).bind fun _ => .pure _
  exact hrest s' hhas

end Backup

end ResourcePruner
