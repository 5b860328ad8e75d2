import ResourcePruner.Proofs.Backup.Archive
import ResourcePruner.Proofs.Backup.Custody

/-!
# Backing up keeps what holds

Archiving a file of the project keeps true what is true of the backups (`Custody.steps_archive`),
and once it has succeeded the file and its copy are the same (`Custody.runs_archive`).
-/

namespace ResourcePruner

open Disk (Extends Vacant descend IsListed)

namespace Custody

variable {custody : Custody} {first disk more : Disk} {names : List Text} {content : Bytes}
  {file : Path}

/-! ## Disks -/

/-- What holds of a disk that comes after another one. -/
structure Fits (custody : Custody) (first disk : Disk) : Prop where
  holds : custody.Holds disk
  stays : Extends first disk

/-- The names lead from the project root to the file; the directory in which it lies is there, and
it is no link. -/
structure Finds (custody : Custody) (first : Disk) (file : Path) (names : List Text) : Prop where
  file_eq : file = descend custody.root names
  ne_nil : names ≠ []
  isListed : ∀ name ∈ names, IsListed name
  above : first.get? (custody.goal.place ++ names.dropLast) = some .directory
  link : ∀ target, first.get? (custody.goal.place ++ names) ≠ some (.link target)

theorem Finds.locates (hfinds : custody.Finds first file names) (hfits : custody.Fits first disk) :
    disk.Locates file (descend custody.goal names) := by
  rw [hfinds.file_eq]
  refine (custody.locates_root.mono hfits.holds.extends_base).descend hfinds.isListed
    (fun _ => hfits.stays.directory _ hfinds.above) fun target h => hfinds.link target ?_
  exact (hfits.stays.link _ target).mpr h

theorem Finds.place_eq (hfinds : custody.Finds first file names) :
    (descend custody.goal names).place = custody.goal.place ++ names :=
  Disk.place_descend _ hfinds.isListed

theorem Finds.stands (hfinds : custody.Finds first file names) (hfits : custody.Fits first disk) :
    disk.Stands file (custody.goal.place ++ names) := by
  have hsplit := List.dropLast_concat_getLast hfinds.ne_nil
  refine ⟨custody.root, custody.goal, names.dropLast, names.getLast hfinds.ne_nil,
    custody.isAbsolute_root, custody.locates_root.mono hfits.holds.extends_base,
    by rw [hsplit, hfinds.file_eq], by rw [hsplit], ?_, hfits.stays.directory _ hfinds.above,
    fun target h => hfinds.link target ((hfits.stays.link _ target).mpr h)⟩
  rw [hsplit]
  exact hfinds.isListed

namespace Fits

/-- A file is written where it may be. -/
theorem write (hfits : custody.Fits first disk) {path : Path} (habsolute : path.isAbsolute = true)
    {make : Option Bytes → Bytes} (hwrite : disk.writeWith path make = .ok more)
    (hplace : ∀ found, disk.Locates path found → ¬ custody.backups.place <+: found.place
      ∧ (custody.IsWhole found.place → custody.IsLog disk found.place)) :
    custody.Fits first more := by
  have hstays := Disk.extends_of_writeWith habsolute hwrite
  have hback := Disk.extends_back_of_writeWith habsolute hwrite
  obtain ⟨found, old, hfound, -, rfl⟩ := Disk.writeWith_cases habsolute hwrite
  obtain ⟨houtside, hwhole⟩ := hplace found hfound
  refine ⟨?_, hfits.stays.trans hstays⟩
  rcases Disk.put_cases disk found.place (.file (make old)) with hsame | ⟨-, hget⟩
  · rw [hsame]
    exact hfits.holds
  · exact hfits.holds.of_file hstays hback (fun other hne => by rw [hget, if_neg hne])
      (by rw [hget, if_pos rfl]) houtside hwhole

/-- Where a file is written among the backups. -/
theorem write_cases (hfits : custody.Fits first disk) (hlisted : ∀ name ∈ names, IsListed name)
    (hne : names ≠ [])
    (hwrite : disk.write (descend custody.directory names) content = .ok more) :
    Disk.IsLookedUp (descend custody.directory names)
      ∧ disk.Locates (descend custody.directory names) (descend custody.backups names)
      ∧ disk.get? (custody.backups.place ++ names) ≠ some .directory
      ∧ more = disk.put (custody.backups.place ++ names) (.file content) := by
  have habsolute := custody.isAbsolute_descend names
  have hwriteWith : disk.writeWith (descend custody.directory names) (fun _ => content)
      = .ok more :=
    hwrite
  have hlooked := Disk.isLookedUp_of_writeWith hwriteWith
  obtain ⟨found, old, hfound, hlies, rfl⟩ := Disk.writeWith_cases habsolute hwriteWith
  obtain ⟨-, -, rfl⟩ :=
    hfits.holds.eq_descend (fun name hname => (hlisted name hname).1) hne hlooked hfound
  have hplace := Disk.place_descend custody.backups hlisted
  have hend := Disk.isEnd_of_file? hlies
  rw [hplace] at hend
  exact ⟨hlooked, hfound, hend.1, by rw [hplace]⟩

/-- A file is written among the backups. -/
theorem write_backup (hfits : custody.Fits first disk) (hlisted : ∀ name ∈ names, IsListed name)
    (hne : names ≠ [])
    (hwrite : disk.write (descend custody.directory names) content = .ok more)
    (hthere : custody.IsWhole (custody.goal.place ++ names) →
      ∃ now, disk.get? (custody.goal.place ++ names) = some (.file now)) :
    custody.Fits first more := by
  have habsolute := custody.isAbsolute_descend names
  have hwriteWith : disk.writeWith (descend custody.directory names) (fun _ => content)
      = .ok more :=
    hwrite
  have hstays := Disk.extends_of_writeWith habsolute hwriteWith
  have hback := Disk.extends_back_of_writeWith habsolute hwriteWith
  obtain ⟨-, -, -, rfl⟩ := hfits.write_cases hlisted hne hwrite
  refine ⟨?_, hfits.stays.trans hstays⟩
  rcases Disk.put_cases disk (custody.backups.place ++ names) (.file content) with hsame | ⟨-, hget⟩
  · rw [hsame]
    exact hfits.holds
  · exact hfits.holds.of_copy hstays hback (fun other hother => by rw [hget, if_neg hother]) hthere

/-- No directory lies where a copy goes, since none lies where the file does. -/
theorem copyTarget_eq (hfits : custody.Fits first disk) (hfinds : custody.Finds first file names)
    (hfile : disk.get? (custody.goal.place ++ names) = some (.file content)) :
    disk.copyTarget file (descend custody.directory names) = descend custody.directory names := by
  rw [Disk.copyTarget, if_neg]
  intro hdirectory
  rw [Disk.isDirectory, Disk.stat?] at hdirectory
  cases hreach : disk.reach .target (descend custody.directory names) with
  | found place entry =>
      rw [hreach] at hdirectory
      cases entry with
      | directory =>
          obtain ⟨hlooked, found, hfound, rfl, hlies⟩ :=
            Disk.locates_of_found (custody.isAbsolute_descend names) hreach rfl
          obtain ⟨hbackups, hliesBackups, rfl⟩ := hfits.holds.eq_descend
            (fun name hname => (hfinds.isListed name hname).1) hfinds.ne_nil hlooked hfound
          rw [Disk.place_descend _ hfinds.isListed] at hlies
          rw [hfits.holds.mirrors (hlooked.of_descend custody.isAbsolute_directory)
            hbackups hliesBackups names hfinds.ne_nil hlies] at hfile
          cases hfile
      | file _ => cases hdirectory
      | link _ => cases hdirectory
  | missing _ _ =>
      rw [hreach] at hdirectory
      cases hdirectory
  | failed _ =>
      rw [hreach] at hdirectory
      cases hdirectory

/-- The directory above a copy is there once its path leads anywhere. -/
theorem get?_above (hfits : custody.Fits first disk) (hlisted : ∀ name ∈ names, IsListed name)
    (hne : names ≠ []) (hlooked : Disk.IsLookedUp (descend custody.directory names)) {found : Path}
    (hfound : disk.Locates (descend custody.directory names) found) :
    disk.get? (custody.backups.place ++ names.dropLast) = some .directory := by
  have hsplit := List.dropLast_concat_getLast hne
  have hparts : (descend custody.directory names).parts
      = (descend custody.directory names.dropLast).parts ++ [names.getLast hne] := by
    rw [descend, descend, List.append_assoc, hsplit]
  obtain ⟨k, middle, hmiddle', hmiddle, -⟩ := hfound.split hparts.symm
  have hlies := hmiddle.resolve_left (List.cons_ne_nil _ _)
  by_cases hempty : names.dropLast = []
  · rw [hempty] at hmiddle' ⊢
    obtain rfl := custody.eq_backups disk middle hfits.holds.extends_base
      (by simpa [descend] using hmiddle')
    rwa [List.append_nil]
  · have hlisted' : ∀ name ∈ names.dropLast, IsListed name := fun name hname =>
      hlisted name ((List.dropLast_sublist _).subset hname)
    have hlooked' : Disk.IsLookedUp
        (descend (descend custody.directory names.dropLast) [names.getLast hne]) := by
      rwa [Disk.descend_descend, hsplit]
    have hlooked' := hlooked'.of_descend (custody.isAbsolute_descend names.dropLast)
    obtain ⟨-, -, rfl⟩ := hfits.holds.eq_descend (fun name hname => (hlisted' name hname).1) hempty
      hlooked' hmiddle'
    rwa [Disk.place_descend _ hlisted'] at hlies

/-- A file of the project is copied to the names that lead to it. -/
theorem copy (hfits : custody.Fits first disk) (hfinds : custody.Finds first file names)
    (hcopy : disk.copy file (disk.copyTarget file (descend custody.directory names)) = .ok more) :
    custody.Fits first more ∧ ∃ now, more.get? (custody.goal.place ++ names) = some (.file now)
      ∧ custody.IsCopied more names now := by
  have habsolute := custody.isAbsolute_descend names
  obtain ⟨now, hread, hwrite⟩ := Backup.copy_cases hcopy
  have hfile : disk.get? (custody.goal.place ++ names) = some (.file now) := by
    obtain ⟨-, found, hfound, hlies⟩ :=
      Disk.locates_of_read (hfinds.file_eq ▸ custody.isAbsolute_root) hread
    obtain rfl := hfound.unique (hfinds.locates hfits)
    rwa [hfinds.place_eq] at hlies
  rw [hfits.copyTarget_eq hfinds hfile] at hwrite
  have hfits' := hfits.write_backup hfinds.isListed hfinds.ne_nil hwrite fun _ => ⟨now, hfile⟩
  have hstays := Disk.extends_of_writeWith habsolute
    (show disk.writeWith (descend custody.directory names) (fun _ => now) = .ok more from hwrite)
  obtain ⟨hlooked, hlocates, hnot, rfl⟩ := hfits.write_cases hfinds.isListed hfinds.ne_nil hwrite
  have haccepts : disk.accepts (custody.backups.place ++ names) = true := by
    have hplain : (custody.backups.place ++ names).getLast?.all isPlainName = true := by
      rw [List.getLast?_append, List.getLast?_eq_some_getLast hfinds.ne_nil, Option.some_or]
      exact Disk.isPlainName_of_get? hfile _
        (List.mem_append_right _ (List.getLast_mem hfinds.ne_nil))
    have habove : disk.get? (custody.backups.place ++ names).dropLast = some .directory := by
      rw [List.dropLast_append_of_ne_nil hfinds.ne_nil]
      exact hfits.get?_above hfinds.isListed hfinds.ne_nil hlooked hlocates
    rw [Disk.accepts, hplain, habove, decide_eq_true rfl, Bool.true_and, Bool.true_and]
    exact decide_eq_true hnot
  have hget := fun other => Disk.get?_put disk _ other (.file now) haccepts
  refine ⟨hfits', now, ?_, ?_, Disk.read_of_locates habsolute hlooked (hlocates.mono hstays) ?_⟩
  · rw [hget, if_neg (custody.ne_of_isPrefix (List.prefix_append _ _) names).symm]
    exact hfile
  · rw [hget, if_pos rfl]
  · rw [Disk.place_descend _ hfinds.isListed, hget, if_pos rfl]

/-- A directory is made on the way to a backup. -/
theorem makeDirectory (hfits : custody.Fits first disk) (hlisted : ∀ name ∈ names, IsListed name)
    (hlies : first.get? (custody.goal.place ++ names) = some .directory) {upper : Path}
    (hanchor : upper.anchor = custody.directory.anchor)
    (hparts : upper.parts <+: custody.directory.parts ++ names)
    (hmake : disk.makeDirectory upper = .ok more) : custody.Fits first more := by
  have habsolute : upper.isAbsolute = true := by
    rw [Path.isAbsolute, hanchor]
    exact custody.isAbsolute_directory
  have hlooked := Disk.isLookedUp_of_makeDirectory hmake
  have hvacant :=
    hfits.holds.vacant.make hfits.holds.extends_base.losesBare custody.isAbsolute_directory
    custody.isDown_directory hanchor
    (List.prefix_or_prefix_of_prefix hparts (List.prefix_append _ _)) hmake
  obtain ⟨made, hmade, hnone, rfl⟩ := Disk.makeDirectory_cases habsolute hmake
  have hstays : Extends disk (disk.put made.place .directory) :=
    Disk.extends_put_directory hnone
  refine ⟨hfits.holds.of_directory hnone hvacant ?_, hfits.stays.trans hstays⟩
  rcases Disk.put_cases disk made.place .directory with hsame | ⟨-, hget⟩
  · rw [hsame]
    exact hfits.holds.mirrors
  have hbare : (disk.put made.place .directory).IsBare made.place :=
    Disk.isBare_put .directory (by simp [hnone])
  intro hlookedUp hdirectory hliesBackups inner hinner hbelow
  by_cases hupper : upper.parts <+: custody.directory.parts
  · -- The path ends at the new directory, below which nothing lies.
    have hself := hdirectory.eq_of_isBare hliesBackups custody.isDown_directory hupper
      (hmade.mono hstays) hbare
    rw [hself, hbare _ (List.prefix_append _ _) (by simpa using hinner)] at hbelow
    cases hbelow
  · obtain ⟨below, hbelowParts⟩ :=
      (List.prefix_or_prefix_of_prefix hparts (List.prefix_append _ _)).resolve_left hupper
    obtain rfl : upper = descend custody.directory below :=
      Disk.eq_descend_of_append hanchor hbelowParts
    have hne : below ≠ [] := by
      rintro rfl
      exact hupper (by simp [descend])
    obtain ⟨rest, rfl⟩ := (List.prefix_append_right_inj _).mp hparts
    have hlisted' : ∀ name ∈ below, IsListed name := fun name hname =>
      hlisted name (List.mem_append_left _ hname)
    obtain ⟨hbackups, hthere, rfl⟩ :=
      hfits.holds.eq_descend (fun name hname => (hlisted' name hname).1) hne hlooked hmade
    rw [hget, Disk.place_descend _ hlisted'] at hbelow
    by_cases hsame : custody.backups.place ++ inner = custody.backups.place ++ below
    · obtain rfl := List.append_cancel_left hsame
      refine hstays.directory _ (hfits.stays.directory _ ?_)
      by_cases hrest : rest = []
      · rwa [hrest, List.append_nil] at hlies
      · rw [← List.append_assoc] at hlies
        exact Disk.get?_of_append hrest hlies
    · rw [if_neg hsame] at hbelow
      exact hstays.directory _ (hfits.holds.mirrors hlookedUp hbackups hthere inner
        hinner hbelow)

end Fits

/-! ## Sessions -/

/-- What holds of a session that comes after a disk. -/
structure Has (custody : Custody) (first : Disk) (s : Session) : Prop where
  log : s.trail.log = custody.log
  fits : custody.Fits first s.disk

open ResourcePruner.Task (Runs Steps Preserves)

/-- Writing to the log leaves everything else as it is. -/
theorem Fits.append (hfits : custody.Fits first disk) {path : Path}
    (hpath : custody.log = some path)
    {bytes : Bytes} (happend : disk.append path bytes = .ok more) :
    custody.Fits first more := by
  have hwrite : disk.writeWith path (fun old => old.getD [] ++ bytes) = .ok more :=
    happend
  refine hfits.write (custody.isAbsolute_log path hpath) hwrite fun found hfound => ⟨?_, ?_⟩
  · exact custody.not_below_log path disk found hpath hfits.holds.extends_base hfound
  · exact fun _ => ⟨path, found, hpath, hfound, rfl⟩

instance : Task.IsLogged (Preserves (custody.Has first)) where
  trail _ _ _ hhas := ⟨hhas.log, hhas.fits⟩
  append _ _ _ _ hlog happend hhas :=
    ⟨hhas.log, hhas.fits.append (hhas.log.symm.trans hlog) happend⟩

theorem steps_changeDisk {f : Disk → Except Disk.Error Disk}
    (hf : ∀ disk more, custody.Fits first disk → f disk = .ok more → custody.Fits first more) :
    Steps (Preserves (custody.Has first)) (Task.changeDisk f) :=
  Task.steps_changeDisk fun s _ hmore hhas => ⟨hhas.log, hf s.disk _ hhas.fits hmore⟩

/-- The directories above a backup are made. -/
theorem steps_makeDirectories (hlisted : ∀ name ∈ names, IsListed name)
    (hlies : first.get? (custody.goal.place ++ names) = some .directory) :
    Steps (Preserves (custody.Has first))
      (Task.onDisk (Disk.makeDirectories (descend custody.directory names))) := by
  refine Task.steps_onDisk fun s hhas => ⟨hhas.log, ?_⟩
  refine Disk.steps_makeDirectories (R := Preserves (custody.Fits first)) ?_ s.disk hhas.fits
  exact fun upper hanchor hparts disk more hmake hfits =>
    hfits.makeDirectory hlisted hlies hanchor hparts hmake

section

variable {store : Backup.Store} {s s' : Session}

theorem isListed_markerName : IsListed Backup.markerName :=
  ⟨Backup.isDown_markerName, by decide⟩

/-- The backup directory is marked. -/
theorem steps_claim (hdirectory : store.directory = custody.directory)
    (hroot : first.get? custody.goal.place = some .directory) :
    Steps (Preserves (custody.Has first)) store.claim := by
  refine (Task.steps_check _).bind fun found => ?_
  cases found with
  | true => exact .pure _
  | false =>
      have hmake : Steps (Preserves (custody.Has first))
          (Task.onDisk (Disk.makeDirectories (descend custody.directory []))) :=
        steps_makeDirectories nofun (by rwa [List.append_nil])
      rw [show descend custody.directory []
        = store.directory by simp [descend, hdirectory]] at hmake
      refine hmake.bind fun _ => steps_changeDisk fun disk more hfits hwrite => ?_
      have hmarker : store.marker = descend custody.directory [Backup.markerName] := by
        rw [Backup.Store.marker, hdirectory]
        rfl
      rw [hmarker] at hwrite
      refine hfits.write_backup (List.forall_mem_singleton.mpr isListed_markerName)
        (List.cons_ne_nil _ _) hwrite fun hwhole => absurd hwhole.length_le ?_
      decide

/-- The backup of a file goes to the names that lead to it. -/
theorem runs_targetFor (hdirectory : store.directory = custody.directory)
    (hroot : store.projectRoot = custody.goal) (hfinds : custody.Finds first file names)
    (hhas : custody.Has first s') {target : Path}
    (hruns : Runs (store.targetFor file) s target s') :
    s' = s ∧ target = descend custody.directory names := by
  have hgoal : custody.goal.IsPlain := by
    obtain ⟨_, -, hleads⟩ := custody.locates_root
    exact hleads.isPlain Disk.isPlain_rootPath
  obtain ⟨resolvedRoot, hresolvedRoot, hruns⟩ := Task.runs_resolve_bind.mp hruns
  obtain ⟨resolved, hresolved, hruns⟩ := Task.runs_resolve_bind.mp hruns
  cases hpath : Backup.pathOf resolvedRoot store.directory resolved with
  | error refusal =>
      rw [hpath] at hruns
      exact absurd hruns Task.runs_throw
  | ok found =>
      rw [hpath] at hruns
      obtain ⟨rfl, rfl⟩ := Task.runs_pure.mp hruns
      refine ⟨rfl, ?_⟩
      have hself : s'.disk.Locates custody.goal custody.goal :=
        .of_directory hgoal (hhas.fits.holds.extends_base.directory _ custody.lies_root)
      rw [hroot] at hresolvedRoot
      obtain rfl := Disk.eq_of_resolve (.refl _) hgoal.isAbsolute hself hresolvedRoot
      obtain rfl := Disk.eq_of_resolve (.refl _) (hfinds.file_eq ▸ custody.isAbsolute_root)
        (hfinds.locates hhas.fits) hresolved
      have hnames : Backup.relativeTo custody.goal (descend custody.goal names) = .ok names := by
        have hwithin : (descend custody.goal names).isWithin custody.goal = true := by
          rw [Path.isWithin, descend, decide_eq_true rfl, Bool.true_and, List.isPrefixOf_iff_prefix]
          exact List.prefix_append _ _
        rw [Backup.relativeTo, if_pos hwithin, descend, List.drop_left]
        obtain ⟨name, rest, rfl⟩ := List.exists_cons_of_ne_nil hfinds.ne_nil
        rfl
      rw [Backup.pathOf, hnames, hdirectory] at hpath
      exact (Except.ok.inj hpath).symm

theorem runs_copyFile (hfinds : custody.Finds first file names) (hhas : custody.Has first s)
    {u : Unit}
    (hruns : Runs (Backup.Store.copyFile file (descend custody.directory names)) s u s') :
    custody.Has first s' ∧ ∃ now, s'.disk.get? (custody.goal.place ++ names) = some (.file now)
      ∧ custody.IsCopied s'.disk names now := by
  have hruns := Task.runs_disk_bind.mp hruns
  simp only at hruns
  split at hruns
  · obtain ⟨_, _, hthrow, -⟩ := Task.runs_bind.mp hruns
    exact absurd hthrow Task.runs_throw
  · obtain ⟨more, hcopy, rfl⟩ := Task.runs_changeDisk.mp hruns
    obtain ⟨hfits, hcopied⟩ := hhas.fits.copy hfinds hcopy
    exact ⟨⟨hhas.log, hfits⟩, hcopied⟩

theorem steps_copyFile (hfinds : custody.Finds first file names) :
    Steps (Preserves (custody.Has first))
      (Backup.Store.copyFile file (descend custody.directory names)) := by
  refine Task.steps_disk.bind_runs fun {s disk s'} hdisk => ?_
  obtain ⟨rfl, rfl⟩ := Task.runs_disk.mp hdisk
  intro hhas
  simp only
  split
  · exact hhas
  · rw [Task.exec_changeDisk]
    cases hcopy : s'.disk.copy file (s'.disk.copyTarget file (descend custody.directory names)) with
    | ok more => exact ⟨hhas.log, (hhas.fits.copy hfinds hcopy).1⟩
    | error error => exact hhas

/-- Archiving a file of the project keeps what holds. -/
theorem steps_archive (hdirectory : store.directory = custody.directory)
    (hroot : store.projectRoot = custody.goal) (hfinds : custody.Finds first file names)
    (hlies : first.get? custody.goal.place = some .directory) :
    Steps (Preserves (custody.Has first)) (store.archive file) := by
  refine (Backup.steps_targetFor file).bind_runs fun {s target s'} htarget hhas => ?_
  obtain ⟨rfl, rfl⟩ := runs_targetFor hdirectory hroot hfinds hhas htarget
  have hmake : Steps (Preserves (custody.Has first))
      (Task.onDisk (Disk.makeDirectories (descend custody.directory names).parent)) := by
    rw [Disk.parent_descend _ hfinds.ne_nil]
    exact steps_makeDirectories
      (fun name hname => hfinds.isListed name ((List.dropLast_sublist _).subset hname)) hfinds.above
  have hrest : Steps (Preserves (custody.Has first)) (do
      store.claim
      Task.onDisk (Disk.makeDirectories (descend custody.directory names).parent)
      Backup.Store.copyFile file (descend custody.directory names)
      return descend custody.directory names) :=
    (steps_claim hdirectory hlies).bind fun _ => hmake.bind fun _ =>
      (steps_copyFile hfinds).bind fun _ => .pure _
  exact hrest s' hhas

/-- Once a file has been archived, it and its copy are the same. -/
theorem runs_archive (hdirectory : store.directory = custody.directory)
    (hroot : store.projectRoot = custody.goal) (hfinds : custody.Finds first file names)
    (hlies : first.get? custody.goal.place = some .directory) (hhas : custody.Has first s)
    {backup : Path} (hruns : Runs (store.archive file) s backup s') :
    ∃ now, s'.disk.get? (custody.goal.place ++ names) = some (.file now)
      ∧ custody.IsCopied s'.disk names now := by
  obtain ⟨target, t, htarget, hruns⟩ := Task.runs_bind.mp hruns
  have ht : custody.Has first t :=
    (Backup.steps_targetFor (R := Preserves (custody.Has first)) file).runs htarget hhas
  obtain ⟨rfl, rfl⟩ := runs_targetFor hdirectory hroot hfinds ht htarget
  obtain ⟨_, u, hclaim, hruns⟩ := Task.runs_bind.mp hruns
  have hu : custody.Has first u := (steps_claim hdirectory hlies).runs hclaim hhas
  obtain ⟨_, v, hmake, hruns⟩ := Task.runs_bind.mp hruns
  have hv : custody.Has first v := by
    rw [Disk.parent_descend _ hfinds.ne_nil] at hmake
    exact (steps_makeDirectories (fun name hname => hfinds.isListed name
      ((List.dropLast_sublist _).subset hname)) hfinds.above).runs hmake hu
  obtain ⟨_, w, hcopy, hpure⟩ := Task.runs_bind.mp hruns
  obtain ⟨-, rfl⟩ := Task.runs_pure.mp hpure
  exact (runs_copyFile hfinds hv hcopy).2

end

end Custody

end ResourcePruner
