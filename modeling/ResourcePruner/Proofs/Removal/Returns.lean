import ResourcePruner.Proofs.Disk.Loops
import ResourcePruner.Proofs.Removal.Copies
import ResourcePruner.Proofs.Removal.Deeds
import ResourcePruner.Proofs.Run.Interruption

/-!
# A pass returns

Reads, rewrites, backups and deletions may all fail: a pass enters what it could not remove and goes
on. It stops only where an event cannot be added to the log (`Removal.fails_removeUnused`). That
asks of the disk and of the store that no path is one that no disk can have, and that links lead no
path in a circle. The latter has to hold of what is left of the disk whenever the pass resolves a
path, and the links of a disk are not the same all along: a file that is deleted may be one
(`Removal.BearsName`).

The entries of a `Disk` refuse neither to be written nor to be unlinked once a file has been read.
The lemmas on rewrites and deletions (`Removal.fails_writePruned`, `Removal.fails_removeFiles`) do
not rest on that: they take in any error with which a disk refuses.
-/

namespace ResourcePruner

open Disk (AreSpellable Retaining Shedding)
open ResourcePruner.Task (Runs Steps IsRun FailsAs Preserves Unrecorded)

/-! ## Sessions whose disk loses links -/

instance (taken : Place → Prop) : Task.IsLogged (Backup.OnDisks (Shedding taken)) where
  trail s _ _ := IsRun.refl (R := Shedding taken) s.disk
  append s log bytes disk hlog happend hstarts :=
    .of_retains
      (Task.IsLogged.append (R := Backup.OnDisks Retaining) s log bytes disk hlog happend hstarts)

namespace Backup.Store

variable {store : Store} {path other : Path} {s : Session} {taken : Place → Prop}

theorem sheds_archive (store : Store) (path : Path) :
    Steps (OnDisks (Shedding taken)) (store.archive path) :=
  fun s hstarts => .of_retains (store.retains_archive path s hstarts)

/-- All paths that are met where a backup is made are some that a disk can have, and those that are
resolved do not lead in a circle. -/
structure CanArchive (store : Store) (disk : Disk) (path : Path) : Prop where
  starts : ∀ path, disk.StartsInDirectory path
  links : disk.HasSpellableLinks
  directory : AreSpellable store.directory.parts
  root : AreSpellable store.projectRoot.parts
  areSpellable : AreSpellable path.parts
  loops : ∀ other, other = store.projectRoot ∨ other = path →
    ∀ found, disk.resolve other ≠ .error (.linkLoop found)

namespace CanArchive

variable {disk : Disk} (hcan : store.CanArchive disk path)

include hcan

theorem resolve_cases (hother : other = store.projectRoot ∨ other = path) :
    (∃ resolved, AreSpellable resolved.parts ∧ disk.resolve other = .ok resolved)
      ∨ disk.resolve other = .error .noHome := by
  have hparts : AreSpellable other.parts := by
    rcases hother with rfl | rfl
    · exact hcan.root
    · exact hcan.areSpellable
  exact (Disk.resolve_cases hcan.starts hcan.links hparts).imp_right fun h =>
    h.resolve_right fun ⟨found, hloop⟩ => hcan.loops other hother found hloop

theorem areSpellable_of_resolve {resolved : Path} (hresolve : disk.resolve path = .ok resolved) :
    AreSpellable resolved.parts := by
  rcases hcan.resolve_cases (.inr rfl) with ⟨found, hfound, hok⟩ | hnone
  · rw [hok] at hresolve
    cases hresolve
    exact hfound
  · rw [hnone] at hresolve
    cases hresolve

end CanArchive

/-- The failure is one that keeps a file where it is. -/
abbrev Kept (failure : Failure) (_s : Session) : Prop :=
  Removal.keepsFile failure = true

theorem fails_claim (hdirectory : AreSpellable store.directory.parts) :
    FailsAs Kept store.claim s := by
  have hmarker : AreSpellable store.marker.parts :=
    Disk.areSpellable_child hdirectory (by decide)
  refine (FailsAs.check fun error => Disk.isRefusal_of_leadsTo).bind fun found t _ =>
    .ite (fun _ => .pure _) fun _ => ?_
  refine (FailsAs.onDisk (Disk.fails_makeDirectories hdirectory)).bind fun _ u _ => ?_
  exact .changeDisk fun error => Disk.isRefusal_of_writeWith hmarker

theorem fails_copyFile (hpath : AreSpellable path.parts) (hother : AreSpellable other.parts) :
    FailsAs Kept (copyFile path other) s := by
  have hname : Disk.IsSpellable path.name := by
    rcases List.eq_nil_or_concat path.parts with hparts | ⟨init, last, hparts⟩
    · rw [Path.name, hparts]
      decide
    · rw [Path.name, hparts, List.concat_eq_append, List.getLastD_concat]
      exact hpath last (by simp [hparts])
  have htarget : AreSpellable (s.disk.copyTarget path other).parts := by
    rw [Disk.copyTarget]
    split
    · exact Disk.areSpellable_child hother hname
    · exact hother
  refine .disk_bind (.ite (fun _ => FailsAs.bind (.throw rfl) fun _ t _ => ?_) fun _ => ?_)
  all_goals exact .changeDisk fun error => Disk.isRefusal_of_copy hpath htarget

/-- Making a backup fails only by what keeps a file where it is. -/
theorem fails_archive (hcan : store.CanArchive s.disk path) :
    FailsAs Kept (store.archive path) s := by
  have hresolves : ∀ {other : Path}, (other = store.projectRoot ∨ other = path) →
      FailsAs Kept (Task.resolve other) s := by
    intro other hother
    refine .resolve fun fault hresolve => ?_
    rcases hcan.resolve_cases hother with ⟨_, -, hok⟩ | hnone
    · rw [hok] at hresolve
      cases hresolve
    · rw [hnone] at hresolve
      cases hresolve
      rfl
  have htarget : FailsAs Kept (store.targetFor path) s := by
    refine (hresolves (.inl rfl)).bind fun root t hroot => ?_
    obtain ⟨-, rfl⟩ := Task.runs_resolve.mp hroot
    refine (hresolves (.inr rfl)).bind fun resolved t hresolved => ?_
    split
    · exact .pure _
    · exact .throw rfl
  refine htarget.bind fun target t htarget => ?_
  obtain ⟨rfl, resolved, names, hresolve, hne, hnames, rfl⟩ := targetFor_cases htarget
  have hbackup : AreSpellable (Disk.descend store.directory names).parts :=
    List.forall_mem_append.mpr
      ⟨hcan.directory, fun name hname => hcan.areSpellable_of_resolve hresolve name (hnames hname)⟩
  refine (fails_claim hcan.directory).bind fun _ u _ => ?_
  have hparent := Disk.areSpellable_parent hbackup
  refine (FailsAs.onDisk (Disk.fails_makeDirectories hparent)).bind fun _ v _ => ?_
  exact (fails_copyFile hcan.areSpellable hbackup).bind fun _ _ _ => .pure _

end Backup.Store

namespace Removal

variable {store : Backup.Store} {s t : Session} {file : Path}

/-! ## Pruning -/

section

variable {path : Path}

theorem fails_warnDefinition (code message : Text) (path : Path) :
    FailsAs Unrecorded (warnDefinition code message path) s :=
  Task.fails_warn (by simp) _ _ _

theorem fails_writePruned (hpath : AreSpellable path.parts) {pruning : Pruning}
    (htext : ∀ symbol ∈ pruning.text, symbol.isHalf = false) :
    FailsAs Unrecorded (writePruned path pruning) s := by
  have hwrite : FailsAs (fun failure s => failure.isRefusal = true ∨ Unrecorded failure s)
      (Task.changeDisk (·.write path (Utf8.encode pruning.text))) s :=
    .changeDisk fun error herror => .inl (Disk.isRefusal_of_writeWith hpath herror)
  have hencoded : FailsAs (fun failure s => failure.isRefusal = true ∨ Unrecorded failure s)
      (Task.writeText path pruning.text) s :=
    fun failure t hexec => hwrite failure t ((exec_writeText htext s).symm.trans hexec)
  refine .ite (fun _ => .ite (fun _ => ?_) fun _ => .pure _) fun _ => ?_
  · exact (fails_warnDefinition _ _ _).bind fun _ _ _ => .pure _
  · refine (FailsAs.attempt hencoded).bind fun written t _ => ?_
    cases written with
    | error failure => exact (fails_warnDefinition _ _ _).bind fun _ _ _ => .pure _
    | ok _ => exact (Task.fails_succeed (by simp) _).bind fun _ _ _ => .pure _

theorem fails_pruneText (hpath : AreSpellable path.parts) (doomed : Doomed) {text : Text}
    (htext : ∀ symbol ∈ (Pruning.ofLines doomed (Text.linesWithEnds text)).text,
      symbol.isHalf = false) :
    FailsAs Unrecorded (pruneText path doomed text) s := by
  unfold pruneText
  simp only
  split
  · exact (fails_warnDefinition _ _ _).bind fun _ _ _ => .pure _
  · refine .ite (fun _ => ?_) fun _ => fails_writePruned hpath htext
    exact (fails_warnDefinition _ _ _).bind fun _ _ _ => fails_writePruned hpath htext

/-- What was decoded can be encoded again. -/
theorem fails_pruneFile (hpath : AreSpellable path.parts) (doomed : Doomed) :
    FailsAs Unrecorded (pruneFile path doomed) s := by
  have hread : FailsAs Unrecorded (Task.refusable (s.disk.read path)) s :=
    .refusable fun error => Disk.isRefusal_of_read hpath
  refine .disk_bind (hread.bind fun found t _ => ?_)
  cases found with
  | error error => exact (fails_warnDefinition _ _ _).bind fun _ _ _ => .pure _
  | ok bytes =>
      simp only
      split
      · exact (fails_warnDefinition _ _ _).bind fun _ _ _ => .pure _
      · exact fails_pruneText hpath doomed (Utf8.isHalf_of_decode? (decode?_pruned ‹_›))

theorem fails_pruneFiles {entries : List (Resource × Record)}
    (hfiles : ∀ entry ∈ entries, ∀ file ∈ entry.2.files, AreSpellable file.parts) :
    FailsAs Unrecorded (pruneFiles entries) s := by
  refine .foldlM (R := Preserves fun _ => True) (fun _ _ _ _ _ => trivial)
    (fun pruned file hfile t _ => ?_) _
  obtain ⟨entry, hentry, hmem⟩ := List.mem_flatMap.mp (Path.mem_of_mem_sorted hfile)
  refine (fails_pruneFile (hfiles entry hentry file hmem) _).bind fun found _ _ => ?_
  cases found <;> exact .pure _

end

/-! ## Settling and deleting -/

@[simp] theorem areShallow_resourceData (r : Resource) : Datum.AreShallow (resourceData r) := by
  simp [resourceData]

theorem fails_settleInline (pruned : List (Path × List Resource)) (removal : Removal)
    (entry : Resource × Record) : FailsAs Unrecorded (settleInline pruned removal entry) s := by
  unfold settleInline
  refine .ite (fun _ => (Task.fails_succeed (by simp) _).bind fun _ _ _ => .pure _) fun _ => ?_
  exact (Task.fails_record (by simp) _ _ _).discard.bind fun _ _ _ => .pure _

theorem fails_failFile (r : Resource) (path : Path) (code : Text) (failure : Failure)
    (removal : Removal) :
    FailsAs Unrecorded (failFile r path code failure removal) s :=
  (Task.fails_warn (by simp) _ _ _).bind fun _ _ _ => .pure _

/-- The file is one of a resource that is no inline one and that no line references. -/
def IsDeletable (catalog : Catalog) (file : Path) : Prop :=
  ∃ entry ∈ catalog.unused, entry.1.category.isInline = false ∧ file ∈ entry.2.files

/-- What lies at the place bears the name of a file that is to be deleted. -/
def BearsName (catalog : Catalog) (place : Place) : Prop :=
  ∃ file, IsDeletable catalog file ∧ place.getLast? = some (Utf8.canonicalName file.name)

/-- No path that a pass meets is one that no disk can have. Links lead neither the project root nor
a file that is to be deleted in a circle, even without some of those that bear the name of such a
file. -/
structure CanRemove (store : Backup.Store) (s : Session) : Prop where
  starts : ∀ path, s.disk.StartsInDirectory path
  links : s.disk.HasSpellableLinks
  directory : AreSpellable store.directory.parts
  root : AreSpellable store.projectRoot.parts
  files : ∀ entry ∈ s.catalog.unused, ∀ file ∈ entry.2.files, AreSpellable file.parts
  loops : ∀ more, s.disk.Sheds (BearsName s.catalog) more →
    ∀ path, path = store.projectRoot ∨ IsDeletable s.catalog path →
      ∀ found, more.resolve path ≠ .error (.linkLoop found)

/-- If no link bears the name of a file that is to be deleted, the links are the same all along, and
nothing is asked but that none of them leads back to itself. -/
theorem CanRemove.of_leadsAhead (hstarts : ∀ path, s.disk.StartsInDirectory path)
    (hlinks : s.disk.HasSpellableLinks) (hdirectory : AreSpellable store.directory.parts)
    (hroot : AreSpellable store.projectRoot.parts)
    (hfiles : ∀ entry ∈ s.catalog.unused, ∀ file ∈ entry.2.files, AreSpellable file.parts)
    (hnames : ∀ link ∈ s.disk.links, ¬ BearsName s.catalog link.1)
    (hahead : ∀ path, path = store.projectRoot ∨ IsDeletable s.catalog path →
      s.disk.LeadsAhead path) :
    CanRemove store s :=
  ⟨hstarts, hlinks, hdirectory, hroot, hfiles, fun _ hsheds path hpath =>
    (hahead path hpath).resolve_ne_linkLoop (hsheds.linksAlike hnames)⟩

/-- What has become of a session whose disk may have lost links. -/
abbrev Sheds (catalog : Catalog) : Session → Session → Prop :=
  Backup.OnDisks (Shedding (BearsName catalog))

theorem steps_unlink {catalog : Catalog} (hfile : IsDeletable catalog file) :
    Steps (Sheds catalog) (Task.changeDisk (·.unlink file)) :=
  Task.steps_changeDisk fun _ _ hunlink hstarts =>
    .unlink hstarts hunlink fun _ hname => ⟨file, hfile, hname⟩

theorem sheds_removeFiles {catalog : Catalog} (r : Resource) (record : Record) {left : List Path}
    (hleft : ∀ file ∈ left, IsDeletable catalog file) (removal : Removal) :
    Steps (Sheds catalog) (removeFiles store r record left removal) :=
  steps_removeFiles r record
    (fun file hfile => ⟨store.sheds_archive file, steps_unlink (hleft file hfile)⟩) removal

variable (hcan : CanRemove store s)

include hcan

theorem CanRemove.canArchive (hsheds : Sheds s.catalog s t) (hfile : IsDeletable s.catalog file) :
    store.CanArchive t.disk file where
  starts path := (hsheds hcan.starts).startsInDirectory (hcan.starts path)
  links := (hsheds hcan.starts).hasSpellableLinks hcan.links
  directory := hcan.directory
  root := hcan.root
  areSpellable := by
    obtain ⟨entry, hentry, -, hmem⟩ := hfile
    exact hcan.files entry hentry file hmem
  loops path hpath := hcan.loops t.disk (hsheds hcan.starts) path
    (hpath.imp_right fun heq => by rwa [heq])

/-- Deleting the files of a resource stops where an event cannot be recorded, at any of its
files. -/
theorem fails_removeFiles (r : Resource) (record : Record) {left : List Path}
    (hleft : ∀ file ∈ left, IsDeletable s.catalog file) (hsheds : Sheds s.catalog s t)
    (removal : Removal) : FailsAs Unrecorded (removeFiles store r record left removal) t := by
  induction left generalizing removal t with
  | nil => exact (Task.fails_succeed (by simp) _).bind fun _ _ _ => .pure _
  | cons file rest ih =>
      obtain ⟨hfile, hrest⟩ := List.forall_mem_cons.mp hleft
      have hcanArchive := hcan.canArchive hsheds hfile
      have harchive := Backup.Store.fails_archive hcanArchive
      refine (FailsAs.attempt (harchive.imp fun _ _ => .inl)).bind fun archived u hu => ?_
      have htu : Sheds s.catalog t u := (store.sheds_archive file).attempt.runs hu
      cases archived with
      | error failure => exact fails_failFile _ _ _ _ _
      | ok backup =>
          have hunlink : FailsAs Backup.Store.Kept (Task.changeDisk (·.unlink file)) u :=
            .changeDisk fun error => Disk.isRefusal_of_unlink hcanArchive.areSpellable
          refine (FailsAs.attempt (hunlink.imp fun _ _ => .inl)).bind fun unlinked v hv => ?_
          have huv : Sheds s.catalog u v := (steps_unlink hfile).attempt.runs hv
          cases unlinked with
          | error failure => exact fails_failFile _ _ _ _ _
          | ok _ =>
              refine (Task.fails_succeed (by simp) _).bind fun _ w hw => ih hrest ?_ _
              have hvw : Sheds s.catalog v w := (Task.steps_succeed _ _).runs hw
              exact IsRun.trans hsheds (IsRun.trans htu (IsRun.trans huv hvw))

/-- **A pass stops only where an event cannot be recorded.** -/
theorem fails_removeUnused : FailsAs Unrecorded (removeUnused store) s := by
  have hsteps : Steps (Sheds s.catalog) (pruneFiles
      (s.catalog.unused.filter fun entry => entry.1.category.isInline)) :=
    steps_pruneFiles _ fun _ _ file _ _ _ _ hwrite hstarts =>
      .of_retains (.writeWith (hstarts file) hwrite)
  have hprunes : FailsAs Unrecorded (pruneFiles
      (s.catalog.unused.filter fun entry => entry.1.category.isInline)) s :=
    fails_pruneFiles fun entry hentry => hcan.files entry (List.mem_filter.mp hentry).1
  refine .get_bind (hprunes.bind fun pruned t ht => ?_)
  have hst : Sheds s.catalog s t := hsteps.runs ht
  have hsettles : ∀ init, FailsAs Unrecorded
      ((s.catalog.unused.filter fun entry => entry.1.category.isInline).foldlM (settleInline pruned)
        init) t :=
    .foldlM (R := Sheds s.catalog) (fun removal entry _ => steps_settleInline pruned removal entry)
      fun removal entry _ _ _ => fails_settleInline pruned removal entry
  refine (hsettles _).bind fun settled u hu => ?_
  have htu : Sheds s.catalog t u := (steps_settle _ _ _).runs hu
  have hleft : ∀ entry ∈ s.catalog.unused.filter (fun entry => !entry.1.category.isInline),
      ∀ file ∈ entry.2.files, IsDeletable s.catalog file := by
    intro entry hentry file hfile
    obtain ⟨hunused, hkind⟩ := List.mem_filter.mp hentry
    exact ⟨entry, hunused, by simpa using hkind, hfile⟩
  have hremoves : ∀ init, FailsAs Unrecorded
      ((s.catalog.unused.filter fun entry => !entry.1.category.isInline).foldlM (removeNext store)
        init) u :=
    .foldlM (R := Sheds s.catalog)
      (fun removal entry hentry => sheds_removeFiles entry.1 entry.2 (hleft entry hentry) removal)
      fun removal entry hentry v huv => fails_removeFiles hcan entry.1 entry.2 (hleft entry hentry)
        (IsRun.trans (IsRun.trans hst htu) huv) removal
  exact (hremoves _).bind fun removal v _ => .modify_bind (.pure _)

/-- A pass succeeds, or there is a log and an event cannot be added to it. -/
theorem runs_or_stops :
    (∃ removal s', Runs (removeUnused store) s removal s')
      ∨ s.trail.log ≠ none ∧ ∃ failure s', Task.exec (removeUnused store) s = (.error failure, s')
        ∧ ¬ s'.CanRecord := by
  refine (Task.exists_runs_or_failure (fails_removeUnused hcan)).imp_right ?_
  rintro ⟨failure, s', hexec, hnot⟩
  refine ⟨fun hnone => hnot fun log hlog => ?_, failure, s', hexec, hnot⟩
  have hkept : s'.trail.log = s.trail.log := by
    have hsteps := keepsLog_removeUnused store s
    rwa [hexec] at hsteps
  rw [hkept, hnone] at hlog
  cases hlog

end Removal

end ResourcePruner
