import ResourcePruner.Proofs.Backup.Archive
import ResourcePruner.Proofs.Definition.Reread
import ResourcePruner.Removal

/-!
# What removing does to a file

Pruning a definition file either writes what the pruning leaves of it, and yields what was taken
out, or leaves it as it is (`Removal.runs_pruneFile`). Deleting the files of a resource deletes
nothing else, apart from what it writes below the backup directory (`Removal.frames_removeFiles`).
-/

namespace ResourcePruner

open Disk (Extends IsChange Same)

namespace Removal

open ResourcePruner.Task (Runs Steps IsRun IsLogged exec)

/-! ## Pruning -/

/-- A definition file of that content loses lines when it is pruned, and some text remains. -/
def IsPrunable (doomed : Doomed) (content : Bytes) : Prop :=
  ∃ text, Utf8.decode? content = .ok text
    ∧ (Pruning.ofLines doomed (Text.linesWithEnds text)).unterminated = none
    ∧ (Pruning.ofLines doomed (Text.linesWithEnds text)).shouldWrite = true

/-- Somewhere between two sessions the file cannot be written. -/
def FailsToWrite (R : Session → Session → Prop) (path : Path) (s s' : Session) : Prop :=
  ∃ t content error, R s t ∧ R t s' ∧ t.disk.write path content = .error error

/-- A text that is written without fault is encoded. -/
theorem exec_writeText {path : Path} {text : Text} (htext : ∀ s ∈ text, s.isHalf = false)
    (s : Session) :
    exec (Task.writeText path text) s =
      exec (Task.changeDisk (·.write path (Utf8.encode text))) s := by
  rw [Task.writeText, Utf8.textFault?_eq_none htext]

/-- Tells that a definition file was rewritten. -/
def noteRewritten (path : Path) (pruning : Pruning) : Task Unit :=
  Task.succeed "rewrite"
    [("path", .path path), ("removed_lines", .nat pruning.droppedCount),
      ("removed", .list (pruning.removed.map fun resource => .text resource.label))]

theorem steps_warnDefinition {R : Session → Session → Prop} [IsLogged R] (code message : Text)
    (path : Path) : Steps R (warnDefinition code message path) :=
  Task.steps_warn _ _ _ _

section

variable {R : Session → Session → Prop} [IsRun R] {path : Path}
  (hwarns : ∀ {code message u s s'}, Runs (warnDefinition code message path) s u s' → R s s')

include hwarns

/-- A definition file stays as it is, or what the pruning leaves of it is written. -/
theorem runs_writePruned {pruning : Pruning}
    (htext : ∀ s ∈ pruning.text, s.isHalf = false) {s s' : Session}
    {pruned : Option (List Resource)} (hruns : Runs (writePruned path pruning) s pruned s') :
    (pruned = none ∧ R s s' ∧ (pruning.shouldWrite = false ∨ FailsToWrite R path s s'))
      ∨ ∃ disk u, pruning.shouldWrite = true ∧ pruned = some pruning.removed
        ∧ s.disk.write path (Utf8.encode pruning.text) = .ok disk
        ∧ Runs (noteRewritten path pruning) { s with disk } u s' := by
  unfold writePruned at hruns
  simp only at hruns
  split at hruns
  · rename_i hnot
    have hnot : pruning.shouldWrite = false := by simpa using hnot
    split at hruns
    · obtain ⟨_, t, hwarn, hpure⟩ := Task.runs_bind.mp hruns
      obtain ⟨rfl, rfl⟩ := Task.runs_pure.mp hpure
      exact .inl ⟨rfl, hwarns hwarn, .inl hnot⟩
    · obtain ⟨rfl, rfl⟩ := Task.runs_pure.mp hruns
      exact .inl ⟨rfl, IsRun.refl _, .inl hnot⟩
  · rename_i hwritten
    have hwritten : pruning.shouldWrite = true := by simpa using hwritten
    obtain ⟨result, t, hattempt, hruns⟩ := Task.runs_bind.mp hruns
    have hexec := Task.runs_attempt hattempt
    rw [exec_writeText htext, Task.exec_changeDisk] at hexec
    cases hdisk : s.disk.write path (Utf8.encode pruning.text) with
    | ok disk =>
        rw [hdisk] at hexec
        cases hexec
        obtain ⟨_, u, hnote, hpure⟩ := Task.runs_bind.mp hruns
        obtain ⟨rfl, rfl⟩ := Task.runs_pure.mp hpure
        exact .inr ⟨disk, _, hwritten, rfl, rfl, hnote⟩
    | error error =>
        rw [hdisk] at hexec
        cases hexec
        obtain ⟨_, u, hwarn, hpure⟩ := Task.runs_bind.mp hruns
        obtain ⟨rfl, rfl⟩ := Task.runs_pure.mp hpure
        have hst := hwarns hwarn
        exact .inl ⟨rfl, hst, .inr ⟨_, _, error, IsRun.refl _, hst, hdisk⟩⟩

theorem runs_pruneText {doomed : Doomed} {text : Text}
    (htext : ∀ s ∈ (Pruning.ofLines doomed (Text.linesWithEnds text)).text, s.isHalf = false)
    {s s' : Session} {pruned : Option (List Resource)}
    (hruns : Runs (pruneText path doomed text) s pruned s') :
    (pruned = none ∧ R s s'
      ∧ (((Pruning.ofLines doomed (Text.linesWithEnds text)).unterminated = none →
          (Pruning.ofLines doomed (Text.linesWithEnds text)).shouldWrite = false)
        ∨ FailsToWrite R path s s')) ∨
      ∃ t disk u, (Pruning.ofLines doomed (Text.linesWithEnds text)).unterminated = none
        ∧ (Pruning.ofLines doomed (Text.linesWithEnds text)).shouldWrite = true
        ∧ pruned = some (Pruning.ofLines doomed (Text.linesWithEnds text)).removed ∧ R s t
        ∧ t.disk.write path
            (Utf8.encode (Pruning.ofLines doomed (Text.linesWithEnds text)).text) = .ok disk
        ∧ Runs (noteRewritten path (Pruning.ofLines doomed (Text.linesWithEnds text)))
            { t with disk } u s' := by
  unfold pruneText at hruns
  generalize Pruning.ofLines doomed (Text.linesWithEnds text) = pruning at htext hruns ⊢
  simp only at hruns
  split at hruns
  · rename_i hopen
    obtain ⟨_, u, hwarn, hpure⟩ := Task.runs_bind.mp hruns
    obtain ⟨rfl, rfl⟩ := Task.runs_pure.mp hpure
    refine .inl ⟨rfl, hwarns hwarn, .inl fun hended => ?_⟩
    rw [hended] at hopen
    cases hopen
  · rename_i hopen
    have hended : pruning.unterminated = none := by
      cases h : pruning.unterminated with
      | none => rfl
      | some block => exact absurd h (hopen block)
    have hwritten : ∃ t, R s t ∧ Runs (writePruned path pruning) t pruned s' := by
      split at hruns
      · obtain ⟨_, t, hwarn, hruns⟩ := Task.runs_bind.mp hruns
        exact ⟨t, hwarns hwarn, hruns⟩
      · exact ⟨s, IsRun.refl s, hruns⟩
    obtain ⟨t, hst, hruns⟩ := hwritten
    rcases runs_writePruned hwarns htext hruns with ⟨hnone, hts', hwhy⟩
      | ⟨disk, v, hwritten, hsome, hwrite, hnote⟩
    · refine .inl ⟨hnone, IsRun.trans hst hts', hwhy.imp (fun hnot _ => hnot) ?_⟩
      rintro ⟨u, content, error, htu, hus', hfails⟩
      exact ⟨u, content, error, IsRun.trans hst htu, hus', hfails⟩
    · exact .inr ⟨t, disk, v, hended, hwritten, hsome, hst, hwrite, hnote⟩

/-- A definition file stays as it is, or it is read, what its pruning leaves is written, and that is
told. -/
theorem runs_pruneFile_told {doomed : Doomed} {s s' : Session} {pruned : Option (List Resource)}
    (hruns : Runs (pruneFile path doomed) s pruned s') :
    (pruned = none ∧ R s s'
      ∧ ((∀ bytes, s.disk.read path = .ok bytes → ¬ IsPrunable doomed bytes)
        ∨ FailsToWrite R path s s')) ∨
      ∃ bytes text t disk u, s.disk.read path = .ok bytes ∧ Utf8.decode? bytes = .ok text
        ∧ (Pruning.ofLines doomed (Text.linesWithEnds text)).unterminated = none
        ∧ (Pruning.ofLines doomed (Text.linesWithEnds text)).shouldWrite = true
        ∧ pruned = some (Pruning.ofLines doomed (Text.linesWithEnds text)).removed ∧ R s t
        ∧ t.disk.write path
            (Utf8.encode (Pruning.ofLines doomed (Text.linesWithEnds text)).text) = .ok disk
        ∧ Runs (noteRewritten path (Pruning.ofLines doomed (Text.linesWithEnds text)))
            { t with disk } u s' := by
  have hruns := Task.runs_refusable_bind (Task.runs_disk_bind.mp hruns)
  cases hread : s.disk.read path with
  | error error =>
      rw [hread] at hruns
      obtain ⟨_, u, hwarn, hpure⟩ := Task.runs_bind.mp hruns
      obtain ⟨rfl, rfl⟩ := Task.runs_pure.mp hpure
      exact .inl ⟨rfl, hwarns hwarn, .inl nofun⟩
  | ok bytes =>
      rw [hread] at hruns
      simp only at hruns
      cases hdecode : Utf8.decode? bytes with
      | error fault =>
          rw [hdecode] at hruns
          obtain ⟨_, u, hwarn, hpure⟩ := Task.runs_bind.mp hruns
          obtain ⟨rfl, rfl⟩ := Task.runs_pure.mp hpure
          refine .inl ⟨rfl, hwarns hwarn, .inl ?_⟩
          rintro _ ⟨⟩ ⟨text, hdecode', -⟩
          rw [hdecode] at hdecode'
          cases hdecode'
      | ok text =>
          rw [hdecode] at hruns
          have htext : ∀ s ∈ (Pruning.ofLines doomed (Text.linesWithEnds text)).text, _ :=
            Utf8.isHalf_of_decode? (decode?_pruned hdecode)
          rcases runs_pruneText hwarns htext hruns with ⟨hnone, hss', hwhy⟩
            | ⟨t, disk, u, hended, hwritten, hsome, hwrite⟩
          · refine .inl ⟨hnone, hss', hwhy.imp_left fun hnot => ?_⟩
            rintro _ ⟨⟩ ⟨text', hdecode', hended, hwritten⟩
            rw [hdecode] at hdecode'
            cases hdecode'
            rw [hnot hended] at hwritten
            cases hwritten
          · exact .inr ⟨bytes, text, t, disk, u, rfl, hdecode, hended, hwritten, hsome, hwrite⟩

end

/-- A definition file stays as it is, or it is read and what its pruning leaves is written. -/
theorem runs_pruneFile {R : Session → Session → Prop} [IsLogged R] {path : Path} {doomed : Doomed}
    {s s' : Session} {pruned : Option (List Resource)}
    (hruns : Runs (pruneFile path doomed) s pruned s') :
    (pruned = none ∧ R s s'
      ∧ ((∀ bytes, s.disk.read path = .ok bytes → ¬ IsPrunable doomed bytes)
        ∨ FailsToWrite R path s s')) ∨
      ∃ bytes text t disk, s.disk.read path = .ok bytes ∧ Utf8.decode? bytes = .ok text
        ∧ (Pruning.ofLines doomed (Text.linesWithEnds text)).unterminated = none
        ∧ (Pruning.ofLines doomed (Text.linesWithEnds text)).shouldWrite = true
        ∧ pruned = some (Pruning.ofLines doomed (Text.linesWithEnds text)).removed ∧ R s t
        ∧ t.disk.write path
            (Utf8.encode (Pruning.ofLines doomed (Text.linesWithEnds text)).text) = .ok disk
        ∧ R { t with disk } s' := by
  refine (runs_pruneFile_told (fun hwarn => (steps_warnDefinition _ _ _).runs hwarn)
    hruns).imp_right ?_
  rintro ⟨bytes, text, t, disk, u, hread, hdecode, hended, hwritten, hsome, hst, hwrite, hnote⟩
  exact ⟨bytes, text, t, disk, hread, hdecode, hended, hwritten, hsome, hst, hwrite,
    (Task.steps_succeed _ _).runs hnote⟩

section

variable {scene : Scene} {gone : Place → Prop} {change : Place → Bytes → Bytes → Prop}
  [IsChange change] {file : Path} {place : Place} {doomed : Doomed} {s s' : Session}
  {pruned : Option (List Resource)}

/-- Pruning a file changes it as pruning changes a content, and nothing else. -/
theorem frame_pruneFile (hhas : scene.Has s) (hstands : s.disk.Stands file place)
    (hchange : ¬ scene.hidden place → ∀ before after, Prunes doomed before after →
      change place before after)
    (hruns : Runs (pruneFile file doomed) s pruned s') : Frame scene gone change s s' := by
  rcases runs_pruneFile (R := Frames scene Nowhere Same) hruns with ⟨-, hframes, -⟩
    | ⟨bytes, text, t, disk, hread, hdecode, -, -, -, hframes, hwrite, hframes'⟩
  · exact (hframes hhas).of_same
  · have hst := hframes hhas
    obtain ⟨goal, hgoal, rfl⟩ := hstands.locates
    obtain ⟨-, found, hfound, hbytes⟩ := Disk.locates_of_read hstands.isAbsolute hread
    obtain rfl := hfound.unique hgoal
    have hwriteWith : t.disk.writeWith file (fun _ => Utf8.encode
        (Pruning.ofLines doomed (Text.linesWithEnds text)).text) = .ok disk := hwrite
    have hwritten : Frame scene gone change t { t with disk } := by
      refine Frames.of_writeWith hstands.isAbsolute hwriteWith ?_ hst.has
      intro _ target old htarget hold hlast
      obtain rfl := htarget.unique (hgoal.mono hst.stays)
      refine Classical.or_iff_not_imp_left.mpr fun hshown => ?_
      have hmore := Disk.extends_of_writeWith hstands.isAbsolute hwriteWith
      have hsame := (hst.get?_file_iff (hmore.trans hlast) hshown).mpr hbytes
      rw [hold] at hsame
      cases old with
      | none => cases hsame
      | some before =>
          cases hsame
          exact ⟨bytes, rfl, hchange hshown _ _ ⟨text, hdecode, rfl⟩⟩
    exact hst.of_same.trans (hwritten.trans (hframes' hwritten.has).of_same)

/-- What a file that is not hidden holds once it has been pruned. It stays as it is only if no
pruning could change it. -/
theorem get?_pruneFile (hhas : scene.Has s) (hstands : s.disk.Stands file place)
    (hlast : Extends s'.disk scene.last) (hshown : ¬ scene.hidden place) {before : Bytes}
    (hbefore : s.disk.get? place = some (.file before))
    (hruns : Runs (pruneFile file doomed) s pruned s') :
    (pruned = none ∧ s'.disk.get? place = some (.file before)
      ∧ (Disk.IsLookedUp file → ¬ IsPrunable doomed before)) ∨
      ∃ text, Disk.IsLookedUp file ∧ Utf8.decode? before = .ok text
        ∧ (Pruning.ofLines doomed (Text.linesWithEnds text)).unterminated = none
        ∧ (Pruning.ofLines doomed (Text.linesWithEnds text)).shouldWrite = true
        ∧ pruned = some (Pruning.ofLines doomed (Text.linesWithEnds text)).removed
        ∧ s'.disk.get? place = some (.file (Utf8.encode
            (Pruning.ofLines doomed (Text.linesWithEnds text)).text)) := by
  rcases runs_pruneFile (R := Frames scene Nowhere Same) hruns with ⟨hnone, hframes, hwhy⟩
    | ⟨bytes, text, t, disk, hread, hdecode, hended, hwritten, hsome, hframes, hwrite, hframes'⟩
  · refine .inl ⟨hnone, ((hframes hhas).get?_file_iff hlast hshown).mpr hbefore, fun hlooked => ?_⟩
    obtain ⟨goal, hgoal, rfl⟩ := hstands.locates
    rcases hwhy with hnot | ⟨t, content, error, hst, hts', hfails⟩
    · exact hnot before (Disk.read_of_locates hstands.isAbsolute hlooked hgoal hbefore)
    · have hst := hst hhas
      have hlast' := (hts' hst.has).stays.trans hlast
      rw [Disk.write_of_locates hstands.isAbsolute hlooked (hgoal.mono hst.stays)
        ((hst.get?_file_iff hlast' hshown).mpr hbefore)] at hfails
      cases hfails
  · have hst := hframes hhas
    obtain ⟨goal, hgoal, rfl⟩ := hstands.locates
    obtain ⟨hlooked, found, hfound, hbytes⟩ := Disk.locates_of_read hstands.isAbsolute hread
    obtain rfl := hfound.unique hgoal
    rw [hbefore] at hbytes
    cases hbytes
    obtain ⟨target, old, htarget, hold, rfl⟩ :=
      Disk.writeWith_cases hstands.isAbsolute (show t.disk.writeWith file _ = .ok disk from hwrite)
    obtain rfl := htarget.unique (hgoal.mono hst.stays)
    have hput : Extends t.disk (t.disk.put target.place (.file (Utf8.encode
        (Pruning.ofLines doomed (Text.linesWithEnds text)).text))) :=
      Disk.extends_put (Disk.isEnd_of_file? hold) nofun
    have hback := Disk.extends_of_put_file (Disk.isEnd_of_file? hold) (Utf8.encode
        (Pruning.ofLines doomed (Text.linesWithEnds text)).text)
    have hhas' : scene.Has { t with disk := t.disk.put target.place _ } :=
      ⟨hst.log, hst.has.fits.mono hput hback⟩
    have hts' := hframes' hhas'
    have hkept := (hst.get?_file_iff ((hput.trans hts'.stays).trans hlast) hshown).mpr hbefore
    refine .inr ⟨text, hlooked, hdecode, hended, hwritten, hsome, ?_⟩
    exact (hts'.get?_file_iff hlast hshown).mpr (Disk.get?_put_of_file hkept _)

theorem runs_pruneNext {entries : List (Resource × Record)}
    {found next : List (Path × List Resource)}
    (hruns : Runs (pruneNext entries found file) s next s') :
    ∃ pruned, Runs (pruneFile file (doomedIn entries file)) s pruned s'
      ∧ next = found ++ (pruned.map (file, ·)).toList := by
  obtain ⟨pruned, t, hprune, hpure⟩ := Task.runs_bind.mp hruns
  cases pruned with
  | none =>
      obtain ⟨rfl, rfl⟩ := Task.runs_pure.mp hpure
      exact ⟨none, hprune, (List.append_nil _).symm⟩
  | some removed =>
      obtain ⟨rfl, rfl⟩ := Task.runs_pure.mp hpure
      exact ⟨some removed, hprune, rfl⟩

/-- Along a list of files, each changes as pruning changes a content. -/
theorem frame_pruneEach {entries : List (Resource × Record)} {files : List Path}
    (hhas : scene.Has s)
    (hfiles : ∀ file ∈ files, ∃ place, scene.first.Stands file place
      ∧ (¬ scene.hidden place → ∀ before after, Prunes (doomedIn entries file) before after →
        change place before after))
    {init found : List (Path × List Resource)}
    (hruns : Runs (files.foldlM (pruneNext entries) init) s found s') :
    Frame scene gone change s s' := by
  induction files generalizing init s with
  | nil =>
      obtain ⟨rfl, rfl⟩ := Task.runs_foldlM_nil.mp hruns
      exact IsRun.refl (R := Frames scene gone change) s' hhas
  | cons file rest ih =>
      obtain ⟨next, t, hfirst, hrest⟩ := Task.runs_foldlM_cons.mp hruns
      obtain ⟨pruned, hprune, -⟩ := runs_pruneNext hfirst
      obtain ⟨⟨place, hstands, hchange⟩, hfiles'⟩ := List.forall_mem_cons.mp hfiles
      have hst : Frame scene gone change s t :=
        frame_pruneFile hhas (hstands.mono hhas.extends_first) hchange hprune
      exact hst.trans (ih hst.has hfiles' hrest)

end

/-! ## Deleting -/

section

variable {scene : Scene} {gone : Place → Prop} {change : Place → Bytes → Bytes → Prop}
  [IsChange change] {store : Backup.Store}

theorem steps_failFile {R : Session → Session → Prop} [IsLogged R] (r : Resource) (path : Path)
    (code : Text) (failure : Failure) (removal : Removal) :
    Steps R (failFile r path code failure removal) :=
  (Task.steps_warn _ _ _ _).bind fun _ => .pure _

/-- Deleting the files of a resource takes steps for each of them: it is archived, and unlinked. -/
theorem steps_removeFiles {R : Session → Session → Prop} [IsLogged R] (r : Resource)
    (record : Record)
    {left : List Path} (hleft : ∀ file ∈ left, Steps R (store.archive file)
      ∧ Steps R (Task.changeDisk (·.unlink file))) (removal : Removal) :
    Steps R (removeFiles store r record left removal) := by
  induction left generalizing removal with
  | nil => exact (Task.steps_succeed _ _).bind fun _ => .pure _
  | cons file rest ih =>
      obtain ⟨⟨harchive, hunlink⟩, hrest⟩ := List.forall_mem_cons.mp hleft
      refine harchive.attempt.bind fun archived => ?_
      cases archived with
      | error failure => exact steps_failFile _ _ _ _ _
      | ok backup =>
          refine hunlink.attempt.bind fun unlinked => ?_
          cases unlinked with
          | error failure => exact steps_failFile _ _ _ _ _
          | ok _ => exact (Task.steps_succeed _ _).bind fun _ => ih hrest _

theorem frames_unlink {file : Path} {place : Place} (hstands : scene.first.Stands file place)
    (hgone : gone place) :
    Steps (Frames scene gone change) (Task.changeDisk (·.unlink file)) := by
  refine Task.steps_changeDisk fun s more hunlink hhas => ?_
  obtain ⟨content, hfile, rfl⟩ :=
    Disk.unlink_of_stands (hstands.mono hhas.extends_first) hunlink
  have hstays := Disk.extends_remove hfile
  exact Frames.of_change (fun hfits => ⟨hfits.mono hstays (Disk.extends_of_remove hfile), hstays,
    fun _ => Disk.Evolves.remove_file hfile hgone⟩) hhas

/-- Deleting the files of a resource deletes them at most. -/
theorem frames_removeFiles (hbackups : scene.backups = some store.directory) (r : Resource)
    (record : Record) {left : List Path}
    (hleft : ∀ file ∈ left, ∃ place, scene.first.Stands file place ∧ gone place)
    (removal : Removal) :
    Steps (Frames scene gone change) (removeFiles store r record left removal) := by
  refine steps_removeFiles r record (fun file hfile => ?_) removal
  obtain ⟨place, hstands, hgone⟩ := hleft file hfile
  obtain ⟨goal, hgoal, -⟩ := hstands.locates
  exact ⟨Backup.frames_archive hbackups hstands.isAbsolute hgoal hstands.isDown_name,
    frames_unlink hstands hgone⟩

theorem steps_settleInline {R : Session → Session → Prop} [IsLogged R]
    (pruned : List (Path × List Resource)) (removal : Removal) (entry : Resource × Record) :
    Steps R (settleInline pruned removal entry) := by
  unfold settleInline
  refine .ite (fun _ => (Task.steps_succeed _ _).bind fun _ => .pure _) fun _ => ?_
  exact (Task.steps_record _ _ _ _).discard.bind fun _ => .pure _

/-- Settling the inline resources only adds to the log. -/
theorem steps_settle {R : Session → Session → Prop} [IsLogged R]
    (pruned : List (Path × List Resource)) (entries : List (Resource × Record))
    (init : Removal) : Steps R (entries.foldlM (settleInline pruned) init) :=
  .foldlM (fun removal entry _ => steps_settleInline pruned removal entry) init

end

/-! ## A pass -/

section

variable {scene : Scene} {store : Backup.Store} {s s' : Session} {removal : Removal}

/-- What a pass does, one after the other: pruning, settling the inline resources, deleting the
others, and taking them all out of the catalog. -/
theorem runs_removeUnused (hruns : Runs (removeUnused store) s removal s') :
    ∃ pruned settled t u v,
      Runs (pruneFiles (s.catalog.unused.filter (·.1.category.isInline))) s pruned t
        ∧ Runs ((s.catalog.unused.filter (·.1.category.isInline)).foldlM (settleInline pruned)
            { nothing with prunedFiles := pruned.map Prod.fst }) t settled u
        ∧ Runs ((s.catalog.unused.filter fun entry => !entry.1.category.isInline).foldlM
            (removeNext store) settled) u removal v
        ∧ s' = { v with catalog :=
            (v.catalog.evictAll (s.catalog.unused.map Prod.fst)).resetUses } := by
  obtain ⟨pruned, t, hprune, hruns⟩ := Task.runs_bind.mp (Task.runs_get_bind.mp hruns)
  obtain ⟨settled, u, hsettle, hruns⟩ := Task.runs_bind.mp hruns
  obtain ⟨removal', v, hremove, hruns⟩ := Task.runs_bind.mp hruns
  obtain ⟨_, w, hmodify, hpure⟩ := Task.runs_bind.mp hruns
  obtain ⟨rfl, rfl⟩ := Task.runs_pure.mp hpure
  exact ⟨pruned, settled, t, u, v, hprune, hsettle, hremove, Task.runs_modify.mp hmodify⟩

end

end Removal

end ResourcePruner
