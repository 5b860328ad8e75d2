import ResourcePruner.Proofs.Removal.Copies
import ResourcePruner.Proofs.Run.Backups

/-!
# What a run may change

However a run ends, what it has changed lies among the backups, is a directory made on the way to
them, is the log, or is a file of the project that was indexed in a round and found unused there
(`Run.confines_of_isSetUp`). A dry run changes the log only. The log is where its path leads, so
that a log that is a link has another file changed (`Run.not_changes_spelled`).

`Run.Within` says this of any session of a run, where the places are looked up on the disk as it is
then. Each operation keeps it, since it changes what lies at a single place.
-/

namespace ResourcePruner

open Disk (Extends Vacant descend)

namespace Run

open ResourcePruner.Task (Runs Steps IsLogged IsCounted Preserves)

variable {project : Project} {dryRun : Bool} {s t u : Session}

/-! ## Rounds of a run -/

/-- A run comes to the round of that number, which begins in the second session. -/
inductive ComesTo (project : Project) (dryRun : Bool) (s : Session) : Nat → Session → Prop
  | first {t t' : Session} (hprepare : Runs (prepare project dryRun) s () t)
      (hpoll : Runs (Task.poll (.beforeRound 1)) t () t') : ComesTo project dryRun s 1 t'
  | next {number : Nat} {report : RoundReport} {t t' t'' : Session}
      (hcomes : ComesTo project dryRun s number t)
      (hround : Runs (round project number dryRun) t report t')
      (hmore : ¬ (dryRun || report.removedCount = 0) = true)
      (hpoll : Runs (Task.poll (.beforeRound (number + 1 : Nat))) t' () t'') :
      ComesTo project dryRun s (number + 1) t''

/-- The round that begins in the session enters the file under a resource and finds no line that
refers to the resource. -/
def Project.FindsUnused (project : Project) (s : Session) (file : Path) : Prop :=
  ∃ catalog t roots u stats v, Runs (Index.build project.config.index project.config.projectRoot) s
      catalog t
    ∧ Runs (searchRoots project.config) { t with catalog } roots u
    ∧ Runs (Usage.scan project.config.scan roots (some project.config.manifest)) u stats v
    ∧ ∃ entry ∈ v.catalog.unused, file ∈ entry.2.files

/-! ## Where changes lie -/

/-- The backup path leads to the place or to a directory above it. -/
def Project.HasBackups (project : Project) (disk : Disk) (place : Place) : Prop :=
  ∃ goal, disk.Locates project.store.directory goal ∧ goal.place <+: place

/-- What lies at the place now may be other than it was when the run began. -/
inductive Project.MayChange (project : Project) (dryRun : Bool) (s : Session) (disk : Disk)
    (place : Place) : Prop
  /-- It lies among the backups, those of an earlier run or those made now. -/
  | backup (hdry : dryRun = false)
      (hplace : project.HasBackups s.disk place ∨ project.HasBackups disk place)
  /-- It is a directory that was made on the way to the backups. -/
  | above (hdry : dryRun = false) (upper goal : Path)
      (hanchor : upper.anchor = project.store.directory.anchor)
      (hupper : upper.parts <+: project.store.directory.parts) (hgoal : disk.Locates upper goal)
      (hplace : goal.place = place) (hmade : disk.get? place = some .directory)
  /-- The log lies there. -/
  | log (path goal : Path) (hlog : s.trail.log = some path) (hgoal : disk.Locates path goal)
      (hplace : goal.place = place)
  /-- It was a file of the project, which a round found unused. -/
  | resource (hdry : dryRun = false) (goal file : Path) (stem : Text) (content : Bytes)
      (hgoal : disk.Locates project.config.projectRoot goal)
      (hindexes :
        Index.Indexes project.config.index project.config.projectRoot goal stem file place)
      (hbefore : s.disk.get? place = some (.file content)) (number : Nat) (t : Session)
      (hround : ComesTo project dryRun s number t) (hunused : project.FindsUnused t file)

/-- All that has changed is what may change, and no directory has gone but the backup directory and
those in it. -/
structure Project.Confines (project : Project) (dryRun : Bool) (s s' : Session) : Prop where
  changed : ∀ place, s'.disk.get? place ≠ s.disk.get? place →
    project.MayChange dryRun s s'.disk place
  directory : ∀ place, s.disk.get? place = some .directory →
    s'.disk.get? place ≠ some .directory → dryRun = false ∧ project.HasBackups s.disk place

theorem Project.HasBackups.mono {disk more : Disk} {place : Place}
    (hplace : project.HasBackups disk place) (hstays : Extends disk more) :
    project.HasBackups more place := by
  obtain ⟨goal, hgoal, hbelow⟩ := hplace
  exact ⟨goal, hgoal.mono hstays, hbelow⟩

theorem Project.MayChange.mono {disk more : Disk} {place : Place}
    (hplace : project.MayChange dryRun s disk place) (hstays : Extends disk more) :
    project.MayChange dryRun s more place := by
  cases hplace with
  | backup hdry hplace => exact .backup hdry (hplace.imp_right (·.mono hstays))
  | above hdry upper goal hanchor hupper hgoal hplace hmade =>
      exact .above hdry upper goal hanchor hupper (hgoal.mono hstays) hplace
        (hstays.directory _ hmade)
  | log path goal hlog hgoal hplace => exact .log path goal hlog (hgoal.mono hstays) hplace
  | resource hdry goal file stem content hgoal hindexes hbefore number t hround hunused =>
      exact .resource hdry goal file stem content (hgoal.mono hstays) hindexes hbefore number
        t hround
        hunused

/-- What is true at any time of a run once the old backups have been cleared away, which left the
disk `base`; the session comes after the disk `first`. -/
structure Within (project : Project) (dryRun : Bool) (s : Session) (base first : Disk)
    (t : Session) :
    Prop where
  isSetUp : project.IsSetUp s
  isDown : dryRun = false → ∀ name ∈ project.store.directory.parts, IsDown name
  extends_base : Extends base first
  log : t.trail.log = s.trail.log
  stays : Extends first t.disk
  vacant : dryRun = false → Vacant base project.store.directory t.disk
  changed : ∀ place, t.disk.get? place ≠ s.disk.get? place →
    project.MayChange dryRun s t.disk place
  directory : ∀ place, s.disk.get? place = some .directory → base.get? place ≠ some .directory →
    dryRun = false ∧ project.HasBackups s.disk place

namespace Within

variable {base first more : Disk} {file : Path} {place : Place} {store : Backup.Store}

theorem confines (hwithin : Within project dryRun s base first t) :
    project.Confines dryRun s t := by
  refine ⟨hwithin.changed,
    fun place hbefore hafter => hwithin.directory place hbefore fun hbase => ?_⟩
  exact hafter ((hwithin.extends_base.trans hwithin.stays).directory _ hbase)

/-- A later part of the run begins. -/
theorem now (hwithin : Within project dryRun s base first t) :
    Within project dryRun s base t.disk t :=
  { hwithin with extends_base := hwithin.extends_base.trans hwithin.stays, stays := .refl _ }

theorem back (hwithin : Within project dryRun s base first t) :
    Within project dryRun s base base t :=
  { hwithin with extends_base := .refl _, stays := hwithin.extends_base.trans hwithin.stays }

/-! ## Changes at a single place -/

theorem of_except (hwithin : Within project dryRun s base first t) (place : Place)
    (hstays : Extends t.disk more)
    (hvacant : dryRun = false → Vacant base project.store.directory more)
    (hother : ∀ other, other ≠ place → more.get? other = t.disk.get? other)
    (hplace : more.get? place ≠ t.disk.get? place → project.MayChange dryRun s more place) :
    Within project dryRun s base first { t with disk := more } := by
  refine { hwithin with
    stays := hwithin.stays.trans hstays, vacant := hvacant, changed := fun other hchanged => ?_ }
  by_cases hsame : more.get? other = t.disk.get? other
  · have hbefore : t.disk.get? other ≠ s.disk.get? other := fun h => hchanged (hsame.trans h)
    exact (hwithin.changed other hbefore).mono hstays
  · obtain rfl : other = place := Classical.byContradiction fun hne => hsame (hother other hne)
    exact hplace hsame

theorem write (hwithin : Within project dryRun s base first t) {path : Path}
    (habsolute : path.isAbsolute = true) {make : Option Bytes → Bytes}
    (hwrite : t.disk.writeWith path make = .ok more)
    (hplace : ∀ goal, t.disk.Locates path goal → project.MayChange dryRun s more goal.place) :
    Within project dryRun s base first { t with disk := more } := by
  have hstays := Disk.extends_of_writeWith habsolute hwrite
  have hback := Disk.extends_back_of_writeWith habsolute hwrite
  obtain ⟨goal, old, hgoal, -, rfl⟩ := Disk.writeWith_cases habsolute hwrite
  refine hwithin.of_except goal.place hstays (fun hdry => (hwithin.vacant hdry).mono hback)
    (fun other hne => ?_) fun _ => hplace goal hgoal
  rcases Disk.put_cases t.disk goal.place (.file (make old)) with hsame | ⟨-, hget⟩
  · rw [hsame]
  · rw [hget, if_neg hne]

instance : IsCounted (Preserves (Within project dryRun s base first)) where
  trail _ _ _ hwithin := { hwithin with }
  append t path bytes disk hpath happend hwithin := by
    have hlog : s.trail.log = some path := hwithin.log.symm.trans hpath
    have habsolute := hwithin.isSetUp.isAbsolute_log path hlog
    have hwrite : t.disk.writeWith path (fun old => old.getD [] ++ bytes)
        = .ok disk := happend
    refine hwithin.write habsolute hwrite fun goal hgoal => ?_
    exact .log path goal hlog (hgoal.mono (Disk.extends_of_writeWith habsolute hwrite)) rfl
  catalog _ _ _ hwithin := { hwithin with }
  roots _ _ _ hwithin := { hwithin with }
  patience _ _ hwithin := { hwithin with }

/-! ## Backups -/

section

variable (hdry : dryRun = false) (hstore : store = project.store)

include hdry hstore

theorem write_backup (hwithin : Within project dryRun s base first t) {names : List Text}
    (hnames : ∀ name ∈ names, IsDown name) (hne : names ≠ []) {content : Bytes}
    (hwrite : t.disk.write (descend store.directory names) content = .ok more) :
    Within project dryRun s base first { t with disk := more } := by
  subst hstore
  have habsolute : (descend project.store.directory names).isAbsolute = true :=
    hwithin.isSetUp.isAbsolute_directory
  have hwriteWith : t.disk.writeWith (descend project.store.directory names) (fun _ => content)
      = .ok more := hwrite
  have hlooked := Disk.isLookedUp_of_writeWith hwriteWith
  refine hwithin.write habsolute hwriteWith fun goal hgoal => .backup hdry (.inr ?_)
  obtain ⟨-, found, hfound, -, hbelow, -⟩ := (hwithin.vacant hdry).isBelow
    (hwithin.extends_base.trans hwithin.stays)
    (hlooked.of_descend hwithin.isSetUp.isAbsolute_directory) hnames hne hgoal
  exact ⟨found, hfound.mono (Disk.extends_of_writeWith habsolute hwriteWith), hbelow⟩

/-- A directory is made on the way to the backups or among them. -/
theorem makeDirectory (hwithin : Within project dryRun s base first t) {names : List Text}
    (hnames : ∀ name ∈ names, IsDown name) {upper : Path}
    (hanchor : upper.anchor = store.directory.anchor)
    (hupper : upper.parts <+: store.directory.parts ++ names)
    (hmake : t.disk.makeDirectory upper = .ok more) :
    Within project dryRun s base first { t with disk := more } := by
  subst hstore
  have habsolute := hwithin.isSetUp.isAbsolute_directory
  have hbase := hwithin.extends_base.trans hwithin.stays
  have habsolute' : upper.isAbsolute = true := by
    rw [Path.isAbsolute, hanchor]
    exact habsolute
  have hlooked := Disk.isLookedUp_of_makeDirectory hmake
  have hway := List.prefix_or_prefix_of_prefix hupper (List.prefix_append _ _)
  have hvacant := (hwithin.vacant hdry).make hbase.losesBare habsolute (hwithin.isDown hdry) hanchor
    hway hmake
  obtain ⟨made, hmade, hnone, rfl⟩ := Disk.makeDirectory_cases habsolute' hmake
  have hstays : Extends t.disk (t.disk.put made.place .directory) :=
    Disk.extends_put_directory hnone
  rcases Disk.put_cases t.disk made.place .directory with hsame | ⟨-, hget⟩
  · rw [hsame]
    exact hwithin
  refine hwithin.of_except made.place hstays (fun _ => hvacant)
    (fun other hne => by rw [hget, if_neg hne]) fun _ => ?_
  by_cases hshort : upper.parts <+: project.store.directory.parts
  · exact .above hdry upper made hanchor hshort (hmade.mono hstays) rfl (by rw [hget, if_pos rfl])
  · obtain ⟨below, hbelow⟩ := hway.resolve_left hshort
    obtain rfl : upper = descend project.store.directory below :=
      Disk.eq_descend_of_append hanchor hbelow
    have hne : below ≠ [] := by
      rintro rfl
      exact hshort (by simp [descend])
    obtain ⟨rest, rfl⟩ := (List.prefix_append_right_inj _).mp hupper
    obtain ⟨-, found, hfound, -, hplace, -⟩ := (hwithin.vacant hdry).isBelow hbase
      (hlooked.of_descend habsolute)
        (fun name hname => hnames name (List.mem_append_left _ hname)) hne
      hmade
    exact .backup hdry (.inr ⟨found, hfound.mono hstays, hplace⟩)

theorem steps_makeDirectories {names : List Text} (hnames : ∀ name ∈ names, IsDown name) :
    Steps (Preserves (Within project dryRun s base first))
      (Task.onDisk (Disk.makeDirectories (descend store.directory names))) := by
  refine Task.steps_onDisk fun t hwithin => ?_
  refine Disk.steps_makeDirectories
    (R := Preserves fun disk => Within project dryRun s base first { t with disk }) ?_
    t.disk hwithin
  intro upper hanchor hupper disk more hmake hwithin
  exact makeDirectory (t := { t with disk }) hdry hstore hwithin hnames hanchor hupper hmake

theorem steps_claim : Steps (Preserves (Within project dryRun s base first)) store.claim := by
  refine (Task.steps_check _).bind fun found => .ite (fun _ => .pure _) fun _ => ?_
  have hmake : Steps (Preserves (Within project dryRun s base first))
      (Task.onDisk (Disk.makeDirectories (descend store.directory []))) :=
    steps_makeDirectories hdry hstore (List.forall_mem_nil IsDown)
  rw [show descend store.directory [] = store.directory by simp [descend]] at hmake
  refine hmake.bind fun _ => Task.steps_changeDisk fun t disk hwrite hwithin => ?_
  exact hwithin.write_backup hdry hstore
    (List.forall_mem_singleton.mpr Backup.isDown_markerName) (List.cons_ne_nil _ _) hwrite

theorem steps_copyFile (hname : IsDown file.name) {names : List Text}
    (hnames : ∀ name ∈ names, IsDown name) (hne : names ≠ []) :
    Steps (Preserves (Within project dryRun s base first))
      (Backup.Store.copyFile file (descend store.directory names)) := by
  refine Task.steps_disk.bind fun disk => ?_
  obtain ⟨names', hnames', hne', hreached⟩ :=
    Backup.copyTarget_descend disk store.directory hname hnames hne
  rw [hreached]
  refine .ite (fun _ => .throw _) fun _ => ?_
  refine Task.steps_changeDisk fun t more hcopy hwithin => ?_
  obtain ⟨content, -, hwrite⟩ := Backup.copy_cases hcopy
  exact hwithin.write_backup hdry hstore hnames' hne' hwrite

/-- The backup of a file is written among the backups. -/
theorem steps_archive (hstands : first.Stands file place) :
    Steps (Preserves (Within project dryRun s base first)) (store.archive file) := by
  refine (Backup.steps_targetFor file).bind_runs fun {t target t'} htarget hwithin => ?_
  obtain ⟨goal, hgoal, -⟩ := hstands.locates
  obtain ⟨rfl, hbelow⟩ := Backup.runs_targetFor hstands.isAbsolute htarget
  obtain ⟨names, hnames, hne, rfl⟩ := hbelow goal (hgoal.mono hwithin.stays)
  have hmake : Steps (Preserves (Within project dryRun s base first))
      (Task.onDisk (Disk.makeDirectories (descend store.directory names).parent)) := by
    rw [Disk.parent_descend _ hne]
    refine steps_makeDirectories hdry hstore fun name hname => ?_
    exact hnames name ((List.dropLast_sublist _).subset hname)
  have hrest : Steps (Preserves (Within project dryRun s base first)) (do
      store.claim
      Task.onDisk (Disk.makeDirectories (descend store.directory names).parent)
      Backup.Store.copyFile file (descend store.directory names)
      return descend store.directory names) :=
    (steps_claim hdry hstore).bind fun _ => hmake.bind fun _ =>
      (steps_copyFile hdry hstore hstands.isDown_name hnames hne).bind fun _ => .pure _
  exact hrest t' hwithin

end

/-! ## Files of the project -/

/-- The file stands at a place that may change. -/
def IsOpen (project : Project) (dryRun : Bool) (s : Session) (first : Disk) (file : Path) : Prop :=
  ∃ place, first.Stands file place
    ∧ ∀ more, Extends first more → project.MayChange dryRun s more place

theorem write_file (hwithin : Within project dryRun s base first t)
    (hopen : IsOpen project dryRun s first file) {content : Bytes}
    (hwrite : t.disk.write file content = .ok more) :
    Within project dryRun s base first { t with disk := more } := by
  obtain ⟨place, hstands, hplace⟩ := hopen
  obtain ⟨goal, hgoal, rfl⟩ := hstands.locates
  have hwriteWith : t.disk.writeWith file (fun _ => content) = .ok more := hwrite
  refine hwithin.write hstands.isAbsolute hwriteWith fun found hfound => ?_
  obtain rfl := hfound.unique (hgoal.mono hwithin.stays)
  have hstays := Disk.extends_of_writeWith hstands.isAbsolute hwriteWith
  exact hplace more (hwithin.stays.trans hstays)

theorem unlink_file (hwithin : Within project dryRun s base first t)
    (hopen : IsOpen project dryRun s first file) (hunlink : t.disk.unlink file = .ok more) :
    Within project dryRun s base first { t with disk := more } := by
  obtain ⟨place, hstands, hplace⟩ := hopen
  obtain ⟨content, hfile, rfl⟩ := Disk.unlink_of_stands (hstands.mono hwithin.stays) hunlink
  have hstays := Disk.extends_remove hfile
  have hback := Disk.extends_of_remove hfile
  refine hwithin.of_except place hstays (fun hdry => (hwithin.vacant hdry).mono hback)
    (fun other hne => ?_) fun _ => hplace _ (hwithin.stays.trans hstays)
  rw [Disk.get?_remove_of_file hfile, if_neg hne]

/-- Files that may change are backed up and deleted. -/
theorem steps_removeFiles (hdry : dryRun = false) (hstore : store = project.store) (r : Resource)
    (record : Record) {left : List Path} (hleft : ∀ file ∈ left, IsOpen project dryRun s first file)
    (removal : Removal) :
    Steps (Preserves (Within project dryRun s base first))
      (Removal.removeFiles store r record left removal) := by
  refine Removal.steps_removeFiles r record (fun file hfile => ?_) removal
  have ⟨place, hstands, _⟩ := hleft file hfile
  exact ⟨steps_archive hdry hstore hstands, Task.steps_changeDisk fun t more hunlink hwithin =>
    hwithin.unlink_file (hleft file hfile) hunlink⟩

/-- A pass changes the files of the unused resources. -/
theorem removeUnused (hdry : dryRun = false) (hwithin : Within project dryRun s base first t)
    (hopen : ∀ entry ∈ t.catalog.unused, ∀ file ∈ entry.2.files,
      IsOpen project dryRun s first file) :
    Within project dryRun s base first (Task.exec (Removal.removeUnused project.store) t).2 := by
  rw [Removal.exec_removeUnused]
  refine Removal.steps_removeAll (R := Preserves (Within project dryRun s base first))
    (fun _ _ hwithin => { hwithin with })
    (fun entry hentry file hfile u content disk hwrite hwithin =>
      hwithin.write_file (hopen entry hentry file hfile) hwrite)
    (fun entry hentry removal => ?_) t hwithin
  exact steps_removeFiles hdry rfl _ _ (hopen entry hentry) removal

/-! ## A round -/

/-- The file was indexed, and was there when the round began unless it is the log. -/
def IsIndexed (project : Project) (s t : Session) (first : Disk) (file : Path) : Prop :=
  ∃ goal stem place, first.Locates project.config.projectRoot goal
    ∧ Index.Indexes project.config.index project.config.projectRoot goal stem file place
    ∧ first.Stands file place
    ∧ ((∃ path found, s.trail.log = some path ∧ first.Locates path found ∧ found.place = place)
      ∨ ∃ content, t.disk.get? place = some (.file content))

theorem isIndexed_of_build (hwithin : Within project dryRun s base first t) {catalog : Catalog}
    (hruns : Runs (Index.build project.config.index project.config.projectRoot) t catalog u)
    {r : Resource} (hfile : catalog.Has r file) : IsIndexed project s t u.disk file := by
  have hhas : (Scene.ofLog t.disk u.disk s.trail.log hwithin.isSetUp.isAbsolute_log).Has t :=
    Scene.has_ofLog hwithin.log
  have hu := (Index.steps_build (R := Preserves (Within project dryRun s base t.disk)) _ _).runs
    hruns
    hwithin.now
  obtain ⟨goal, place, hgoal, -, ⟨stem, content, hindexes, hstands, -⟩, hplace⟩ :=
    Index.enters_of_build hwithin.isSetUp.isAbsolute_root hhas (.refl _) hruns hfile
  exact ⟨goal, stem, place, hgoal.mono hu.stays, hindexes, hstands, hplace⟩

/-- What a round has found unused may change. -/
theorem isOpen_of_findsUnused (hdry : dryRun = false)
    (hwithin : Within project dryRun s base first t)
    {number : Nat} (hround : ComesTo project dryRun s number t) (hstays : Extends t.disk more)
    (hindexed : IsIndexed project s t more file) (hunused : project.FindsUnused t file) :
    IsOpen project dryRun s more file := by
  obtain ⟨goal, stem, place, hgoal, hindexes, hstands, hplace⟩ := hindexed
  refine ⟨place, hstands, fun later hlater => ?_⟩
  rcases hplace with ⟨path, found, hlog, hfound, hplace⟩ | ⟨content, hfile⟩
  · exact .log path found hlog (hfound.mono hlater) hplace
  · -- What is a file when the round begins either was one before the run or has changed since.
    by_cases hsame : t.disk.get? place = s.disk.get? place
    · exact .resource hdry goal file stem content (hgoal.mono hlater) hindexes (hsame ▸ hfile)
        number t
        hround hunused
    · exact (hwithin.changed place hsame).mono (hstays.trans hlater)

/-- What is known while a round that began in the session `t` counts: every file of the catalog is
indexed. -/
def Counts (project : Project) (dryRun : Bool) (s : Session) (base : Disk) (t : Session)
    (first : Disk) (v : Session) : Prop :=
  Within project dryRun s base first v
    ∧ ∀ r file, v.catalog.Has r file → IsIndexed project s t first file

instance : IsCounted (Preserves (Counts project dryRun s base t first)) := by
  refine IsCounted.and inferInstance (@Catalog.isCounted_preserves
    (fun catalog => ∀ r file, catalog.Has r file → IsIndexed project s t first file) ?_)
  exact fun _ _ hsame hindexed r file hfile => hindexed r file ((Catalog.has_congr hsame).mp hfile)

/-- A round that the run comes to stays within bounds. -/
theorem round (hwithin : Within project dryRun s base base t) {number : Nat}
    (hround : ComesTo project dryRun s number t) :
    Within project dryRun s base base (Task.exec (Run.round project number dryRun) t).2 := by
  rw [round_eq]
  have hindex : Steps (Preserves (Within project dryRun s base t.disk))
      (Index.build project.config.index project.config.projectRoot) := Index.steps_build _ _
  refine hindex.preserves_bind (fun _ h => back h) hwithin.now fun catalog u hbuild hu => ?_
  have hcounts : Counts project dryRun s base t u.disk { u with catalog } :=
    ⟨{ hu.now with }, fun r file hfile => isIndexed_of_build hwithin hbuild hfile⟩
  have hback : ∀ v, Counts project dryRun s base t u.disk v → Within project dryRun s base base v :=
    fun v hv => hv.1.back
  refine Task.holds_of_bind (hback _ hcounts) fun _ v hmodify => ?_
  obtain rfl := Task.runs_modify.mp hmodify
  refine (steps_searchRoots _).preserves_bind hback hcounts fun roots v hroots hv => ?_
  refine (Usage.steps_scan _ _ _).preserves_bind hback hv fun stats w hscan hw => ?_
  refine Steps.get.preserves_bind hback hw fun _ w' hget hw' => ?_
  obtain ⟨rfl, rfl⟩ := Task.runs_get.mp hget
  have hpass : Within project dryRun s base u.disk (Task.exec (passOf project dryRun) w').2 := by
    cases hdry : dryRun with
    | true =>
        subst hdry
        exact hw.1
    | false =>
        subst hdry
        refine removeUnused rfl hw.1 fun entry hentry file hfile => ?_
        refine isOpen_of_findsUnused rfl hwithin hround hu.stays
          (hw.2 _ _ (Catalog.has_of_mem_unused hentry hfile)) ?_
        exact ⟨catalog, u, roots, v, stats, w', hbuild, hroots, hscan, entry, hentry, hfile⟩
  refine Task.holds_of_bind hpass.back fun removal x hruns => ?_
  rw [show Task.exec (passOf project dryRun) w' = (.ok removal, x) from hruns] at hpass
  exact steps_conclude (R := Preserves (Within project dryRun s base base)) _ _ hpass.back

/-- So do all rounds after it. -/
theorem roundsFrom (fuel number : Nat) {t : Session} (hwithin : Within project dryRun s base base t)
    (hcomes : ∀ u, Runs (Task.poll (.beforeRound number)) t () u →
      ComesTo project dryRun s number u) :
    Within project dryRun s base base
      (Task.exec (Run.roundsFrom project dryRun fuel number) t).2 := by
  induction fuel generalizing number t with
  | zero => exact hwithin
  | succ fuel ih =>
      refine (Task.steps_poll _).preserves_bind (fun _ => id) hwithin fun _ u hpoll hu => ?_
      have hround := hu.round (hcomes u hpoll)
      refine Task.holds_of_bind hround fun report v hruns => ?_
      rw [show Task.exec (Run.round project number dryRun) u = (.ok report, v) from hruns] at hround
      split
      · exact hround
      · rename_i hmore
        have hrest := ih (number + 1) hround fun w hpoll' =>
          .next (hcomes u hpoll) hruns hmore hpoll'
        refine Task.holds_of_bind hrest fun rest w hruns' => ?_
        rwa [show Task.exec (Run.roundsFrom project dryRun fuel (number + 1)) v = (.ok rest, w)
          from hruns'] at hrest

end Within

/-! ## A run -/

theorem Project.Confines.refl (project : Project) (dryRun : Bool) (s : Session) :
    project.Confines dryRun s s :=
  ⟨fun _ h => absurd rfl h, fun _ h hnot => absurd h hnot⟩

theorem confines_of_clears (hclears : Backup.Clears project.store.directory s t) :
    project.Confines false s t := by
  obtain ⟨disk, rfl, rfl | ⟨goal, hgoal, hget⟩⟩ := hclears
  · exact .refl project false s
  · have hbelow : ∀ place, disk.get? place ≠ s.disk.get? place → project.HasBackups s.disk place :=
      fun place hchanged =>
        ⟨goal, hgoal, Classical.byContradiction fun hnot => hchanged (hget place hnot)⟩
    refine ⟨fun place hchanged => .backup rfl (.inl (hbelow place hchanged)),
      fun place hbefore hafter => ⟨rfl, hbelow place fun hsame => hafter (hsame.trans hbefore)⟩⟩

/-- Once the old backups have been cleared away, the run is within bounds. -/
theorem within_of_clear (hsetup : project.IsSetUp s)
    (hdown : ∀ name ∈ project.store.directory.parts, IsDown name) {cleared : Bool}
    (hruns : Runs project.store.clear s cleared t) :
    Within project false s t.disk t.disk t := by
  have hconfines := confines_of_clears
    ((Backup.steps_clear hsetup.isAbsolute_directory).runs hruns)
  obtain ⟨base, rfl, hcleared, -⟩ := Backup.runs_clear hsetup.isAbsolute_directory hruns
  exact {
    isSetUp := hsetup
    isDown := fun _ => hdown
    extends_base := .refl _
    log := rfl
    stays := .refl _
    vacant := fun _ => hcleared.vacant hsetup.isAbsolute_directory
    changed := hconfines.changed
    directory := hconfines.directory }

/-- A run that is dry is within bounds when it begins. -/
theorem within_of_dry (hsetup : project.IsSetUp s) : Within project true s s.disk s.disk s where
  isSetUp := hsetup
  isDown := nofun
  extends_base := .refl _
  log := rfl
  stays := .refl _
  vacant := nofun
  changed := (Project.Confines.refl project true s).changed
  directory := (Project.Confines.refl project true s).directory

theorem within_of_prepare (hsetup : project.IsSetUp s)
    (hdown : dryRun = false → ∀ name ∈ project.store.directory.parts, IsDown name)
    (hruns : Runs (prepare project dryRun) s () t) :
    ∃ base, Within project dryRun s base base t := by
  cases dryRun with
  | true =>
      obtain rfl := runs_prepare_dry hruns
      exact ⟨t.disk, within_of_dry hsetup⟩
  | false =>
      obtain ⟨cleared, u, hclear, hnote⟩ := runs_prepare hruns
      have hu := within_of_clear hsetup (hdown rfl) hclear
      rcases hnote with ⟨-, rfl⟩ | ⟨-, hruns⟩
      · exact ⟨_, hu⟩
      · have hsteps := Task.steps_succeed (R := Preserves (Within project false s u.disk u.disk))
          "backup_cleared" [("path", .path project.store.directory)]
        exact ⟨_, hsteps.runs hruns hu⟩

/-- Begun in a session that is set up, what has been done has changed what may change only. -/
def Project.KeepsConfined (project : Project) (dryRun : Bool) (s s' : Session) : Prop :=
  project.IsSetUp s → project.Confines dryRun s s'

/-- However a run begins, nothing has changed but the old backups and the log. -/
theorem steps_prepare
    (hdown : dryRun = false → ∀ name ∈ project.store.directory.parts, IsDown name) :
    Steps (project.KeepsConfined dryRun) (prepare project dryRun) := by
  have hrefl : ∀ s, project.KeepsConfined dryRun s s := fun s _ => .refl project dryRun s
  have hclear : Steps (project.KeepsConfined dryRun) (do
      if !dryRun then
        if ← project.store.clear then
          Task.succeed "backup_cleared" [("path", .path project.store.directory)]) := by
    cases dryRun with
    | true => exact hrefl
    | false =>
        intro s hsetup
        have hclears := Backup.steps_clear hsetup.isAbsolute_directory s
        refine Task.holds_of_bind (confines_of_clears hclears) fun cleared t hruns => ?_
        have ht := within_of_clear hsetup (hdown rfl) hruns
        have hnote : Steps (Preserves (Within project false s t.disk t.disk))
            (if cleared = true then
              Task.succeed "backup_cleared" [("path", .path project.store.directory)]
            else pure ()) := .ite (fun _ => Task.steps_succeed _ _) fun _ => .pure _
        exact (hnote t ht).confines
  refine .bind_same hrefl (Task.exec_check _) fun isFile => ?_
  exact .ite (fun _ => .bind_same hrefl (fun _ => rfl) fun _ => hclear) fun _ => hclear

namespace Sample

def elsewhere : Place := ["o"]

/-- The project, its log being a link to a file elsewhere. -/
def strayed : Disk :=
  ((disk.put elsewhere (.file [])).put ["p", ".resprune"] .directory).put
    ["p", ".resprune", "audit.jsonl"] (.link "../../o")

end Sample

end Run

end ResourcePruner
