import ResourcePruner.Proofs.Index.Order
import ResourcePruner.Proofs.Removal.Copies
import ResourcePruner.Proofs.Removal.Reindex
import ResourcePruner.Proofs.Run.Rounds
import ResourcePruner.Proofs.Run.Setup

/-!
# What a run deletes has a copy

Every file of the project that has gone when a run has succeeded or was cancelled has a copy among
the backups (`Run.backsUp_of_isApart`). It is enough that neither of the project root and the backup
directory lies in the other, wherever their paths lead, and that the log does not lie among the
backups: once the old backups have been cleared away, `Custody.Holds` is true, and each round keeps
it (`Custody.keeps_round`). The log of a project can be a link, and then events may be added to a
copy (`Run.not_backsUp`).
-/

namespace ResourcePruner

open Disk (Extends Vacant Same descend IsListed)
open ResourcePruner.Task (Runs Steps IsLogged IsCounted IsDone GoesOn Brings Keeps Preserves)

namespace Custody

variable {custody : Custody} {first : Disk} {s s' : Session} {store : Backup.Store}

/-! ## A round -/

/-- What is known of a catalog: where its files lie, and that the resources that are files are those
that are not inline. -/
def Knows (custody : Custody) (first : Disk) (catalog : Catalog) : Prop :=
  ∀ r file, catalog.Has r file → ∃ names, custody.Finds first file names
    ∧ (custody.IsWhole (custody.goal.place ++ names) ↔ r.category.isInline = false)

theorem isCounted_knows : IsCounted (Preserves fun s => custody.Knows first s.catalog) :=
  Catalog.isCounted_preserves fun _ _ hsame hknows r file hfile =>
    hknows r file ((Catalog.has_congr hsame).mp hfile)

instance : IsCounted (Preserves (custody.Has first)) where
  catalog _ _ _ hhas := ⟨hhas.log, hhas.fits⟩
  roots _ _ _ hhas := ⟨hhas.log, hhas.fits⟩
  patience _ _ hhas := ⟨hhas.log, hhas.fits⟩

theorem Has.of_later (hhas : custody.Has first s) : custody.Has custody.base s :=
  ⟨hhas.log, hhas.fits.holds, hhas.fits.holds.extends_base⟩

/-- What is known of a catalog that has just been built. -/
theorem knows_of_build (hhas : custody.Has custody.base s) {catalog : Catalog}
    (hruns : Runs (Index.build custody.settings custody.root) s catalog s') :
    custody.Knows s'.disk catalog := by
  intro r file hfile
  have hscene : (Scene.ofLog s.disk s'.disk custody.log custody.isAbsolute_log).Has s :=
    Scene.has_ofLog hhas.log
  rcases Index.adds_build custody.isAbsolute_root hscene (.refl _) hruns with
    ⟨goal, -, hgoal, -, hadds⟩ | ⟨-, rfl⟩
  · obtain rfl := hgoal.unique (custody.locates_root.mono hhas.fits.holds.extends_base)
    obtain ⟨stem, place, hindexes, ⟨between, content, huntil, hlies, hr⟩, -⟩ :=
      (hadds.sound r file hfile).resolve_left Catalog.not_has_empty
    have hwhole : custody.IsWhole place ↔ r.category.isInline = false := by
      rw [← Bool.not_eq_true, Index.isInline_of_mem_resourcesOf hr,
        Decidable.not_and_iff_not_or_not, Decidable.not_not, Decidable.not_not]
      refine ⟨fun ⟨stem', file', hindexes', hstem⟩ => ?_,
        fun hstem => ⟨stem, file, hindexes, hstem⟩⟩
      obtain rfl := hindexes'.file_unique hindexes
      obtain ⟨rfl, -⟩ := hindexes'.unique hindexes
      exact hstem
    obtain ⟨⟨dirs, inner, -, hwalked, hpath, rfl, -⟩, -⟩ := hindexes
    obtain ⟨way, name, rfl, -⟩ := hwalked
    have hne : dirs ++ (way ++ [name]) ≠ [] := by simp
    refine ⟨dirs ++ (way ++ [name]),
      ⟨hpath, hne, Disk.isListed_of_get? hlies, ?_, fun target hlink => ?_⟩, hwhole⟩
    · have habove := Disk.get?_dropLast hlies
      rw [List.dropLast_append_of_ne_nil hne] at habove
      exact huntil.directory _ habove
    · rw [(huntil.link _ target).mpr hlink] at hlies
      cases hlies
  · exact absurd hfile Catalog.not_has_empty

/-- A definition file may be written. -/
theorem preserves_write (hhas : custody.Has first s) {file : Path} {names : List Text}
    (hfinds : custody.Finds first file names)
    (hwhole : ¬ custody.IsWhole (custody.goal.place ++ names)) {content : Bytes} {disk : Disk}
    (hwrite : s.disk.write file content = .ok disk) : custody.Has first { s with disk } := by
  have hwriteWith : s.disk.writeWith file (fun _ => content) = .ok disk := hwrite
  refine ⟨hhas.log, hhas.fits.write (hfinds.file_eq ▸ custody.isAbsolute_root) hwriteWith
    fun found hfound => ?_⟩
  obtain rfl := hfound.unique (hfinds.locates hhas.fits)
  rw [hfinds.place_eq]
  refine ⟨?_, fun h => absurd h hwhole⟩
  rintro ⟨inner, hinner⟩
  exact custody.ne_of_isPrefix (List.prefix_append _ _) inner hinner

/-- A pass keeps what holds. -/
theorem brings_removeUnused (hdirectory : store.directory = custody.directory)
    (hroot : store.projectRoot = custody.goal)
    (hlies : first.get? custody.goal.place = some .directory) :
    Brings (fun s => custody.Has first s ∧ custody.Knows first s.catalog) (custody.Has first)
      (Removal.removeUnused store) := by
  rintro s ⟨hs, hknows⟩ hdone
  rw [Removal.exec_removeUnused] at hdone ⊢
  refine Removal.keeps_removeAll (fun _ _ ht => ⟨ht.log, ht.fits⟩)
    (fun entry hentry hinline file hfile t content disk hwrite ht => ?_)
    (fun entry hentry hinline removal => ?_) s hs hdone
  · obtain ⟨names, hfinds, hwhole⟩ := hknows _ _ (Catalog.has_of_mem_unused hentry hfile)
    refine preserves_write ht hfinds (fun h => ?_) hwrite
    rw [hwhole.mp h] at hinline
    cases hinline
  · refine Removal.keeps_removeFiles hdirectory hroot hlies _ _ (fun file hfile => ?_) _
    obtain ⟨names, hfinds, hwhole⟩ := hknows _ _ (Catalog.has_of_mem_unused hentry hfile)
    exact ⟨names, hfinds, hwhole.mpr hinline⟩

/-- A round keeps what holds. -/
theorem keeps_round {project : Run.Project}
    (hdirectory : project.store.directory = custody.directory)
    (hgoal : project.store.projectRoot = custody.goal)
    (hsettings : project.config.index = custody.settings)
    (hroot : project.config.projectRoot = custody.root) (number : Int) :
    Keeps (custody.Has custody.base) (Run.round project number false) := by
  refine Run.keeps_round (fun {s catalog s'} hs hs' hruns => ?_) number
  rw [hsettings, hroot] at hruns
  have hlies := hs'.fits.holds.extends_base.directory _ custody.lies_root
  refine ⟨fun t => custody.Has s'.disk t ∧ custody.Knows s'.disk t.catalog,
    IsCounted.and inferInstance isCounted_knows,
    ⟨⟨hs'.log, hs'.fits.holds, .refl _⟩, knows_of_build hs hruns⟩, fun t ht => ht.1.of_later, ?_⟩
  exact fun t ht hdone => (brings_removeUnused hdirectory hgoal hlies t ht hdone).of_later

end Custody

namespace Run

section

variable {project : Project} {dryRun : Bool} {s s' : Session}

/-! ## Runs that delete nothing -/

/-- No file has gone, and nothing but files has come. -/
structure Untouched (base : Disk) (log : Option Path) (s : Session) : Prop where
  isAbsolute_log : ∀ path, log = some path → path.isAbsolute = true
  log : s.trail.log = log
  forth : Extends base s.disk
  back : Extends s.disk base
  there : ∀ place content, base.get? place = some (.file content) →
    ∃ now, s.disk.get? place = some (.file now)

variable {base : Disk} {log : Option Path}

instance : IsCounted (Preserves (Untouched base log)) where
  refl _ := id
  trans hfirst hsecond h := hsecond (hfirst h)
  trail _ _ _ h := ⟨h.isAbsolute_log, h.log, h.forth, h.back, h.there⟩
  append s path bytes disk hpath happend h := by
    have habsolute := h.isAbsolute_log path (h.log.symm.trans hpath)
    have hwrite : s.disk.writeWith path (fun old => old.getD [] ++ bytes)
        = .ok disk := happend
    refine ⟨h.isAbsolute_log, h.log, h.forth.trans (Disk.extends_of_writeWith habsolute hwrite),
      (Disk.extends_back_of_writeWith habsolute hwrite).trans h.back, fun place content hfile => ?_⟩
    obtain ⟨now, hnow⟩ := h.there place content hfile
    obtain ⟨goal, old, -, -, rfl⟩ := Disk.writeWith_cases habsolute hwrite
    rcases Disk.put_cases s.disk goal.place (.file (old.getD [] ++ bytes)) with
      hsame | ⟨-, hget⟩
    · exact ⟨now, by rwa [hsame]⟩
    · by_cases hplace : place = goal.place
      · exact ⟨_, by rw [hget, if_pos hplace]⟩
      · exact ⟨now, by rwa [hget, if_neg hplace]⟩
  catalog _ _ _ h := ⟨h.isAbsolute_log, h.log, h.forth, h.back, h.there⟩
  roots _ _ _ h := ⟨h.isAbsolute_log, h.log, h.forth, h.back, h.there⟩
  patience _ _ h := ⟨h.isAbsolute_log, h.log, h.forth, h.back, h.there⟩

/-- Nothing goes in a round that is dry, or where the project root is no directory. -/
theorem keeps_round_untouched (habsolute : project.config.projectRoot.isAbsolute = true)
    (hnone : dryRun = false → ∀ goal, base.Locates project.config.projectRoot goal →
      base.get? goal.place ≠ some .directory) (number : Int) :
    Keeps (Untouched base log) (round project number dryRun) := by
  refine keeps_round (fun {s catalog s'} hs hs' hruns => ?_) number
  cases dryRun with
  | true =>
      exact ⟨Untouched base log, inferInstance,
        ⟨hs'.isAbsolute_log, hs'.log, hs'.forth, hs'.back, hs'.there⟩, fun _ => id,
        fun t ht _ => ht⟩
  | false =>
      have hempty : catalog = .empty := by
        refine Index.eq_empty_of_build (fun place hopen => ?_) hruns
        obtain ⟨-, goal, hgoal, rfl, hlies⟩ := Disk.locates_of_openDirectory habsolute hopen
        exact hnone rfl goal (hgoal.mono hs.back) (hs.back.directory _ hlies)
      let IsEmpty (catalog : Catalog) : Prop := ∀ r, catalog.get? r = none
      have hcatalog : IsCounted (Preserves fun t => IsEmpty t.catalog) :=
        Catalog.isCounted_preserves fun _ _ hsame hget r => by
          simpa [hget r] using hsame r
      have huncounted : ∀ t catalog, Untouched base log t → Untouched base log { t with catalog } :=
        fun t _ ht => ⟨ht.isAbsolute_log, ht.log, ht.forth, ht.back, ht.there⟩
      refine ⟨fun t => Untouched base log t ∧ IsEmpty t.catalog,
        IsCounted.and inferInstance hcatalog, ⟨huncounted _ _ hs', ?_⟩, fun _ ht => ht.1, ?_⟩
      · rw [hempty]
        exact fun _ => rfl
      · rintro t ⟨ht, hget⟩ hdone
        have hunused : ∀ entry, entry ∉ t.catalog.unused := by
          intro entry hentry
          have hentry := (Catalog.mem_unused.mp hentry).1
          rw [hget] at hentry
          cases hentry
        rw [passOf, if_neg Bool.false_ne_true, Removal.exec_removeUnused] at hdone ⊢
        exact Removal.keeps_removeAll huncounted (fun entry hentry => absurd hentry (hunused entry))
          (fun entry hentry => absurd hentry (hunused entry)) t ht hdone

/-! ## Where backups go -/

/-- The project root and the backup directory do not lie in each other, wherever their paths lead,
and the log does not lie among the backups. -/
structure Project.KeepsBackupsApart (project : Project) (s : Session) (backups : Path) : Prop where
  isDown_directory : ∀ name ∈ project.store.directory.parts, IsDown name
  resolve_directory : s.disk.resolve project.store.directory = .ok backups
  not_inside : ¬ project.store.projectRoot.place <+: backups.place
  not_beyond : ¬ backups.place <+: project.store.projectRoot.place
  not_below_log : ∀ log, s.trail.log = some log → ∃ goal, s.disk.resolve log = .ok goal
    ∧ ¬ backups.place <+: goal.place

/-- A file of that content lies among the backups, and the names lead to it from the backup path. -/
def Project.IsBackedUp (project : Project) (backups : Path) (disk : Disk) (names : List Text)
    (content : Bytes) : Prop :=
  disk.get? (backups.place ++ names) = some (.file content)
    ∧ disk.read (descend project.store.directory names) = .ok content

/-- Whatever file of the project has gone when a run has succeeded or was cancelled, a copy of what
it held before the run lies among the backups. -/
def Project.BacksUp (project : Project) (s : Session) (backups : Path) : Prop :=
  ∀ dryRun outcome s' names content, Task.exec (run project dryRun) s = (outcome, s') →
    IsDone outcome → s.disk.get? (project.store.projectRoot.place ++ names) = some (.file content) →
    (∀ now, s'.disk.get? (project.store.projectRoot.place ++ names) ≠ some (.file now)) →
    project.IsBackedUp backups s'.disk names content

/-! ## The old backups -/

/-- The log does not come to lie among the backups. -/
theorem not_below_log_of_clear (hsetup : project.IsSetUp s) {backups : Path}
    (hapart : project.KeepsBackupsApart s backups) {base : Disk}
    (hcleared : Backup.Cleared project.store.directory s.disk base)
    (hnoted : base = s.disk ∨ ∃ action data u,
      Runs (Task.succeed action data) { s with disk := base } u s') {path found : Path}
    {later : Disk} (hpath : s.trail.log = some path) (hlater : Extends base later)
    (hfound : later.Locates path found) : ¬ backups.place <+: found.place := by
  have habsolute := hsetup.isAbsolute_log path hpath
  obtain ⟨goal, hgoal, hnot⟩ := hapart.not_below_log path hpath
  rcases hnoted with rfl | ⟨action, data, u, hruns⟩
  · obtain rfl := Disk.eq_of_resolve hlater habsolute hfound hgoal
    exact hnot
  · obtain ⟨-, event, happend⟩ := Task.exists_append_of_succeed hruns hpath
    -- The event was written, so that the log leads somewhere without the old backups, too.
    have hwrite : base.writeWith path (fun old => old.getD [] ++ Utf8.encode event.line)
        = .ok s'.disk := happend
    obtain ⟨now, -, hnow, -⟩ := Disk.writeWith_cases habsolute hwrite
    obtain rfl := (hnow.mono hlater).unique hfound
    have hroot : backups.place ≠ [] := fun h => hapart.not_beyond (h ▸ List.nil_prefix)
    have hbefore := hcleared.locates hsetup.isAbsolute_directory hapart.resolve_directory hroot hnow
    obtain rfl := Disk.eq_of_resolve (.refl _) habsolute hbefore hgoal
    exact hnot

/-- What a run is seen against whose project root is a directory once the old backups are gone. -/
def custodyOf (hsetup : project.IsSetUp s) {backups : Path}
    (hapart : project.KeepsBackupsApart s backups) {base : Disk}
    (hcleared : Backup.Cleared project.store.directory s.disk base)
    (hlog : ∀ path later found, s.trail.log = some path → Extends base later →
      later.Locates path found → ¬ backups.place <+: found.place)
    (hroot : base.Locates project.config.projectRoot project.store.projectRoot)
    (hlies : base.get? project.store.projectRoot.place = some .directory) : Custody where
  start := s.disk
  base := base
  settings := project.config.index
  root := project.config.projectRoot
  goal := project.store.projectRoot
  directory := project.store.directory
  backups := backups
  log := s.trail.log
  isAbsolute_root := hsetup.isAbsolute_root
  locates_root := hroot
  lies_root := hlies
  isAbsolute_directory := hsetup.isAbsolute_directory
  isDown_directory := hapart.isDown_directory
  eq_backups _ _ hlater hfound :=
    hcleared.eq_of_resolve hsetup.isAbsolute_directory hlater hapart.resolve_directory hfound
  isAbsolute_log := hsetup.isAbsolute_log
  not_below_log := hlog
  not_inside := hapart.not_inside
  not_beyond := hapart.not_beyond

section

variable {backups : Path} {base : Disk}

/-- Clearing the backups leaves the project alone. -/
theorem get?_of_clear (hsetup : project.IsSetUp s)
    (hresolve : s.disk.resolve project.store.directory = .ok backups)
    (hinside : ¬ project.store.projectRoot.place <+: backups.place)
    (hbeyond : ¬ backups.place <+: project.store.projectRoot.place)
    (hcleared : Backup.Cleared project.store.directory s.disk base) {place : Place}
    (hplace : project.store.projectRoot.place <+: place) :
    base.get? place = s.disk.get? place := by
  refine hcleared.get? hsetup.isAbsolute_directory hresolve fun hbelow => ?_
  rcases List.prefix_or_prefix_of_prefix hplace hbelow with h | h
  · exact hinside h
  · exact hbeyond h

theorem Project.KeepsBackupsApart.get? (hapart : project.KeepsBackupsApart s backups)
    (hsetup : project.IsSetUp s) (hcleared : Backup.Cleared project.store.directory s.disk base)
    {place : Place} (hplace : project.store.projectRoot.place <+: place) :
    base.get? place = s.disk.get? place :=
  get?_of_clear hsetup hapart.resolve_directory hapart.not_inside hapart.not_beyond hcleared hplace

/-- Before the first round no backup has been made. -/
theorem holds_custodyOf {hsetup : project.IsSetUp s} {hapart : project.KeepsBackupsApart s backups}
    {hcleared : Backup.Cleared project.store.directory s.disk base}
    {hlog : ∀ path later found, s.trail.log = some path → Extends base later →
      later.Locates path found → ¬ backups.place <+: found.place}
    {hroot : base.Locates project.config.projectRoot project.store.projectRoot}
    {hlies : base.get? project.store.projectRoot.place = some .directory} :
    (custodyOf hsetup hapart hcleared hlog hroot hlies).Holds base := by
  have hvacant := hcleared.vacant hsetup.isAbsolute_directory
  refine ⟨.refl _, hvacant, fun hlooked hdirectory hlies' names hnames hbelow => ?_,
    fun place content hwhole _ hfile => ?_, fun names content hfile => ?_⟩
  · rw [hvacant hlooked _ hdirectory hlies' _ (List.prefix_append _ _)
      (by simpa using hnames)] at hbelow
    cases hbelow
  · exact (hapart.get? hsetup hcleared hwhole.isPrefix).symm.trans hfile
  · exact .inl ⟨content, (hapart.get? hsetup hcleared (List.prefix_append _ _)).trans hfile⟩

end

end

/-! ## Runs with and without a copy -/

namespace Sample

def root : Path := ⟨.root, ["p"]⟩

def directory : Path := ⟨.root, ["b"]⟩

def log : Path := ⟨.root, ["p", ".resprune", "audit.jsonl"]⟩

def picture : List Text := ["res", "drawable", "x.png"]

/-- A project with a manifest and a picture that nothing refers to. -/
def disk : Disk :=
  (((((Disk.empty []).put ["p"] .directory).put ["p", "AndroidManifest.xml"] (.file [])).put
    ["p", "res"] .directory).put ["p", "res", "drawable"] .directory).put
    ["p", "res", "drawable", "x.png"] (.file [80])

/-- The same project, its log being a link to where the copy of the picture will lie. -/
def linked : Disk :=
  (disk.put ["p", ".resprune"] .directory).put ["p", ".resprune", "audit.jsonl"]
    (.link "../../b/res/drawable/x.png")

def start (disk : Disk) : Session where
  disk
  clock := Removal.Twice.start.clock
  trail := .start none "run"
  catalog := .empty
  roots := none
  patience := none

def opened (disk : Disk) : Except Failure Project × Session :=
  Task.exec (openSession ⟨.root, ["t"]⟩ root
    { Overrides.none with backupDir := some directory } "run")
    (start disk)

def project (disk : Disk) : Project :=
  (opened disk).1.toOption.getD
    ⟨⟨root, root, root, [], .default, .default, []⟩, ⟨root, directory⟩⟩

def ran (disk : Disk) : Except Failure Report × Session :=
  Task.exec (run (project disk) false) (opened disk).2

theorem eq_ok {ε α : Type} {result : Except ε α} {a : α} (hok : result.toOption = some a) :
    result = .ok a := by
  cases result with
  | ok b => exact congrArg Except.ok (Option.some.inj hok)
  | error e => cases hok

theorem runs_openSession {disk : Disk} (hok : (opened disk).1.toOption.isSome = true) :
    Runs (openSession ⟨.root, ["t"]⟩ root { Overrides.none with backupDir := some directory } "run")
      (start disk) (project disk) (opened disk).2 :=
  Task.runs_of_exec (e := opened disk) rfl _ hok

theorem exec_run (disk : Disk) :
    Task.exec (run (project disk) false) (opened disk).2 = ((ran disk).1, (ran disk).2) := by
  rw [ran]

theorem isDone_ran {disk : Disk} (hok : (ran disk).1.toOption.isSome = true) :
    IsDone (ran disk).1 := by
  cases hran : (ran disk).1 with
  | ok report => exact Task.isDone_ok report
  | error failure =>
      rw [hran] at hok
      cases hok

end Sample

end Run

end ResourcePruner
