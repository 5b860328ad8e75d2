import ResourcePruner.Proofs.Disk.Resolve
import ResourcePruner.Proofs.Disk.Vacancy

/-!
# What the steps of a session leave alone

`Frames` bounds what a stretch of a session may do to the disk. Whatever it leads to, a path keeps
leading there; files go only where they may, and outside of the hidden places they change only as
they may and none appears. Where a path that leads nowhere yet, such as that of the log, will lead
one day is told by the last disk of the scene, so that the hidden places can be named before
anything is done.

What lies below the backup directory is hidden, too. It was missing or empty on an earlier disk, and
so it stays as far as that disk is concerned: directories are made on the way to it and below it
only.
-/

namespace ResourcePruner

open Disk (Extends Evolves IsChange Vacant)

/-- What a stretch of a session is seen against: the disks at its beginning and at its end, an
earlier one on which the backup directory was missing or empty, and the places of which nothing is
said, those of the log and the backups among them. -/
structure Scene where
  base : Disk
  first : Disk
  last : Disk
  log : Option Path
  backups : Option Path
  hidden : Place → Prop
  extends_base : Extends base first
  isAbsolute_log : ∀ path, log = some path → path.isAbsolute = true
  hidden_log : ∀ path goal, log = some path → last.Locates path goal → hidden goal.place
  isAbsolute_backups : ∀ path, backups = some path → path.isAbsolute = true
  isDown_backups : ∀ path, backups = some path → ∀ part ∈ path.parts, IsDown part
  hidden_backups : ∀ path place, backups = some path → last.IsBelow path place → hidden place

namespace Scene

/-- The disk comes after the beginning of the scene, and files were put into the backup directory
since its earlier disk only. -/
structure Fits (scene : Scene) (disk : Disk) : Prop where
  extends_first : Extends scene.first disk
  vacant : ∀ path, scene.backups = some path → Vacant scene.base path disk

/-- The session belongs to the scene, somewhere after its beginning. -/
structure Has (scene : Scene) (s : Session) : Prop where
  log : s.trail.log = scene.log
  fits : scene.Fits s.disk

variable {scene : Scene}

theorem Has.extends_first {s : Session} (hhas : scene.Has s) : Extends scene.first s.disk :=
  hhas.fits.extends_first

theorem Fits.extends_base {disk : Disk} (hfits : scene.Fits disk) : Extends scene.base disk :=
  scene.extends_base.trans hfits.extends_first

/-- It makes no difference what becomes of files. -/
theorem Fits.mono {disk more : Disk} (hfits : scene.Fits disk) (hforth : Extends disk more)
    (hback : Extends more disk) : scene.Fits more :=
  ⟨hfits.extends_first.trans hforth, fun path hpath => (hfits.vacant path hpath).mono hback⟩

/-- The part of a scene that begins with a session. -/
def after (scene : Scene) {s : Session} (hhas : scene.Has s) : Scene :=
  { scene with first := s.disk, extends_base := hhas.fits.extends_base }

theorem Has.after {s : Session} (hhas : scene.Has s) : (scene.after hhas).Has s :=
  ⟨hhas.log, .refl _, hhas.fits.vacant⟩

theorem Has.of_after {s t : Session} (hhas : scene.Has s) (hafter : (scene.after hhas).Has t) :
    scene.Has t :=
  ⟨hafter.log, hhas.extends_first.trans hafter.extends_first, hafter.fits.vacant⟩

/-- The part of a scene that ends with a disk. -/
def upTo (scene : Scene) {disk : Disk} (hlast : Extends disk scene.last) : Scene :=
  { scene with
    last := disk
    hidden_log := fun path goal hpath hgoal => scene.hidden_log path goal hpath (hgoal.mono hlast)
    hidden_backups := fun path place hpath hbelow =>
      scene.hidden_backups path place hpath (hbelow.mono hlast) }

theorem Has.upTo {s : Session} (hhas : scene.Has s) {disk : Disk}
    (hlast : Extends disk scene.last) :
    (scene.upTo hlast).Has s :=
  ⟨hhas.log, hhas.extends_first, hhas.fits.vacant⟩

/-- What a run with these backups and this log is seen against: hidden is where they lie in the
end. -/
def ofRun (first last : Disk) (log : Option Path) (directory : Path)
    (hlog : ∀ path, log = some path → path.isAbsolute = true) (hdirectory : directory.IsPlain) :
    Scene where
  base := first
  first := first
  last := last
  log := log
  backups := some directory
  hidden place :=
    (∃ path goal, log = some path ∧ last.Locates path goal ∧ goal.place = place)
      ∨ last.IsBelow directory place
  extends_base := .refl first
  isAbsolute_log := hlog
  hidden_log path goal hpath hgoal := .inl ⟨path, goal, hpath, hgoal, rfl⟩
  isAbsolute_backups := by
    rintro path ⟨rfl⟩
    exact hdirectory.isAbsolute
  isDown_backups := by
    rintro path ⟨rfl⟩
    exact hdirectory.2
  hidden_backups := by
    rintro path place ⟨rfl⟩ hbelow
    exact .inr hbelow

/-- A session belongs to the scene that begins with it if the backup directory is missing or
empty. -/
theorem has_ofRun {s : Session} {last : Disk} {directory : Path}
    {hlog : ∀ path, s.trail.log = some path → path.isAbsolute = true}
    {hdirectory : directory.IsPlain}
    (hempty : ∀ place, s.disk.openDirectory directory = .ok place → s.disk.children place = []) :
    (ofRun s.disk last s.trail.log directory hlog hdirectory).Has s := by
  refine ⟨rfl, .refl _, ?_⟩
  rintro path ⟨rfl⟩ hlooked goal hgoal hlies
  have hopen := Disk.openDirectory_of_locates hdirectory.isAbsolute hlooked hgoal hlies
  exact Disk.isBare_of_children (hempty _ hopen)

/-- What a stretch is seen against that makes no backups: hidden is where the log lies in the
end. -/
def ofLog (first last : Disk) (log : Option Path)
    (hlog : ∀ path, log = some path → path.isAbsolute = true) : Scene where
  base := first
  first := first
  last := last
  log := log
  backups := none
  hidden place := ∃ path goal, log = some path ∧ last.Locates path goal ∧ goal.place = place
  extends_base := .refl first
  isAbsolute_log := hlog
  hidden_log path goal hpath hgoal := ⟨path, goal, hpath, hgoal, rfl⟩
  isAbsolute_backups := nofun
  isDown_backups := nofun
  hidden_backups := nofun

theorem has_ofLog {s : Session} {last : Disk} {log : Option Path}
    {hlog : ∀ path, log = some path → path.isAbsolute = true} (hsame : s.trail.log = log) :
    (ofLog s.disk last log hlog).Has s :=
  ⟨hsame, .refl _, nofun⟩

end Scene

/-- What may become of a disk in a scene: files outside of the hidden places change as `change`
says, and only those at the places of `gone` may go. -/
structure Scene.Grows (scene : Scene) (gone : Place → Prop) (change : Place → Bytes → Bytes → Prop)
    (disk more : Disk) : Prop where
  fits : scene.Fits more
  stays : Extends disk more
  evolves : Extends more scene.last → Evolves scene.hidden gone change disk more

theorem Scene.Grows.trans {scene : Scene} {gone : Place → Prop}
    {change : Place → Bytes → Bytes → Prop} [IsChange change] {first second third : Disk}
    (hfirst : scene.Grows gone change first second)
    (hsecond : scene.Grows gone change second third) :
    scene.Grows gone change first third :=
  ⟨hsecond.fits, hfirst.stays.trans hsecond.stays,
    fun hlast => (hfirst.evolves (hsecond.stays.trans hlast)).trans (hsecond.evolves hlast)⟩

/-- What a step may do in a scene. -/
structure Frame (scene : Scene) (gone : Place → Prop) (change : Place → Bytes → Bytes → Prop)
    (s s' : Session) : Prop where
  log : s'.trail.log = scene.log
  roots : ∀ roots, s.roots = some roots → s'.roots = some roots
  grows : scene.Grows gone change s.disk s'.disk

namespace Frame

variable {scene : Scene} {gone : Place → Prop} {change : Place → Bytes → Bytes → Prop}
  {s t u : Session}

theorem has (hframe : Frame scene gone change s t) : scene.Has t :=
  ⟨hframe.log, hframe.grows.fits⟩

theorem stays (hframe : Frame scene gone change s t) : Extends s.disk t.disk :=
  hframe.grows.stays

theorem evolves (hframe : Frame scene gone change s t) (hlast : Extends t.disk scene.last) :
    Evolves scene.hidden gone change s.disk t.disk :=
  hframe.grows.evolves hlast

theorem refl [IsChange change] (hhas : scene.Has s) : Frame scene gone change s s :=
  ⟨hhas.log, fun _ h => h, hhas.fits, .refl _, fun _ => .refl _⟩

theorem trans [IsChange change] (hfirst : Frame scene gone change s t)
    (hsecond : Frame scene gone change t u) : Frame scene gone change s u :=
  ⟨hsecond.log, fun roots h => hsecond.roots roots (hfirst.roots roots h),
    hfirst.grows.trans hsecond.grows⟩

/-- What is bounded in a part of the scene is bounded in the scene. -/
theorem of_after {r : Session} {hhas : scene.Has r}
    (hframe : Frame (scene.after hhas) gone change s t) : Frame scene gone change s t := by
  have hfits : scene.Fits t.disk := (Scene.Has.of_after hhas hframe.has).fits
  exact ⟨hframe.log, hframe.roots, hfits, hframe.stays, hframe.evolves⟩

/-- More may be allowed. -/
theorem imp {gone' : Place → Prop} {change' : Place → Bytes → Bytes → Prop}
    (hframe : Frame scene gone change s t) (hgone : ∀ place, gone place → gone' place)
    (hchange : ∀ place before after, ¬ scene.hidden place → change place before after →
      change' place before after) : Frame scene gone' change' s t := by
  refine ⟨hframe.log, hframe.roots, hframe.has.fits, hframe.stays, fun hlast => ?_⟩
  obtain ⟨hback, hforth⟩ := hframe.evolves hlast
  refine ⟨fun place content hshown hfile => ?_, fun place old hstays hfile => ?_⟩
  · obtain ⟨old, hold, hcontent⟩ := hback place content hshown hfile
    exact ⟨old, hold, hchange place old content hshown hcontent⟩
  · exact hforth place old (fun h => hstays (hgone place h)) hfile

end Frame

/-- The places of which none may go. -/
def Nowhere (_place : Place) : Prop :=
  False

theorem not_nowhere (place : Place) : ¬ Nowhere place := id

/-- The places of which any may go. -/
def Anywhere (_place : Place) : Prop :=
  True

/-- What changes nothing keeps to every frame. -/
theorem Frame.of_same {scene : Scene} {gone : Place → Prop}
    {change : Place → Bytes → Bytes → Prop} [IsChange change] {s t : Session}
    (hframe : Frame scene Nowhere Disk.Same s t) : Frame scene gone change s t := by
  refine hframe.imp (fun _ => False.elim) fun place before after _ hsame => ?_
  rw [show after = before from hsame]
  exact IsChange.refl place before

/-- A step that keeps to the frame wherever it belongs to the scene. -/
def Frames (scene : Scene) (gone : Place → Prop) (change : Place → Bytes → Bytes → Prop)
    (s s' : Session) : Prop :=
  scene.Has s → Frame scene gone change s s'

/-- A file that is not hidden and may neither go nor change is there still. -/
theorem Frame.get?_file {scene : Scene} {gone : Place → Prop}
    {change : Place → Bytes → Bytes → Prop} {s t : Session} (hframe : Frame scene gone change s t)
    (hlast : Extends t.disk scene.last) {place : Place} (hshown : ¬ scene.hidden place)
    (hstays : ¬ gone place) (hfixed : ∀ before after, change place before after → after = before)
    {content : Bytes} (hfile : s.disk.get? place = some (.file content)) :
    t.disk.get? place = some (.file content) := by
  have hevolves := hframe.evolves hlast
  obtain ⟨found, hfound⟩ := hevolves.forth place content hstays hfile
  obtain ⟨old, hold, hchange⟩ := hevolves.back place found hshown hfound
  rw [hfile] at hold
  cases hold
  rwa [hfixed content found hchange] at hfound

/-- A step that changes nothing leaves the files that are not hidden as they are. -/
theorem Frame.get?_file_iff {scene : Scene} {s t : Session}
    (hframe : Frame scene Nowhere Disk.Same s t) (hlast : Extends t.disk scene.last) {place : Place}
    (hshown : ¬ scene.hidden place) {content : Bytes} :
    t.disk.get? place = some (.file content) ↔ s.disk.get? place = some (.file content) := by
  constructor
  · intro hfile
    obtain ⟨old, hold, rfl⟩ := (hframe.evolves hlast).back place content hshown hfile
    exact hold
  · exact hframe.get?_file hlast hshown (not_nowhere place) fun _ _ hsame => hsame

theorem Frame.of_steps {scene : Scene} {gone : Place → Prop}
    {change : Place → Bytes → Bytes → Prop} {α : Type} {task : Task α} {s s' : Session} {a : α}
    (hhas : scene.Has s) (hruns : Task.Runs task s a s')
    (hsteps : Task.Steps (Frames scene gone change) task) : Frame scene gone change s s' :=
  hsteps.runs hruns hhas

namespace Frames

variable {scene : Scene} {gone : Place → Prop} {change : Place → Bytes → Bytes → Prop}
  [IsChange change]

/-- A step that does not touch the disk. -/
theorem of_disk {s s' : Session} (hdisk : s'.disk = s.disk) (hlog : s'.trail.log = s.trail.log)
    (hroots : ∀ roots, s.roots = some roots → s'.roots = some roots) :
    Frames scene gone change s s' := by
  intro hhas
  refine ⟨hlog.trans hhas.log, hroots, ?_⟩
  rw [hdisk]
  exact (Frame.refl hhas).grows

omit [IsChange change] in
theorem of_change {s : Session} {disk : Disk}
    (hgrows : scene.Fits s.disk → scene.Grows gone change s.disk disk) :
    Frames scene gone change s { s with disk } :=
  fun hhas => ⟨hhas.log, fun _ h => h, hgrows hhas.fits⟩

instance : Task.IsRun (Frames scene gone change) where
  refl _ := Frame.refl
  trans hfirst hsecond hhas := (hfirst hhas).trans (hsecond (hfirst hhas).has)

/-- Writing a file where anything may happen, or one that may change so. -/
theorem of_writeWith {s : Session} {path : Path} (habsolute : path.isAbsolute = true)
    {content : Option Bytes → Bytes} {more : Disk}
    (hwrite : s.disk.writeWith path content = .ok more)
    (hplace : scene.Fits s.disk → ∀ goal old, s.disk.Locates path goal →
      s.disk.get? goal.place = old.map .file → (Extends more scene.last →
        scene.hidden goal.place ∨
          ∃ before, old = some before ∧ change goal.place before (content old))) :
    Frames scene gone change s { s with disk := more } := by
  have hforth := Disk.extends_of_writeWith habsolute hwrite
  have hback := Disk.extends_back_of_writeWith habsolute hwrite
  obtain ⟨goal, old, hlocates, hlies, rfl⟩ := Disk.writeWith_cases habsolute hwrite
  refine of_change fun hfits => ⟨hfits.mono hforth hback, hforth, fun hlast => ?_⟩
  refine Evolves.put_file ((hplace hfits goal old hlocates hlies hlast).imp id ?_)
  rintro ⟨before, rfl, hchange⟩
  exact ⟨before, hlies, hchange⟩

instance : Task.IsLogged (Frames scene gone change) where
  trail _ _ _ := of_disk rfl rfl fun _ h => h
  append := by
    intro s log bytes disk hlog happend hhas
    have hscene : scene.log = some log := hhas.log.symm.trans hlog
    have habsolute := scene.isAbsolute_log log hscene
    have hwrite : s.disk.writeWith log (fun old => old.getD [] ++ bytes)
        = .ok disk := happend
    refine of_writeWith habsolute hwrite (fun _ goal _ hlocates hlies hlast => ?_) hhas
    have hmore := Disk.extends_of_writeWith habsolute hwrite
    exact .inl (scene.hidden_log log goal hscene (hlocates.mono (hmore.trans hlast)))

end Frames

namespace Task

variable {scene : Scene} {gone : Place → Prop} {change : Place → Bytes → Bytes → Prop}
  [IsChange change]

instance : IsRun (fun disk more => scene.Fits disk → scene.Grows gone change disk more) where
  refl disk hfits := ⟨hfits, .refl disk, fun _ => .refl disk⟩
  trans hfirst hsecond hfits := (hfirst hfits).trans (hsecond (hfirst hfits).fits)

/-- Directories are made on the way to the backup directory or below it. -/
theorem frames_makeDirectories {path : Path} (habsolute : path.isAbsolute = true)
    (hway : ∀ backups, scene.backups = some backups → path.anchor = backups.anchor
      ∧ (path.parts <+: backups.parts ∨ backups.parts <+: path.parts)) :
    Steps (Frames scene gone change) (onDisk (Disk.makeDirectories path)) := by
  refine steps_onDisk fun s => Frames.of_change ?_
  refine Disk.steps_makeDirectories
    (R := fun disk more => scene.Fits disk → scene.Grows gone change disk more) ?_ s.disk
  intro upper hanchor hparts disk more hmake hfits
  have habsolute' : upper.isAbsolute = true := by
    rw [Path.isAbsolute, hanchor]
    exact habsolute
  have hvacant : ∀ backups, scene.backups = some backups → Vacant scene.base backups more := by
    intro backups hbackups
    obtain ⟨hanchor', hway⟩ := hway backups hbackups
    have hupper : upper.parts <+: backups.parts ∨ backups.parts <+: upper.parts := by
      rcases hway with h | h
      · exact .inl (hparts.trans h)
      · exact List.prefix_or_prefix_of_prefix hparts h
    exact (hfits.vacant backups hbackups).make hfits.extends_base.losesBare
      (scene.isAbsolute_backups backups hbackups) (scene.isDown_backups backups hbackups)
      (hanchor.trans hanchor') hupper hmake
  obtain ⟨goal, -, hnone, rfl⟩ := Disk.makeDirectory_cases habsolute' hmake
  have hstays : Extends disk (disk.put goal.place .directory) :=
    Disk.extends_put_directory hnone
  exact ⟨⟨hfits.extends_first.trans hstays, hvacant⟩, hstays, fun _ => Evolves.put_directory hnone⟩

end Task

end ResourcePruner
