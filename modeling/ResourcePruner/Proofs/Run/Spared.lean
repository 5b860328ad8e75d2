import ResourcePruner.Proofs.Run.Bound

/-!
# What is referred to in the end

A resource to which a line refers when a run is over has been in use in every round, since lines
that are searched only become fewer (`Run.Course.isUsed_of_refersAtLast`). So no round has found it
unused or taken a line or a file of it away (`Run.Course.spares`).
-/

namespace ResourcePruner

open Disk (Extends Same IsChange)

/-- The resource is among those that the round found without a reference. -/
def RoundReport.Lists (report : RoundReport) (r : Resource) : Prop :=
  ∃ names, (r.category, names) ∈ report.unused ∧ r.name ∈ names

/-- At the one place, the file stays as it is, but for lines that do not declare the resource if
that is an inline one. -/
def Retains (r : Resource) (spared place : Place) (before after : Bytes) : Prop :=
  place = spared → if r.category.isInline then ∀ first, Rewritten r first before →
    Rewritten r first after
    else after = before

instance (r : Resource) (spared : Place) : IsChange (Retains r spared) where
  refl place content := by
    intro _
    split
    · exact fun _ => id
    · rfl
  trans := by
    intro place first second third hfirst hsecond hplace
    specialize hfirst hplace
    specialize hsecond hplace
    split at hfirst
    · rename_i hkind
      rw [if_pos hkind] at hsecond ⊢
      exact fun origin h => hsecond origin (hfirst origin h)
    · rename_i hkind
      rw [if_neg hkind] at hsecond ⊢
      exact hsecond.trans hfirst

namespace Run

open ResourcePruner.Task (Runs Preserves)
open Usage (Known Shrinks Searches)
open Removal (Deletes doomedBy)

theorem mem_unusedTable {catalog : Catalog} {r : Resource} {names : List Text}
    (hmem : (r.category, names) ∈ unusedTable catalog) (hname : r.name ∈ names) :
    catalog.contains r = true ∧ ¬ catalog.IsUsed r := by
  obtain ⟨category, -, hcategory⟩ := List.mem_filterMap.mp hmem
  split at hcategory
  · cases hcategory
  · cases hcategory
    obtain ⟨⟨⟨kind, name⟩, record⟩, hentry, hsame⟩ := List.mem_map.mp hname
    obtain ⟨hunused, hkind⟩ := List.mem_filter.mp hentry
    obtain rfl : name = r.name := hsame
    obtain rfl : kind = r.category := by simpa using hkind
    exact Catalog.exists_mem_unused_iff.mp ⟨record, hunused⟩

/-- Where the scene ends, a line that is searched refers to the resource. -/
def RefersAtLast (project : Project) (scene : Scene) (roots : List Path) (r : Resource) : Prop :=
  ∃ goal dialect content, ¬ scene.hidden goal.place
    ∧ Searches project.config.scan scene.last project.config.manifest roots goal dialect content
    ∧ ∃ line ∈ Index.searchedLines content, Reference.refers dialect line r = true

namespace Course

variable {project : Project} {s s' u : Session} {report : RoundReport} {scene : Scene}
  {r : Resource}
  {roots : List Path}

theorem isUsed_of_refersAtLast (c : Course project s report s') (hhas : scene.Has s)
    (hknown : Known c.listed.disk project.config.manifest c.roots)
    (hafter : Frame scene Anywhere Shrinks c.counted u) (hlast : u.disk = scene.last)
    (hrefers : RefersAtLast project scene c.roots r)
    (hcontains : c.counted.catalog.contains r = true) :
    c.counted.catalog.IsUsed r := by
  obtain ⟨goal, dialect, content, hshown, hsearches, line, hline, hrefers⟩ := hrefers
  exact c.isUsed_of_searches hhas hknown hafter hlast hshown hsearches hline hrefers hcontains

/-- What is in use is not listed. -/
theorem not_lists (c : Course project s report s')
    (hused : c.counted.catalog.contains r = true → c.counted.catalog.IsUsed r) :
    ¬ report.Lists r := by
  rintro ⟨names, hmem, hname⟩
  obtain ⟨number, heq⟩ := c.report_eq
  rw [heq] at hmem
  obtain ⟨hcontains, hnot⟩ := mem_unusedTable hmem hname
  exact hnot (hused hcontains)

/-- The files of what is in use stay. -/
theorem frame_retains (c : Course project s report s')
    (hroot : project.config.projectRoot.isAbsolute = true) (hhas : scene.Has s)
    (hbackups : scene.backups = some project.store.directory)
    (hused : c.counted.catalog.contains r = true → c.counted.catalog.IsUsed r) {goal file : Path}
    {place : Place} {disk : Disk} (hgoal : s.disk.Locates project.config.projectRoot goal)
    (henters :
      Index.Enters project.config.index project.config.projectRoot goal disk r file place) :
    Frame scene (· ≠ place) (Retains r place) s s' := by
  have hsame : ∀ r' file' place', c.counted.catalog.Has r' file' →
      c.counted.disk.Stands file' place' →
      place' = place → file' = file ∧ r'.category.isInline = r.category.isInline
        ∧ (r'.category.isInline = false → r' = r) := by
    rintro r' file' place' hfile hstands rfl
    obtain ⟨goal', place'', hgoal', henters'⟩ := c.exists_enters hroot hhas hfile
    obtain rfl := hgoal'.unique hgoal
    obtain rfl := henters'.stands.unique hstands
    exact henters'.unique henters
  have hnot : ∀ {record}, (r, record) ∉ c.counted.catalog.unused := by
    intro record hunused
    obtain ⟨hcontains, hnot⟩ := Catalog.exists_mem_unused_iff.mp ⟨record, hunused⟩
    exact hnot (hused hcontains)
  refine (c.frame hroot hhas hbackups ?_).imp ?_ fun _ _ _ _ => id
  · intro r' file' place' hfile hkind hstands _ before after hprunes hplace
    obtain ⟨rfl, hkind', -⟩ := hsame r' file' place' hfile hstands hplace
    rw [if_pos (hkind'.symm.trans hkind)]
    refine fun first hfirst => hfirst.prune (Bool.eq_false_iff.mpr fun hdoomed => ?_) hprunes
    obtain ⟨-, hfile, hunused⟩ := Removal.doomedBy_iff.mp hdoomed
    exact hunused (hused (Catalog.contains_of_has hfile))
  · rintro place' ⟨entry, hentry, hkind, file', hfile, hstands⟩ hplace
    obtain ⟨-, -, heq⟩ :=
      hsame entry.1 file' place' (Catalog.has_of_mem_unused hentry hfile) hstands
      hplace
    rw [← heq hkind] at hnot
    exact hnot hentry

/-- A round in which the resource is known spares it if it is referred to in the end. -/
theorem spares (c : Course project s report s')
    (hroot : project.config.projectRoot.isAbsolute = true) (hhas : scene.Has s)
    (hbackups : scene.backups = some project.store.directory)
    (hknown : Known c.listed.disk project.config.manifest c.roots)
    (hafter : Frame scene Anywhere Shrinks s' u) (hlast : u.disk = scene.last)
    (hrefers : RefersAtLast project scene c.roots r) :
    ¬ report.Lists r ∧ ∀ {goal file : Path} {place : Place} {disk : Disk},
      s.disk.Locates project.config.projectRoot goal →
      Index.Enters project.config.index project.config.projectRoot goal disk r file place →
      Frame scene (· ≠ place) (Retains r place) s s' := by
  have hpass : Frame scene (Deletes c.counted.catalog c.counted.disk) Shrinks c.counted c.passed :=
    c.frame_pass hroot hhas hbackups fun _ _ _ _ _ _ _ _ _ hprunes => hprunes.searchedLines_subset
  have hrest : Frame scene Anywhere Shrinks c.counted u :=
    ((hpass.trans (c.frame_concluded hpass.has)).imp (fun _ _ => trivial) fun _ _ _ _ => id).trans
      hafter
  have hused := c.isUsed_of_refersAtLast hhas hknown hrest hlast hrefers
  exact ⟨c.not_lists hused, c.frame_retains hroot hhas hbackups hused⟩

end Course

section

variable {project : Project} {s t u last : Session} {report : RoundReport}
  {rounds : List RoundReport}
  {fuel number : Nat} {scene : Scene} {roots : List Path} {r : Resource}

/-- Rounds change files as pruning does. -/
theorem frame_roundsFrom {change : Place → Bytes → Bytes → Prop} [IsChange change]
    (hroot : project.config.projectRoot.isAbsolute = true)
    (hbackups : scene.backups = some project.store.directory)
    (hchange : ∀ doomed place before after, Prunes doomed before after → change place before after)
    (hhas : scene.Has t) (hruns : Runs (roundsFrom project false fuel number) t rounds u) :
    Frame scene Anywhere change t u := by
  induction rounds generalizing fuel number t with
  | nil => exact absurd hruns not_runs_roundsFrom_nil
  | cons report others ih =>
      obtain ⟨t', t'', hpoll, hround, hrest⟩ := runs_roundsFrom_cons hruns
      obtain ⟨c⟩ := exists_course hround
      have hpolled : Frame scene Nowhere Same t t' := .of_steps hhas hpoll (Task.steps_poll _)
      have hround : Frame scene Anywhere change t' t'' :=
        (c.frame hroot hpolled.has hbackups fun _ _ _ _ _ _ _ _ _ => hchange _ _ _ _).imp
          (fun _ _ => trivial) fun _ _ _ _ => id
      have hfirst := hpolled.of_same.trans hround
      rcases hrest with ⟨-, rfl, rfl⟩ | ⟨-, _, hrest⟩
      · exact hfirst
      · exact hfirst.trans (ih hfirst.has hrest)

/-- Once it is known where the first of them searches, all rounds spare what is referred to in the
end. -/
theorem spares_roundsFrom (hroot : project.config.projectRoot.isAbsolute = true)
    (hbackups : scene.backups = some project.store.directory) (hlast : last.disk = scene.last)
    (hroots : last.roots = some roots) (hrefers : RefersAtLast project scene roots r)
    (hhas : scene.Has t)
    (hknown : ∀ t' report t'' (c : Course project t' report t''),
      Runs (Task.poll (.beforeRound number)) t () t' →
      Known c.listed.disk project.config.manifest c.roots)
    (hruns : Runs (roundsFrom project false fuel number) t rounds u)
    (hafter : Frame scene Anywhere Shrinks u last) :
    (∀ report ∈ rounds, ¬ report.Lists r) ∧ ∀ {goal file : Path} {place : Place} {disk : Disk},
      t.disk.Locates project.config.projectRoot goal →
      Index.Enters project.config.index project.config.projectRoot goal disk r file place →
      Frame scene (· ≠ place) (Retains r place) t u := by
  induction rounds generalizing fuel number t with
  | nil => exact absurd hruns not_runs_roundsFrom_nil
  | cons report others ih =>
      obtain ⟨t', t'', hpoll, hround, hrest⟩ := runs_roundsFrom_cons hruns
      obtain ⟨c⟩ := exists_course hround
      have hpolled : Frame scene Nowhere Same t t' := .of_steps hhas hpoll (Task.steps_poll _)
      have hlisted := c.frame_listed hpolled.has
      have hpass := c.frame_passed hroot hpolled.has hbackups
      have hlater := ((c.frame_scanned hlisted.has).of_same.trans hpass).trans
        (c.frame_concluded hpass.has)
      have hafter' : Frame scene Anywhere Shrinks t'' last := by
        rcases hrest with ⟨-, -, rfl⟩ | ⟨-, _, hrest⟩
        · exact hafter
        · have hothers : Frame scene Anywhere Shrinks t'' u :=
            frame_roundsFrom hroot hbackups (fun _ _ _ _ hprunes => hprunes.searchedLines_subset)
              hlater.has hrest
          exact hothers.trans hafter
      have hknown' := hknown t' report t'' c hpoll
      have hsame := hafter'.roots _ (hlater.roots _ c.roots_listed)
      obtain rfl := Option.some.inj (hsame.symm.trans hroots)
      obtain ⟨hnot, hretains⟩ := c.spares hroot hpolled.has hbackups hknown' hafter' hlast hrefers
      rcases hrest with ⟨-, rfl, rfl⟩ | ⟨-, _, hrest⟩
      · refine ⟨List.forall_mem_singleton.mpr hnot, fun hgoal henters => ?_⟩
        exact hpolled.of_same.trans (hretains (hgoal.mono hpolled.stays) henters)
      · have hnext : ∀ v report' v' (d : Course project v report' v'),
            Runs (Task.poll (.beforeRound (number + 1 : Nat))) t'' () v →
            Known d.listed.disk project.config.manifest d.roots := by
          intro v report' v' d hpoll'
          have hpolled' : Frame scene Nowhere Same t'' v :=
            .of_steps hlater.has hpoll' (Task.steps_poll _)
          rw [d.roots_eq hpolled'.has (hpolled'.roots _ (hlater.roots _ c.roots_listed))]
          exact hknown'.mono
            (hlater.stays.trans (hpolled'.stays.trans (d.frame_listed hpolled'.has).stays))
        obtain ⟨hnots, hretains'⟩ := ih hlater.has hnext hrest
        refine ⟨List.forall_mem_cons.mpr ⟨hnot, hnots⟩, fun hgoal henters => ?_⟩
        have hfirst := hretains (hgoal.mono hpolled.stays) henters
        exact (hpolled.of_same.trans hfirst).trans
          (hretains' (hgoal.mono (hpolled.stays.trans hfirst.stays)) henters)

end

/-! ## A whole run -/

/-- When the run is over, a file that is searched refers to the resource; it is neither the log nor
a backup. -/
def Project.RefersTo (project : Project) (s s' : Session) (r : Resource) : Prop :=
  ∃ roots goal dialect content, s'.roots = some roots
    ∧ Searches project.config.scan s'.disk project.config.manifest roots goal dialect content
    ∧ ¬ project.IsRecord s s'.disk goal.place
    ∧ ∃ line ∈ Index.searchedLines content, Reference.refers dialect line r = true

/-- What the first round has found is there when the run is over, byte by byte: a file of the
resource, or all lines of a definition file that declare it. -/
def Retained (r : Resource) (file : Path) (first last : Disk) : Prop :=
  ∃ goal before after, first.Locates file goal ∧ first.get? goal.place = some (.file before)
    ∧ last.Locates file goal ∧ last.get? goal.place = some (.file after)
    ∧ if r.category.isInline then Rewritten r before after else after = before

section

variable {project : Project} {s t t₁ s' : Session} {report : Report} {catalog : Catalog}
  {r : Resource}

/-- A file of the resource is retained where only such changes happen. -/
theorem retained_of_frame {scene : Scene} {file : Path} {place : Place} {before : Bytes}
    (hframe : Frame scene (· ≠ place) (Retains r place) t s') (hlast : s'.disk = scene.last)
    (hshown : ¬ scene.hidden place) (hstands : t.disk.Stands file place)
    (hbefore : t.disk.get? place = some (.file before)) : Retained r file t.disk s'.disk := by
  have hevolves := hframe.evolves (hlast ▸ .refl _)
  obtain ⟨after, hafter⟩ := hevolves.forth place before (· rfl) hbefore
  obtain ⟨old, hold, hchange⟩ := hevolves.back place after hshown hafter
  obtain rfl : old = before := by
    rw [hbefore] at hold
    cases hold
    rfl
  obtain ⟨goal, hgoal, rfl⟩ := hstands.locates
  refine ⟨goal, old, after, hgoal, hbefore, hgoal.mono hframe.stays, hafter, ?_⟩
  have hchange := hchange rfl
  split at hchange
  · rename_i hkind
    rw [if_pos hkind]
    exact hchange old (.inl rfl)
  · rename_i hkind
    rw [if_neg hkind]
    exact hchange

/-- What the first round finds was there when the old backups had been cleared away, so that it is
neither the log nor one of the backups that the run makes. -/
theorem exists_of_first (hsetup : project.IsSetUp s)
    (hdown : ∀ name ∈ project.store.directory.parts, IsDown name)
    (hfirst : ComesTo project false s 1 t)
    (hlog : t.KeepsLogApart project.config.index project.config.projectRoot)
    (hbuild : Runs (Index.build project.config.index project.config.projectRoot) t catalog t₁) :
    ∃ base, ∃ hbase : Within project false s base base t, ∀ r file, catalog.Has r file →
      ∃ goal place before, t.disk.Locates project.config.projectRoot goal
        ∧ Index.Enters project.config.index project.config.projectRoot goal t.disk r file place
        ∧ t.disk.get? place = some (.file before)
        ∧ ∀ u : Session, (hbase.scene u.disk).Has u → ¬ (hbase.scene u.disk).hidden place := by
  have hroot := hsetup.isAbsolute_root
  cases hfirst with
  | @first t₀ _ hprepare hpoll =>
      obtain ⟨cleared, w, hclear, hnote⟩ := runs_prepare hprepare
      have hw := within_of_clear hsetup hdown hclear
      have hsteps : ∀ {R : Session → Session → Prop} [Task.IsCounted R], R w t := by
        intro R _
        have hpolled : R t₀ t := (Task.steps_poll _).runs hpoll
        rcases hnote with ⟨-, rfl⟩ | ⟨-, hruns⟩
        · exact hpolled
        · exact Task.IsRun.trans ((Task.steps_succeed _ _).runs hruns) hpolled
      have ht := hsteps (R := Preserves (Within project false s w.disk w.disk)) hw
      refine ⟨w.disk, ht, fun r file hfile => ?_⟩
      have habsolute : ∀ log, t.trail.log = some log → log.isAbsolute = true :=
        fun log h => (hlog log h).1
      have hhas : (Scene.ofLog t.disk t₁.disk t.trail.log habsolute).Has t := Scene.has_ofLog rfl
      obtain ⟨goal, place, hgoal, -, ⟨stem, content, hindexes, -, hr⟩, hplace⟩ :=
        Index.enters_of_build hroot hhas (.refl _) hbuild hfile
      have hnot : ∀ {last : Disk}, Extends t.disk last → ¬ ∃ log found, t.trail.log = some log
          ∧ last.Locates log found ∧ found.place = place := fun hstays =>
        Removal.not_logged_of_indexes hroot hlog hstays (hgoal.mono hstays) hindexes
      have hbuilt : Frame (Scene.ofLog t.disk t₁.disk t.trail.log habsolute) Nowhere Same t t₁ :=
        .of_steps hhas hbuild (Index.steps_build _ _)
      obtain ⟨before, hbefore⟩ := hplace.resolve_left (hnot hbuilt.stays)
      refine ⟨goal, place, before, hgoal,
        ⟨stem, content, hindexes, hindexes.stands hroot hgoal (.refl _) hbefore, hr⟩, hbefore,
        fun u hu => ?_⟩
      rintro (hlogged | ⟨hlooked, backups, hbackups, hdirectory, hbelow, hne⟩)
      · rw [← ht.log] at hlogged
        exact hnot hu.extends_first hlogged
      · have hnone := hu.fits.vacant _ rfl hlooked backups hbackups hdirectory place hbelow hne
        have hcleared : (Scene.ofLog w.disk t.disk t.trail.log habsolute).Has w :=
          Scene.has_ofLog (hw.log.trans ht.log.symm)
        have hnoted : Frame (Scene.ofLog w.disk t.disk t.trail.log habsolute) Nowhere Same w t :=
          hsteps (R := Frames _ Nowhere Same) hcleared
        have hthere := (hnoted.get?_file_iff (.refl _) (hnot (.refl _))).mp hbefore
        rw [show w.disk.get? place = none from hnone] at hthere
        cases hthere
  | next hcomes => cases hcomes

end

/-! ## Runs with and without a manifest -/

namespace Sample

def pictured : Resource := ⟨.drawable, "x"⟩

def pointer : Text := "<a i=\"@drawable/x\"/>\n"

/-- When the run is over, the manifest is the first file that is searched, and refers to the
picture. -/
def Points (opened : Except Failure Project × Session) : Prop :=
  opened.2.trail.log = some log ∧ (ranFrom opened).2.roots = some [root]
    ∧ (Usage.visits (projectOf opened).config.scan (ranFrom opened).2.disk
      (projectOf opened).config.manifest [root]).head? = some (projectOf opened).config.manifest
    ∧ Usage.dialectOf? (projectOf opened).config.scan (projectOf opened).config.manifest
      = some .markup
    ∧ ((ranFrom opened).2.disk.read (projectOf opened).config.manifest).toOption
      = some (Utf8.encode pointer)
    ∧ ∃ line ∈ Index.searchedLines (Utf8.encode pointer),
      Reference.refers .markup line pictured = true

theorem HasPaths.refersTo {opened : Except Failure Project × Session} {goal : Path}
    (hpaths : HasPaths (projectOf opened) (ranFrom opened).2 goal) (hpoints : Points opened)
    (hfresh : (projectOf opened).IsFresh opened.2)
    (hplaces : ¬ directory.place <+: goal.place ∧ log.place ≠ goal.place) :
    (projectOf opened).RefersTo opened.2 (ranFrom opened).2 pictured := by
  obtain ⟨hlog, hroots, hvisits, hdialect, hread, line, hline, hrefers⟩ := hpoints
  have hread := eq_ok hread
  have habsolute := hfresh.isAbsolute_manifest
  obtain ⟨-, found, hfound, -⟩ := Disk.locates_of_read habsolute hread
  obtain rfl := Disk.eq_of_resolve (.refl _) habsolute hfound hpaths.resolve_manifest
  obtain ⟨rest, hrest⟩ := List.head?_eq_some_iff.mp hvisits
  refine ⟨_, goal, _, _, hroots, ⟨_, ?_, hdialect, hread⟩, ?_, line, hline, hrefers⟩
  · rw [hrest]
    exact .here hfound
  · rintro (⟨path, logged, hpath, hlogged, hplace⟩ | ⟨-, backups, hbackups, -, hbelow, -⟩)
    · obtain rfl := Option.some.inj (hlog.symm.trans hpath)
      obtain rfl := Disk.eq_of_resolve (.refl _) rfl hlogged hpaths.resolve_log
      exact hplaces.2 hplace
    · rw [hpaths.eq_directory] at hbackups
      obtain rfl := Disk.eq_of_resolve (.refl _) rfl hbackups hpaths.resolve_directory
      exact hplaces.1 hbelow

/-- What the first round of a run begins with. -/
def firstOf (opened : Except Failure Project × Session) : Except Failure Catalog × Session :=
  Task.exec (do
    prepare (projectOf opened) false
    Task.poll (.beforeRound 1)
    Index.build (projectOf opened).config.index (projectOf opened).config.projectRoot) opened.2

theorem exists_of_firstOf {opened : Except Failure Project × Session} {catalog : Catalog}
    (hok : (firstOf opened).1.toOption = some catalog) :
    ∃ t, ComesTo (projectOf opened) false opened.2 1 t
      ∧ Runs (Index.build (projectOf opened).config.index (projectOf opened).config.projectRoot)
        t catalog
        (firstOf opened).2 := by
  have hruns := runs_of_toOption (e := firstOf opened) rfl hok
  obtain ⟨_, _, hprepare, hruns⟩ := Task.runs_bind.mp hruns
  obtain ⟨_, t, hpoll, hbuild⟩ := Task.runs_bind.mp hruns
  exact ⟨t, .first hprepare hpoll, hbuild⟩

/-- The project of a picture, its manifest referring to it, and of another picture. -/
def referring : Except Failure Project × Session :=
  openedBy { Overrides.none with backupDir := some directory }
    ((disk.put ["p", "AndroidManifest.xml"] (.file (Utf8.encode pointer))).put
      ["p", "res", "drawable", "y.png"] (.file [80]))

/-- The project of a picture with a manifest elsewhere, whose path leads through old backups. -/
def misled : Except Failure Project × Session :=
  openedBy (detour "../b/res/../../o/m.xml")
    (((((disk.put ["o"] .directory).put ["o", "m.xml"] (.file (Utf8.encode pointer))).put
      ["b"] .directory).put ["b", ".resprune-backup"] (.file [])).put ["b", "res"] .directory)

def manifestElsewhere : Path := ⟨.root, ["o", "m.xml"]⟩

def picturePath : Path := ⟨.root, ["p", "res", "drawable", "x.png"]⟩

end Sample

end Run

end ResourcePruner
