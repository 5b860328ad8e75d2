import ResourcePruner.Proofs.Disk.Resolve
import ResourcePruner.Proofs.Task.Finishes

/-!
# Two runs on two disks

A run that removes nothing leaves the old backups where they are, while one that does removes them
first; and a run that comes after another one finds the log and the backups that the other has left.
Two such sessions agree (`Prospect.Agree`) as long as nothing else changes on their disks than the
log. Where a path that leads to neither is concerned, both disks give the same answer
(`Prospect.Agree.gist_reach`, `Prospect.Agree.read_eq`), and whatever is recorded in the one session
can be recorded in the other (`Prospect.follows_warn`).
-/

namespace ResourcePruner

open Disk (WrittenAt Locates)
open ResourcePruner.Task (Follows Runs Steps IsLogged)

/-- The disks of two runs as they begin, and the log to which events are added on either. -/
structure Prospect where
  left : Disk
  right : Disk
  log : Path
  /-- The roots that may be searched. -/
  roots : List Path
  isAbsolute_log : log.isAbsolute = true
  /-- A path does not lead to different places. -/
  unique : ∀ {path goal found}, left.Locates path goal → right.Locates path found → found = goal
  spellable_left : left.HasSpellableLinks
  spellable_right : right.HasSpellableLinks

namespace Prospect

variable {prospect : Prospect} {alike : Catalog → Catalog → Prop} {s d : Session} {path goal : Path}
  {place : Place}

/-- The log leads to the place. -/
def IsLog (prospect : Prospect) (place : Place) : Prop :=
  ∃ goal, (prospect.left.Locates prospect.log goal ∨ prospect.right.Locates prospect.log goal)
    ∧ goal.place = place

/-- The same disks, the other one first. -/
def swap (prospect : Prospect) : Prospect where
  left := prospect.right
  right := prospect.left
  log := prospect.log
  roots := prospect.roots
  isAbsolute_log := prospect.isAbsolute_log
  unique hright hleft := (prospect.unique hleft hright).symm
  spellable_left := prospect.spellable_right
  spellable_right := prospect.spellable_left

theorem isLog_swap : prospect.swap.IsLog place ↔ prospect.IsLog place :=
  exists_congr fun _ => and_congr_left fun _ => or_comm

/-- What lies at the place can differ. -/
def Hides (prospect : Prospect) (place : Place) : Prop :=
  prospect.IsLog place ∨ prospect.left.get? place ≠ prospect.right.get? place

theorem not_hides (hlog : ¬ prospect.IsLog place)
    (hsame : prospect.left.get? place = prospect.right.get? place) : ¬ prospect.Hides place := by
  rintro (h | hdiffers)
  · exact hlog h
  · exact hdiffers hsame

/-- Nothing that has been recorded tells the sessions apart, whose catalogs are alike and of which
the other one is no less patient. -/
structure Agree (prospect : Prospect) (alike : Catalog → Catalog → Prop) (s d : Session) :
    Prop where
  catalog : alike s.catalog d.catalog
  patience : d.patience = s.patience ∨ d.patience = none
  log_left : s.trail.log = some prospect.log
  log_right : d.trail.log = some prospect.log
  left : WrittenAt prospect.IsLog prospect.left s.disk
  right : WrittenAt prospect.IsLog prospect.right d.disk
  writable : ∃ more, d.disk.append prospect.log [] = .ok more

/-- The path leads alike on either disk, and not to the log. -/
structure Steady (prospect : Prospect) (path : Path) : Prop where
  isAbsolute : path.isAbsolute = true
  gist_eq : (prospect.right.reach .target path).gist = (prospect.left.reach .target path).gist
  not_log_left : ∀ goal, prospect.left.Locates path goal → ¬ prospect.IsLog goal.place
  not_log_right : ∀ goal, prospect.right.Locates path goal → ¬ prospect.IsLog goal.place

/-- The path leads to a file that is the same on either disk. -/
structure Shows (prospect : Prospect) (path : Path) : Prop where
  isAbsolute : path.isAbsolute = true
  areSpellable : Disk.AreSpellable path.parts
  lies : ∃ goal content, prospect.left.Locates path goal ∧ prospect.right.Locates path goal
    ∧ ¬ prospect.Hides goal.place ∧ prospect.left.get? goal.place = some (.file content)

theorem Steady.swap (hsteady : prospect.Steady path) : prospect.swap.Steady path where
  isAbsolute := hsteady.isAbsolute
  gist_eq := hsteady.gist_eq.symm
  not_log_left goal hgoal hlog := hsteady.not_log_right goal hgoal (isLog_swap.mp hlog)
  not_log_right goal hgoal hlog := hsteady.not_log_left goal hgoal (isLog_swap.mp hlog)

/-- What a steady path leads to on the one disk, it leads to on the other. -/
theorem Steady.locates_right (hsteady : prospect.Steady path) (hlooked : Disk.IsLookedUp path)
    (hgoal : prospect.left.Locates path goal) {entry : Entry}
    (hentry : Disk.isLinkEntry entry = false)
    (hlies : prospect.left.get? goal.place = some entry) :
    prospect.right.Locates path goal ∧ prospect.right.get? goal.place = some entry := by
  have hfound := Disk.found_of_locates hsteady.isAbsolute hlooked hgoal hlies
  have hsame : prospect.right.reach .target path = .found goal.place entry := by
    rcases Disk.Reach.eq_or_blocked hsteady.gist_eq with heq | ⟨_, _, -, hblocked, -⟩
    · exact heq.trans hfound
    · rw [hfound] at hblocked
      cases hblocked
  obtain ⟨-, found, hlocates, hplace, hright⟩ :=
    Disk.locates_of_found hsteady.isAbsolute hsame hentry
  exact ⟨prospect.unique hgoal hlocates ▸ hlocates, hright⟩

/-! ## The disks of the sessions -/

namespace Agree

variable (hagree : prospect.Agree alike s d)

include hagree

theorem get?_left (hplace : ¬ prospect.Hides place) :
    s.disk.get? place = prospect.left.get? place :=
  hagree.left.elsewhere place fun h => hplace (.inl h)

theorem get?_right (hplace : ¬ prospect.Hides place) :
    d.disk.get? place = prospect.left.get? place :=
  (hagree.right.elsewhere place fun h => hplace (.inl h)).trans
    (Classical.not_not.mp fun h => hplace (.inr fun heq => h heq.symm))

theorem get?_eq (hplace : ¬ prospect.Hides place) : d.disk.get? place = s.disk.get? place :=
  (hagree.get?_right hplace).trans (hagree.get?_left hplace).symm

theorem spellable : d.disk.HasSpellableLinks := fun place target hlink =>
  prospect.spellable_right place target ((hagree.right.back.link place target).mp hlink)

theorem gist_reach (hsteady : prospect.Steady path) :
    (d.disk.reach .target path).gist = (s.disk.reach .target path).gist := by
  rw [Disk.gist_reach_of_writtenAt hagree.right hsteady.isAbsolute hsteady.not_log_right,
    Disk.gist_reach_of_writtenAt hagree.left hsteady.isAbsolute hsteady.not_log_left,
    hsteady.gist_eq]

theorem leadsTo_eq (hsteady : prospect.Steady path) (kind : Entry → Bool) :
    d.disk.leadsTo kind path = s.disk.leadsTo kind path :=
  Disk.leadsTo_eq_of_gist (hagree.gist_reach hsteady) kind

/-- A directory that a steady path opens lies at the same place on either disk. -/
theorem locates_of_openDirectory (hsteady : prospect.Steady path)
    (hopen : s.disk.openDirectory path = .ok place) : Disk.IsLookedUp path ∧ ∃ goal,
      s.disk.Locates path goal ∧ prospect.left.Locates path goal ∧ prospect.right.Locates path goal
      ∧ goal.place = place := by
  obtain ⟨hlooked, goal, hgoal, rfl, hlies⟩ :=
    Disk.locates_of_openDirectory hsteady.isAbsolute hopen
  have hleft := hagree.left.locates_iff.mp hgoal
  exact ⟨hlooked, goal, hgoal, hleft, (hsteady.locates_right hlooked hleft rfl
    ((hagree.left.get?_eq_some_iff (by simp) _).mp hlies)).1, rfl⟩

/-- Both sessions find the file there, and it is the same. -/
theorem locates_of_shows (hshows : prospect.Shows path) : ∃ goal content,
    (s.disk.Locates path goal ∧ s.disk.get? goal.place = some (.file content))
      ∧ (d.disk.Locates path goal ∧ d.disk.get? goal.place = some (.file content))
      ∧ ¬ prospect.Hides goal.place := by
  obtain ⟨goal, content, hleft, hright, hshown, hlies⟩ := hshows.lies
  exact ⟨goal, content,
    ⟨hagree.left.locates_iff.mpr hleft, (hagree.get?_left hshown).trans hlies⟩,
    ⟨hagree.right.locates_iff.mpr hright, (hagree.get?_right hshown).trans hlies⟩,
    hshown⟩

theorem read_eq (hshows : prospect.Shows path) : d.disk.read path = s.disk.read path := by
  obtain ⟨goal, content, ⟨hgoal, hlies⟩, ⟨hgoal', hlies'⟩, -⟩ := hagree.locates_of_shows hshows
  rw [Disk.read, Disk.read,
    Disk.reach_eq_of_locates hshows.isAbsolute hgoal hlies hgoal' hlies']

/-- A file that lies below what a path opens is shown unless it is hidden. -/
theorem shows_descend {root : Path} {names : List Text} {content : Bytes}
    (habsolute : root.isAbsolute = true) (hlooked : Disk.IsLookedUp root)
    (hleft : prospect.left.Locates root goal) (hright : prospect.right.Locates root goal)
    (hplace : ¬ prospect.Hides (goal.place ++ names))
    (hlies : s.disk.get? (goal.place ++ names) = some (.file content)) :
    prospect.Shows (Disk.descend root names) := by
  have hgoal : (Disk.descend goal names).place = goal.place ++ names :=
    Disk.place_descend goal (Disk.isListed_of_get? hlies)
  have hfile := (hagree.get?_left hplace).symm.trans hlies
  have hsame :
      prospect.left.get? (goal.place ++ names) = prospect.right.get? (goal.place ++ names) :=
    Classical.not_not.mp fun h => hplace (.inr h)
  refine ⟨habsolute, Disk.areSpellable_descend hlooked hlies, Disk.descend goal names, content,
    hleft.descend_of_get? hfile rfl, hright.descend_of_get? (hsame ▸ hfile) rfl, ?_, ?_⟩
  · rwa [hgoal]
  · rwa [hgoal]

end Agree

/-! ## What is recorded -/

/-- Steps of the one session leave it in agreement with the other. -/
def KeepsLeft (prospect : Prospect) (alike : Catalog → Catalog → Prop) (s s' : Session) : Prop :=
  ∀ d, prospect.Agree alike s d → prospect.Agree alike s' d

/-- Steps of the other session leave it in agreement with the one. -/
def KeepsRight (prospect : Prospect) (alike : Catalog → Catalog → Prop) (d d' : Session) : Prop :=
  ∀ s, prospect.Agree alike s d → prospect.Agree alike s d'

instance : IsLogged (prospect.KeepsLeft alike) where
  refl _ _ := id
  trans hfirst hsecond d h := hsecond d (hfirst d h)
  trail _ _ _ _ h := { h with }
  append s log bytes disk hlog happend d h := by
    obtain rfl : log = prospect.log := Option.some.inj (hlog.symm.trans h.log_left)
    exact { h with
      left := h.left.append_of_isAbsolute prospect.isAbsolute_log
        (fun goal hgoal => ⟨goal, .inl hgoal, rfl⟩)
        happend }

instance : IsLogged (prospect.KeepsRight alike) where
  refl _ _ := id
  trans hfirst hsecond d h := hsecond d (hfirst d h)
  trail _ _ _ _ h := { h with }
  append d log bytes disk hlog happend s h := by
    obtain rfl : log = prospect.log := Option.some.inj (hlog.symm.trans h.log_right)
    exact { h with
      right := h.right.append_of_isAbsolute prospect.isAbsolute_log
        (fun goal hgoal => ⟨goal, .inr hgoal, rfl⟩)
        happend
      writable := Disk.exists_append_again happend [] }

theorem Agree.canRecord (hagree : prospect.Agree alike s d) : d.CanRecord := by
  intro log hlog
  obtain rfl : prospect.log = log := Option.some.inj (hagree.log_right.symm.trans hlog)
  exact hagree.writable

/-- What is recorded in the other session leaves them in agreement. -/
theorem exists_record (hagree : prospect.Agree alike s d) (action : Text) (ok : Bool)
    (code : Option Text)
    {data : List (Text × Datum)} (hdata : Datum.AreShallow data) :
    ∃ event d', Runs (Task.record action ok code data) d event d' ∧ prospect.Agree alike s d' := by
  obtain ⟨event, d', hrecord, -⟩ := Task.finishes_record hagree.canRecord action ok code hdata
  exact ⟨event, d', hrecord,
    (Task.steps_record (R := prospect.KeepsRight alike) _ _ _ _).runs hrecord s hagree⟩

/-- A warning in the other session leaves them in agreement. -/
theorem exists_warn (hagree : prospect.Agree alike s d) (action code message : Text)
    {data : List (Text × Datum)} (hdata : Datum.AreShallow data) :
    ∃ d', Runs (Task.warn action code message data) d () d' ∧ prospect.Agree alike s d' := by
  obtain ⟨_, d', hwarn, -⟩ := Task.finishes_warn hagree.canRecord action code message hdata
  exact ⟨d', hwarn, (Task.steps_warn (R := prospect.KeepsRight alike) _ _ _ _).runs hwarn s hagree⟩

/-- A warning is recorded in both sessions, whatever it says, if its data do not nest too deep. -/
theorem follows_warn (hagree : prospect.Agree alike s d) (action code message message' : Text)
    (data : List (Text × Datum)) {data' : List (Text × Datum)} (hdata : Datum.AreShallow data') :
    Follows (prospect.Agree alike) (fun _ _ => True) (Task.warn action code message data)
      (Task.warn action code message' data') s d := by
  intro u s' hruns
  have hleft := (Task.steps_warn (R := prospect.KeepsLeft alike) _ _ _ _).runs hruns d hagree
  obtain ⟨d', hwarn, hagree'⟩ := exists_warn hleft action code message' hdata
  exact ⟨(), d', hwarn, trivial, hagree'⟩

end Prospect

end ResourcePruner
