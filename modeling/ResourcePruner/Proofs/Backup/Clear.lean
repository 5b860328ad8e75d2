import ResourcePruner.Backup.Store
import ResourcePruner.Proofs.Disk.Vacancy
import ResourcePruner.Proofs.Disk.Without
import ResourcePruner.Proofs.Task

/-!
# What clearing leaves

Clearing the backup directory leaves the disk as it is, or takes the directory away with all that
lies in it (`Backup.runs_clear`). Either way nothing lies below the backup path afterwards, and what
it leads to later is where it led before, if it leads anywhere. Paths that lead elsewhere are not
affected.
-/

namespace ResourcePruner

open Disk (Extends Vacant Without)

namespace Disk

variable {disk : Disk}

/-! ## Emptying a directory -/

theorem get?_foldl_remove (directory : Place) (entries : List (Text × Entry)) (disk : Disk)
    (other : Place) :
    (entries.foldl (fun left entry => left.remove (directory ++ [entry.1])) disk).get? other =
      if other ≠ [] ∧ ∃ entry ∈ entries, directory ++ [entry.1] <+: other then none
      else disk.get? other := by
  induction entries generalizing disk with
  | nil => simp
  | cons entry rest ih =>
      rw [List.foldl_cons, ih, without_remove disk (directory ++ [entry.1]) other]
      by_cases hroot : other = []
      · simp [hroot]
      · by_cases hfirst : directory ++ [entry.1] <+: other
        · simp [hroot, hfirst]
        · simp only [List.mem_cons, or_and_right, exists_or, exists_eq_left, hfirst, false_or,
            and_false, if_false]

/-- The disk with nothing left below the place. -/
def EmptiedAt (place : Place) (disk emptied : Disk) : Prop :=
  ∀ other, emptied.get? other =
    if place <+: other ∧ other ≠ place then none else disk.get? other

theorem EmptiedAt.get?_eq_some {place other : Place} {entry : Entry} {emptied : Disk}
    (hemptied : EmptiedAt place disk emptied) (hlies : emptied.get? other = some entry) :
    disk.get? other = some entry := by
  rw [hemptied] at hlies
  split at hlies
  · cases hlies
  · exact hlies

theorem EmptiedAt.get?_self {place : Place} {emptied : Disk}
    (hemptied : EmptiedAt place disk emptied) : emptied.get? place = disk.get? place := by
  rw [hemptied, if_neg fun h => h.2 rfl]

theorem emptyDirectory_cases {path : Path} {emptied : Disk} (habsolute : path.isAbsolute = true)
    (hempty : disk.emptyDirectory path = .ok emptied) :
    ∃ goal, disk.Locates path goal ∧ disk.get? goal.place = some .directory
      ∧ EmptiedAt goal.place disk emptied := by
  rw [emptyDirectory] at hempty
  cases hopen : disk.openDirectory path with
  | error error =>
      rw [hopen] at hempty
      cases hempty
  | ok place =>
      rw [hopen] at hempty
      cases hempty
      obtain ⟨-, goal, hgoal, rfl, hlies⟩ := locates_of_openDirectory habsolute hopen
      refine ⟨goal, hgoal, hlies, fun other => ?_⟩
      rw [get?_foldl_remove]
      by_cases hbelow : goal.place <+: other ∧ other ≠ goal.place
      · rw [if_pos hbelow]
        obtain ⟨⟨inner, rfl⟩, hne⟩ := hbelow
        cases inner with
        | nil => exact absurd (List.append_nil _) hne
        | cons name rest =>
            split
            · rfl
            · rename_i hkept
              cases hinner : disk.get? (goal.place ++ name :: rest) with
              | none => rfl
              | some entry =>
                  have hsplit : goal.place ++ name :: rest = goal.place ++ [name] ++ rest := by simp
                  rw [hsplit] at hinner
                  have hchild : ∃ entry, disk.get? (goal.place ++ [name]) = some entry := by
                    by_cases hrest : rest = []
                    · rw [hrest, List.append_nil] at hinner
                      exact ⟨_, hinner⟩
                    · exact ⟨_, get?_of_append hrest hinner⟩
                  obtain ⟨child, hchild⟩ := hchild
                  refine absurd ⟨by simp, (name, child), mem_children.mpr hchild, ?_⟩ hkept
                  rw [hsplit]
                  exact List.prefix_append _ _
      · rw [if_neg hbelow, if_neg]
        rintro ⟨-, entry, -, habove⟩
        refine hbelow ⟨(List.prefix_append _ _).trans habove, ?_⟩
        rintro rfl
        have hlength := habove.length_le
        rw [List.length_append, List.length_singleton] at hlength
        omega

theorem removeDirectory_cases {path : Path} {less : Disk} (habsolute : path.isAbsolute = true)
    (hremove : disk.removeDirectory path = .ok less) :
    ∃ goal, disk.Locates path goal ∧ disk.get? goal.place = some .directory
      ∧ less = disk.remove goal.place := by
  rw [removeDirectory] at hremove
  split at hremove
  · rename_i place hfound
    split at hremove
    · obtain ⟨-, goal, hgoal, rfl, hlies⟩ := locates_of_found habsolute hfound rfl
      exact ⟨goal, hgoal, hlies, (Except.ok.inj hremove).symm⟩
    · cases hremove
  · cases hremove
  · cases hremove
  · cases hremove

/-- A path that leads to nothing leads to no directory. -/
theorem openDirectory_of_not_present {path : Path} (hpresent : disk.isPresent path = .ok false)
    (place : Place) : disk.openDirectory path ≠ .ok place := by
  intro hopen
  rw [openDirectory] at hopen
  rw [isPresent, leadsTo] at hpresent
  split at hopen
  · rename_i hfound
    rw [hfound] at hpresent
    cases hpresent
  · cases hopen
  · cases hopen
  · cases hopen

end Disk

namespace Backup

open ResourcePruner.Task (Runs Steps)

/-- What clearing a directory leaves of a disk. -/
inductive Cleared (directory : Path) (before after : Disk) : Prop
  /-- The directory was missing or empty. -/
  | kept (hafter : after = before)
      (hvacant : ∀ place, before.openDirectory directory = .ok place → before.children place = [])
  /-- It was emptied first, and then removed. -/
  | removed (goal : Path) (emptied : Disk) (hgoal : before.Locates directory goal)
      (hlies : before.get? goal.place = some .directory)
      (hemptied : emptied.Locates directory goal)
      (hlinks : ∀ place target,
        emptied.get? place = some (.link target) ↔ after.get? place = some (.link target))
      (hwithout : Without goal.place before after)

/-- A path that still leads to a directory after that at its end was emptied leads to the same. -/
theorem eq_of_emptied {directory goal goal' : Path} {disk emptied : Disk}
    (hgoal : disk.Locates directory goal) (hemptied : Disk.EmptiedAt goal.place disk emptied)
    (hgoal' : emptied.Locates directory goal')
    (hlies' : emptied.get? goal'.place = some .directory) : goal' = goal := by
  obtain ⟨n, hn, hleads⟩ := hgoal'
  refine Disk.Locates.unique ⟨n, hn, hleads.of_less (fun _ _ => hemptied.get?_eq_some) ?_⟩ hgoal
  rw [hlies']
  exact Option.some_ne_none _

theorem cleared_of_removeTree {directory : Path} {disk after : Disk}
    (habsolute : directory.isAbsolute = true)
    (hruns : Runs (Disk.removeTree directory) disk () after) : Cleared directory disk after := by
  have hchange : ∀ {f : Disk → Except Disk.Error Disk} {first second : Disk},
      Runs (Disk.change f) first () second → f first = .ok second := by
    intro f first second hruns
    have hruns := Task.runs_get_bind.mp hruns
    split at hruns
    · rename_i changed hchanged
      cases hruns
      exact hchanged
    · exact absurd hruns Task.runs_throw
  obtain ⟨_, emptied, hempty, hremove⟩ := Task.runs_bind.mp hruns
  obtain ⟨goal, hgoal, hlies, hemptied⟩ := Disk.emptyDirectory_cases habsolute (hchange hempty)
  obtain ⟨goal', hgoal', hlies', rfl⟩ := Disk.removeDirectory_cases habsolute (hchange hremove)
  obtain rfl := eq_of_emptied hgoal hemptied hgoal' hlies'
  have hremoved := Disk.without_remove emptied goal'.place
  have hwithout : Without goal'.place disk (emptied.remove goal'.place) := by
    intro other
    rw [hremoved]
    by_cases hbelow : other ≠ [] ∧ goal'.place <+: other
    · rw [if_pos hbelow, if_pos hbelow]
    · rw [if_neg hbelow, if_neg hbelow, hemptied, if_neg]
      rintro ⟨habove, hne⟩
      refine hbelow ⟨?_, habove⟩
      rintro rfl
      exact hne (List.prefix_nil.mp habove).symm
  refine .removed goal' emptied hgoal hlies hgoal' (fun place target => ?_) hwithout
  refine ⟨fun hlink => ?_, fun hlink => hremoved.get?_eq_some hlink⟩
  rw [hremoved, if_neg]
  · exact hlink
  · rintro ⟨-, hbelow⟩
    by_cases hself : place = goal'.place
    · rw [hself, hlies'] at hlink
      cases hlink
    · rw [hemptied, if_pos ⟨hbelow, hself⟩] at hlink
      cases hlink

/-- Nothing is left below the directory to which the path leads, which may have gone itself, and
nothing has changed elsewhere. -/
structure Empties (directory goal : Path) (disk after : Disk) : Prop where
  isLookedUp : Disk.IsLookedUp directory
  locates : disk.Locates directory goal
  lies : disk.get? goal.place = some .directory
  elsewhere : ∀ place, ¬ goal.place <+: place → after.get? place = disk.get? place
  itself : after.get? goal.place = none ∨ after.get? goal.place = some .directory
  below : ∀ place, goal.place <+: place → place ≠ goal.place → after.get? place = none

theorem Empties.get?_eq_some {directory goal : Path} {disk after : Disk}
    (hempties : Empties directory goal disk after) {place : Place} {entry : Entry}
    (hlies : after.get? place = some entry) : disk.get? place = some entry := by
  by_cases habove : goal.place <+: place
  · by_cases hself : place = goal.place
    · subst hself
      rcases hempties.itself with hitself | hitself
      · rw [hitself] at hlies
        cases hlies
      · rw [hempties.lies, ← hitself, hlies]
    · rw [hempties.below place habove hself] at hlies
      cases hlies
  · rwa [← hempties.elsewhere place habove]

/-- Removing a directory leaves the disk as it is, or empties the directory, whether or not it
succeeds. -/
theorem exec_removeTree {directory : Path} (habsolute : directory.isAbsolute = true) (disk : Disk) :
    (Task.exec (Disk.removeTree directory) disk).2 = disk
      ∨ ∃ goal, Empties directory goal disk (Task.exec (Disk.removeTree directory) disk).2 := by
  rw [Disk.removeTree, Task.exec_bind, Disk.exec_change]
  cases hempty : disk.emptyDirectory directory with
  | error fault => exact .inl rfl
  | ok emptied =>
      obtain ⟨goal, hgoal, hlies, hemptied⟩ := Disk.emptyDirectory_cases habsolute hempty
      have hlooked : Disk.IsLookedUp directory := by
        cases hopen : disk.openDirectory directory with
        | ok place => exact (Disk.locates_of_openDirectory habsolute hopen).1
        | error error =>
            rw [Disk.emptyDirectory, hopen] at hempty
            cases hempty
      refine .inr ⟨goal, ?_⟩
      simp only
      rw [Disk.exec_change]
      cases hremove : emptied.removeDirectory directory with
      | error error =>
          exact ⟨hlooked, hgoal, hlies,
            fun place habove => by rw [hemptied, if_neg fun h => habove h.1],
            .inr (hemptied.get?_self.trans hlies), fun place habove hne => by
              rw [hemptied, if_pos ⟨habove, hne⟩]⟩
      | ok less =>
          obtain ⟨goal', hgoal', hlies', rfl⟩ := Disk.removeDirectory_cases habsolute hremove
          obtain rfl := eq_of_emptied hgoal hemptied hgoal' hlies'
          have hremoved := Disk.without_remove emptied goal'.place
          refine ⟨hlooked, hgoal, hlies, fun place habove => ?_, ?_, fun place habove hne => ?_⟩
          · rw [hremoved.get? habove, hemptied, if_neg fun h => habove h.1]
          · rw [hremoved]
            split
            · exact .inl rfl
            · exact .inr hlies'
          · rw [hremoved]
            split
            · rfl
            · rw [hemptied, if_pos ⟨habove, hne⟩]

/-- Nothing has happened, or the directory with the mark in it has been removed as far as it could
be. -/
def Sweeps (store : Store) (s s' : Session) : Prop :=
  s' = s ∨ s.disk.isFile store.marker = .ok true
    ∧ s' = { s with disk := (Task.exec (Disk.removeTree store.directory) s.disk).2 }

theorem sweeps_clear (store : Store) : Steps (Sweeps store) store.clear := by
  intro s
  refine Task.holds_of_bind (.inl rfl) fun disk t hdisk => ?_
  obtain ⟨rfl, rfl⟩ := Task.runs_disk.mp hdisk
  refine Task.holds_of_bind (.inl (Task.exec_check _ _)) fun present t hpresent => ?_
  obtain ⟨-, rfl⟩ := Task.runs_check.mp hpresent
  split
  · exact .inl rfl
  · simp only
    split
    · exact .inl rfl
    · refine Task.holds_of_bind (.inl (Task.exec_check _ _)) fun marked t hmarked => ?_
      obtain ⟨hmarked, rfl⟩ := Task.runs_check.mp hmarked
      split
      · rename_i htrue
        subst htrue
        have hremove : Sweeps store t
            (Task.exec (Task.onDisk (Disk.removeTree store.directory)) t).2 := by
          refine .inr ⟨hmarked, ?_⟩
          rw [Task.exec_onDisk]
          split <;> rename_i hexec <;> rw [hexec]
        refine Task.holds_of_bind hremove fun _ t' hruns => ?_
        rwa [show Task.exec _ t = (.ok _, t') from hruns] at hremove
      · split
        · split
          · exact .inl rfl
          · exact .inl rfl
        · exact .inl rfl

/-- Nothing changes but the disk, and of that only what lies at the backup path or below. -/
def Clears (directory : Path) (s s' : Session) : Prop :=
  ∃ disk, s' = { s with disk } ∧ (disk = s.disk ∨ ∃ goal, s.disk.Locates directory goal
    ∧ ∀ place, ¬ goal.place <+: place → disk.get? place = s.disk.get? place)

/-- Clearing changes nothing elsewhere, whether or not it succeeds. -/
theorem steps_clear {store : Store} (habsolute : store.directory.isAbsolute = true) :
    Steps (Clears store.directory) store.clear := by
  intro s
  rcases sweeps_clear store s with hsame | ⟨-, hremoved⟩
  · exact ⟨s.disk, hsame, .inl rfl⟩
  · refine ⟨_, hremoved, ?_⟩
    rcases exec_removeTree habsolute s.disk with hsame | ⟨goal, hempties⟩
    · exact .inl hsame
    · exact .inr ⟨goal, hempties.locates, hempties.elsewhere⟩

/-- Clearing changes nothing but the disk, and that only if it says so. -/
theorem runs_clear {store : Store} (habsolute : store.directory.isAbsolute = true) {s s' : Session}
    {cleared : Bool} (hruns : Runs store.clear s cleared s') :
    ∃ disk, s' = { s with disk } ∧ Cleared store.directory s.disk disk
      ∧ (cleared = false → disk = s.disk) := by
  have hruns := Task.runs_disk_bind.mp hruns
  obtain ⟨present, hpresent, hruns⟩ := Task.runs_check_bind.mp hruns
  split at hruns
  · rename_i hmissing
    obtain ⟨-, rfl⟩ := Task.runs_pure.mp hruns
    rw [Bool.and_eq_true, Bool.not_eq_true'] at hmissing
    obtain ⟨rfl, -⟩ := hmissing
    exact ⟨_, rfl, .kept rfl fun place hopen =>
      absurd hopen (Disk.openDirectory_of_not_present hpresent place), fun _ => rfl⟩
  · simp only at hruns
    by_cases hother : (s.disk.isLink store.directory || !s.disk.isDirectory store.directory) = true
    · rw [if_pos hother] at hruns
      obtain ⟨_, _, hthrow, -⟩ := Task.runs_bind.mp hruns
      exact absurd hthrow Task.runs_throw
    · rw [if_neg hother] at hruns
      obtain ⟨marked, -, hruns⟩ := Task.runs_check_bind.mp hruns
      split at hruns
      · obtain ⟨_, t, hremove, hpure⟩ := Task.runs_bind.mp hruns
        obtain ⟨rfl, rfl⟩ := Task.runs_pure.mp hpure
        obtain ⟨disk, htree, rfl⟩ := Task.runs_onDisk.mp hremove
        exact ⟨disk, rfl, cleared_of_removeTree habsolute htree, nofun⟩
      · split at hruns
        · rename_i place hopen
          split at hruns
          · rename_i hempty
            obtain ⟨-, rfl⟩ := Task.runs_pure.mp hruns
            refine ⟨_, rfl, .kept rfl fun place' hopen' => ?_, fun _ => rfl⟩
            rw [hopen] at hopen'
            cases hopen'
            exact List.isEmpty_iff.mp hempty
          · exact absurd hruns Task.runs_throw
        · exact absurd hruns Task.runs_throw

namespace Cleared

variable {directory : Path} {before after later : Disk} {goal path : Path}

/-- Where the path leads later, it led before. -/
theorem eq_of_resolve (hcleared : Cleared directory before after)
    (habsolute : directory.isAbsolute = true) (hlater : Extends after later) {resolved : Path}
    (hresolve : before.resolve directory = .ok resolved) (hgoal : later.Locates directory goal) :
    goal = resolved := by
  cases hcleared with
  | kept hafter =>
      subst hafter
      exact (Disk.eq_of_resolve hlater habsolute hgoal hresolve).symm
  | removed found emptied hfound _ hemptied hlinks =>
      obtain rfl := Disk.eq_of_resolve (.refl before) habsolute hfound hresolve
      obtain ⟨_, -, hleads⟩ := hgoal
      obtain ⟨_, -, hleads'⟩ := hemptied
      have hlinks' : ∀ place target, emptied.get? place = some (.link target)
          ↔ later.get? place = some (.link target) := fun place target =>
        (hlinks place target).trans (hlater.link place target)
      exact (hleads'.unique_of_links hlinks' hleads).2.symm

/-- Nothing lies below the path. -/
theorem vacant (hcleared : Cleared directory before after)
    (habsolute : directory.isAbsolute = true) : Vacant after directory after := by
  intro hlooked goal hgoal hlies other hbelow hother
  cases hcleared with
  | kept hafter hvacant =>
      subst hafter
      have hopen := Disk.openDirectory_of_locates habsolute hlooked hgoal hlies
      exact Disk.isBare_of_children (hvacant _ hopen) other hbelow hother
  | removed found emptied hfound hliesFound _ _ hwithout =>
      have hpresent : after.get? goal.place ≠ none := by rw [hlies]; exact Option.some_ne_none _
      obtain ⟨n, hn, hleads⟩ := hgoal
      have hbefore : before.Locates directory goal :=
        ⟨n, hn, hleads.of_less (fun _ _ => hwithout.get?_eq_some) hpresent⟩
      obtain rfl := hbefore.unique hfound
      by_cases hroot : goal.place = []
      · rw [hwithout, if_pos ⟨hroot ▸ hother, hbelow⟩]
      · rw [hwithout, if_pos ⟨hroot, List.prefix_refl _⟩] at hlies
        cases hlies

/-- What does not lie below stays as it is. -/
theorem get? (hcleared : Cleared directory before after) (habsolute : directory.isAbsolute = true)
    {resolved : Path} (hresolve : before.resolve directory = .ok resolved) {place : Place}
    (hplace : ¬ resolved.place <+: place) : after.get? place = before.get? place := by
  cases hcleared with
  | kept hafter => rw [hafter]
  | removed found emptied hfound _ _ _ hwithout =>
      obtain rfl := Disk.eq_of_resolve (.refl before) habsolute hfound hresolve
      exact hwithout.get? hplace

/-- What lies anywhere afterwards lay there before. -/
theorem get?_eq_some (hcleared : Cleared directory before after) {place : Place} {entry : Entry}
    (hlies : after.get? place = some entry) : before.get? place = some entry := by
  cases hcleared with
  | kept hafter => rwa [← hafter]
  | removed _ _ _ _ _ _ hwithout => exact hwithout.get?_eq_some hlies

/-- Where a path leads afterwards, it led before. -/
theorem locates (hcleared : Cleared directory before after)
    (habsolute : directory.isAbsolute = true) {resolved : Path}
    (hresolve : before.resolve directory = .ok resolved) (hroot : resolved.place ≠ [])
    (hgoal : after.Locates path goal) : before.Locates path goal := by
  cases hcleared with
  | kept hafter =>
      subst hafter
      exact hgoal
  | removed found emptied hfound hlies _ _ hwithout =>
      obtain rfl := Disk.eq_of_resolve (.refl before) habsolute hfound hresolve
      obtain ⟨n, hn, hleads⟩ := hgoal
      exact ⟨n, hn, hleads.of_without hroot hlies hwithout rfl⟩

end Cleared

end Backup

end ResourcePruner
