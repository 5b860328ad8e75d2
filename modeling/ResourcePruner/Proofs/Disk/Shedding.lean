import ResourcePruner.Proofs.Disk.Changes

/-!
# What is left of a disk

Writing and making directories take nothing from a disk (`Disk.Retains`). Unlinking does, and what
it takes may be a link if the path's last name is that of one. `Disk.Sheds` says what is left of the
links of a disk, and that nothing else on which the way of a path depends is lost: no directory
goes, and relative paths start where they started. Writing, making directories and unlinking are
such changes (`Disk.Sheds.of_retains`, `Disk.Sheds.unlink`).
-/

namespace ResourcePruner

namespace Disk

variable {taken : Place → Prop} {disk more last : Disk} {path : Path}

/-- Nothing goes from the disk: files stay files, whatever they hold, and the rest stays as it
is. -/
structure Retains (disk more : Disk) : Prop extends Extends disk more where
  home : more.home = disk.home
  file : ∀ place content, disk.get? place = some (.file content) →
    ∃ after, more.get? place = some (.file after)

namespace Retains

theorem refl (disk : Disk) : disk.Retains disk :=
  ⟨.refl disk, rfl, fun _ content h => ⟨content, h⟩⟩

theorem trans (hfirst : disk.Retains more) (hsecond : more.Retains last) : disk.Retains last where
  toExtends := hfirst.toExtends.trans hsecond.toExtends
  home := hsecond.home.trans hfirst.home
  file place content h := by
    obtain ⟨after, hafter⟩ := hfirst.file place content h
    exact hsecond.file place after hafter

/-- An entry that is put where none was, or a file where a file was, takes nothing away. -/
theorem put {place : Place} {entry : Entry} (hextends : Extends disk (disk.put place entry))
    (hlies : ∀ content, disk.get? place = some (.file content) → ∃ after, entry = .file after) :
    disk.Retains (disk.put place entry) where
  toExtends := hextends
  home := home_put ..
  file other content hfile := by
    rcases put_cases disk place entry with hsame | ⟨-, hget⟩
    · exact ⟨content, (congrArg (·.get? other) hsame).trans hfile⟩
    · by_cases hother : other = place
      · subst hother
        obtain ⟨after, rfl⟩ := hlies content hfile
        exact ⟨after, (hget other).trans (if_pos rfl)⟩
      · exact ⟨content, ((hget other).trans (if_neg hother)).trans hfile⟩

theorem writeWith {content : Option Bytes → Bytes} (hstarts : disk.StartsInDirectory path)
    (hwrite : disk.writeWith path content = .ok more) : disk.Retains more := by
  obtain ⟨goal, old, -, hlies, rfl⟩ := writeWith_attains hstarts hwrite
  exact put (extends_put (isEnd_of_file? hlies) (by simp)) fun _ _ => ⟨_, rfl⟩

theorem makeDirectory (hstarts : disk.StartsInDirectory path)
    (hmake : disk.makeDirectory path = .ok more) : disk.Retains more := by
  obtain ⟨goal, -, hnone, rfl⟩ := makeDirectory_attains hstarts hmake
  refine put (extends_put_directory hnone) fun content hfile => ?_
  rw [hnone] at hfile
  cases hfile

end Retains

/-- What is left of a disk that loses links at some places only, and no directory. -/
structure Sheds (taken : Place → Prop) (disk more : Disk) : Prop where
  home : more.home = disk.home
  directory : ∀ place, disk.get? place = some .directory → more.get? place = some .directory
  back : ∀ place target, more.get? place = some (.link target) →
    disk.get? place = some (.link target)
  kept : ∀ place target, disk.get? place = some (.link target) → ¬ taken place →
    more.get? place = some (.link target)

namespace Sheds

theorem of_retains (hretains : disk.Retains more) : disk.Sheds taken more :=
  ⟨hretains.home, hretains.directory, fun place target h => (hretains.link place target).mpr h,
    fun place target h _ => (hretains.link place target).mp h⟩

theorem refl (taken : Place → Prop) (disk : Disk) : disk.Sheds taken disk :=
  of_retains (.refl disk)

theorem trans (hfirst : disk.Sheds taken more) (hsecond : more.Sheds taken last) :
    disk.Sheds taken last where
  home := hsecond.home.trans hfirst.home
  directory place h := hsecond.directory place (hfirst.directory place h)
  back place target h := hfirst.back place target (hsecond.back place target h)
  kept place target h hplace := hsecond.kept place target (hfirst.kept place target h hplace) hplace

theorem startsInDirectory (hsheds : disk.Sheds taken more) (hstarts : disk.StartsInDirectory path) :
    more.StartsInDirectory path := by
  intro start hstart
  rw [startOf_eq_of_home hsheds.home] at hstart
  exact hsheds.directory start (hstarts start hstart)

theorem hasSpellableLinks (hsheds : disk.Sheds taken more) (hlinks : disk.HasSpellableLinks) :
    more.HasSpellableLinks :=
  fun place target h => hlinks place target (hsheds.back place target h)

/-- The link that goes is one that bears the last name of the path. -/
theorem unlink (hstarts : ∀ path, disk.StartsInDirectory path)
    (hunlink : disk.unlink path = .ok more)
    (htaken : ∀ place, place.getLast? = some (Utf8.canonicalName path.name) → taken place) :
    disk.Sheds taken more := by
  obtain ⟨gone, entry, hlies, hentry, rfl, hname⟩ := unlink_cases (hstarts path) hunlink
  have hget := get?_remove_of_ne_directory hlies hentry
  have hother : ∀ {place : Place} {found : Entry}, disk.get? place = some found → place ≠ gone →
      (disk.remove gone).get? place = some found := fun hfound hne => by
        rw [hget, if_neg hne, hfound]
  refine ⟨home_remove (hstarts ⟨.here, []⟩) hlies hentry, fun place hdirectory => ?_,
    fun place target hlink => ?_, fun place target hlink hstays => ?_⟩
  · refine hother hdirectory ?_
    rintro rfl
    exact hentry (Option.some.inj (hlies.symm.trans hdirectory))
  · rw [hget] at hlink
    split at hlink
    · cases hlink
    · exact hlink
  · refine hother hlink ?_
    rintro rfl
    refine hstays (htaken _ (hname ?_))
    rw [← Option.some.inj (hlink.symm.trans hlies)]
    rfl

end Sheds

theorem Retains.startsInDirectory (hretains : disk.Retains more)
    (hstarts : disk.StartsInDirectory path) :
    more.StartsInDirectory path :=
  have hsheds : disk.Sheds (fun _ => False) more := .of_retains hretains
  hsheds.startsInDirectory hstarts

/-- Of a disk on which every path starts in a directory, nothing goes. -/
def Retaining (disk more : Disk) : Prop :=
  (∀ path, disk.StartsInDirectory path) → disk.Retains more

instance : Task.IsRun Retaining where
  refl disk _ := .refl disk
  trans hfirst hsecond hstarts := by
    have hretains := hfirst hstarts
    exact hretains.trans (hsecond fun path => hretains.startsInDirectory (hstarts path))

/-- What a disk on which every path starts in a directory loses. -/
def Shedding (taken : Place → Prop) (disk more : Disk) : Prop :=
  (∀ path, disk.StartsInDirectory path) → disk.Sheds taken more

instance (taken : Place → Prop) : Task.IsRun (Shedding taken) where
  refl disk _ := .refl taken disk
  trans hfirst hsecond hstarts := by
    have hsheds := hfirst hstarts
    exact hsheds.trans (hsecond fun path => hsheds.startsInDirectory (hstarts path))

end Disk

end ResourcePruner
