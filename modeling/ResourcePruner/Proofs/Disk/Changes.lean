import ResourcePruner.Disk.Files
import ResourcePruner.Proofs.Disk.Attains
import ResourcePruner.Proofs.Task

/-!
# What an operation changes

Each operation puts a single entry or removes one (`writeWith_cases`, `makeDirectory_cases`,
`unlink_cases`), and none makes a link or removes a directory that a path still leads through. So
what a path leads to stays where it is (`Extends`), and of the files it is enough to say how their
contents may change, which may go, and where anything at all may happen (`Evolves`).
-/

namespace ResourcePruner

namespace Disk

variable {disk more : Disk} {place : Place}

/-! ## Putting and removing -/

/-- A new entry lies at its place and changes nothing elsewhere, or it is not accepted. -/
theorem put_cases (disk : Disk) (place : Place) (entry : Entry) :
    disk.put place entry = disk ∨
      disk.get? place ≠ some .directory ∧
        ∀ other, (disk.put place entry).get? other
          = if other = place then some entry else disk.get? other := by
  by_cases haccepts : disk.accepts place = true
  · refine .inr ⟨?_, fun other => get?_put disk place other entry haccepts⟩
    rw [accepts, Bool.and_eq_true] at haccepts
    exact of_decide_eq_true haccepts.2
  · rw [put, dif_neg haccepts]
    exact .inl rfl

/-- Relative paths start where they started. -/
theorem home_put (disk : Disk) (place : Place) (entry : Entry) :
    (disk.put place entry).home = disk.home := by
  rw [put]
  split <;> rfl

theorem startOf_eq_of_home {other : Disk} (hhome : other.home = disk.home) (path : Path) :
    other.startOf path = disk.startOf path := by
  rw [startOf, startOf, hhome]

theorem startOf_put (disk : Disk) (place : Place) (entry : Entry) (path : Path) :
    (disk.put place entry).startOf path = disk.startOf path :=
  startOf_eq_of_home (home_put disk place entry) path

/-- A file can always be put in place of another one. -/
theorem get?_put_of_file {old : Bytes} (hfile : disk.get? place = some (.file old))
    (entry : Entry) : (disk.put place entry).get? place = some entry := by
  have haccepts : disk.accepts place = true := by
    have hplain : place.getLast?.all isPlainName = true := by
      cases hlast : place.getLast? with
      | none => rfl
      | some name => exact isPlainName_of_get? hfile name (List.mem_of_getLast? hlast)
    simp [accepts, hplain, get?_dropLast hfile, hfile]
  rw [get?_put disk place place entry haccepts, if_pos rfl]

section

variable {entry : Entry}

/-- Nothing lies below a file or a link. -/
theorem get?_below (hlies : disk.get? place = some entry) (hentry : entry ≠ .directory)
    {other : Place} (hbelow : place <+: other) (hother : other ≠ place) :
    disk.get? other = none := by
  obtain ⟨inner, rfl⟩ := hbelow
  cases hfound : disk.get? (place ++ inner) with
  | none => rfl
  | some found =>
      have hinner : inner ≠ [] := by
        rintro rfl
        exact hother (List.append_nil place)
      rw [get?_of_append hinner hfound] at hlies
      exact absurd (Option.some.inj hlies).symm hentry

theorem get?_remove_of_ne_directory (hlies : disk.get? place = some entry)
    (hentry : entry ≠ .directory)
    (other : Place) :
    (disk.remove place).get? other = if other = place then none else disk.get? other := by
  have hroot : place ≠ [] := ne_nil_of_get? hentry hlies
  rw [get?_remove]
  by_cases hother : other = place
  · subst hother
    rw [if_neg hroot, if_pos (List.prefix_refl _), if_pos rfl]
  · rw [if_neg hother]
    split
    · rename_i hempty
      subst hempty
      rfl
    · split
      · rename_i hbelow
        exact (get?_below hlies hentry hbelow hother).symm
      · rfl

/-- The directory in which relative paths start does not lie below a file or a link. -/
theorem home_remove (hhome : ∀ home, disk.home = some home → disk.get? home = some .directory)
    (hlies : disk.get? place = some entry) (hentry : entry ≠ .directory) :
    (disk.remove place).home = disk.home := by
  cases hstart : disk.home with
  | none => simp [remove, hstart]
  | some home =>
      have hdirectory := hhome home hstart
      have hnot : ¬ place <+: home := by
        intro hbelow
        by_cases hsame : home = place
        · rw [hsame, hlies] at hdirectory
          exact hentry (Option.some.inj hdirectory)
        · rw [get?_below hlies hentry hbelow hsame] at hdirectory
          cases hdirectory
      simp [remove, hstart, Option.filter, List.isPrefixOf_iff_prefix, hnot]

end

theorem get?_remove_of_file {content : Bytes} (hfile : disk.get? place = some (.file content))
    (other : Place) :
    (disk.remove place).get? other = if other = place then none else disk.get? other :=
  get?_remove_of_ne_directory hfile (by simp) other

/-! ## What stays -/

theorem extends_put (hend : IsEnd (disk.get? place)) {entry : Entry}
    (hentry : ∀ target, entry ≠ .link target) : Extends disk (disk.put place entry) := by
  rcases put_cases disk place entry with hsame | ⟨-, hget⟩
  · rw [hsame]
    exact .refl disk
  · refine ⟨fun other hdirectory => ?_, fun other target => ?_⟩
    · rw [hget, if_neg]
      · exact hdirectory
      · rintro rfl
        exact hend.1 hdirectory
    · rw [hget]
      by_cases hother : other = place
      · subst hother
        rw [if_pos rfl]
        refine ⟨fun h => absurd h (hend.2 target), fun h => ?_⟩
        exact absurd (Option.some.inj h) (hentry target)
      · rw [if_neg hother]

theorem StartsInDirectory.put {path : Path} (hstarts : disk.StartsInDirectory path)
    (hend : IsEnd (disk.get? place)) (content : Bytes) :
    (disk.put place (.file content)).StartsInDirectory path := by
  have hstays : Extends disk (disk.put place (.file content)) := extends_put hend nofun
  intro start hstart
  rw [startOf_put] at hstart
  exact hstays.directory start (hstarts start hstart)

theorem extends_put_directory (hnone : disk.get? place = none) :
    Extends disk (disk.put place .directory) :=
  extends_put (by rw [hnone]; exact isEnd_none) (by simp)

theorem extends_remove {content : Bytes} (hfile : disk.get? place = some (.file content)) :
    Extends disk (disk.remove place) := by
  have hget := get?_remove_of_file hfile
  refine ⟨fun other hdirectory => ?_, fun other target => ?_⟩
  · rw [hget, if_neg]
    · exact hdirectory
    · rintro rfl
      rw [hfile] at hdirectory
      cases hdirectory
  · rw [hget]
    by_cases hother : other = place
    · subst hother
      rw [if_pos rfl, hfile]
      exact ⟨nofun, nofun⟩
    · rw [if_neg hother]

/-- A new file is no directory and no link. -/
theorem extends_of_put_file (hend : IsEnd (disk.get? place)) (content : Bytes) :
    Extends (disk.put place (.file content)) disk := by
  rcases put_cases disk place (.file content) with hsame | ⟨-, hget⟩
  · rw [hsame]
    exact .refl disk
  · have hother : ∀ other, (disk.put place (.file content)).get? other = disk.get? other
        ∨ other = place := by
      intro other
      rw [hget]
      by_cases h : other = place
      · exact .inr h
      · exact .inl (if_neg h)
    refine ⟨fun other hdirectory => ?_, fun other target => ⟨fun hlink => ?_, fun hlink => ?_⟩⟩
    · rcases hother other with h | rfl
      · rwa [← h]
      · rw [hget, if_pos rfl] at hdirectory
        cases hdirectory
    · rcases hother other with h | rfl
      · rwa [← h]
      · rw [hget, if_pos rfl] at hlink
        cases hlink
    · rcases hother other with h | rfl
      · rwa [h]
      · exact absurd hlink (hend.2 target)

/-- Where a file was is no directory and no link. -/
theorem extends_of_remove {content : Bytes} (hfile : disk.get? place = some (.file content)) :
    Extends (disk.remove place) disk := by
  have hget := get?_remove_of_file hfile
  have hlies : ∀ other entry, (disk.remove place).get? other = some entry →
      disk.get? other = some entry := by
    intro other entry h
    rw [hget] at h
    split at h
    · cases h
    · exact h
  refine ⟨fun other hdirectory => hlies other _ hdirectory, fun other target => ?_⟩
  refine ⟨hlies other _, fun hlink => ?_⟩
  rw [hget, if_neg]
  · exact hlink
  · rintro rfl
    rw [hfile] at hlink
    cases hlink

/-- A relation between the content that a file had and the one it has, which any number of changes
stay in. -/
class IsChange (change : Place → Bytes → Bytes → Prop) : Prop where
  refl : ∀ place content, change place content content
  trans : ∀ {place first second third}, change place first second → change place second third →
    change place first third

/-- The content stays as it is. -/
def Same (_place : Place) (before after : Bytes) : Prop :=
  after = before

instance : IsChange Same where
  refl _ _ := rfl
  trans hfirst hsecond := hsecond.trans hfirst

/-- But for the hidden places, every file there is was there before, with a content that may have
changed. Every file there was is there unless it may be gone, also at the hidden places. -/
structure Evolves (hidden gone : Place → Prop) (change : Place → Bytes → Bytes → Prop)
    (disk more : Disk) : Prop where
  back : ∀ place content, ¬ hidden place → more.get? place = some (.file content) →
    ∃ old, disk.get? place = some (.file old) ∧ change place old content
  forth : ∀ place old, ¬ gone place → disk.get? place = some (.file old) →
    ∃ content, more.get? place = some (.file content)

namespace Evolves

variable {hidden gone : Place → Prop} {change : Place → Bytes → Bytes → Prop} [IsChange change]

theorem refl (disk : Disk) : Evolves hidden gone change disk disk :=
  ⟨fun place content _ hfile => ⟨content, hfile, IsChange.refl place content⟩,
    fun _ old _ hfile => ⟨old, hfile⟩⟩

theorem trans {first second third : Disk} (hfirst : Evolves hidden gone change first second)
    (hsecond : Evolves hidden gone change second third) :
    Evolves hidden gone change first third := by
  refine ⟨fun place content hshown hfile => ?_, fun place old hstays hfile => ?_⟩
  · obtain ⟨middle, hmiddle, hchange⟩ := hsecond.back place content hshown hfile
    obtain ⟨old, hold, hchange'⟩ := hfirst.back place middle hshown hmiddle
    exact ⟨old, hold, IsChange.trans hchange' hchange⟩
  · obtain ⟨middle, hmiddle⟩ := hfirst.forth place old hstays hfile
    exact hsecond.forth place middle hstays hmiddle

/-- A file is written where anything may happen, or in place of one that may change so. -/
theorem put_file {content : Bytes}
    (hplace : hidden place ∨
      ∃ old, disk.get? place = some (.file old) ∧ change place old content) :
    Evolves hidden gone change disk (disk.put place (.file content)) := by
  rcases put_cases disk place (.file content) with hsame | ⟨-, hget⟩
  · rw [hsame]
    exact .refl disk
  · refine ⟨fun other found hshown hfile => ?_, fun other old _ hfile => ?_⟩
    · rw [hget] at hfile
      split at hfile
      · rename_i hother
        subst hother
        cases hfile
        exact hplace.resolve_left hshown
      · exact ⟨found, hfile, IsChange.refl other found⟩
    · rw [hget]
      split
      · exact ⟨content, rfl⟩
      · exact ⟨old, hfile⟩

theorem put_directory (hnone : disk.get? place = none) :
    Evolves hidden gone change disk (disk.put place .directory) := by
  rcases put_cases disk place .directory with hsame | ⟨-, hget⟩
  · rw [hsame]
    exact .refl disk
  · refine ⟨fun other found _ hfile => ?_, fun other old _ hfile => ⟨old, ?_⟩⟩
    · rw [hget] at hfile
      split at hfile
      · cases hfile
      · exact ⟨found, hfile, IsChange.refl other found⟩
    · rw [hget, if_neg]
      · exact hfile
      · rintro rfl
        rw [hnone] at hfile
        cases hfile

theorem remove_file {content : Bytes} (hfile : disk.get? place = some (.file content))
    (hgone : gone place) : Evolves hidden gone change disk (disk.remove place) := by
  have hget := get?_remove_of_file hfile
  refine ⟨fun other found _ hother => ?_, fun other old hstays hother => ⟨old, ?_⟩⟩
  · rw [hget] at hother
    split at hother
    · cases hother
    · exact ⟨found, hother, IsChange.refl other found⟩
  · rw [hget, if_neg]
    · exact hother
    · rintro rfl
      exact hstays hgone

end Evolves

/-! ## The operations -/

/-- Writing puts a file where the path leads, in place of another one or of nothing. -/
theorem writeWith_attains {path : Path} (hstarts : disk.StartsInDirectory path)
    {content : Option Bytes → Bytes} (hwrite : disk.writeWith path content = .ok more) :
    ∃ goal old, disk.Attains path goal ∧ disk.get? goal.place = old.map .file
      ∧ more = disk.put goal.place (.file (content old)) := by
  rw [writeWith] at hwrite
  split at hwrite
  · rename_i place old hfound
    obtain ⟨-, goal, hattains, rfl, hlies⟩ := exists_attains_of_found hstarts hfound rfl
    exact ⟨goal, some old, hattains, hlies, (Except.ok.inj hwrite).symm⟩
  · cases hwrite
  · rename_i directory name hmissing
    obtain ⟨-, goal, hattains, hplace, hnone⟩ := exists_attains_of_missing hstarts hmissing
    rw [← hplace] at hwrite hnone
    exact ⟨goal, none, hattains, hnone, (Except.ok.inj hwrite).symm⟩
  · cases hwrite

theorem writeWith_cases {path : Path} (habsolute : path.isAbsolute = true)
    {content : Option Bytes → Bytes} (hwrite : disk.writeWith path content = .ok more) :
    ∃ goal old, disk.Locates path goal ∧ disk.get? goal.place = old.map .file
      ∧ more = disk.put goal.place (.file (content old)) := by
  simpa only [attains_iff_locates habsolute] using
    writeWith_attains (startsInDirectory_of_isAbsolute disk habsolute) hwrite

theorem isLookedUp_of_writeWith {path : Path} {content : Option Bytes → Bytes}
    (hwrite : disk.writeWith path content = .ok more) : IsLookedUp path := by
  cases hreach : disk.reach .newFile path with
  | found place entry => exact isLookedUp_of_reach hreach nofun
  | missing directory name => exact isLookedUp_of_reach hreach nofun
  | failed code =>
      rw [writeWith, hreach] at hwrite
      cases hwrite

/-- A file can be written again by any path that can be looked up. -/
theorem write_of_locates {path goal : Path} (habsolute : path.isAbsolute = true)
    (hlooked : IsLookedUp path) (hlocates : disk.Locates path goal) {old : Bytes}
    (hfile : disk.get? goal.place = some (.file old)) (content : Bytes) :
    disk.write path content = .ok (disk.put goal.place (.file content)) := by
  rw [write, writeWith,
    reach_of_locates (by decide) habsolute hlooked hlocates hfile fun _ => nofun]

theorem isEnd_of_file? {old : Option Bytes} (hlies : disk.get? place = old.map .file) :
    IsEnd (disk.get? place) := by
  rw [hlies]
  cases old with
  | none => exact isEnd_none
  | some content => exact isEnd_file content

theorem extends_of_writeWith {path : Path} (habsolute : path.isAbsolute = true)
    {content : Option Bytes → Bytes} (hwrite : disk.writeWith path content = .ok more) :
    Extends disk more := by
  obtain ⟨goal, old, -, hlies, rfl⟩ := writeWith_cases habsolute hwrite
  exact extends_put (isEnd_of_file? hlies) nofun

theorem extends_back_of_writeWith {path : Path} (habsolute : path.isAbsolute = true)
    {content : Option Bytes → Bytes} (hwrite : disk.writeWith path content = .ok more) :
    Extends more disk := by
  obtain ⟨goal, old, -, hlies, rfl⟩ := writeWith_cases habsolute hwrite
  exact extends_of_put_file (isEnd_of_file? hlies) _

/-- A directory is made where the path leads and nothing lies. -/
theorem makeDirectory_attains {path : Path} (hstarts : disk.StartsInDirectory path)
    (hmake : disk.makeDirectory path = .ok more) :
    ∃ goal, disk.Attains path goal ∧ disk.get? goal.place = none
      ∧ more = disk.put goal.place .directory := by
  rw [makeDirectory] at hmake
  split at hmake
  · cases hmake
  · rename_i directory name hmissing
    obtain ⟨-, goal, hattains, hplace, hnone⟩ := exists_attains_of_missing hstarts hmissing
    rw [← hplace] at hmake hnone
    exact ⟨goal, hattains, hnone, (Except.ok.inj hmake).symm⟩
  · cases hmake

theorem makeDirectory_cases {path : Path} (habsolute : path.isAbsolute = true)
    (hmake : disk.makeDirectory path = .ok more) :
    ∃ goal, disk.Locates path goal ∧ disk.get? goal.place = none
      ∧ more = disk.put goal.place .directory := by
  simpa only [attains_iff_locates habsolute] using
    makeDirectory_attains (startsInDirectory_of_isAbsolute disk habsolute) hmake

/-- What is unlinked is a file, or a link that bears the last name of the path. -/
theorem unlink_cases {path : Path} (hstarts : disk.StartsInDirectory path)
    (hunlink : disk.unlink path = .ok more) : ∃ place entry, disk.get? place = some entry
      ∧ entry ≠ .directory ∧ more = disk.remove place
      ∧ (isLinkEntry entry = true → place.getLast? = some (Utf8.canonicalName path.name)) := by
  rw [unlink] at hunlink
  split at hunlink
  · cases hunlink
  · rename_i place entry hdirectory hfound
    obtain rfl := Except.ok.inj hunlink
    obtain ⟨-, start, -, hstart, hends⟩ := exists_attains_of_ends hstarts hfound (by simp)
    rcases hends with ⟨-, -, n, init, last, middle, hparts, -, -, rfl, target, hlink⟩
      | ⟨n, goal, -, hleads, rfl, hlies⟩
    · refine ⟨_, .link target, hlink, by simp, rfl, fun _ => ?_⟩
      rw [Path.place_child, List.getLast?_concat, Path.name, hparts, List.getLastD_concat]
    · refine ⟨_, entry, hlies, hdirectory, rfl, fun hlink => ?_⟩
      have hplace : (⟨.root, start⟩ : Path).place = start := place_of_get? hstart .root
      cases entry with
      | link target => exact absurd hlies (hleads.ne_link (hplace.symm ▸ hstart) target)
      | file content => cases hlink
      | directory => cases hlink
  · cases hunlink
  · cases hunlink

theorem isLookedUp_of_makeDirectory {path : Path} (hmake : disk.makeDirectory path = .ok more) :
    IsLookedUp path := by
  rw [makeDirectory] at hmake
  cases hreach : disk.reach .entry path with
  | found place entry => exact isLookedUp_of_reach hreach nofun
  | missing directory name => exact isLookedUp_of_reach hreach nofun
  | failed code =>
      rw [hreach] at hmake
      cases hmake

theorem ensureDirectory_cases {path : Path} (hensure : disk.ensureDirectory path = .ok more) :
    more = disk ∨ disk.makeDirectory path = .ok more := by
  rw [ensureDirectory] at hensure
  split at hensure
  · rename_i made hmade
    exact .inr (hmade.trans hensure)
  · rename_i error _
    cases hthere : disk.leadsTo isDirectoryEntry path with
    | error fault =>
        rw [hthere] at hensure
        cases hensure
    | ok isThere =>
        rw [hthere] at hensure
        change (if _ then _ else _) = _ at hensure
        split at hensure
        · exact .inl (Except.ok.inj hensure).symm
        · cases hensure

theorem exec_change (f : Disk → Except Error Disk) (disk : Disk) :
    Task.exec (change f) disk =
      match f disk with
      | .ok more => (.ok (), more)
      | .error error => (.error error, disk) := by
  rw [change, Task.exec_bind, Task.exec_get]
  simp only
  cases f disk <;> rfl

/-- Making directories takes a disk further only by making the one at the path or one above it. -/
theorem steps_makeDirectories {R : Disk → Disk → Prop} [Task.IsRun R] {path : Path}
    (hmake : ∀ upper : Path, upper.anchor = path.anchor → upper.parts <+: path.parts →
      ∀ disk more, disk.makeDirectory upper = .ok more → R disk more) :
    Task.Steps R (makeDirectories path) := by
  have hensure : ∀ upper : Path, upper.anchor = path.anchor → upper.parts <+: path.parts →
      ∀ disk more, disk.ensureDirectory upper = .ok more → R disk more := by
    intro upper hanchor hparts disk more hmore
    rcases ensureDirectory_cases hmore with rfl | hmade
    · exact Task.IsRun.refl _
    · exact hmake upper hanchor hparts disk more hmade
  have hchange : ∀ upper : Path, upper.anchor = path.anchor → upper.parts <+: path.parts →
      Task.Steps R (change (·.ensureDirectory upper)) := by
    intro upper hanchor hparts disk
    rw [exec_change]
    cases hmore : disk.ensureDirectory upper with
    | ok more => exact hensure upper hanchor hparts disk more hmore
    | error error => exact Task.IsRun.refl disk
  have hlevels : ∀ levels, ∀ upper : Path, upper.anchor = path.anchor →
      upper.parts <+: path.parts → Task.Steps R (makeDirectoriesUpTo levels upper) := by
    intro levels
    induction levels with
    | zero => exact hchange
    | succ levels ih =>
        intro upper hanchor hparts disk
        rw [makeDirectoriesUpTo, Task.exec_bind, Task.exec_get]
        simp only
        cases hmore : disk.ensureDirectory upper with
        | ok more => exact hensure upper hanchor hparts disk more hmore
        | error error =>
            refine Task.Steps.ite (fun _ => ?_) (fun _ => Task.Steps.throw _) disk
            refine Task.Steps.bind (ih upper.parent hanchor ?_) fun _ =>
              hchange upper hanchor hparts
            exact (List.dropLast_prefix _).trans hparts
  exact hlevels _ path rfl (List.prefix_refl _)

/-- On its way a path leads to directories. -/
theorem Locates.exists_directory {path upper goal : Path} {rest : List Text}
    (hgoal : disk.Locates path goal) (hparts : upper.parts ++ rest = path.parts)
    (hrest : rest ≠ [] ∨ disk.get? goal.place = some .directory) :
    ∃ middle, disk.Locates upper middle ∧ disk.get? middle.place = some .directory := by
  obtain ⟨n, hn, hleads⟩ := hgoal
  rw [← hparts] at hleads
  obtain ⟨m, k, middle, hsum, hfirst, hmiddle, hsecond⟩ := hleads.split upper.parts rest rfl
  refine ⟨middle, ⟨m, by omega, hfirst⟩, ?_⟩
  rcases hmiddle with rfl | hdirectory
  · obtain ⟨-, rfl⟩ := hsecond.of_nil
    exact hrest.resolve_left fun h => h rfl
  · exact hdirectory

/-- A disk on which the path leads to a directory stays as it is. -/
def KeepsDirectory (path : Path) (disk more : Disk) : Prop :=
  ∀ goal, disk.Locates path goal → disk.get? goal.place = some .directory → more = disk

instance (path : Path) : Task.IsRun (KeepsDirectory path) where
  refl _ _ _ _ := rfl
  trans hfirst hsecond goal hgoal hlies := by
    obtain rfl := hfirst goal hgoal hlies
    exact hsecond goal hgoal hlies

/-- Making a directory changes nothing if it is there already. -/
theorem keepsDirectory_makeDirectories {path : Path} (habsolute : path.isAbsolute = true) :
    Task.Steps (KeepsDirectory path) (makeDirectories path) := by
  refine steps_makeDirectories
    fun upper hanchor ⟨rest, hparts⟩ disk more hmade goal hgoal hlies => ?_
  obtain ⟨middle, hmiddle, hdirectory⟩ := hgoal.exists_directory hparts (.inr hlies)
  have hupper : upper.isAbsolute = true := by
    rw [Path.isAbsolute, hanchor]
    exact habsolute
  rw [makeDirectory] at hmade
  split at hmade
  · cases hmade
  · rename_i hmissing
    obtain ⟨-, found, hfound, hplace, hnone⟩ := locates_of_missing hupper hmissing
    rw [← hplace, ← hmiddle.unique hfound, hdirectory] at hnone
    cases hnone
  · cases hmade

/-- Below a directory that a path leads to, a file or link is found where its names lead. -/
theorem reach_entry_descend {root goal : Path} (habsolute : root.isAbsolute = true)
    (hroot : disk.Locates root goal) {way : List Text} {name : Text}
    (hnames : ∀ d ∈ way ++ [name], IsListed d)
    (habove : disk.get? (goal.place ++ way) = some .directory)
    (hlink : ∀ target, disk.get? (goal.place ++ (way ++ [name])) ≠ some (.link target))
    {entry : Entry}
    (hfound : disk.reach .entry (descend root (way ++ [name])) = .found place entry) :
    place = goal.place ++ (way ++ [name]) ∧ disk.get? place = some entry := by
  have hlooked := isLookedUp_of_reach hfound nofun
  have hdown : (descend root (way ++ [name])).isAbsolute = true := habsolute
  have hends : Ends disk .entry _ _ _ _ := ends_reach hdown hlooked
  rw [hfound] at hends
  rcases hends with ⟨-, -, n, init, last, middle, hparts, hleads, -, hplace, target, hlies⟩
    | ⟨n, found, hn, hleads, hplace, hlies⟩
  · -- The link would lie where the names lead.
    change root.parts ++ (way ++ [name]) = _ at hparts
    rw [← List.append_assoc] at hparts
    obtain ⟨rfl, hlast⟩ := List.append_inj' hparts rfl
    obtain rfl := List.singleton_inj.mp hlast
    have hway : ∀ d ∈ way, IsListed d := fun d hd => hnames d (List.mem_append_left _ hd)
    obtain ⟨m, -, hleads'⟩ := hroot.descend_of_get? habove rfl
    obtain ⟨-, rfl⟩ := hleads.unique hleads'
    have hname := (hnames name (List.mem_append_right _ List.mem_cons_self)).2
    rw [Path.place_child, place_descend goal hway, hname, List.append_assoc] at hplace
    rw [hplace] at hlies
    exact absurd hlies (hlink target)
  · obtain ⟨m, -, hleads'⟩ := hroot.descend hnames
      (fun _ => by rwa [List.dropLast_concat]) hlink
    obtain ⟨-, rfl⟩ := hleads.unique hleads'
    rw [place_descend goal hnames] at hplace
    exact ⟨hplace.symm, hlies⟩

/-- The file's path is the names that lead down to its place from a directory that a path leads to;
at the place lies no link. -/
def Stands (disk : Disk) (file : Path) (place : Place) : Prop :=
  ∃ root goal way name, root.isAbsolute = true ∧ disk.Locates root goal
    ∧ file = descend root (way ++ [name]) ∧ place = goal.place ++ (way ++ [name])
    ∧ (∀ d ∈ way ++ [name], IsListed d) ∧ disk.get? (goal.place ++ way) = some .directory
    ∧ ∀ target, disk.get? place ≠ some (.link target)

namespace Stands

variable {file : Path}

theorem isAbsolute (hstands : disk.Stands file place) : file.isAbsolute = true := by
  obtain ⟨root, goal, way, name, habsolute, -, rfl, -⟩ := hstands
  exact habsolute

theorem isDown_name (hstands : disk.Stands file place) : IsDown file.name := by
  obtain ⟨root, goal, way, name, -, -, rfl, -, hnames, -⟩ := hstands
  rw [name_descend]
  exact (hnames name (List.mem_append_right _ List.mem_cons_self)).1

theorem mono (hstands : disk.Stands file place) (hstays : Extends disk more) :
    more.Stands file place := by
  obtain ⟨root, goal, way, name, habsolute, hroot, hfile, hplace, hnames, habove, hlink⟩ := hstands
  refine ⟨root, goal, way, name, habsolute, hroot.mono hstays, hfile, hplace, hnames,
    hstays.directory _ habove, fun target h => hlink target ?_⟩
  exact (hstays.link _ _).mpr h

theorem locates (hstands : disk.Stands file place) :
    ∃ goal, disk.Locates file goal ∧ goal.place = place := by
  obtain ⟨root, goal, way, name, -, hroot, rfl, rfl, hnames, habove, hlink⟩ := hstands
  have habove' : way ++ [name] ≠ [] →
      disk.get? (goal.place ++ (way ++ [name]).dropLast) = some .directory := by
    intro _
    rwa [List.dropLast_concat]
  exact ⟨_, hroot.descend hnames habove' hlink, place_descend goal hnames⟩

theorem unique {place' : Place} (hstands : disk.Stands file place)
    (hstands' : disk.Stands file place') : place = place' := by
  obtain ⟨goal, hgoal, rfl⟩ := hstands.locates
  obtain ⟨goal', hgoal', rfl⟩ := hstands'.locates
  rw [hgoal.unique hgoal']

/-- Where a file lies or lay before, it stands. -/
theorem of_get? {root goal : Path} {names : List Text} {content : Bytes}
    (habsolute : root.isAbsolute = true) (hroot : more.Locates root goal)
    (hstays : Extends disk more) (hnames : names ≠ [])
    (hlies : disk.get? (goal.place ++ names) = some (.file content)) :
    more.Stands (descend root names) (goal.place ++ names) := by
  have hsplit := List.dropLast_concat_getLast hnames
  refine ⟨root, goal, names.dropLast, names.getLast hnames, habsolute, hroot, by rw [hsplit],
    by rw [hsplit], ?_, hstays.directory _ (get?_append_dropLast hnames hlies), fun target h => ?_⟩
  · rw [hsplit]
    exact isListed_of_get? hlies
  · rw [(hstays.link _ _).mpr h] at hlies
    cases hlies

end Stands

/-- Unlinking a file removes it from its place. -/
theorem unlink_of_stands {file : Path} (hstands : disk.Stands file place)
    (hunlink : disk.unlink file = .ok more) :
    ∃ content, disk.get? place = some (.file content) ∧ more = disk.remove place := by
  obtain ⟨root, goal, way, name, habsolute, hroot, rfl, rfl, hnames, habove, hlink⟩ := hstands
  rw [unlink] at hunlink
  split at hunlink
  · cases hunlink
  · rename_i found entry hdirectory hfound
    obtain ⟨rfl, hlies⟩ := reach_entry_descend habsolute hroot hnames habove hlink hfound
    cases entry with
    | file content => exact ⟨content, hlies, (Except.ok.inj hunlink).symm⟩
    | link target => exact absurd hlies (hlink target)
    | directory => exact absurd rfl hdirectory
  · cases hunlink
  · cases hunlink

end Disk

end ResourcePruner
