import ResourcePruner.Proofs.Disk.Resolve
import ResourcePruner.Proofs.Disk.Walk

/-!
# Where any path leads

`Disk.Locates` speaks of absolute paths. `Disk.Attains` says the same of any path, from the
directory in which it starts; for an absolute path the two are one (`Disk.attains_iff_locates`).
What is looked up is what is attained (`Disk.exists_attains_of_found`, `Disk.Attains.found`), and a
path resolves to what it attains (`Disk.Attains.resolve`).
-/

namespace ResourcePruner

namespace Disk

variable {disk more : Disk} {path goal other : Path} {place : Place} {entry : Entry}

/-- From the directory in which it starts, the path leads to `goal` through no more links than are
followed. -/
def Attains (disk : Disk) (path goal : Path) : Prop :=
  ∃ start, disk.startOf path = some start ∧ disk.get? start = some .directory
    ∧ ∃ n, n ≤ maxLinks ∧ Leads disk n ⟨.root, start⟩ path.parts goal

theorem attains_iff_locates (habsolute : path.isAbsolute = true) :
    disk.Attains path goal ↔ disk.Locates path goal := by
  have hstart := startOf_of_isAbsolute disk habsolute
  constructor
  · rintro ⟨start, hstart', -, hleads⟩
    obtain rfl := Option.some.inj (hstart.symm.trans hstart')
    exact hleads
  · exact fun hleads => ⟨[], hstart, rfl, hleads⟩

/-- What lies on a disk is spelled by its place. -/
theorem place_of_get? (hlies : disk.get? place = some entry) (anchor : Anchor) :
    (⟨anchor, place⟩ : Path).place = place := by
  have hlisted : ∀ name ∈ place, IsListed name := 
    isListed_of_get? (show disk.get? ([] ++ place) = some entry from hlies)
  exact (List.map_congr_left fun name hname => (hlisted name hname).2).trans place.map_id

theorem exists_attains_of_ends {ending : Ending} {reached : Reach}
    (hstarts : disk.StartsInDirectory path) (hreached : disk.reach ending path = reached)
    (hreach : ∀ code, reached ≠ .failed code) : IsLookedUp path ∧ ∃ start,
      disk.startOf path = some start ∧ disk.get? start = some .directory
        ∧ Ends disk ending (maxLinks + 1) ⟨.root, start⟩ path.parts reached := by
  obtain ⟨hlooked, start, hstart, hreached⟩ := reach_cases hreached hreach
  have hdirectory := hstarts start hstart
  have hplace : (⟨.root, start⟩ : Path).place = start := place_of_get? hdirectory .root
  have hends :=
    ends_reachFrom disk ending maxLinks ⟨.root, start⟩ path.parts (hplace.symm ▸ hdirectory)
  rw [hplace, hreached] at hends
  exact ⟨hlooked, start, hstart, hdirectory, hends⟩

/-- What a path is found to lead to lies where it leads. -/
theorem exists_attains_of_found {ending : Ending} (hstarts : disk.StartsInDirectory path)
    (hfound : disk.reach ending path = .found place entry) (hentry : isLinkEntry entry = false) :
    IsLookedUp path ∧ ∃ goal, disk.Attains path goal ∧ goal.place = place
      ∧ disk.get? place = some entry := by
  obtain ⟨hlooked, start, hstart, hdirectory, hends⟩ := exists_attains_of_ends hstarts hfound nofun
  rcases hends with ⟨-, hlink, -⟩ | ⟨n, goal, hn, hleads, hplace, hlies⟩
  · rw [hentry] at hlink
    cases hlink
  · exact ⟨hlooked, goal, ⟨start, hstart, hdirectory, n, Nat.le_of_lt_succ hn, hleads⟩,
      hplace, hlies⟩

theorem exists_attains_of_missing {ending : Ending} {directory : Place} {name : Text}
    (hstarts : disk.StartsInDirectory path)
    (hmissing : disk.reach ending path = .missing directory name) :
    IsLookedUp path ∧ ∃ goal, disk.Attains path goal ∧ goal.place = directory ++ [name]
      ∧ disk.get? (directory ++ [name]) = none := by
  obtain ⟨hlooked, start, hstart, hdirectory, hends⟩ :=
    exists_attains_of_ends hstarts hmissing nofun
  obtain ⟨n, goal, hn, hleads, hplace, hnone⟩ := hends
  exact ⟨hlooked, goal, ⟨start, hstart, hdirectory, n, Nat.le_of_lt_succ hn, hleads⟩, hplace, hnone⟩

/-- The directory that a path opens lies where the path leads. -/
theorem exists_attains_of_openDirectory (hstarts : disk.StartsInDirectory path)
    (hopen : disk.openDirectory path = .ok place) : IsLookedUp path ∧ ∃ goal, disk.Attains path goal
      ∧ goal.place = place ∧ disk.get? place = some .directory := by
  rw [openDirectory] at hopen
  split at hopen
  · rename_i found hfound
    cases hopen
    exact exists_attains_of_found hstarts hfound rfl
  · cases hopen
  · cases hopen
  · cases hopen

/-- What is read from a path is the content of the file to which it leads. -/
theorem exists_attains_of_read {content : Bytes} (hstarts : disk.StartsInDirectory path)
    (hread : disk.read path = .ok content) : IsLookedUp path ∧ ∃ goal, disk.Attains path goal
      ∧ disk.get? goal.place = some (.file content) := by
  rw [read] at hread
  split at hread
  · rename_i place found hfound
    cases hread
    obtain ⟨hlooked, goal, hattains, rfl, hlies⟩ := exists_attains_of_found hstarts hfound rfl
    exact ⟨hlooked, goal, hattains, hlies⟩
  · cases hread
  · cases hread
  · cases hread

namespace Attains

theorem unique (hattains : disk.Attains path goal) (hother : disk.Attains path other) :
    goal = other := by
  obtain ⟨start, hstart, -, _, -, hleads⟩ := hattains
  obtain ⟨start', hstart', -, _, -, hleads'⟩ := hother
  obtain rfl := Option.some.inj (hstart.symm.trans hstart')
  exact (hleads.unique hleads').2

/-- Where a path leads stays the same when directories are added. -/
theorem mono (hattains : disk.Attains path goal) (hextends : Extends disk more)
    (hstart : more.startOf path = disk.startOf path) : more.Attains path goal := by
  obtain ⟨start, hstart', hdirectory, n, hn, hleads⟩ := hattains
  exact ⟨start, hstart.trans hstart', hextends.directory start hdirectory, n, hn,
    hleads.mono hextends⟩

theorem startsInDirectory (hattains : disk.Attains path goal) : disk.StartsInDirectory path := by
  obtain ⟨start, hstart, hdirectory, -⟩ := hattains
  intro start' hstart'
  obtain rfl := Option.some.inj (hstart.symm.trans hstart')
  exact hdirectory

theorem isPlain_start {start : Place} (hdirectory : disk.get? start = some .directory) :
    Path.IsPlain ⟨.root, start⟩ :=
  ⟨rfl, fun name hname =>
    (isListed_of_get? (show disk.get? ([] ++ start) = some .directory from hdirectory) name
      hname).1⟩

theorem reach {ending : Ending} (hending : ending ≠ .entry) (hattains : disk.Attains path goal)
    (hlooked : IsLookedUp path) (hlies : disk.get? goal.place = some entry)
    (hkind : ending = .newFile → entry ≠ .directory) :
    disk.reach ending path = .found goal.place entry := by
  obtain ⟨start, hstart, hdirectory, n, hn, hleads⟩ := hattains
  have hplace : (⟨.root, start⟩ : Path).place = start := place_of_get? hdirectory .root
  have hreach := reachFrom_of_leads hending hleads hn (hplace.symm ▸ hdirectory) hlies hkind
  rw [hplace] at hreach
  rw [reach_of_reachFrom hlooked hstart, hreach]

/-- Whatever lies where a path leads is found. -/
theorem found (hattains : disk.Attains path goal) (hlooked : IsLookedUp path)
    (hlies : disk.get? goal.place = some entry) :
    disk.reach .target path = .found goal.place entry :=
  hattains.reach (by decide) hlooked hlies nofun

theorem openDirectory (hattains : disk.Attains path goal) (hlooked : IsLookedUp path)
    (hdirectory : disk.get? goal.place = some .directory) :
    disk.openDirectory path = .ok goal.place := by
  rw [Disk.openDirectory, hattains.found hlooked hdirectory]

theorem read (hattains : disk.Attains path goal) (hlooked : IsLookedUp path) {content : Bytes}
    (hfile : disk.get? goal.place = some (.file content)) : disk.read path = .ok content := by
  rw [Disk.read, hattains.found hlooked hfile]

/-- A path that leads to a file and is no link ends in the file's own name. -/
theorem name_eq (hattains : disk.Attains path goal) (hlooked : IsLookedUp path) {content : Bytes}
    (hfile : disk.get? goal.place = some (.file content)) (hlink : disk.isLink path = false) :
    goal.name = path.name := by
  obtain ⟨start, hstart, hdirectory, n, hn, hleads⟩ := hattains
  have hplace : (⟨.root, start⟩ : Path).place = start := place_of_get? hdirectory .root
  rw [← hplace] at hdirectory
  have hnot : ∀ {other : Path}, disk.get? other.place = some .directory → goal ≠ other := by
    rintro _ hother rfl
    rw [hfile] at hother
    cases hother
  rcases List.eq_nil_or_concat path.parts with hparts | ⟨init, last, hparts⟩
  · rw [hparts] at hleads
    exact absurd hleads.of_nil.2 (hnot hdirectory)
  rw [List.concat_eq_append] at hparts
  rw [hparts] at hleads
  obtain ⟨m, k, middle, rfl, hinit, hmiddle, hrest⟩ := hleads.split init [last] hdirectory
  replace hmiddle := hmiddle.resolve_left (by simp)
  rcases isDown_cases last with hlast | rfl | hlast
  · exact absurd (hrest.of_stay hlast).of_nil.2 (hnot hmiddle)
  · refine absurd hrest.of_up.of_nil.2 (hnot ?_)
    rw [Path.place_parent]
    exact get?_dropLast hmiddle
  · have hname : goal = middle.child last → goal.name = path.name := by
      rintro rfl
      simp [Path.name, Path.child, hparts]
    cases hlies : disk.get? (middle.child last).place with
    | none => exact hname (hrest.of_end hlast (hlies ▸ isEnd_none)).2.2
    | some entry =>
        cases entry with
        | file old => exact hname (hrest.of_end hlast (hlies ▸ isEnd_file old)).2.2
        | directory => exact hname (hrest.of_directory hlast hlies).of_nil.2
        | link target =>
            have hreach := reachFrom_entry_of_leads hinit
              (by omega : m ≤ maxLinks) hdirectory hmiddle
              hlast hlies
            rw [hplace, ← hparts, ← reach_of_reachFrom hlooked hstart] at hreach
            rw [isLink, hreach] at hlink
            cases hlink

/-- What lies below a directory is attained by the names on the way there. -/
theorem descend (hattains : disk.Attains path goal) {names : List Text}
    (hlies : disk.get? (goal.place ++ names) = some entry) (hentry : isLinkEntry entry = false) :
    disk.Attains (Disk.descend path names) (Disk.descend goal names) := by
  obtain ⟨start, hstart, hdirectory, n, hn, hleads⟩ := hattains
  have hbelow : Leads disk 0 goal names (Disk.descend goal names) := by
    refine leads_descend (isListed_of_get? hlies) (fun hne => get?_append_dropLast hne hlies) ?_
    rintro target hlink
    rw [hlies] at hlink
    cases hlink
    cases hentry
  refine ⟨start, hstart, hdirectory, n, hn, hleads.append ?_ hbelow⟩
  exact (Classical.em (names = [])).imp_right fun hne => get?_of_append hne hlies

/-- A path resolves to where it leads, also before all directories on the way are made, unless no
disk could have one of the paths on the way. -/
theorem resolve_cases (hattains : more.Attains path goal) (hextends : Extends disk more)
    (hstart : disk.startOf path = more.startOf path) {spelled : Prop}
    (hlinks : spelled → more.HasSpellableLinks) (hparts : spelled → AreSpellable path.parts) :
    disk.resolve path = .ok goal
      ∨ ¬ spelled ∧ ∃ fault, disk.resolve path = .error (.impossible fault) := by
  obtain ⟨start, hstart', hdirectory, n, hn, hleads⟩ := hattains
  have hbase : disk.Spells ⟨if path.isAbsolute then .root else .here, []⟩ ⟨.root, start⟩ := by
    have hstarts := hstart.trans hstart'
    cases hanchor : path.isAbsolute with
    | true =>
        rw [startOf_of_isAbsolute disk hanchor] at hstarts
        obtain rfl := Option.some.inj hstarts
        exact .root
    | false =>
        have hhere : path.anchor = .here := by simpa [Path.isAbsolute] using hanchor
        rw [startOf, hhere] at hstarts
        exact .here hstarts (isPlain_start hdirectory).2
  exact resolve_of_leads hextends hbase hn hleads hlinks hparts

theorem resolve (hattains : disk.Attains path goal) (hlinks : disk.HasSpellableLinks)
    (hparts : AreSpellable path.parts) : disk.resolve path = .ok goal :=
  (hattains.resolve_cases (.refl disk) rfl (fun _ => hlinks) fun _ => hparts).resolve_right
    fun h => h.1 trivial

end Attains

end Disk

end ResourcePruner
