import ResourcePruner.Proofs.Disk.Changes

/-!
# What lies below a directory

The names that lead down from a directory lead there also behind any path by which the directory can
be opened, be the path relative or through links (`Disk.reachFrom_append`). Hence what lies below is
opened, read and unlinked by such a path, if it can be looked up, and unlinking a file leaves the
files at other places as they can be read (`Disk.read_of_unlinks`).
-/

namespace ResourcePruner

namespace Disk

variable {disk more : Disk} {ending : Ending} {reached : Reach} {place : Place} {names : List Text}

/-! ## Names behind a path -/

theorem followNames_below {expand : Place → List Text → Reach} {entry : Entry}
    (hending : ending ≠ .newFile) (hnames : names ≠ [])
    (hlies : disk.get? (place ++ names) = some entry) (hentry : isLinkEntry entry = false) :
    disk.followNames ending expand place names = .found (place ++ names) entry := by
  induction names generalizing place with
  | nil => exact absurd rfl hnames
  | cons name rest ih =>
      obtain ⟨hname, hcanonical⟩ := isListed_of_get? hlies name List.mem_cons_self
      rw [followNames_cons_down hname, hcanonical, if_neg (by simp [hending])]
      rw [show place ++ name :: rest = place ++ [name] ++ rest by simp] at hlies ⊢
      by_cases hlast : rest = []
      · subst hlast
        rw [List.append_nil] at hlies ⊢
        rw [hlies]
        cases entry with
        | file content => rfl
        | directory => rfl
        | link target => cases hentry
      · rw [get?_of_append hlast hlies]
        exact ih hlast hlies

/-- Where a path ends in a directory, it may as well be followed by more names, on another disk too
that has the directories and links of the first. -/
theorem followNames_append (hextends : Extends disk more) (hending : ending ≠ .newFile)
    (hlast : ending = .target ∨ names ≠ []) {expand expand' : Place → List Text → Reach}
    (hexpand : ∀ start parts, expand start parts = .found place .directory →
      expand' start (parts ++ names) = reached)
    (hbelow : more.followNames ending expand' place names = reached) {start : Place}
    {parts : List Text}
    (hfound : disk.followNames .target expand start parts = .found place .directory) :
    more.followNames ending expand' start (parts ++ names) = reached := by
  induction parts generalizing start with
  | nil =>
      cases hfound
      exact hbelow
  | cons name rest ih =>
      rw [List.cons_append]
      rcases isDown_cases name with hname | rfl | hname
      · rw [followNames_cons_stay hname] at hfound ⊢
        exact ih hfound
      · rw [followNames_cons_up] at hfound ⊢
        exact ih hfound
      · rw [followNames_cons_down hname, if_neg (by simp)] at hfound
        rw [followNames_cons_down hname, if_neg (by simp [hending])]
        split at hfound
        · rw [reachAbsent] at hfound
          split at hfound
          · cases hfound
          · split at hfound <;> cases hfound
        · rename_i hdirectory
          rw [hextends.directory _ hdirectory]
          exact ih hfound
        · split at hfound <;> cases hfound
        · rename_i target hlink
          rw [if_neg (by simp)] at hfound
          rw [(hextends.link _ _).mp hlink]
          simp only
          rw [if_neg, ← List.append_assoc]
          · exact hexpand _ _ hfound
          · rcases hlast with rfl | hnames
            · simp
            · simp [hnames]

theorem reachFrom_append (hextends : Extends disk more) (hending : ending ≠ .newFile)
    (hlast : ending = .target ∨ names ≠ [])
    (hbelow : ∀ expand, more.followNames ending expand place names = reached) {links : Nat}
    {start : Place} {parts : List Text}
    (hfound : disk.reachFrom .target links start parts = .found place .directory) :
    more.reachFrom ending links start (parts ++ names) = reached := by
  induction links generalizing start parts with
  | zero =>
      refine followNames_append hextends hending hlast (fun start parts h => ?_) (hbelow _) hfound
      cases h
  | succ links ih =>
      exact followNames_append hextends hending hlast (fun _ _ h => ih h) (hbelow _) hfound

/-! ## Paths below a directory -/

section

variable {root : Path}

theorem found_of_openDirectory {path : Path} (hopen : disk.openDirectory path = .ok place) :
    disk.reach .target path = .found place .directory := by
  rw [openDirectory] at hopen
  split at hopen
  · rename_i hfound
    cases hopen
    exact hfound
  · cases hopen
  · cases hopen
  · cases hopen

theorem openDirectory_of_found {path : Path}
    (hfound : disk.reach .target path = .found place .directory) :
    disk.openDirectory path = .ok place := by
  rw [openDirectory, hfound]

/-- A path down from a directory that is opened leads where its names lead, on another disk too that
has the directories and links of the first. -/
theorem reach_descend (hopen : disk.openDirectory root = .ok place) (hextends : Extends disk more)
    (hstart : more.startOf root = disk.startOf root) (hending : ending ≠ .newFile)
    (hlast : ending = .target ∨ names ≠ [])
    (hbelow : ∀ expand, more.followNames ending expand place names = reached)
    (hlooked : IsLookedUp (descend root names)) :
    more.reach ending (descend root names) = reached := by
  obtain ⟨-, start, hroot, hfound⟩ := reach_cases (found_of_openDirectory hopen) nofun
  have hdown : more.startOf (descend root names) = some start := hstart.trans hroot
  rw [reach_of_reachFrom hlooked hdown]
  exact reachFrom_append hextends hending hlast hbelow hfound

theorem openDirectory_descend (hopen : disk.openDirectory root = .ok place)
    (hlies : disk.get? (place ++ names) = some .directory)
    (hlooked : IsLookedUp (descend root names)) :
    disk.openDirectory (descend root names) = .ok (place ++ names) := by
  have hending : Ending.target ≠ .newFile := by decide
  refine openDirectory_of_found (reach_descend hopen (.refl disk) rfl hending (.inl rfl) ?_ hlooked)
  intro expand
  by_cases hnames : names = []
  · subst hnames
    rw [List.append_nil]
    rfl
  · exact followNames_below hending hnames hlies rfl

theorem read_descend (hopen : disk.openDirectory root = .ok place) (hnames : names ≠ [])
    {content : Bytes} (hlies : disk.get? (place ++ names) = some (.file content))
    (hlooked : IsLookedUp (descend root names)) :
    disk.read (descend root names) = .ok content := by
  have hending : Ending.target ≠ .newFile := by decide
  have hreach := reach_descend hopen (.refl disk) rfl hending (.inl rfl)
    (fun _ => followNames_below hending hnames hlies rfl) hlooked
  rw [read, hreach]

/-! ## Unlinking below a directory -/

/-- Unlinking a file removes it from where its names lead. -/
theorem eq_remove_of_unlink (hopen : disk.openDirectory root = .ok place) (hnames : names ≠ [])
    {content : Bytes} (hlies : disk.get? (place ++ names) = some (.file content))
    (hunlink : disk.unlink (descend root names) = .ok more) :
    more = disk.remove (place ++ names) := by
  have hfound : IsLookedUp (descend root names) →
      disk.reach .entry (descend root names) = .found (place ++ names) (.file content) :=
    reach_descend hopen (.refl disk) rfl (by decide) (.inr hnames)
      fun _ => followNames_below (by decide) hnames hlies rfl
  rw [unlink] at hunlink
  split at hunlink
  · cases hunlink
  · rename_i found entry hdirectory hreach
    rw [hfound (isLookedUp_of_reach hreach fun _ hfailed => by cases hfailed)] at hreach
    cases hreach
    exact (Except.ok.inj hunlink).symm
  · cases hunlink
  · cases hunlink

variable {gone : Place} {old : Bytes}

theorem startOf_remove (hstarts : disk.StartsInDirectory root)
    (hgone : disk.get? gone = some (.file old)) :
    (disk.remove gone).startOf root = disk.startOf root := by
  unfold StartsInDirectory at hstarts
  unfold startOf at hstarts ⊢
  split
  · exact home_remove (by simpa only [*] using hstarts) hgone (by simp)
  · rfl

theorem StartsInDirectory.remove (hstarts : disk.StartsInDirectory root)
    (hgone : disk.get? gone = some (.file old)) : (disk.remove gone).StartsInDirectory root := by
  intro start hstart
  rw [startOf_remove hstarts hgone] at hstart
  exact (extends_remove hgone).directory start (hstarts start hstart)

theorem openDirectory_remove (hstarts : disk.StartsInDirectory root)
    (hopen : disk.openDirectory root = .ok place) (hgone : disk.get? gone = some (.file old)) :
    (disk.remove gone).openDirectory root = .ok place := by
  have hlooked : IsLookedUp root := isLookedUp_of_reach (found_of_openDirectory hopen) nofun
  rw [← descend_nil root] at hlooked ⊢
  exact openDirectory_of_found (reach_descend hopen (extends_remove hgone)
    (startOf_remove hstarts hgone) (by decide) (.inl rfl) (fun _ => rfl) hlooked)

/-- A file is read alike once a file at another place is gone. -/
theorem read_remove (hstarts : disk.StartsInDirectory root)
    (hopen : disk.openDirectory root = .ok place) (hgone : disk.get? gone = some (.file old))
    (hnames : names ≠ []) {content : Bytes}
    (hlies : disk.get? (place ++ names) = some (.file content)) (hother : place ++ names ≠ gone) :
    (disk.remove gone).read (descend root names) = disk.read (descend root names) := by
  by_cases hlooked : IsLookedUp (descend root names)
  · have hstays : (disk.remove gone).get? (place ++ names) = some (.file content) := by
      rw [get?_remove_of_file hgone, if_neg hother, hlies]
    rw [read_descend hopen hnames hlies hlooked,
      read_descend (openDirectory_remove hstarts hopen hgone) hnames hstays hlooked]
  · rw [read, read, reach_eq_of_not_isLookedUp hlooked]

/-- The path is spelled by the names that lead to a file from the place. -/
def IsFileBelow (disk : Disk) (root : Path) (place : Place) (names : List Text) (path : Path) :
    Prop :=
  path = descend root names ∧ names ≠ [] ∧ ∃ content,
  disk.get? (place ++ names) = some (.file content)

theorem IsFileBelow.remove {path gone : Path} {more : List Text}
    (hfile : disk.IsFileBelow root place names path)
    (hgone : disk.IsFileBelow root place more gone) (hother : path ≠ gone) :
    (disk.remove (place ++ more)).IsFileBelow root place names path := by
  obtain ⟨rfl, hnames, content, hlies⟩ := hfile
  obtain ⟨rfl, -, old, hold⟩ := hgone
  refine ⟨rfl, hnames, content, ?_⟩
  rw [get?_remove_of_file hold, if_neg, hlies]
  exact fun heq => hother (congrArg _ (List.append_cancel_left heq))

/-- Files below a directory can be unlinked one after the other, and any other one is still read as
before. -/
theorem read_of_unlinks {paths : List Path} {path : Path} (hstarts : disk.StartsInDirectory root)
    (hopen : disk.openDirectory root = .ok place) (hdistinct : paths.Nodup)
    (hpaths : ∀ gone ∈ paths, ∃ names, disk.IsFileBelow root place names gone)
    (hpath : disk.IsFileBelow root place names path) (hother : path ∉ paths)
    (hunlinks : paths.foldlM unlink disk = .ok more) : more.read path = disk.read path := by
  induction paths generalizing disk with
  | nil =>
      cases hunlinks
      rfl
  | cons gone rest ih =>
      rw [List.foldlM_cons] at hunlinks
      obtain ⟨hnew, hdistinct⟩ := List.nodup_cons.mp hdistinct
      obtain ⟨⟨names', hgone⟩, hrest⟩ := List.forall_mem_cons.mp hpaths
      obtain ⟨hne, hother⟩ := not_or.mp (mt List.mem_cons.mpr hother)
      cases hfirst : disk.unlink gone with
      | error error =>
          rw [hfirst] at hunlinks
          cases hunlinks
      | ok next =>
          rw [hfirst] at hunlinks
          obtain ⟨hspelled, hnames', old, hold⟩ := id hgone
          obtain rfl := eq_remove_of_unlink hopen hnames' hold (hspelled ▸ hfirst)
          have hstays :=
            ih (hstarts.remove hold) (openDirectory_remove hstarts hopen hold) hdistinct
            (fun other hmem => (hrest other hmem).imp fun names hfile =>
              hfile.remove hgone fun heq => hnew (heq ▸ hmem))
            (hpath.remove hgone hne) hother hunlinks
          obtain ⟨rfl, hnames, content, hlies⟩ := hpath
          rw [hstays]
          refine read_remove hstarts hopen hold hnames hlies fun heq => hne ?_
          rw [hspelled, List.append_cancel_left heq]

end

end Disk

end ResourcePruner
