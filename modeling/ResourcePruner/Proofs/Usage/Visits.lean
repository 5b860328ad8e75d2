import ResourcePruner.Proofs.Disk.Attains
import ResourcePruner.Usage.Scan

/-!
# What a scan visits

A scan visits the manifest and the files below its roots, one after the other, and searches each by
the first path that leads to it. Once it is known where the manifest and the roots lead, the first
path that leads to a file is the same on every disk on which the file is there
(`Usage.Lists.firstTo_iff`): it depends on no other file.
-/

namespace ResourcePruner.Usage

open Disk (Extends descend isSkipped IsListed IsLookedUp)

/-! ## The first path to a file -/

/-- The path is the first of a list that leads there. -/
inductive FirstTo (leads : Path → Prop) : List Path → Path → Prop
  | here {path : Path} {rest : List Path} (hleads : leads path) : FirstTo leads (path :: rest) path
  | later {path other : Path} {rest : List Path} (hleads : ¬ leads other)
      (hrest : FirstTo leads rest path) : FirstTo leads (other :: rest) path

namespace FirstTo

variable {leads : Path → Prop} {front back : List Path} {path : Path}

theorem mem (hfirst : FirstTo leads front path) : path ∈ front ∧ leads path := by
  induction hfirst with
  | here hleads => exact ⟨List.mem_cons_self, hleads⟩
  | later _ _ ih => exact ⟨List.mem_cons_of_mem _ ih.1, ih.2⟩

theorem exists_of_mem (hmem : path ∈ front) (hleads : leads path) : ∃ first,
    FirstTo leads front first := by
  induction front with
  | nil => cases hmem
  | cons other rest ih =>
      by_cases hother : leads other
      · exact ⟨other, .here hother⟩
      · rcases List.mem_cons.mp hmem with rfl | hrest
        · exact absurd hleads hother
        · obtain ⟨first, hfirst⟩ := ih hrest
          exact ⟨first, .later hother hfirst⟩

theorem append_iff : FirstTo leads (front ++ back) path ↔
    FirstTo leads front path ∨ (∀ other ∈ front, ¬ leads other) ∧ FirstTo leads back path := by
  induction front with
  | nil =>
      refine ⟨fun h => .inr ⟨List.forall_mem_nil _, h⟩, ?_⟩
      rintro (h | ⟨-, h⟩)
      · cases h
      · exact h
  | cons other rest ih =>
      constructor
      · intro h
        cases h with
        | here hleads => exact .inl (.here hleads)
        | later hleads hrest =>
            rcases ih.mp hrest with h | ⟨hnone, h⟩
            · exact .inl (.later hleads h)
            · exact .inr ⟨List.forall_mem_cons.mpr ⟨hleads, hnone⟩, h⟩
      · rintro (h | ⟨hnone, h⟩)
        · cases h with
          | here hleads => exact .here hleads
          | later hleads hrest => exact .later hleads (ih.mpr (.inl hrest))
        · obtain ⟨hleads, hrest⟩ := List.forall_mem_cons.mp hnone
          exact .later hleads (ih.mpr (.inr ⟨hrest, h⟩))

/-- Of paths only one of which leads there, that one is the first. -/
theorem iff_of_unique
    (hunique : ∀ path ∈ front, ∀ other ∈ front, leads path → leads other → path = other) :
    FirstTo leads front path ↔ path ∈ front ∧ leads path := by
  refine ⟨mem, fun ⟨hmem, hleads⟩ => ?_⟩
  obtain ⟨first, hfirst⟩ := exists_of_mem hmem hleads
  obtain ⟨hmem', hleads'⟩ := hfirst.mem
  rwa [hunique path hmem first hmem' hleads hleads']

end FirstTo

/-! ## Visited paths -/

/-- The files that a root stands for on a disk. -/
def filesOn (settings : ScanSettings) (disk : Disk) (root : Path) : List Path :=
  if (disk.isFile root).toOption = some true then [root]
  else (disk.walkFiles root settings.skippedDirNames).toOption.getD []

/-- The manifest on a disk, if it is a file. -/
def manifestOn (disk : Disk) (manifest : Path) : List Path :=
  if (disk.isFile manifest).toOption = some true then [manifest] else []

/-- The paths that a scan visits on a disk, in order. -/
def visits (settings : ScanSettings) (disk : Disk) (manifest : Path) (roots : List Path) :
    List Path :=
  manifestOn disk manifest ++ roots.flatMap (filesOn settings disk)

/-- A scan searches the file at the goal, in the dialect of the first path that leads to it. -/
def Searches (settings : ScanSettings) (disk : Disk) (manifest : Path) (roots : List Path)
    (goal : Path) (dialect : Dialect) (content : Bytes) : Prop :=
  ∃ path, FirstTo (disk.Locates · goal) (visits settings disk manifest roots) path
    ∧ dialectOf? settings path = some dialect ∧ disk.read path = .ok content

theorem dialectOf?_of_name (settings : ScanSettings) {path other : Path}
    (hname : path.name = other.name) : dialectOf? settings path = dialectOf? settings other := by
  rw [dialectOf?, dialectOf?, Path.suffix, Path.suffix, hname]

/-- From a root that leads to `reached`, the path leads to the goal as a walk below the root
does. -/
def Finds (settings : ScanSettings) (root reached path goal : Path) : Prop :=
  (path = root ∧ goal = reached) ∨ ∃ way name,
    (∀ inner ∈ way, isSkipped settings.skippedDirNames inner = false)
      ∧ (∀ inner ∈ way ++ [name], IsListed inner)
      ∧ path = descend root (way ++ [name]) ∧ goal = descend reached (way ++ [name])

theorem Finds.unique {settings : ScanSettings} {root reached path other goal : Path}
    (hfinds : Finds settings root reached path goal)
    (hother : Finds settings root reached other goal) : path = other := by
  have hne : ∀ {way : List Text} {name : Text}, reached ≠ descend reached (way ++ [name]) := by
    intro way name heq
    have hlength := congrArg (fun path => path.parts.length) heq
    simp [descend] at hlength
  rcases hfinds with ⟨rfl, rfl⟩ | ⟨way, name, -, -, rfl, rfl⟩
  · rcases hother with ⟨rfl, -⟩ | ⟨way, name, -, -, -, heq⟩
    · rfl
    · exact absurd heq hne
  · rcases hother with ⟨-, heq⟩ | ⟨way', name', -, -, rfl, heq⟩
    · exact absurd heq.symm hne
    · rw [Disk.descend_injective heq]

section

variable {settings : ScanSettings} {disk more : Disk} {root reached path goal : Path}

theorem exists_attains_of_isFile (hstarts : disk.StartsInDirectory path)
    (hfile : (disk.isFile path).toOption = some true) : IsLookedUp path ∧ ∃ goal content,
      disk.Attains path goal ∧ disk.get? goal.place = some (.file content) := by
  rw [Disk.isFile, Disk.leadsTo] at hfile
  cases hreach : disk.reach .target path with
  | missing directory name =>
      rw [hreach] at hfile
      cases hfile
  | failed code =>
      rw [hreach] at hfile
      cases code <;> cases hfile
  | found place entry =>
      rw [hreach] at hfile
      cases entry with
      | directory => cases hfile
      | link target => cases hfile
      | file content =>
          obtain ⟨hlooked, goal, hgoal, rfl, hlies⟩ :=
            Disk.exists_attains_of_found hstarts hreach rfl
          exact ⟨hlooked, goal, content, hgoal, hlies⟩

theorem isFile_of_attains (hlooked : IsLookedUp path) (hattains : disk.Attains path goal)
    {content : Bytes} (hlies : disk.get? goal.place = some (.file content)) :
    (disk.isFile path).toOption = some true := by
  rw [Disk.isFile, Disk.leadsTo, hattains.found hlooked hlies]
  rfl

theorem locates_of_isFile (habsolute : path.isAbsolute = true)
    (hfile : (disk.isFile path).toOption = some true) : IsLookedUp path ∧ ∃ goal content,
      disk.Locates path goal ∧ disk.get? goal.place = some (.file content) := by
  simpa only [Disk.attains_iff_locates habsolute] using
    exists_attains_of_isFile (Disk.startsInDirectory_of_isAbsolute disk habsolute) hfile

theorem isFile_of_locates (habsolute : path.isAbsolute = true) (hlooked : IsLookedUp path)
    (hlocates : disk.Locates path goal) {content : Bytes}
    (hlies : disk.get? goal.place = some (.file content)) :
    (disk.isFile path).toOption = some true :=
  isFile_of_attains hlooked ((Disk.attains_iff_locates habsolute).mpr hlocates) hlies

theorem mem_manifestOn_iff (habsolute : root.isAbsolute = true) (hroot : disk.Locates root reached)
    (hstays : Extends disk more) :
    path ∈ manifestOn disk root ∧ more.Locates path goal ↔
      IsLookedUp root ∧ (path = root ∧ goal = reached)
        ∧ ∃ content, disk.get? goal.place = some (.file content) := by
  rw [manifestOn]
  constructor
  · rintro ⟨hmem, hpath⟩
    split at hmem
    · rename_i hfile
      obtain rfl := List.mem_singleton.mp hmem
      obtain ⟨hlooked, found, content, hfound, hlies⟩ := locates_of_isFile habsolute hfile
      obtain rfl := hfound.unique hroot
      obtain rfl := hpath.unique (hroot.mono hstays)
      exact ⟨hlooked, ⟨rfl, rfl⟩, content, hlies⟩
    · cases hmem
  · rintro ⟨hlooked, ⟨rfl, rfl⟩, content, hlies⟩
    rw [if_pos (isFile_of_locates habsolute hlooked hroot hlies)]
    exact ⟨List.mem_singleton_self _, hroot.mono hstays⟩

theorem isAbsolute_of_finds (habsolute : root.isAbsolute = true)
    (hfinds : Finds settings root reached path goal) : path.isAbsolute = true := by
  rcases hfinds with ⟨rfl, -⟩ | ⟨way, name, -, -, rfl, -⟩
  · exact habsolute
  · exact habsolute

/-- A file of a root is one that a walk below it finds, by the path that it finds it by. -/
theorem exists_finds_of_mem_filesOn (hstarts : disk.StartsInDirectory root)
    (hmem : path ∈ filesOn settings disk root) : ∃ reached goal content, disk.Attains root reached
      ∧ disk.Attains path goal ∧ IsLookedUp root ∧ Finds settings root reached path goal
      ∧ disk.get? goal.place = some (.file content) := by
  rw [filesOn] at hmem
  split at hmem
  · rename_i hfile
    obtain rfl := List.mem_singleton.mp hmem
    obtain ⟨hlooked, goal, content, hgoal, hlies⟩ := exists_attains_of_isFile hstarts hfile
    exact ⟨goal, goal, content, hgoal, hgoal, hlooked, .inl ⟨rfl, rfl⟩, hlies⟩
  · cases hwalk : disk.walkFiles root settings.skippedDirNames with
    | error error =>
        rw [hwalk] at hmem
        cases hmem
    | ok files =>
        rw [hwalk] at hmem
        rw [Disk.walkFiles] at hwalk
        cases hopen : disk.openDirectory root with
        | error error =>
            rw [hopen] at hwalk
            cases hwalk
        | ok place =>
            obtain ⟨hlooked, reached, hreached, rfl, -⟩ :=
              Disk.exists_attains_of_openDirectory hstarts hopen
            obtain ⟨way, name, content, rfl, hway, hlies⟩ :=
              (Disk.mem_walkFiles hopen hwalk).mp hmem
            rw [List.append_assoc] at hlies
            have hlisted := Disk.isListed_of_get? hlies
            refine ⟨reached, _, content, hreached, hreached.descend hlies rfl, hlooked,
              .inr ⟨way, name, hway, hlisted, rfl, rfl⟩, ?_⟩
            rwa [Disk.place_descend _ hlisted]

theorem finds_of_mem_filesOn (habsolute : root.isAbsolute = true)
    (hmem : path ∈ filesOn settings disk root) : ∃ reached goal content, disk.Locates root reached
      ∧ disk.Locates path goal ∧ IsLookedUp root ∧ Finds settings root reached path goal
      ∧ disk.get? goal.place = some (.file content) := by
  obtain ⟨reached, goal, content, hreached, hgoal, hlooked, hfinds, hlies⟩ :=
    exists_finds_of_mem_filesOn (Disk.startsInDirectory_of_isAbsolute disk habsolute) hmem
  exact ⟨reached, goal, content, (Disk.attains_iff_locates habsolute).mp hreached,
    (Disk.attains_iff_locates (isAbsolute_of_finds habsolute hfinds)).mp hgoal, hlooked,
    hfinds, hlies⟩

theorem mem_filesOn_of_finds (hlooked : IsLookedUp root) (hroot : disk.Attains root reached)
    (hfinds : Finds settings root reached path goal) {content : Bytes}
    (hlies : disk.get? goal.place = some (.file content)) :
    path ∈ filesOn settings disk root ∧ disk.Attains path goal := by
  rw [filesOn]
  rcases hfinds with ⟨rfl, rfl⟩ | ⟨way, name, hway, hlisted, rfl, rfl⟩
  · rw [if_pos (isFile_of_attains hlooked hroot hlies)]
    exact ⟨List.mem_singleton_self _, hroot⟩
  · rw [Disk.place_descend _ hlisted] at hlies
    have hdirectory := Disk.get?_of_append (by simp) hlies
    have hopen := hroot.openDirectory hlooked hdirectory
    have hfile : ¬ (disk.isFile root).toOption = some true := by
      intro hfile
      obtain ⟨-, found, content, hfound, hfile⟩ :=
        exists_attains_of_isFile hroot.startsInDirectory hfile
      obtain rfl := hfound.unique hroot
      cases hfile.symm.trans hdirectory
    have hwalk : disk.walkFiles root settings.skippedDirNames
        = .ok ((disk.filesBelow settings.skippedDirNames reached.place).map (descend root)) := by
      rw [Disk.walkFiles, hopen]
      rfl
    rw [if_neg hfile, hwalk]
    rw [← List.append_assoc] at hlies
    refine ⟨(Disk.mem_walkFiles hopen hwalk).mpr ⟨way, name, content, rfl, hway, hlies⟩, ?_⟩
    rw [List.append_assoc] at hlies
    exact hroot.descend hlies rfl

/-- The files of a root are those that a walk below it finds, by the paths that it finds them by. -/
theorem mem_filesOn_iff (habsolute : root.isAbsolute = true) (hroot : disk.Locates root reached)
    (hstays : Extends disk more) :
    path ∈ filesOn settings disk root ∧ more.Locates path goal ↔
      IsLookedUp root ∧ Finds settings root reached path goal
        ∧ ∃ content, disk.get? goal.place = some (.file content) := by
  constructor
  · rintro ⟨hmem, hpath⟩
    obtain ⟨found, end', content, hfound, hend, hlooked, hfinds, hlies⟩ :=
      finds_of_mem_filesOn habsolute hmem
    obtain rfl := hfound.unique hroot
    obtain rfl := hpath.unique (hend.mono hstays)
    exact ⟨hlooked, hfinds, content, hlies⟩
  · rintro ⟨hlooked, hfinds, content, hlies⟩
    obtain ⟨hmem, hattains⟩ := mem_filesOn_of_finds hlooked
      ((Disk.attains_iff_locates habsolute).mpr hroot) hfinds hlies
    have hpath := isAbsolute_of_finds habsolute hfinds
    exact ⟨hmem, ((Disk.attains_iff_locates hpath).mp hattains).mono hstays⟩

end

/-! ## Visits on several disks -/

/-- Where the manifest and the roots lead is known. -/
structure Known (disk : Disk) (manifest : Path) (roots : List Path) : Prop where
  isAbsolute_manifest : manifest.isAbsolute = true
  isAbsolute_roots : ∀ root ∈ roots, root.isAbsolute = true
  manifest : ∃ goal, disk.Locates manifest goal
  roots : ∀ root ∈ roots, ∃ goal, disk.Locates root goal

theorem Known.mono {disk more : Disk} {manifest : Path} {roots : List Path}
    (hknown : Known disk manifest roots) (hstays : Extends disk more) :
    Known more manifest roots where
  isAbsolute_manifest := hknown.isAbsolute_manifest
  isAbsolute_roots := hknown.isAbsolute_roots
  manifest := hknown.manifest.imp fun _ h => h.mono hstays
  roots root hroot := (hknown.roots root hroot).imp fun _ h => h.mono hstays

/-- The files of the roots, a disk being looked at once for each root. -/
inductive ListsRoots (settings : ScanSettings) (sees : Disk → Prop) :
    (roots : List Path) → (visited : List Path) → Prop
  | nil : ListsRoots settings sees [] []
  | cons {disk : Disk} (hsees : sees disk) (root : Path) {roots visited : List Path}
      (hrest : ListsRoots settings sees roots visited) :
      ListsRoots settings sees (root :: roots) (filesOn settings disk root ++ visited)

/-- The paths that a scan visits when it looks at a disk once for the manifest and once for each
root. -/
inductive Lists (settings : ScanSettings) (sees : Disk → Prop) (manifest : Path)
    (roots : List Path) :
    (visited : List Path) → Prop
  | intro {disk : Disk} (hsees : sees disk) {rest : List Path}
      (hrest : ListsRoots settings sees roots rest) :
      Lists settings sees manifest roots (manifestOn disk manifest ++ rest)

theorem ListsRoots.mono {settings : ScanSettings} {sees sees' : Disk → Prop}
    {roots visited : List Path}
    (hlists : ListsRoots settings sees roots visited) (hsees : ∀ disk, sees disk → sees' disk) :
    ListsRoots settings sees' roots visited := by
  induction hlists with
  | nil => exact .nil
  | cons hdisk root _ ih => exact .cons (hsees _ hdisk) root ih

theorem listsRoots_flatMap (settings : ScanSettings) {sees : Disk → Prop} {disk : Disk}
    (hsees : sees disk) (roots : List Path) :
    ListsRoots settings sees roots (roots.flatMap (filesOn settings disk)) := by
  induction roots with
  | nil => exact .nil
  | cons root rest ih => exact .cons hsees root ih

theorem lists_visits (settings : ScanSettings) (sees : Disk → Prop) {disk : Disk}
    (hsees : sees disk)
    (manifest : Path) (roots : List Path) :
    Lists settings sees manifest roots (visits settings disk manifest roots) :=
  .intro hsees (listsRoots_flatMap settings hsees roots)

section

variable {leads finds : Path → Prop} {chunk chunk' : List Path}

/-- Two lists begin alike if they hold the same path that leads there, and it only. -/
theorem firstTo_iff_of_mem (finds : Path → Prop)
    (hmem : ∀ path, path ∈ chunk ∧ leads path ↔ finds path)
    (hmem' : ∀ path, path ∈ chunk' ∧ leads path ↔ finds path)
    (hunique : ∀ path other, finds path → finds other → path = other) (path : Path) :
    FirstTo leads chunk path ↔ FirstTo leads chunk' path := by
  have hone : ∀ {list : List Path}, (∀ path, path ∈ list ∧ leads path ↔ finds path) →
      (FirstTo leads list path ↔ finds path) := by
    intro list hlist
    rw [FirstTo.iff_of_unique fun path hpath other hother hleads hleads' =>
      hunique path other ((hlist path).mp ⟨hpath, hleads⟩) ((hlist other).mp ⟨hother, hleads'⟩)]
    exact hlist path
  rw [hone hmem, hone hmem']

theorem forall_not_leads_iff :
    (∀ other ∈ chunk, ¬ leads other) ↔ ∀ path, ¬ FirstTo leads chunk path := by
  refine ⟨fun h path hfirst => h path hfirst.mem.1 hfirst.mem.2, fun h other hother hleads => ?_⟩
  obtain ⟨first, hfirst⟩ := FirstTo.exists_of_mem hother hleads
  exact h first hfirst

theorem FirstTo.append_congr {back back' : List Path}
    (hfront : ∀ path, FirstTo leads chunk path ↔ FirstTo leads chunk' path)
    (hback : ∀ path, FirstTo leads back path ↔ FirstTo leads back' path) (path : Path) :
    FirstTo leads (chunk ++ back) path ↔ FirstTo leads (chunk' ++ back') path := by
  rw [append_iff, append_iff, forall_not_leads_iff, forall_not_leads_iff, hfront, hback]
  simp only [hfront]

end

section

variable {settings : ScanSettings} {sees sees' : Disk → Prop} {manifest goal path : Path}
  {roots visited visited' : List Path} {base more : Disk}

/-- The disk lies between two others, and a file lies there. -/
structure Shows (base more : Disk) (place : Place) (disk : Disk) : Prop where
  first : Extends base disk
  last : Extends disk more
  lies : ∃ content, disk.get? place = some (.file content)

theorem ListsRoots.firstTo_iff (hlists : ListsRoots settings sees roots visited)
    (hlists' : ListsRoots settings sees' roots visited')
    (habsolute : ∀ root ∈ roots, root.isAbsolute = true)
    (hknown : ∀ root ∈ roots, ∃ goal, base.Locates root goal)
    (hsees : ∀ disk, sees disk → Shows base more goal.place disk)
    (hsees' : ∀ disk, sees' disk → Shows base more goal.place disk) (path : Path) :
    FirstTo (more.Locates · goal) visited path ↔ FirstTo (more.Locates · goal) visited' path := by
  induction hlists generalizing visited' path with
  | nil =>
      cases hlists'
      exact Iff.rfl
  | @cons disk hdisk root roots visited hrest ih =>
      cases hlists' with
      | @cons disk' hdisk' _ _ visited' hrest' =>
      obtain ⟨habsolute, habsolutes⟩ := List.forall_mem_cons.mp habsolute
      obtain ⟨⟨reached, hreached⟩, hknown⟩ := List.forall_mem_cons.mp hknown
      refine FirstTo.append_congr ?_ (ih hrest' habsolutes hknown) path
      have hmem : ∀ {disk : Disk}, Shows base more goal.place disk → ∀ path,
          path ∈ filesOn settings disk root ∧ more.Locates path goal ↔
            IsLookedUp root ∧ Finds settings root reached path goal := by
        intro disk hshows path
        rw [mem_filesOn_iff habsolute (hreached.mono hshows.first) hshows.last]
        exact ⟨fun h => ⟨h.1, h.2.1⟩, fun h => ⟨h.1, h.2, hshows.lies⟩⟩
      exact firstTo_iff_of_mem _ (hmem (hsees _ hdisk)) (hmem (hsees' _ hdisk'))
        fun path other h h' => h.2.unique h'.2

/-- Whatever disks a scan looks at, it comes to a file by the same path first if the file is there
on all of them. -/
theorem Lists.firstTo_iff (hlists : Lists settings sees manifest roots visited)
    (hlists' : Lists settings sees' manifest roots visited') (hknown : Known base manifest roots)
    (hsees : ∀ disk, sees disk → Shows base more goal.place disk)
    (hsees' : ∀ disk, sees' disk → Shows base more goal.place disk) (path : Path) :
    FirstTo (more.Locates · goal) visited path ↔ FirstTo (more.Locates · goal) visited' path := by
  obtain ⟨hdisk, hrest⟩ := hlists
  obtain ⟨hdisk', hrest'⟩ := hlists'
  obtain ⟨reached, hreached⟩ := hknown.manifest
  refine FirstTo.append_congr ?_
    (hrest.firstTo_iff hrest' hknown.isAbsolute_roots hknown.roots hsees
    hsees') path
  have hmem : ∀ {disk : Disk}, Shows base more goal.place disk → ∀ path,
      path ∈ manifestOn disk manifest ∧ more.Locates path goal ↔
        IsLookedUp manifest ∧ path = manifest ∧ goal = reached := by
    intro disk hshows path
    rw [mem_manifestOn_iff hknown.isAbsolute_manifest (hreached.mono hshows.first) hshows.last]
    exact ⟨fun h => ⟨h.1, h.2.1⟩, fun h => ⟨h.1, h.2, hshows.lies⟩⟩
  exact firstTo_iff_of_mem _ (hmem (hsees _ hdisk)) (hmem (hsees' _ hdisk'))
    fun path other h h' => h.2.1.trans h'.2.1.symm

end

/-! ## Where visited paths lead -/

section

variable {settings : ScanSettings} {sees : Disk → Prop} {manifest goal path : Path}
  {roots visited : List Path} {base disk more : Disk}

theorem mem_visits : path ∈ visits settings disk manifest roots ↔
    path ∈ manifestOn disk manifest ∨ ∃ root ∈ roots, path ∈ filesOn settings disk root := by
  rw [visits, List.mem_append, List.mem_flatMap]

/-- Every visited path is visited on one of the disks. -/
theorem Lists.exists_mem_visits (hlists : Lists settings sees manifest roots visited)
    (hmem : path ∈ visited) : ∃ disk, sees disk ∧ path ∈ visits settings disk manifest roots := by
  obtain ⟨hdisk, hrest⟩ := hlists
  rcases List.mem_append.mp hmem with hmem | hrests
  · exact ⟨_, hdisk, mem_visits.mpr (.inl hmem)⟩
  · clear hmem hdisk
    induction hrest with
    | nil => cases hrests
    | @cons disk hdisk root roots visited _ ih =>
        rcases List.mem_append.mp hrests with hmem | hlater
        · exact ⟨disk, hdisk, mem_visits.mpr (.inr ⟨root, List.mem_cons_self, hmem⟩)⟩
        · obtain ⟨found, hfound, hvisits⟩ := ih hlater
          refine ⟨found, hfound, mem_visits.mpr ((mem_visits.mp hvisits).imp_right ?_)⟩
          rintro ⟨root', hroot', hmem⟩
          exact ⟨root', List.mem_cons_of_mem _ hroot', hmem⟩

/-- A visited path leads to a file. -/
theorem locates_of_mem_visits (hmanifest : manifest.isAbsolute = true)
    (hroots : ∀ root ∈ roots, root.isAbsolute = true)
    (hmem : path ∈ visits settings disk manifest roots) : path.isAbsolute = true
      ∧ ∃ goal content, disk.Locates path goal ∧ disk.get? goal.place = some (.file content) := by
  rcases mem_visits.mp hmem with hmem | ⟨root, hroot, hmem⟩
  · rw [manifestOn] at hmem
    split at hmem
    · rename_i hfile
      obtain rfl := List.mem_singleton.mp hmem
      exact ⟨hmanifest, (locates_of_isFile hmanifest hfile).2⟩
    · cases hmem
  · obtain ⟨reached, goal, content, -, hgoal, -, hfinds, hlies⟩ :=
      finds_of_mem_filesOn (hroots root hroot) hmem
    exact ⟨isAbsolute_of_finds (hroots root hroot) hfinds, goal, content, hgoal, hlies⟩

/-- A visited path leads to its file on every disk on which the file is there. -/
theorem locates_of_visits (hknown : Known base manifest roots) (hmore : Extends base more)
    (hmem : path ∈ visits settings more manifest roots) (hpath : more.Locates path goal)
    (hdisk : Extends base disk) {content : Bytes}
    (hlies : disk.get? goal.place = some (.file content)) :
    disk.Locates path goal := by
  rcases mem_visits.mp hmem with hmem | ⟨root, hroot, hmem⟩
  · obtain ⟨reached, hreached⟩ := hknown.manifest
    obtain ⟨-, ⟨rfl, rfl⟩, -⟩ :=
      (mem_manifestOn_iff hknown.isAbsolute_manifest (hreached.mono hmore)
      (.refl more)).mp ⟨hmem, hpath⟩
    exact hreached.mono hdisk
  · obtain ⟨reached, hreached⟩ := hknown.roots root hroot
    obtain ⟨-, hfinds, -⟩ := (mem_filesOn_iff (hknown.isAbsolute_roots root hroot)
      (hreached.mono hmore) (.refl more)).mp ⟨hmem, hpath⟩
    rcases hfinds with ⟨rfl, rfl⟩ | ⟨way, name, -, hlisted, rfl, rfl⟩
    · exact hreached.mono hdisk
    · rw [Disk.place_descend _ hlisted] at hlies
      exact (hreached.mono hdisk).descend_of_get? hlies rfl

end

section

variable {settings : ScanSettings} {manifest goal path : Path} {roots : List Path}
  {disk more : Disk}

/-- A visited path is visited as long as its file is there. -/
theorem mem_visits_mono (hknown : Known disk manifest roots) (hstays : Extends disk more)
    (hmem : path ∈ visits settings disk manifest roots) (hpath : disk.Locates path goal)
    {content : Bytes} (hlies : more.get? goal.place = some (.file content)) :
    path ∈ visits settings more manifest roots := by
  rcases mem_visits.mp hmem with hmem | ⟨root, hroot, hmem⟩
  · obtain ⟨reached, hreached⟩ := hknown.manifest
    obtain ⟨hlooked, hgoal, -⟩ := (mem_manifestOn_iff hknown.isAbsolute_manifest hreached
      (.refl disk)).mp ⟨hmem, hpath⟩
    exact mem_visits.mpr
      (.inl ((mem_manifestOn_iff hknown.isAbsolute_manifest (hreached.mono hstays)
      (.refl more)).mpr ⟨hlooked, hgoal, content, hlies⟩).1)
  · obtain ⟨reached, hreached⟩ := hknown.roots root hroot
    have habsolute := hknown.isAbsolute_roots root hroot
    obtain ⟨hlooked, hfinds, -⟩ :=
      (mem_filesOn_iff habsolute hreached (.refl disk)).mp ⟨hmem, hpath⟩
    exact mem_visits.mpr (.inr ⟨root, hroot, ((mem_filesOn_iff habsolute (hreached.mono hstays)
      (.refl more)).mpr ⟨hlooked, hfinds, content, hlies⟩).1⟩)

end

/-- A scan visits a file at the place by a path of a dialect. -/
def Reaches (settings : ScanSettings) (disk : Disk) (manifest : Path) (roots : List Path)
    (place : Place) : Prop :=
  ∃ path ∈ visits settings disk manifest roots, ∃ goal, disk.Locates path goal ∧ goal.place = place
    ∧ (dialectOf? settings path).isSome = true

end ResourcePruner.Usage
